-- SUMMARY: `Array.prototype.splice` and `slice` on lists, and taking the element at an index out.
import Mathlib.Data.List.Nodup
import Mathlib.Data.List.Perm.Basic

namespace List

variable {α : Type*}

/-- `xs.splice(start, deleteCount, ...inserted)`, the list it leaves behind. -/
def splice (xs : List α) (start deleteCount : Nat) (inserted : List α) : List α :=
  xs.take start ++ inserted ++ xs.drop (start + deleteCount)

/-- `xs.slice(start, start + count)`, which is also what a splice removes. -/
def slice (xs : List α) (start count : Nat) : List α :=
  (xs.drop start).take count

/-- A list is what stands before a slice, the slice, and what stands after it. -/
theorem take_slice_drop (xs : List α) (start count : Nat) :
    xs.take start ++ xs.slice start count ++ xs.drop (start + count) = xs := by
  rw [slice, append_assoc, ← drop_drop, take_append_drop, take_append_drop]

theorem mem_of_mem_slice {xs : List α} {start count : Nat} {x : α}
    (h : x ∈ xs.slice start count) : x ∈ xs :=
  mem_of_mem_drop (mem_of_mem_take h)

theorem mem_splice {xs inserted : List α} {start deleteCount : Nat} {x : α}
    (h : x ∈ xs.splice start deleteCount inserted) : x ∈ xs ∨ x ∈ inserted := by
  simp only [splice, mem_append] at h
  rcases h with (h | h) | h
  · exact .inl (mem_of_mem_take h)
  · exact .inr h
  · exact .inl (mem_of_mem_drop h)

/-- A splice moves the removed slice out and the inserted list in, nothing else. -/
theorem splice_perm (xs inserted : List α) (start deleteCount : Nat) :
    xs.slice start deleteCount ++ xs.splice start deleteCount inserted ~ inserted ++ xs := by
  have hxs : inserted ++ xs =
      inserted ++ (xs.take start ++ xs.slice start deleteCount ++ xs.drop (start + deleteCount)) := by
    rw [take_slice_drop]
  rw [hxs, splice]
  simp only [← append_assoc]
  refine Perm.append_right _ ?_
  calc xs.slice start deleteCount ++ xs.take start ++ inserted
      ~ inserted ++ (xs.slice start deleteCount ++ xs.take start) := perm_append_comm
    _ ~ inserted ++ (xs.take start ++ xs.slice start deleteCount) :=
        perm_append_comm.append_left _
    _ = inserted ++ xs.take start ++ xs.slice start deleteCount := (append_assoc ..).symm

/-- The position of one of distinct elements. -/
theorem idxOf?_of_getElem? [BEq α] [LawfulBEq α] {xs : List α} (hnodup : xs.Nodup) {x : α} {i : Nat}
    (h : xs[i]? = some x) : xs.idxOf? x = some i := by
  obtain ⟨hlt, hget⟩ := List.getElem?_eq_some_iff.mp h
  apply List.idxOf?_eq_some_iff.mpr
  refine ⟨hlt, hget, fun j hj hsame => ?_⟩
  have := (List.Nodup.getElem_inj_iff hnodup).mp (hsame.trans hget.symm)
  omega

end List

/-!
# One element taken out

A list whose order matters to nobody loses the element at an index, as a set of waiting
jobs does when one of them runs.
-/

namespace Erase

theorem perm_of_getElem? {α : Type} {xs : List α} {i : Nat} {x : α} (h : xs[i]? = some x) :
    xs.Perm (x :: xs.eraseIdx i) := by
  obtain ⟨hi, rfl⟩ := List.getElem?_eq_some_iff.mp h
  exact (List.getElem_cons_eraseIdx_perm hi).symm

theorem filterMap_eraseIdx {α β : Type} {f : α → Option β} {xs : List α} {i : Nat} {x : α}
    (h : xs[i]? = some x) (hf : f x = none) : (xs.eraseIdx i).filterMap f = xs.filterMap f := by
  induction xs generalizing i with
  | nil => cases h
  | cons y ys ih =>
    cases i with
    | zero =>
      cases h
      simp [hf]
    | succ i => simp [List.filterMap_cons, ih h]

theorem filterMap_erased {α β : Type} {f : α → Option β} {xs : List α} {i : Nat} {x : α} {y : β}
    (h : xs[i]? = some x) (hf : f x = some y) (hone : (xs.filterMap f).length ≤ 1) :
    xs.filterMap f = [y] ∧ (xs.eraseIdx i).filterMap f = [] := by
  have hperm := (perm_of_getElem? h).filterMap f
  rw [List.filterMap_cons_some hf] at hperm
  have hlength := hperm.length_eq
  rw [List.length_cons] at hlength
  have hnil : (xs.eraseIdx i).filterMap f = [] := List.eq_nil_of_length_eq_zero (by omega)
  rw [hnil] at hperm
  exact ⟨List.perm_singleton.mp hperm, hnil⟩

end Erase
