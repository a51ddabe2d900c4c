-- SUMMARY: Records in a list, reached by their position and changed one at a time.
import Mathlib.Data.List.Basic

/-!
# Heaps of records

A list holds every record ever made, and a position in it is a reference. What follows is what
one change does to the others.
-/

namespace Heap

open List

variable {α β : Type*} {l : List α} {i j : Nat} {a b : α} {f : α → α}

/-- A reference that holds a record. -/
theorem lt_of_get (h : l[i]? = some a) : i < l.length := (List.getElem?_eq_some_iff.mp h).1

theorem exists_of_lt (h : i < l.length) : ∃ a, l[i]? = some a := ⟨_, getElem?_eq_getElem h⟩

theorem set_cases (h : (l.set i a)[j]? = some b) : (j = i ∧ b = a) ∨ (j ≠ i ∧ l[j]? = some b) := by
  rw [getElem?_set] at h
  split at h
  · rename_i heq
    split at h
    · exact .inl ⟨heq.symm, (Option.some.inj h).symm⟩
    · cases h
  · rename_i hne
    exact .inr ⟨fun heq => hne heq.symm, h⟩

theorem modify_cases (h : (l.modify i f)[j]? = some b) :
    (j = i ∧ ∃ a, l[i]? = some a ∧ b = f a) ∨ (j ≠ i ∧ l[j]? = some b) := by
  by_cases heq : j = i
  · subst heq
    rw [getElem?_modify_eq] at h
    obtain ⟨a, ha, rfl⟩ := Option.map_eq_some_iff.mp h
    exact .inl ⟨rfl, a, ha, rfl⟩
  · rw [getElem?_modify_ne _ _ (fun h => heq h.symm)] at h
    exact .inr ⟨heq, h⟩

/-- What a fresh record and the old ones are found under. -/
theorem append_cases (h : (l ++ [a])[j]? = some b) :
    (j = l.length ∧ b = a) ∨ (j < l.length ∧ l[j]? = some b) := by
  rcases Nat.lt_trichotomy j l.length with hlt | rfl | hgt
  · rw [getElem?_append_left hlt] at h
    exact .inr ⟨hlt, h⟩
  · rw [getElem?_concat_length] at h
    exact .inl ⟨rfl, (Option.some.inj h).symm⟩
  · rw [getElem?_eq_none (by rw [length_append]; exact hgt)] at h
    cases h

theorem modify_eq_set (h : l[i]? = some a) : l.modify i f = l.set i (f a) := by
  apply ext_getElem?
  intro j
  have hlt : i < l.length := lt_of_get h
  rw [getElem?_modify, getElem?_set]
  by_cases heq : i = j
  · subst heq
    rw [h]
    simp [hlt]
  · simp [heq]

theorem set_same (h : l[i]? = some a) : l.set i a = l := by
  obtain ⟨hlt, rfl⟩ := List.getElem?_eq_some_iff.mp h
  exact set_getElem_self hlt

/-- A change that `g` does not see. -/
theorem map_modify {g : α → β} (hf : ∀ a, g (f a) = g a) : (l.modify i f).map g = l.map g := by
  apply ext_getElem?
  intro j
  rw [getElem?_map, getElem?_map, getElem?_modify]
  cases l[j]? with
  | none => rfl
  | some a =>
    by_cases heq : i = j
    · simp [heq, hf]
    · simp [heq]

end Heap
