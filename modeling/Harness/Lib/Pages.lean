-- SUMMARY: Splitting a list into pages, each within a count and a size.
import Mathlib.Algebra.Order.Ring.Nat

/-!
# Pages

A page takes items as long as they fit. The first item of a page is taken whatever its size.
-/

namespace Pages

open List

variable {α : Type*} (weight : α → Nat) (maxCount maxSize : Nat)

/-- The pages of what is left, with the page that is being filled and its size. -/
def splitFrom (cur : List α) (size : Nat) : List α → List (List α)
  | [] => if cur = [] then [] else [cur]
  | x :: xs =>
    if cur ≠ [] ∧ (maxCount ≤ cur.length ∨ maxSize < size + weight x) then
      cur :: splitFrom [x] (weight x) xs
    else splitFrom (cur ++ [x]) (size + weight x) xs

def split (xs : List α) : List (List α) := splitFrom weight maxCount maxSize [] 0 xs

/-- A page within its limits, or of one item. -/
structure Fits (page : List α) : Prop where
  nonempty : page ≠ []
  count : page.length ≤ maxCount
  size : (page.map weight).sum ≤ maxSize ∨ page.length = 1

variable {weight maxCount maxSize}

theorem flatten_splitFrom (cur : List α) (size : Nat) (xs : List α) :
    (splitFrom weight maxCount maxSize cur size xs).flatten = cur ++ xs := by
  induction xs generalizing cur size with
  | nil =>
    rw [splitFrom]
    split
    · rename_i hempty
      rw [hempty]
      rfl
    · simp
  | cons x xs ih =>
    rw [splitFrom]
    split
    · rw [flatten_cons, ih, singleton_append]
    · rw [ih, append_assoc, singleton_append]

/-- The pages hold every item once, in order. -/
@[simp] theorem flatten_split (xs : List α) : (split weight maxCount maxSize xs).flatten = xs :=
  flatten_splitFrom [] 0 xs

theorem fits_of_mem_splitFrom (hcount : 0 < maxCount) {cur : List α}
    (hcur : cur = [] ∨ Fits weight maxCount maxSize cur) (xs : List α) {page : List α}
    (hpage : page ∈ splitFrom weight maxCount maxSize cur (cur.map weight).sum xs) :
    Fits weight maxCount maxSize page := by
  induction xs generalizing cur with
  | nil =>
    rw [splitFrom] at hpage
    split at hpage
    · cases hpage
    rename_i hne
    rw [mem_singleton.mp hpage]
    exact hcur.resolve_left hne
  | cons x xs ih =>
    have hone : Fits weight maxCount maxSize [x] := ⟨cons_ne_nil _ _, hcount, .inr rfl⟩
    rw [splitFrom] at hpage
    split at hpage
    · rename_i hfull
      rcases mem_cons.mp hpage with heq | hpage
      · rw [heq]
        exact hcur.resolve_left hfull.1
      · exact ih (.inr hone) (by simpa using hpage)
    rename_i hroom
    have hnext : Fits weight maxCount maxSize (cur ++ [x]) := by
      rcases hcur with rfl | hfits
      · exact hone
      have hroom := not_or.mp fun h => hroom ⟨hfits.nonempty, h⟩
      refine ⟨by simp, ?_, .inl ?_⟩
      · rw [length_append]
        exact Nat.lt_of_not_le hroom.1
      · rw [map_append, sum_append, map_singleton, sum_singleton]
        exact Nat.le_of_not_lt hroom.2
    refine ih (.inr hnext) ?_
    rwa [map_append, sum_append, map_singleton, sum_singleton]

theorem fits_of_mem_split (hcount : 0 < maxCount) {xs page : List α}
    (hpage : page ∈ split weight maxCount maxSize xs) : Fits weight maxCount maxSize page :=
  fits_of_mem_splitFrom hcount (.inl rfl) xs hpage

end Pages
