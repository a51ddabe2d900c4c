-- SUMMARY: The leftmost occurrences of a needle that do not overlap: splitting at them, counting them, and the relation both compute.
import Mathlib.Data.List.Infix

/-!
# Occurrences of a needle

A scan from the left takes each match it meets and goes on behind it. The needle is not empty.
-/

namespace Occurrences

open List

variable {α : Type*}

/-! ## The scan -/

section Scan

variable [DecidableEq α]

/-- The pieces between the matches; the first `skip` elements belong to a match. -/
def splitFrom (needle : List α) : Nat → List α → List (List α)
  | _, [] => [[]]
  | skip + 1, _ :: xs => splitFrom needle skip xs
  | 0, x :: xs =>
    if needle <+: x :: xs then [] :: splitFrom needle (needle.length - 1) xs
    else (splitFrom needle 0 xs).modifyHead (x :: ·)

def split (needle xs : List α) : List (List α) := splitFrom needle 0 xs

/-- The number of matches; the first `skip` elements belong to one that is counted. -/
def countFrom (needle : List α) : Nat → List α → Nat
  | _, [] => 0
  | skip + 1, _ :: xs => countFrom needle skip xs
  | 0, x :: xs =>
    if needle <+: x :: xs then countFrom needle (needle.length - 1) xs + 1
    else countFrom needle 0 xs

def count (needle xs : List α) : Nat := countFrom needle 0 xs

end Scan

/-! ## What the scan finds -/

/-- `pieces` is what stands between the leftmost matches in `xs` that do not overlap. -/
inductive Leftmost (needle : List α) : List α → List (List α) → Prop where
  | rest {xs} : ¬ needle <:+: xs → Leftmost needle xs [xs]
  | next {before after pieces} :
      (∀ k < before.length, ¬ needle <+: (before ++ (needle ++ after)).drop k) →
      Leftmost needle after pieces →
      Leftmost needle (before ++ (needle ++ after)) (before :: pieces)

variable {needle : List α}

section Scan

variable [DecidableEq α]

theorem splitFrom_eq (skip : Nat) (xs : List α) :
    splitFrom needle skip xs = split needle (xs.drop skip) := by
  induction xs generalizing skip with
  | nil => cases skip <;> rfl
  | cons x xs ih =>
    cases skip with
    | zero => rfl
    | succ skip => exact ih skip

theorem countFrom_eq (skip : Nat) (xs : List α) :
    countFrom needle skip xs = count needle (xs.drop skip) := by
  induction xs generalizing skip with
  | nil => cases skip <;> rfl
  | cons x xs ih =>
    cases skip with
    | zero => rfl
    | succ skip => exact ih skip

theorem split_match (hne : needle ≠ []) (xs : List α) :
    split needle (needle ++ xs) = [] :: split needle xs := by
  obtain ⟨a, rest, rfl⟩ := exists_cons_of_ne_nil hne
  have hmatch : a :: rest <+: a :: (rest ++ xs) := prefix_append (a :: rest) xs
  rw [split, cons_append, splitFrom, if_pos hmatch, splitFrom_eq, length_cons,
    Nat.add_sub_cancel, drop_left]

theorem split_other {x : α} {xs : List α} (h : ¬ needle <+: x :: xs) :
    split needle (x :: xs) = (split needle xs).modifyHead (x :: ·) := by
  rw [split, splitFrom, if_neg h]
  rfl

theorem count_match (hne : needle ≠ []) (xs : List α) :
    count needle (needle ++ xs) = count needle xs + 1 := by
  obtain ⟨a, rest, rfl⟩ := exists_cons_of_ne_nil hne
  have hmatch : a :: rest <+: a :: (rest ++ xs) := prefix_append (a :: rest) xs
  rw [count, cons_append, countFrom, if_pos hmatch, countFrom_eq, length_cons,
    Nat.add_sub_cancel, drop_left]

theorem count_other {x : α} {xs : List α} (h : ¬ needle <+: x :: xs) :
    count needle (x :: xs) = count needle xs := by
  rw [count, countFrom, if_neg h]
  rfl

end Scan

variable {pieces : List (List α)} {xs : List α}

theorem Leftmost.cons {x : α} (h : ¬ needle <+: x :: xs) (hrest : Leftmost needle xs pieces) :
    Leftmost needle (x :: xs) (pieces.modifyHead (x :: ·)) := by
  cases hrest with
  | rest hnot =>
    apply Leftmost.rest
    rw [List.infix_cons_iff]
    exact fun hor => hor.elim h hnot
  | @next before after pieces hfirst hrest =>
    apply @Leftmost.next _ _ (x :: before) _ _ _ hrest
    intro k hk
    cases k with
    | zero => exact h
    | succ k => exact hfirst k (Nat.lt_of_succ_lt_succ hk)

theorem leftmost_split [DecidableEq α] (hne : needle ≠ []) (xs : List α) :
    Leftmost needle xs (split needle xs) := by
  induction hlength : xs.length using Nat.strongRecOn generalizing xs with
  | _ length ih =>
    cases xs with
    | nil =>
      apply Leftmost.rest
      rwa [infix_nil]
    | cons x xs =>
      by_cases hmatch : needle <+: x :: xs
      · obtain ⟨after, hafter⟩ := hmatch
        rw [← hafter, split_match hne]
        have hless : after.length < length := by
          have hpos := length_pos_iff.mpr hne
          have := congrArg List.length hafter
          rw [length_append] at this
          omega
        exact @Leftmost.next _ _ [] _ _ (fun k hk => absurd hk (Nat.not_lt_zero k))
          (ih _ hless after rfl)
      · rw [split_other hmatch]
        exact (ih xs.length (hlength ▸ Nat.lt_succ_self _) xs rfl).cons hmatch

theorem infix_next (before after : List α) : needle <:+: before ++ (needle ++ after) :=
  ⟨before, after, append_assoc _ _ _⟩

/-- There is one way to take the leftmost matches. -/
theorem Leftmost.unique {pieces pieces' : List (List α)}
    (h : Leftmost needle xs pieces) (h' : Leftmost needle xs pieces') : pieces = pieces' := by
  induction h generalizing pieces' with
  | @rest xs hnot =>
    generalize hxs : xs = ys at h'
    cases h' with
    | rest => rfl
    | next => exact absurd (hxs ▸ infix_next _ _) hnot
  | @next before after pieces hfirst hrest ih =>
    generalize hxs : before ++ (needle ++ after) = ys at h'
    cases h' with
    | rest hnot => exact absurd (hxs ▸ infix_next _ _) hnot
    | @next before' after' pieces' hfirst' hrest' =>
      -- neither match comes before the other
      have hle : before'.length ≤ before.length := by
        by_contra hlt
        apply hfirst' before.length (by omega)
        rw [← hxs, drop_left]
        exact prefix_append _ _
      have hge : before.length ≤ before'.length := by
        by_contra hlt
        apply hfirst before'.length (by omega)
        rw [hxs, drop_left]
        exact prefix_append _ _
      obtain ⟨rfl, hafter⟩ := append_inj hxs (by omega)
      rw [append_cancel_left hafter] at ih
      rw [ih hrest']

theorem Leftmost.split_eq [DecidableEq α] (hne : needle ≠ [])
    (h : Leftmost needle xs pieces) : split needle xs = pieces :=
  (leftmost_split hne xs).unique h

theorem Leftmost.ne_nil (h : Leftmost needle xs pieces) : pieces ≠ [] := by
  cases h <;> exact cons_ne_nil _ _

/-- The pieces and the matches between them are the whole. -/
theorem Leftmost.intercalate (h : Leftmost needle xs pieces) : needle.intercalate pieces = xs := by
  induction h with
  | rest => simp [List.intercalate]
  | @next before after pieces _ hrest ih =>
    obtain ⟨piece, pieces, rfl⟩ := exists_cons_of_ne_nil hrest.ne_nil
    rw [← ih]
    simp [List.intercalate]

theorem length_split [DecidableEq α] (hne : needle ≠ []) (xs : List α) :
    (split needle xs).length = count needle xs + 1 := by
  induction hlength : xs.length using Nat.strongRecOn generalizing xs with
  | _ length ih =>
    cases xs with
    | nil => rfl
    | cons x xs =>
      by_cases hmatch : needle <+: x :: xs
      · obtain ⟨after, hafter⟩ := hmatch
        have hless : after.length < length := by
          have hpos := length_pos_iff.mpr hne
          have := congrArg List.length hafter
          rw [length_append] at this
          omega
        rw [← hafter, split_match hne, count_match hne, length_cons, ih _ hless after rfl]
      · rw [split_other hmatch, count_other hmatch, length_modifyHead,
          ih xs.length (hlength ▸ Nat.lt_succ_self _) xs rfl]

end Occurrences
