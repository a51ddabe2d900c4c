-- SUMMARY: Histories of numbered revisions, in which a key starts at one and is then counted up until it is given up.
import Mathlib.Data.List.Nodup
import Mathlib.Data.List.Range

/-!
# Revisions

A log of revisions of keys. Only the key that is open may be revised, by the next number and
at no earlier time; a key that was ever used cannot be opened again.
-/

namespace Revisions

open List

variable {κ τ : Type*} [LE τ]

structure Entry (κ τ : Type*) where
  key : κ
  revision : Nat
  time : τ

/-- A history, with the last entry of the key that is open. -/
inductive History : List (Entry κ τ) → Option (Entry κ τ) → Prop where
  | empty : History [] none
  | start {log : List (Entry κ τ)} {last : Option (Entry κ τ)} {key : κ} (time : τ)
      (before : History log last) (fresh : ∀ entry ∈ log, entry.key ≠ key) :
      History (log ++ [⟨key, 1, time⟩]) (some ⟨key, 1, time⟩)
  | next {log : List (Entry κ τ)} {last : Entry κ τ} {time : τ}
      (before : History log (some last)) (later : last.time ≤ time) :
      History (log ++ [⟨last.key, last.revision + 1, time⟩])
        (some ⟨last.key, last.revision + 1, time⟩)
  | close {log : List (Entry κ τ)} {last : Option (Entry κ τ)} (before : History log last) :
      History log none

variable {log : List (Entry κ τ)} {last : Option (Entry κ τ)}

/-- The revisions of one key. -/
def of [DecidableEq κ] (key : κ) (log : List (Entry κ τ)) : List (Entry κ τ) :=
  log.filter fun entry => entry.key = key

omit [LE τ] in
@[simp] theorem of_append [DecidableEq κ] (key : κ) (log log' : List (Entry κ τ)) :
    of key (log ++ log') = of key log ++ of key log' := filter_append log log'

omit [LE τ] in
@[simp] theorem of_singleton [DecidableEq κ] (key : κ) (entry : Entry κ τ) :
    of key [entry] = if entry.key = key then [entry] else [] := by
  by_cases h : entry.key = key <;> simp [of, h]

omit [LE τ] in
theorem of_eq_nil [DecidableEq κ] {key : κ} (h : ∀ entry ∈ log, entry.key ≠ key) :
    of key log = [] :=
  filter_eq_nil_iff.mpr fun entry hentry => by simpa using h entry hentry

theorem History.last_mem (h : History log last) {entry : Entry κ τ} (hlast : last = some entry) :
    entry ∈ log := by
  cases h with
  | empty => cases hlast
  | start time before fresh =>
    cases hlast
    simp
  | next before later =>
    cases hlast
    simp
  | close before => cases hlast

/-- The open key's last entry is the last of its revisions. -/
theorem History.last_of [DecidableEq κ] (h : History log last) {entry : Entry κ τ}
    (hlast : last = some entry) : (of entry.key log).getLast? = some entry := by
  cases h with
  | empty => cases hlast
  | start time before fresh =>
    cases hlast
    simp
  | next before later =>
    cases hlast
    simp
  | close before => cases hlast

theorem History.counted [DecidableEq κ] (h : History log last) (key : κ) :
    (of key log).map Entry.revision = List.range' 1 (of key log).length := by
  induction h with
  | empty => rfl
  | @start log last k time before fresh ih =>
    by_cases hk : k = key
    · subst hk
      simp [of_eq_nil fresh]
    · simpa [hk] using ih
  | @next log last time before later ih =>
    by_cases hk : last.key = key
    · subst hk
      have hrev : ((of last.key log).map Entry.revision).getLast? = some last.revision := by
        simp [before.last_of rfl]
      rw [ih] at hrev
      have hlen : last.revision = (of last.key log).length := by
        rw [getLast?_range'] at hrev
        split at hrev
        · cases hrev
        · simpa [Nat.sub_add_cancel, Nat.one_le_iff_ne_zero, *, Nat.add_comm] using hrev.symm
      simp only [of_append, of_singleton, if_true, map_append, ih, map_cons, map_nil,
        length_append, length_singleton]
      rw [range'_1_concat, hlen, Nat.add_comm 1]
    · simpa [hk] using ih
  | close before ih => exact ih

end Revisions

namespace Revisions

variable {κ τ : Type*} [Preorder τ] [DecidableEq κ] {log : List (Entry κ τ)}
  {last : Option (Entry κ τ)}

/-- The open key's last entry is its latest. -/
theorem History.le_last (h : History log last) {entry : Entry κ τ} (hlast : last = some entry) :
    ∀ earlier ∈ of entry.key log, earlier.time ≤ entry.time := by
  induction h generalizing entry with
  | empty => cases hlast
  | start time before fresh =>
    cases hlast
    simp [of_eq_nil fresh]
  | @next log last time before later ih =>
    cases hlast
    intro earlier hearlier
    simp only [of_append, of_singleton, if_true, List.mem_append, List.mem_singleton] at hearlier
    rcases hearlier with hold | rfl
    · exact (ih rfl earlier hold).trans later
    · exact le_rfl
  | close before => cases hlast

/-- The times of a key never decrease. -/
theorem History.monotone (h : History log last) (key : κ) :
    (of key log).Pairwise fun earlier later => earlier.time ≤ later.time := by
  induction h with
  | empty => exact List.Pairwise.nil
  | @start log last k time before fresh ih =>
    by_cases hk : k = key
    · subst hk
      simp [of_eq_nil fresh]
    · simpa [hk] using ih
  | @next log last time before later ih =>
    by_cases hk : last.key = key
    · subst hk
      rw [of_append, of_singleton, if_pos rfl, List.pairwise_append]
      refine ⟨ih, List.pairwise_singleton _ _, ?_⟩
      intro earlier hearlier newest hnewest
      cases List.mem_singleton.mp hnewest
      exact (before.le_last rfl earlier hearlier).trans later
    · simpa [hk] using ih
  | close before ih => exact ih

end Revisions
