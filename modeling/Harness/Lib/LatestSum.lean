-- SUMMARY: The sum of each key's latest value over a log, and how one more entry moves it.
import Mathlib.Algebra.BigOperators.Group.Finset.Basic
import Mathlib.Tactic.Abel

/-!
# Sums of latest values

A log holds keyed values, and only the last value of a key counts. One more entry takes
the key's former value out of the sum and puts its own in. Where the entries of a key are
adjacent, the former value is found at the end of the log or not at all.
-/

namespace LatestSum

variable {κ V G : Type}

/-! ## Adjacent entries -/

/-- Between two entries of one key stand only entries of that key. -/
def Adjacent (log : List (κ × V)) : Prop :=
  ∀ a b c, [a, b, c].Sublist log → a.1 = c.1 → b.1 = c.1

variable {log : List (κ × V)}

theorem Adjacent.of_concat {entry : κ × V} (h : Adjacent (log ++ [entry])) : Adjacent log := by
  intro a b c hsub
  exact h a b c (hsub.trans (List.sublist_append_left log [entry]))

variable [DecidableEq κ] [AddCommGroup G]

/-! ## Latest values -/

/-- The value of `key`'s last entry. -/
def latest (log : List (κ × V)) (key : κ) : Option V :=
  (log.reverse.find? (·.1 == key)).map (·.2)

@[simp] theorem latest_nil (key : κ) : latest ([] : List (κ × V)) key = none := rfl

theorem latest_concat (log : List (κ × V)) (entry : κ × V) (key : κ) :
    latest (log ++ [entry]) key = if entry.1 = key then some entry.2 else latest log key := by
  by_cases h : entry.1 = key <;> simp [latest, h]

variable {key : κ}

theorem latest_eq_none : latest log key = none ↔ ∀ entry ∈ log, entry.1 ≠ key := by
  simp [latest]

theorem latest_mem {value : V} (h : latest log key = some value) : (key, value) ∈ log := by
  obtain ⟨entry, hfind, rfl⟩ := Option.map_eq_some_iff.1 h
  have hkey : entry.1 = key := by simpa using List.find?_some hfind
  subst hkey
  simpa using List.mem_of_find?_eq_some hfind

/-! ## The sum -/

def keys (log : List (κ × V)) : Finset κ := (log.map (·.1)).toFinset

theorem mem_keys : key ∈ keys log ↔ ∃ entry ∈ log, entry.1 = key := by
  simp [keys]

theorem keys_concat (log : List (κ × V)) (entry : κ × V) :
    keys (log ++ [entry]) = insert entry.1 (keys log) := by
  ext key
  simp [keys, eq_comm]

/-- The sum, over the distinct keys, of what each key's latest value is worth. -/
def total (worth : V → G) (log : List (κ × V)) : G :=
  ∑ key ∈ keys log, (latest log key).elim 0 worth

@[simp] theorem total_nil (worth : V → G) : total worth ([] : List (κ × V)) = 0 := rfl

/-- The sum depends on what the logged values are worth, and on nothing else. -/
theorem total_congr {worth worth' : V → G}
    (h : ∀ entry ∈ log, worth entry.2 = worth' entry.2) : total worth log = total worth' log := by
  apply Finset.sum_congr rfl
  intro key _
  cases hlatest : latest log key with
  | none => rfl
  | some value => exact h _ (latest_mem hlatest)

/-- An entry replaces the former value of its key. -/
theorem total_concat (worth : V → G) (log : List (κ × V)) (entry : κ × V) :
    total worth (log ++ [entry])
      = total worth log - (latest log entry.1).elim 0 worth + worth entry.2 := by
  have hothers : ∑ key ∈ (keys log).erase entry.1, (latest (log ++ [entry]) key).elim 0 worth
      = ∑ key ∈ (keys log).erase entry.1, (latest log key).elim 0 worth := by
    apply Finset.sum_congr rfl
    intro key hkey
    rw [latest_concat, if_neg (Finset.ne_of_mem_erase hkey).symm]
  have hnew : total worth (log ++ [entry])
      = worth entry.2 + ∑ key ∈ (keys log).erase entry.1, (latest log key).elim 0 worth := by
    rw [total, keys_concat, ← Finset.add_sum_erase _ _ (Finset.mem_insert_self _ _),
      Finset.erase_insert_eq_erase, hothers, latest_concat, if_pos rfl]
    rfl
  rw [hnew]
  by_cases hmem : entry.1 ∈ keys log
  · rw [total, ← Finset.add_sum_erase _ _ hmem]
    abel
  have hnone : latest log entry.1 = none := by
    rw [latest_eq_none]
    intro former hformer heq
    exact hmem (mem_keys.2 ⟨former, hformer, heq⟩)
  rw [Finset.erase_eq_of_notMem hmem, hnone, total]
  simp [add_comm]

/-! ## Adjacent logs -/

/-- The former value of the key that is reported next stands at the end of the log. -/
theorem Adjacent.latest_eq {entry : κ × V} (h : Adjacent (log ++ [entry])) :
    latest log entry.1 = (log.getLast?.filter fun former => decide (former.1 = entry.1)).map (·.2) := by
  induction log using List.reverseRecOn with
  | nil => rfl
  | append_singleton log last =>
    by_cases hlast : last.1 = entry.1
    · rw [latest_concat, if_pos hlast]
      simp [Prod.ext_iff, hlast]
    have hnone : latest (log ++ [last]) entry.1 = none := by
      rw [latest_concat, if_neg hlast, latest_eq_none]
      intro former hformer heq
      -- An earlier entry of the key would put `last` between two entries of it.
      apply hlast
      apply h former last entry _ heq
      have hbefore : [former].Sublist log := List.singleton_sublist.2 hformer
      simpa using (hbefore.append (List.Sublist.refl [last])).append (List.Sublist.refl [entry])
    simp [hnone, hlast]

end LatestSum
