-- SUMMARY: Logs whose every entry fits what was in the log before it.
import Mathlib.Data.List.Basic

/-!
# Chronicles

A chronicle is a list of entries with the newest first. What each kind of entry promises about
the entries before it is one predicate, and a chronicle is lawful when every entry keeps it.
-/

namespace Chronicle

variable {Entry Key : Type*} {Fits : Entry → List Entry → Prop} {log more : List Entry}
  {entry : Entry}

/-- Every entry fits the entries before it. -/
def Lawful (Fits : Entry → List Entry → Prop) : List Entry → Prop
  | [] => True
  | entry :: before => Fits entry before ∧ Lawful Fits before

@[simp] theorem lawful_nil : Lawful Fits [] := trivial

@[simp] theorem lawful_cons :
    Lawful Fits (entry :: log) ↔ Fits entry log ∧ Lawful Fits log := Iff.rfl

theorem Lawful.of_append (h : Lawful Fits (more ++ log)) : Lawful Fits log := by
  induction more with
  | nil => exact h
  | cons entry more ih => exact ih h.2

/-- Every entry of a lawful chronicle fits what came before it. -/
theorem Lawful.fits (h : Lawful Fits log) (hmem : entry ∈ log) :
    ∃ after before, log = after ++ entry :: before ∧ Fits entry before := by
  obtain ⟨after, before, rfl⟩ := List.append_of_mem hmem
  exact ⟨after, before, rfl, h.of_append.1⟩

/-- Entries with a key that no earlier entry has are all different. -/
theorem Lawful.nodup_filterMap {key : Entry → Option Key}
    (hfresh : ∀ entry before k, Fits entry before → key entry = some k →
      ∀ earlier ∈ before, key earlier ≠ some k)
    (h : Lawful Fits log) : (log.filterMap key).Nodup := by
  induction log with
  | nil => exact List.nodup_nil
  | cons entry before ih =>
    have hbefore := ih h.2
    cases hkey : key entry with
    | none => rwa [List.filterMap_cons_none hkey]
    | some k =>
      rw [List.filterMap_cons_some hkey]
      refine List.nodup_cons.mpr ⟨fun hmem => ?_, hbefore⟩
      obtain ⟨earlier, hearlier, hsame⟩ := List.mem_filterMap.mp hmem
      exact hfresh entry before k h.1 hkey earlier hearlier hsame

end Chronicle
