-- SUMMARY: Logs whose tail may be torn: the prefix that reads, refused when a record beyond it commits.
import Mathlib.Data.List.Forall2
import Mathlib.Data.Option.Basic

/-!
# Torn logs

A log is read record by record. The first record that does not continue what was read
ends the read: the rest is a torn tail, unless one of its records commits what lies
before it.
-/

namespace TornLog

open List

/-! ## Scanning -/

section Scan

variable {ρ σ : Type*} (step : σ → ρ → Option σ) (commits : ρ → Bool)

/-- Read records from state `s`; `none` is a hole that a later record commits. -/
def scan (s : σ) : List ρ → Option σ
  | [] => some s
  | r :: rs =>
    match step s r with
    | some s' => scan s' rs
    | none => if (r :: rs).any commits then none else some s

/-- Every record continues what was read before it. -/
inductive Reads : σ → List ρ → σ → Prop where
  | nil (s : σ) : Reads s [] s
  | cons {s s' s'' : σ} {r : ρ} {rs : List ρ} : step s r = some s' → Reads s' rs s'' →
      Reads s (r :: rs) s''

variable {step commits} {s s' s'' : σ} {r : ρ} {rs rs' : List ρ}

theorem scan_append_of_reads (h : Reads step s rs s') :
    scan step commits s (rs ++ rs') = scan step commits s' rs' := by
  induction h with
  | nil s => rfl
  | cons hstep _ ih =>
    simp only [cons_append, scan, hstep]
    exact ih

theorem scan_of_reads (h : Reads step s rs s') : scan step commits s rs = some s' := by
  have happend : scan step commits s (rs ++ []) = scan step commits s' [] := scan_append_of_reads h
  rwa [append_nil] at happend

/-- What was read is a prefix, and the record after it does not continue it. -/
theorem reads_of_scan (h : scan step commits s rs = some s') :
    ∃ front torn, rs = front ++ torn ∧ Reads step s front s' ∧
      ∀ r rest, torn = r :: rest → step s' r = none ∧ torn.any commits = false := by
  induction rs generalizing s with
  | nil =>
    cases h
    exact ⟨[], [], rfl, .nil _, fun r rest hcons => by cases hcons⟩
  | cons r rs ih =>
    simp only [scan] at h
    cases hstep : step s r with
    | some mid =>
      rw [hstep] at h
      obtain ⟨front, torn, rfl, hreads, htorn⟩ := ih h
      exact ⟨r :: front, torn, rfl, .cons hstep hreads, htorn⟩
    | none =>
      simp only [hstep] at h
      split at h
      · cases h
      next hany =>
      cases h
      refine ⟨[], r :: rs, rfl, .nil _, fun r' rest hcons => ?_⟩
      cases hcons
      exact ⟨hstep, by simpa using hany⟩

theorem scan_of_hole (hstep : step s r = none) (hany : (r :: rs).any commits = false) :
    scan step commits s (r :: rs) = some s := by
  simp only [scan, hstep, hany, Bool.false_eq_true, if_false]

end Scan

/-! ## Two readers of one log -/

section Simulation

variable {ρ σ ρ' σ' : Type*} {step : σ → ρ → Option σ} {commits : ρ → Bool}
  {step' : σ' → ρ' → Option σ'} {commits' : ρ' → Bool} {S : σ → σ' → Prop} {R : ρ → ρ' → Prop}

theorem any_eq_of_forall₂ {f : ρ → Bool} {g : ρ' → Bool} (hfg : ∀ r r', R r r' → f r = g r')
    {rs : List ρ} {rs' : List ρ'} (h : List.Forall₂ R rs rs') : rs.any f = rs'.any g := by
  induction h with
  | nil => rfl
  | cons hr _ ih => rw [any_cons, any_cons, hfg _ _ hr, ih]

/-- Readers that agree on every record refuse the same logs and read the same prefix. -/
theorem scan_simulates (hcommits : ∀ r r', R r r' → commits r = commits' r')
    (hstep : ∀ s s' r r', S s s' → R r r' → Option.Rel S (step s r) (step' s' r'))
    {s : σ} {s' : σ'} (hs : S s s') {rs : List ρ} {rs' : List ρ'} (hrs : List.Forall₂ R rs rs') :
    Option.Rel S (scan step commits s rs) (scan step' commits' s' rs') := by
  induction hrs generalizing s s' with
  | nil => exact .some hs
  | @cons r r' rs rs' hr hrs ih =>
    have hany := any_eq_of_forall₂ hcommits (.cons hr hrs)
    have hnext := hstep s s' r r' hs hr
    unfold scan
    rw [hany]
    cases hl : step s r with
    | none =>
      cases hl' : step' s' r' with
      | none =>
        dsimp only
        split
        · exact .none
        · exact .some hs
      | some t' =>
        rw [hl, hl'] at hnext
        cases hnext
    | some t =>
      cases hl' : step' s' r' with
      | none =>
        rw [hl, hl'] at hnext
        cases hnext
      | some t' =>
        rw [hl, hl'] at hnext
        cases hnext with
        | some ht => exact ih ht

end Simulation

/-! ## Lines -/

section Lines

variable {α : Type*} (newline : α)

/-- Lines as they are written. -/
def unlines (complete : List (List α)) : List α := complete.flatMap (· ++ [newline])

@[simp] theorem unlines_nil : unlines newline ([] : List (List α)) = [] := rfl

@[simp] theorem unlines_cons (line : List α) (rest : List (List α)) :
    unlines newline (line :: rest) = line ++ newline :: unlines newline rest := by
  simp [unlines]

theorem unlines_append (complete more : List (List α)) :
    unlines newline (complete ++ more) = unlines newline complete ++ unlines newline more :=
  flatMap_append

variable [DecidableEq α]

/-- The complete lines of a text, without their newlines, and what follows the last one. -/
def lines : List α → List (List α) × List α
  | [] => ([], [])
  | a :: text =>
    match lines text with
    | (complete, torn) =>
      if a = newline then ([] :: complete, torn)
      else
        match complete with
        | [] => ([], a :: torn)
        | line :: rest => ((a :: line) :: rest, torn)

variable {newline}

theorem lines_of_clean {torn : List α} (h : newline ∉ torn) : lines newline torn = ([], torn) := by
  induction torn with
  | nil => rfl
  | cons a torn ih =>
    have hne : a ≠ newline := fun heq => h (heq ▸ mem_cons_self)
    rw [lines, ih fun hmem => h (mem_cons_of_mem _ hmem)]
    simp only [hne, if_false]

theorem lines_line {line : List α} (h : newline ∉ line) (text : List α) :
    lines newline (line ++ newline :: text) =
      (line :: (lines newline text).1, (lines newline text).2) := by
  induction line with
  | nil => simp only [nil_append, lines, if_true]
  | cons a line ih =>
    have hne : a ≠ newline := fun heq => h (heq ▸ mem_cons_self)
    rw [cons_append, lines, ih fun hmem => h (mem_cons_of_mem _ hmem)]
    simp only [hne, if_false]

theorem lines_unlines {complete : List (List α)} (h : ∀ line ∈ complete, newline ∉ line)
    (text : List α) :
    lines newline (unlines newline complete ++ text) =
      (complete ++ (lines newline text).1, (lines newline text).2) := by
  induction complete with
  | nil => rfl
  | cons line rest ih =>
    rw [unlines_cons, append_assoc, cons_append, lines_line (h line mem_cons_self),
      ih fun l hl => h l (mem_cons_of_mem _ hl)]
    rfl

/-- A text is its complete lines and what follows them. -/
theorem lines_spec (text : List α) :
    text = unlines newline (lines newline text).1 ++ (lines newline text).2 ∧
      (∀ line ∈ (lines newline text).1, newline ∉ line) ∧ newline ∉ (lines newline text).2 := by
  induction text with
  | nil => simp [lines]
  | cons a text ih =>
    obtain ⟨htext, hclean, htorn⟩ := ih
    rw [lines]
    dsimp only
    split
    · rename_i hnewline
      refine ⟨?_, fun line hline => ?_, htorn⟩
      · rw [unlines_cons, nil_append, cons_append, ← htext, hnewline]
      rcases mem_cons.mp hline with rfl | hline
      · exact not_mem_nil
      · exact hclean line hline
    rename_i hne
    have hnot : ∀ {piece : List α}, newline ∉ piece → newline ∉ a :: piece := fun hpiece hmem =>
      (mem_cons.mp hmem).elim (fun heq => hne heq.symm) hpiece
    split
    · rename_i hnone
      rw [hnone] at htext
      exact ⟨congrArg (a :: ·) htext, fun _ hline => (by cases hline), hnot htorn⟩
    rename_i line rest hsome
    rw [hsome] at htext hclean
    refine ⟨congrArg (a :: ·) htext, fun l hl => ?_, htorn⟩
    rcases mem_cons.mp hl with rfl | hl
    · exact hnot (hclean line mem_cons_self)
    · exact hclean l (mem_cons_of_mem _ hl)

/-- The lines of a longer text: those of its beginning, then those that go on from what follows them. -/
theorem lines_append (text more : List α) :
    lines newline (text ++ more) =
      ((lines newline text).1 ++ (lines newline ((lines newline text).2 ++ more)).1,
        (lines newline ((lines newline text).2 ++ more)).2) := by
  obtain ⟨htext, hclean, -⟩ := @lines_spec _ newline _ text
  conv => lhs; rw [htext, append_assoc]
  exact lines_unlines hclean _

/-- A piece without newlines goes in front of the first line, or of what there is instead. -/
theorem lines_clean_append {torn : List α} (h : newline ∉ torn) (text : List α) :
    lines newline (torn ++ text) =
      match (lines newline text).1 with
      | [] => ([], torn ++ (lines newline text).2)
      | line :: rest => ((torn ++ line) :: rest, (lines newline text).2) := by
  induction torn with
  | nil =>
    rw [nil_append]
    split
    · rename_i hnone
      rw [nil_append, ← hnone]
    · rename_i line rest hsome
      rw [nil_append, ← hsome]
  | cons a torn ih =>
    have hne : a ≠ newline := fun heq => h (heq ▸ mem_cons_self)
    rw [cons_append, lines, ih fun hmem => h (mem_cons_of_mem _ hmem)]
    simp only [hne, if_false]
    cases (lines newline text).1 <;> rfl

omit [DecidableEq α] in
/-- Cutting written lines anywhere leaves some of them whole and a piece of the next. -/
theorem take_unlines {complete : List (List α)} (h : ∀ line ∈ complete, newline ∉ line) (n : Nat) :
    ∃ k torn, (unlines newline complete).take n = unlines newline (complete.take k) ++ torn ∧
      newline ∉ torn ∧
        ∀ line, complete[k]? = some line → n < (unlines newline (complete.take (k + 1))).length := by
  induction complete generalizing n with
  | nil => exact ⟨0, [], by simp, by simp, by simp⟩
  | cons line rest ih =>
    rcases Nat.lt_or_ge n (line.length + 1) with hlt | hge
    · refine ⟨0, line.take n, ?_, fun hmem => ?_, fun _ _ => by simpa using hlt⟩
      · rw [unlines_cons, take_append_of_le_length (by omega)]
        simp
      · exact h line mem_cons_self (mem_of_mem_take hmem)
    obtain ⟨k, torn, htake, hclean, hlast⟩ :=
      ih (fun l hl => h l (mem_cons_of_mem _ hl)) (n - (line.length + 1))
    refine ⟨k + 1, torn, ?_, hclean, fun l hl => ?_⟩
    · have hsplit : unlines newline (line :: rest) = (line ++ [newline]) ++ unlines newline rest := by
        simp
      rw [hsplit, take_append, take_of_length_le (by simpa using hge),
        length_append, length_singleton, htake, take_succ_cons, unlines_cons]
      simp
    · have hrest := hlast l (by simpa using hl)
      rw [take_succ_cons, unlines_cons, length_append, length_cons]
      omega

end Lines

end TornLog
