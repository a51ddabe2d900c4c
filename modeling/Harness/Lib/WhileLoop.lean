-- SUMMARY: Loops that take turns until a result or an error: bounded runs, what a run leads to, and induction backwards from its end.
import Mathlib.Logic.Relation

/-!
# Loops

A turn goes on with a new state, is done, or throws. A bound on the turns makes a run a function;
that a loop comes to an end says that some bound is enough.
-/

namespace WhileLoop

variable {State Result Error : Type*} (step : State → Except Error (State ⊕ Result))

/-- At most `n` turns; `none` where they are not enough. -/
def loop : Nat → State → Except Error (Option Result)
  | 0, _ => .ok none
  | n + 1, s =>
    match step s with
    | .error e => .error e
    | .ok (.inr r) => .ok (some r)
    | .ok (.inl s) => loop n s

/-- Some turns lead from one state to another. -/
def Leads : State → State → Prop := Relation.ReflTransGen fun s s' => step s = .ok (.inl s')

/-- Enough turns give a result. -/
def Finishes (s : State) (r : Result) : Prop := ∃ n, ∀ m, n ≤ m → loop step m s = .ok (some r)

variable {step} {s s' s'' : State} {r r' : Result}

theorem Leads.refl : Leads step s s := Relation.ReflTransGen.refl

theorem Leads.trans (h : Leads step s s') (h' : Leads step s' s'') : Leads step s s'' :=
  Relation.ReflTransGen.trans h h'

theorem leads_of_step (h : step s = .ok (.inl s')) : Leads step s s' :=
  Relation.ReflTransGen.single h

theorem Leads.head (h : step s = .ok (.inl s')) (h' : Leads step s' s'') : Leads step s s'' :=
  (leads_of_step h).trans h'

theorem finishes_of_step (h : step s = .ok (.inr r)) : Finishes step s r := by
  refine ⟨1, fun m hm => ?_⟩
  obtain ⟨m, rfl⟩ : ∃ k, m = k + 1 := ⟨m - 1, by omega⟩
  rw [loop, h]

theorem Leads.finishes (h : Leads step s s') (h' : Finishes step s' r) : Finishes step s r := by
  induction h using Relation.ReflTransGen.head_induction_on with
  | refl => exact h'
  | head hstep _ ih =>
    obtain ⟨n, hn⟩ := ih
    refine ⟨n + 1, fun m hm => ?_⟩
    obtain ⟨m, rfl⟩ : ∃ k, m = k + 1 := ⟨m - 1, by omega⟩
    rw [loop, hstep]
    exact hn m (Nat.le_of_succ_le_succ hm)

/-- What holds where a run is done, and before a turn where it holds behind it, holds at the start
of a run. -/
theorem loop_backward {P : State → Prop} {n : Nat} (hdone : ∀ s, step s = .ok (.inr r) → P s)
    (hstep : ∀ s s', step s = .ok (.inl s') → P s' → P s)
    (h : loop step n s = .ok (some r)) : P s := by
  induction n generalizing s with
  | zero => cases h
  | succ n ih =>
    rw [loop] at h
    split at h
    · cases h
    · rename_i r' hturn
      cases h
      exact hdone s hturn
    · rename_i s' hturn
      exact hstep s s' hturn (ih h)

end WhileLoop
