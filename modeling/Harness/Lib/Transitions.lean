-- SUMMARY: Runs of a partial step function, and what holds all along them.
import Mathlib.Data.List.Induction

/-!
# Transitions

A step function gives the next state, or nothing where an action is not enabled. A run is
a list of actions that are all enabled in turn.
-/

namespace Transitions

open List

variable {State Action : Type*} (step : State → Action → Option State)

def run (s : State) : List Action → Option State
  | [] => some s
  | act :: acts => (step s act).bind fun s => run s acts

variable {step} {s s' s'' : State} {act : Action} {acts acts' : List Action}

@[simp] theorem run_nil : run step s [] = some s := rfl

theorem run_cons : run step s (act :: acts) = some s' ↔
    ∃ s₁, step s act = some s₁ ∧ run step s₁ acts = some s' :=
  Option.bind_eq_some_iff

theorem run_append : run step s (acts ++ acts') = some s'' ↔
    ∃ s', run step s acts = some s' ∧ run step s' acts' = some s'' := by
  induction acts generalizing s with
  | nil => simp
  | cons act acts ih =>
    rw [cons_append, run_cons]
    constructor
    · rintro ⟨s₁, hstep, hrun⟩
      obtain ⟨s', hrun, hrun'⟩ := ih.mp hrun
      exact ⟨s', run_cons.mpr ⟨s₁, hstep, hrun⟩, hrun'⟩
    · rintro ⟨s', hrun, hrun'⟩
      obtain ⟨s₁, hstep, hrun⟩ := run_cons.mp hrun
      exact ⟨s₁, hstep, ih.mpr ⟨s', hrun, hrun'⟩⟩

variable {I : State → Prop}

/-- What holds at first and is kept by every action of a run holds at its end. -/
theorem run_invariant {P : Action → Prop}
    (hkeeps : ∀ s act s', P act → I s → step s act = some s' → I s') (hinit : I s)
    (hacts : ∀ act ∈ acts, P act) (hrun : run step s acts = some s') : I s' := by
  induction acts generalizing s with
  | nil =>
    cases hrun
    exact hinit
  | cons act acts ih =>
    obtain ⟨s₁, hstep, hrun⟩ := run_cons.mp hrun
    have hact : P act := hacts act mem_cons_self
    exact ih (hkeeps s act s₁ hact hinit hstep)
      (fun act hmem => hacts act (mem_cons_of_mem _ hmem)) hrun

/-- What every action keeps holds all along a run. -/
theorem run_invariant' (hkeeps : ∀ s act s', I s → step s act = some s' → I s')
    (hinit : I s) (hrun : run step s acts = some s') : I s' :=
  run_invariant (P := fun _ => True) (fun s act s' _ => hkeeps s act s') hinit
    (fun _ _ => trivial) hrun

/-- A step of a run, by the number of steps before it. -/
theorem exists_of_snoc_prefix {pre : List Action} (h : pre ++ [act] <+: acts) :
    ∃ i, pre = acts.take i ∧ acts[i]? = some act := by
  obtain ⟨rest, rfl⟩ := h
  exact ⟨pre.length, by simp, by simp⟩

variable {A : State → Action → Prop}

/-- What every allowed action keeps holds at the end of a run all of whose steps are
allowed where they are taken. -/
theorem run_along (hkeeps : ∀ s act s', I s → A s act → step s act = some s' → I s') (hinit : I s)
    (hallowed : ∀ pre act s₁, pre ++ [act] <+: acts → run step s pre = some s₁ → A s₁ act)
    (hrun : run step s acts = some s') : I s' := by
  induction acts using List.reverseRecOn generalizing s' with
  | nil =>
    cases hrun
    exact hinit
  | append_singleton acts act ih =>
    obtain ⟨s₁, hrun₁, hlast⟩ := run_append.mp hrun
    obtain ⟨s₂, hstep, hnil⟩ := run_cons.mp hlast
    cases hnil
    have hI : I s₁ := ih
      (fun pre act s hpre => hallowed pre act s (hpre.trans (prefix_append acts _))) hrun₁
    exact hkeeps s₁ act s' hI (hallowed acts act s₁ prefix_rfl hrun₁) hstep

/-- Where a step keeps `I` exactly when it is allowed, a run has `I` all along exactly when
all its steps are allowed. -/
theorem along_iff {G I : State → Prop} (hkeeps : ∀ s act s', G s → step s act = some s' → G s')
    (hexact : ∀ s act s', G s → I s → step s act = some s' → (I s' ↔ A s act))
    (hinit : G s) (hI : I s) :
    (∀ pre s', pre <+: acts → run step s pre = some s' → I s') ↔
      ∀ pre act s₁ s₂, pre ++ [act] <+: acts → run step s pre = some s₁ →
        step s₁ act = some s₂ → A s₁ act := by
  constructor
  · intro hall pre act s₁ s₂ hpre hrun hstep
    have hG : G s₁ := run_invariant' hkeeps hinit hrun
    have hI₁ : I s₁ := hall pre s₁ ((prefix_append pre [act]).trans hpre) hrun
    have hrun₂ : run step s (pre ++ [act]) = some s₂ :=
      run_append.mpr ⟨s₁, hrun, run_cons.mpr ⟨s₂, hstep, rfl⟩⟩
    exact (hexact s₁ act s₂ hG hI₁ hstep).mp (hall _ s₂ hpre hrun₂)
  intro hall pre
  induction pre using List.reverseRecOn with
  | nil =>
    intro s' _ hrun
    cases hrun
    exact hI
  | append_singleton pre act ih =>
    intro s' hpre hrun
    obtain ⟨s₁, hrun₁, hlast⟩ := run_append.mp hrun
    obtain ⟨s₂, hstep, hnil⟩ := run_cons.mp hlast
    cases hnil
    have hI₁ : I s₁ := ih s₁ ((prefix_append pre [act]).trans hpre) hrun₁
    have hG : G s₁ := run_invariant' hkeeps hinit hrun₁
    exact (hexact s₁ act s' hG hI₁ hstep).mpr (hall pre act s₁ s' hpre hrun₁ hstep)

/-- Where the allowed steps keep an invariant, and under it a step reaches `P` exactly when it is
allowed, a run has `P` all along exactly when all its steps are allowed. The actions may be asked
for `Q`. -/
theorem along_iff_of_inv_on {I P : State → Prop} {Q : Action → Prop}
    (hkeeps : ∀ s act s', I s → Q act → A s act → step s act = some s' → I s')
    (hexact : ∀ s act s', I s → Q act → step s act = some s' → (P s' ↔ A s act))
    (hinit : I s) (hP : P s) (hacts : ∀ act ∈ acts, Q act) :
    (∀ pre s', pre <+: acts → run step s pre = some s' → P s') ↔
      ∀ pre act s₁ s₂, pre ++ [act] <+: acts → run step s pre = some s₁ →
        step s₁ act = some s₂ → A s₁ act := by
  have hlast : ∀ {pre act}, pre ++ [act] <+: acts → Q act := fun {pre act} hpre =>
    hacts act (hpre.subset (mem_append_right pre mem_cons_self))
  constructor
  · intro hall
    -- the invariant holds as far as the run has come, for its steps so far were allowed
    have hI : ∀ pre s', pre <+: acts → run step s pre = some s' → I s' := by
      intro pre
      induction pre using List.reverseRecOn with
      | nil =>
        intro s' _ hrun
        cases hrun
        exact hinit
      | append_singleton pre act ih =>
        intro s' hpre hrun
        obtain ⟨s₁, hrun₁, hend⟩ := run_append.mp hrun
        obtain ⟨s₂, hstep, hnil⟩ := run_cons.mp hend
        cases hnil
        have hQ : Q act := hlast hpre
        have hI₁ : I s₁ := ih s₁ ((prefix_append pre [act]).trans hpre) hrun₁
        have hA : A s₁ act := (hexact s₁ act s' hI₁ hQ hstep).mp (hall _ s' hpre hrun)
        exact hkeeps s₁ act s' hI₁ hQ hA hstep
    intro pre act s₁ s₂ hpre hrun hstep
    have hI₁ : I s₁ := hI pre s₁ ((prefix_append pre [act]).trans hpre) hrun
    exact (hexact s₁ act s₂ hI₁ (hlast hpre) hstep).mp
      (hall _ s₂ hpre (run_append.mpr ⟨s₁, hrun, run_cons.mpr ⟨s₂, hstep, rfl⟩⟩))
  · intro hall
    have hboth : ∀ pre s', pre <+: acts → run step s pre = some s' → I s' ∧ P s' := by
      intro pre
      induction pre using List.reverseRecOn with
      | nil =>
        intro s' _ hrun
        cases hrun
        exact ⟨hinit, hP⟩
      | append_singleton pre act ih =>
        intro s' hpre hrun
        obtain ⟨s₁, hrun₁, hend⟩ := run_append.mp hrun
        obtain ⟨s₂, hstep, hnil⟩ := run_cons.mp hend
        cases hnil
        have hQ : Q act := hlast hpre
        have hI₁ : I s₁ := (ih s₁ ((prefix_append pre [act]).trans hpre) hrun₁).1
        have hA : A s₁ act := hall pre act s₁ s' hpre hrun₁ hstep
        exact ⟨hkeeps s₁ act s' hI₁ hQ hA hstep, (hexact s₁ act s' hI₁ hQ hstep).mpr hA⟩
    exact fun pre s' hpre hrun => (hboth pre s' hpre hrun).2

/-- Where every action may be taken, see `along_iff_of_inv_on`. -/
theorem along_iff_of_inv {I P : State → Prop}
    (hkeeps : ∀ s act s', I s → A s act → step s act = some s' → I s')
    (hexact : ∀ s act s', I s → step s act = some s' → (P s' ↔ A s act))
    (hinit : I s) (hP : P s) :
    (∀ pre s', pre <+: acts → run step s pre = some s' → P s') ↔
      ∀ pre act s₁ s₂, pre ++ [act] <+: acts → run step s pre = some s₁ →
        step s₁ act = some s₂ → A s₁ act :=
  along_iff_of_inv_on (Q := fun _ => True) (fun s act s' hI _ => hkeeps s act s' hI)
    (fun s act s' hI _ => hexact s act s' hI) hinit hP fun _ _ => trivial

/-- From here something that is awaited always leads to `P`, however it ends: each time something
awaited can end, and every way in which it ends leads on. -/
inductive Eventually {Due : Type*} (step : State → Action → Option State)
    (Ends : Due → Action → Prop) (P : State → Prop) : State → Prop
  | now {s : State} : P s → Eventually step Ends P s
  | later {s : State} (due : Due) : (∃ act s', Ends due act ∧ step s act = some s') →
      (∀ act s', Ends due act → step s act = some s' → Eventually step Ends P s') →
      Eventually step Ends P s

end Transitions
