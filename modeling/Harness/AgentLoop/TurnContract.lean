-- SUMMARY: With what a turn may close right after a step that executed tool calls.
import Harness.AgentLoop.DriverSteps

namespace Harness

open List Rules

namespace Driver

open LoopCode

/-! ## Turns on record -/

/-- All moves of the surroundings are allowed, and no operation requires anything. -/
def turnRules : Rules loopMachine where
  allowed _ := True
  guard _ _ := True

/-- Since `own₀` the driver has closed turns with reasons that satisfy `P` only. -/
def ClosedWith (own₀ : List SessionEvent) (P : TurnEndReason → Prop) (w : LoopWorld) : Prop :=
  ∃ gained, w.own = own₀ ++ gained ∧
    ∀ event ∈ gained, ∀ turn reason, event.data = .turnEnd turn reason → P reason

/-- The driver is at a position and has closed no turn since `own₀`. -/
def Open (own₀ : List SessionEvent) (at_ : Nat × Nat) (w : LoopWorld) : Prop :=
  w.phase.position = some at_ ∧ ClosedWith own₀ (fun _ => False) w

/-- Since `own₀` the driver has closed one turn or more, all with this reason. -/
def ClosedBy (own₀ : List SessionEvent) (reason : TurnEndReason) (w : LoopWorld) : Prop :=
  ClosedWith own₀ (· = reason) w ∧ ∃ event ∈ w.own, ∃ turn, event.data = .turnEnd turn reason

variable {own₀ : List SessionEvent} {P : TurnEndReason → Prop} {at_ : Nat × Nat} {w w' : LoopWorld}

theorem ClosedWith.own (h : ClosedWith own₀ P w) (hown : w'.own = w.own) : ClosedWith own₀ P w' := by
  obtain ⟨gained, hgained, hclosed⟩ := h
  exact ⟨gained, hown.trans hgained, hclosed⟩

theorem ClosedWith.mono (h : ClosedWith own₀ P w) {P' : TurnEndReason → Prop}
    (hP : ∀ reason, P reason → P' reason) : ClosedWith own₀ P' w := by
  obtain ⟨gained, hgained, hclosed⟩ := h
  exact ⟨gained, hgained, fun event hmem turn reason hdata => hP _ (hclosed event hmem turn reason hdata)⟩

theorem ClosedWith.snoc (h : ClosedWith own₀ P w) {event : SessionEvent}
    (hown : w'.own = w.own ++ [event])
    (hevent : ∀ turn reason, event.data = .turnEnd turn reason → P reason) :
    ClosedWith own₀ P w' := by
  obtain ⟨gained, hgained, hclosed⟩ := h
  refine ⟨gained ++ [event], by rw [hown, hgained, append_assoc], ?_⟩
  intro event' hmem turn reason hdata
  rcases mem_append.mp hmem with hmem | hmem
  · exact hclosed event' hmem turn reason hdata
  · rw [mem_singleton.mp hmem] at hdata
    exact hevent turn reason hdata

/-- An assertion about the driver's record only. -/
def OnRecord (A : LoopWorld → Prop) : Prop := ∀ w w', w'.own = w.own → A w → A w'

theorem OnRecord.stable {A : LoopWorld → Prop} (hA : OnRecord A) : turnRules.Stable A :=
  fun act _ w h => hA w _ (w.react_undisturbed act).own h

theorem onRecord_closedWith (own₀ : List SessionEvent) (P : TurnEndReason → Prop) :
    OnRecord (ClosedWith own₀ P) := fun _ _ hown h => h.own hown

theorem onRecord_closedBy (own₀ : List SessionEvent) (reason : TurnEndReason) :
    OnRecord (ClosedBy own₀ reason) := by
  rintro w w' hown ⟨hclosed, hevent⟩
  refine ⟨hclosed.own hown, ?_⟩
  rw [hown]
  exact hevent

theorem closedWith_stable (own₀ : List SessionEvent) (P : TurnEndReason → Prop) :
    turnRules.Stable (ClosedWith own₀ P) := (onRecord_closedWith own₀ P).stable

theorem closedBy_stable (own₀ : List SessionEvent) (reason : TurnEndReason) :
    turnRules.Stable (ClosedBy own₀ reason) := (onRecord_closedBy own₀ reason).stable

theorem open_stable (own₀ : List SessionEvent) (at_ : Nat × Nat) :
    turnRules.Stable (Open own₀ at_) :=
  fun act _ w h => ⟨(w.react_undisturbed act).position at_ h.1, h.2.own (w.react_undisturbed act).own⟩

/-! ## Operations within a turn -/

theorem appended_data {payload : Payload} {surfaced : Option Surfaced} {time : Int}
    {event : SessionEvent} (h : w.append (appendRequest payload surfaced time) = (.ok event, w')) :
    payload = .lossless event.data ∧ w'.own = w.own ++ [event] ∧ w'.phase = w.phase := by
  obtain ⟨hprepare, _, hown, hworld⟩ := LoopWorld.append_ok h
  obtain ⟨hdata, _⟩ := AppendRequest.prepare_event _ hprepare
  refine ⟨hdata, hown, ?_⟩
  rw [hworld]

/-- An operation within a turn leaves it open and the driver in its place. -/
theorem Open.perform (h : Open own₀ at_ w) {op : LoopOp} (hop : op.inTurn = true) {reply : LoopReply}
    {x : op.Answer} (hperform : w.perform op reply = some (x, w')) : Open own₀ at_ w' := by
  have haside : w.Undisturbed w' → Open own₀ at_ w' :=
    fun hw => ⟨hw.position at_ h.1, h.2.own hw.own⟩
  by_cases hquiet : op.isQuiet = true
  · exact haside (LoopWorld.perform_quiet hquiet hperform).toUndisturbed
  cases op with
  | read r => exact absurd rfl hquiet
  | session r => exact absurd rfl hquiet
  | claim target turn => exact absurd rfl hquiet
  | acceptContext context => exact absurd rfl hquiet
  | write u =>
    rw [LoopWorld.perform_write hperform]
    cases u with
    | setTurn turn => cases hop
    | setStep step => cases hop
    | renewAbort => cases hop
    | _ => exact h
  | ask q =>
    obtain ⟨_, rfl⟩ := LoopWorld.perform_ask hperform
    cases q with
    | _ => exact h
  | append payload surfaced =>
    obtain ⟨time, happend⟩ := LoopWorld.perform_append hperform
    cases x with
    | error e => exact haside (LoopWorld.append_error happend).toUndisturbed
    | ok event =>
      obtain ⟨hdata, hown, hphase⟩ := appended_data happend
      refine ⟨hphase ▸ h.1, h.2.snoc hown ?_⟩
      intro turn reason hevent
      rw [hdata, hevent] at hop
      cases hop
  | outOfFuel => exact nomatch x
  | missing => exact nomatch x

variable {α : Type}

/-- Code within a turn leaves it open, whether it returns or throws. -/
theorem holds_inTurn {p : LoopCode α} (hp : InTurn p) :
    turnRules.Holds (Open own₀ at_) p (fun _ => Open own₀ at_) (fun _ => Open own₀ at_) :=
  .of_within (open_stable own₀ at_)
    (fun _ hop _ hw => ⟨trivial, fun _ _ _ hperform => hw.perform hop hperform⟩) hp

/-- What is left when a turn is about to close: its position may have moved. -/
abbrev Unclosed (own₀ : List SessionEvent) : LoopWorld → Prop := ClosedWith own₀ fun _ => False

theorem holds_opened {p : LoopCode α} (hp : InTurn p) :
    turnRules.Holds (Open own₀ at_) p (fun _ => Open own₀ at_) (fun _ => Unclosed own₀) :=
  (holds_inTurn hp).weaken (fun _ _ h => h) fun _ _ h => h.2

variable {E : Thrown → LoopWorld → Prop}

theorem holds_position :
    turnRules.Holds (Open own₀ at_) (read .position) (fun x w => x = some at_ ∧ Open own₀ at_ w) E := by
  refine .ask (open_stable own₀ at_) (fun x => ?_) fun w hw => ⟨trivial, ?_⟩
  · exact (Stable.const _).and (open_stable own₀ at_)
  intro reply x w' hperform
  obtain ⟨rfl, rfl⟩ := LoopWorld.perform_read hperform
  exact ⟨hw.1, hw⟩

theorem holds_setStep {turn last step : Nat} :
    turnRules.Holds (Open own₀ (turn, last)) (write (.setStep step))
      (fun _ => Open own₀ (turn, step)) E := by
  refine .ask (open_stable own₀ _) (fun _ => open_stable own₀ _) fun w hw => ⟨trivial, ?_⟩
  intro reply x w' hperform
  rw [LoopWorld.perform_write hperform]
  obtain ⟨hposition, hclosed⟩ := hw
  refine ⟨?_, hclosed.own rfl⟩
  show (w.phase.setStep step).position = some (turn, step)
  cases hphase : w.phase with
  | idle lastTurn =>
    rw [hphase] at hposition
    cases hposition
  | maintenance abort lastTurn wakeRequested =>
    rw [hphase] at hposition
    cases hposition
  | running abort turn' step' wakeRequested =>
    rw [hphase] at hposition
    cases hposition
    rfl

/-! ## The reason that is carried -/

/-- The reason the steps of a turn have left to end it with. -/
def carried (steps : List StepOutcome) : Option TurnEndReason :=
  steps.foldl (fun turnEnds outcome => carry turnEnds outcome.ends) none

theorem carried_snoc (steps : List StepOutcome) (outcome : StepOutcome) :
    carried (steps ++ [outcome]) = carry (carried steps) outcome.ends := by
  simp only [carried, foldl_append, foldl_cons, foldl_nil]

/-- No step that executed tool calls without a conclusion came after a truncated one. -/
def NoCallsAfterCeiling (steps : List StepOutcome) : Prop :=
  ∀ pre post, steps = pre ++ .calls false :: post → .maxTokens ∉ pre

variable {steps : List StepOutcome}

theorem maxTokens_mem_of_carried (h : carried steps = some .maxTokens) : .maxTokens ∈ steps := by
  induction steps using List.reverseRecOn with
  | nil => cases h
  | append_singleton steps outcome ih =>
    rw [carried_snoc, carry] at h
    split at h
    · next hsticky => exact mem_append_left _ (ih hsticky)
    cases outcome with
    | maxTokens => simp
    | noCalls => cases h
    | calls concluded =>
      simp only [StepOutcome.ends] at h
      split at h <;> cases h

/-- Unconcluded tool calls leave no reason, unless an earlier step was truncated. -/
theorem last_ne_calls (hcarried : (carried steps).isSome)
    (hceiling : NoCallsAfterCeiling steps) : steps.getLast? ≠ some (.calls false) := by
  intro hlast
  obtain ⟨pre, rfl⟩ := getLast?_eq_some_iff.mp hlast
  rw [carried_snoc, carry] at hcarried
  split at hcarried
  · next hsticky => exact hceiling pre [] rfl (maxTokens_mem_of_carried hsticky)
  · cases hcarried

/-! ## The loop -/

/-- How the loop of a turn may be left. -/
inductive TurnExit.Sound : TurnExit → Prop where
  | blocked (steps : List StepOutcome) : TurnExit.Sound ⟨true, .blocked, steps⟩
  /-- Nothing was entered with, so the turn spent no model call. -/
  | empty : TurnExit.Sound ⟨true, .completed, []⟩
  | carried (reason : TurnEndReason) (steps : List StepOutcome)
      (h : Driver.carried steps = some reason) : TurnExit.Sound ⟨false, reason, steps⟩

theorem holds_takeStep {options : AgentOptions} {turn last : Nat} {assembly : PromptAssembly}
    {messages : List Draft} (fuel : Nat) :
    turnRules.Holds (Open own₀ (turn, last))
      (takeStep options ⟨turn, last + 1⟩ assembly messages fuel)
      (fun _ => Open own₀ (turn, last + 1)) (fun _ => Unclosed own₀) := by
  have hE : ∀ e : Thrown, turnRules.Stable (Unclosed own₀) := fun _ => closedWith_stable own₀ _
  refine .bind hE (holds_opened inTurn_throwIfAborted) fun _ => ?_
  refine .bind hE (holds_opened (inTurn_log rfl)) fun _ => ?_
  exact .bind hE holds_setStep fun _ => holds_opened (inTurn_stepWithin messages fuel)

theorem holds_exit {exit : TurnExit} (h : TurnExit.Sound exit) :
    turnRules.Holds (Open own₀ at_) (pure exit : LoopCode TurnExit) (fun exit w => Unclosed own₀ w ∧ TurnExit.Sound exit)
      (fun _ => Unclosed own₀) :=
  .pure (open_stable own₀ at_) fun _ hw => ⟨hw.2, h⟩

theorem holds_turnLoop {options : AgentOptions} (fuel : Nat) {turn last : Nat}
    (target : InboxTarget) (hsteps : steps ≠ [] → last ≠ 0) :
    turnRules.Holds (Open own₀ (turn, last)) (turnLoop options fuel (carried steps) target steps)
      (fun exit w => Unclosed own₀ w ∧ TurnExit.Sound exit) (fun _ => Unclosed own₀) := by
  have hE : ∀ e : Thrown, turnRules.Stable (Unclosed own₀) := fun _ => closedWith_stable own₀ _
  induction fuel generalizing last target steps with
  | zero =>
    refine .bind hE (holds_opened (inTurn_perform rfl)) fun x => nomatch x
  | succ fuel ih =>
    refine .bind hE (holds_opened inTurn_throwIfAborted) fun _ => ?_
    refine .bind hE holds_position fun position => .assuming fun hposition => ?_
    subst hposition
    refine .bind hE (holds_opened (inTurn_preStep target)) fun prepared => ?_
    cases prepared with
    | reject => exact holds_exit (.blocked steps)
    | enter messages assembly =>
      simp only
      split
      · next reason hreason => exact holds_exit (.carried reason steps hreason)
      next hentered =>
      split
      · next hempty =>
        -- No step was taken and no reason is carried: the turn is empty.
        simp only [Bool.and_eq_true, decide_eq_true_eq, List.isEmpty_iff] at hempty
        have hnone : steps = [] := by
          by_contra hne
          exact hsteps hne hempty.1
        subst hnone
        exact holds_exit .empty
      refine .bind hE (holds_takeStep fuel) fun outcome => ?_
      refine .bind hE (holds_opened inTurn_throwIfAborted) fun _ => ?_
      refine .bind hE (holds_opened (inTurn_stopping _ _)) fun _ => ?_
      refine .bind hE (holds_opened (inTurn_isOver _)) fun isOver => ?_
      rw [← carried_snoc]
      have hlast : steps ++ [outcome] ≠ [] → last + 1 ≠ 0 := fun _ => Nat.succ_ne_zero last
      have hnext := ih .nextStep hlast
      cases hcarried : carried (steps ++ [outcome]) with
      | none =>
        rw [hcarried] at hnext
        exact hnext
      | some reason =>
        rw [hcarried] at hnext
        cases isOver with
        | true => exact holds_exit (.carried reason _ hcarried)
        | false => exact hnext

/-! ## Closing -/

/-- The reasons a failed turn closes with. -/
def Failed (reason : TurnEndReason) : Prop := reason ≠ .completed ∧ reason ≠ .maxTokens

theorem holds_quiet {A : LoopWorld → Prop} (hA : OnRecord A) {op : LoopOp}
    (hquiet : op.isQuiet = true) :
    turnRules.Holds A (perform op) (fun _ => A) E := by
  refine .ask hA.stable (fun _ => hA.stable) fun w hw => ⟨trivial, ?_⟩
  exact fun reply x w' hperform => hA w w' (LoopWorld.perform_quiet hquiet hperform).own hw

theorem holds_throwError {Q : α → LoopWorld → Prop} (error : Thrown) :
    turnRules.Holds (ClosedWith own₀ P) (throwError_ error : LoopCode α) Q
      (fun _ => ClosedWith own₀ P) := by
  have hE : ∀ e : Thrown, turnRules.Stable (ClosedWith own₀ P) := fun _ => closedWith_stable own₀ P
  refine .bind hE (holds_quiet (onRecord_closedWith own₀ _) rfl) fun _ => ?_
  exact .throw (hE error) fun _ hw => hw

theorem holds_close (turn : Nat) (reason : TurnEndReason) :
    turnRules.Holds (Unclosed own₀) (logReporting (.turnEnd turn reason))
      (fun _ => ClosedBy own₀ reason) (fun _ => Unclosed own₀) := by
  have hE : ∀ e : Thrown, turnRules.Stable (Unclosed own₀) := fun _ => closedWith_stable own₀ _
  have hlog : turnRules.Holds (Unclosed own₀) (log (.turnEnd turn reason))
      (fun _ => ClosedBy own₀ reason) (fun _ : Thrown => Unclosed own₀) := by
    refine .bind hE (holds_append (closedWith_stable own₀ _) (fun _ => closedBy_stable own₀ reason) hE
      (fun _ _ => trivial) ?_ ?_) fun _ => .pure (closedBy_stable own₀ reason) fun _ hw => hw
    · intro w w' event time hw happend
      obtain ⟨hdata, hown, _⟩ := appended_data happend
      injection hdata with hdata
      refine ⟨(hw.mono fun _ h => h.elim).snoc hown ?_, event, by simp [hown], turn, hdata.symm⟩
      intro turn' reason' hevent
      rw [← hdata] at hevent
      cases hevent
      rfl
    · exact fun w w' hw haside e => hw.own haside.own
  refine .settle hlog (fun _ => .pure (closedBy_stable own₀ reason) fun _ hw => hw) fun error => ?_
  exact holds_throwError error

theorem holds_failedReason (error : Thrown) :
    turnRules.Holds (Unclosed own₀) (failedReason error)
      (fun reason w => Failed reason ∧ Unclosed own₀ w) (fun _ => Unclosed own₀) := by
  have hA := closedWith_stable own₀ fun _ => False
  refine .bind (fun _ => hA) (holds_quiet (onRecord_closedWith own₀ _) rfl) fun cause => ?_
  cases cause with
  | some cause => exact .pure hA fun w hw => ⟨⟨nofun, nofun⟩, hw⟩
  | none =>
    refine .bind (fun _ => hA) (holds_quiet (onRecord_closedWith own₀ _) rfl) fun _ => ?_
    exact .pure hA fun w hw => ⟨⟨nofun, nofun⟩, hw⟩

theorem inTurn_logReporting {data : EventData} (h : (Payload.lossless data).closesTurn = false) :
    InTurn (logReporting data) := by
  refine Program.within_settle (inTurn_log h) fun result => ?_
  cases result with
  | ok _ => exact inTurn_pure _
  | error error => exact inTurn_bind (inTurn_perform rfl) fun _ => inTurn_throw _

theorem holds_setTurn {lastTurn last turn : Nat} :
    turnRules.Holds (Open own₀ (lastTurn, last)) (write (.setTurn turn))
      (fun _ => Open own₀ (turn, last)) E := by
  refine .ask (open_stable own₀ _) (fun _ => open_stable own₀ _) fun w hw => ⟨trivial, ?_⟩
  intro reply x w' hperform
  rw [LoopWorld.perform_write hperform]
  obtain ⟨hposition, hclosed⟩ := hw
  refine ⟨?_, hclosed.own rfl⟩
  show (w.phase.setTurn turn).position = some (turn, last)
  cases hphase : w.phase with
  | idle lastTurn =>
    rw [hphase] at hposition
    cases hposition
  | maintenance abort lastTurn wakeRequested =>
    rw [hphase] at hposition
    cases hposition
  | running abort turn' step' wakeRequested =>
    rw [hphase] at hposition
    cases hposition
    rfl

/-- How a turn may close that fails in nothing. -/
def TurnReport.Sound (report : TurnReport) : Prop :=
  ∃ returned, TurnExit.Sound ⟨returned, report.reason, report.steps⟩

theorem holds_turn (options : AgentOptions) (fuel : Nat) :
    turnRules.Holds (Unclosed own₀) (turn options fuel)
      (fun report w => TurnReport.Sound report ∧ ClosedBy own₀ report.reason w)
      (fun _ => ClosedWith own₀ Failed) := by
  have hE : ∀ e : Thrown, turnRules.Stable (ClosedWith own₀ Failed) :=
    fun _ => closedWith_stable own₀ _
  have hfails : ∀ w, Unclosed own₀ w → ClosedWith own₀ Failed w :=
    fun w hw => hw.mono fun _ h => h.elim
  have hwithin : ∀ {α : Type} {p : LoopCode α} {at_ : Nat × Nat}, InTurn p →
      turnRules.Holds (Open own₀ at_) p (fun _ => Open own₀ at_) (fun _ => ClosedWith own₀ Failed) :=
    fun hp => (holds_opened hp).weaken (fun _ _ h => h) fun _ w h => hfails w h
  have hread : turnRules.Holds (ε := Thrown) (Unclosed own₀) (read .position)
      (fun x w => match x with
        | none => Unclosed own₀ w
        | some at_ => Open own₀ at_ w) (fun _ => ClosedWith own₀ Failed) := by
    refine .ask (closedWith_stable own₀ _) (fun x => ?_) fun w hw => ⟨trivial, ?_⟩
    · cases x with
      | none => exact closedWith_stable own₀ _
      | some at_ => exact open_stable own₀ at_
    intro reply x w' hperform
    obtain ⟨rfl, rfl⟩ := LoopWorld.perform_read hperform
    show match w'.phase.position with
      | none => Unclosed own₀ w'
      | some at_ => Open own₀ at_ w'
    cases hposition : w'.phase.position with
    | none => exact hw
    | some at_ => exact ⟨hposition, hw⟩
  refine .bind hE hread fun position => ?_
  cases position with
  | none => exact (holds_throwError _).weaken (fun _ _ h => h) fun _ w h => hfails w h
  | some at_ =>
    obtain ⟨lastTurn, last⟩ := at_
    refine .bind hE (hwithin inTurn_throwIfAborted) fun _ => ?_
    refine .bind hE (hwithin (inTurn_logReporting rfl)) fun _ => ?_
    refine .bind hE holds_setTurn fun _ => ?_
    have hloop : turnRules.Holds (Open own₀ (lastTurn + 1, last))
        (turnLoop options fuel none .nextTurn [])
        (fun exit w => Unclosed own₀ w ∧ TurnExit.Sound exit) (fun _ => Unclosed own₀) :=
      holds_turnLoop fuel .nextTurn fun h => absurd rfl h
    refine .settle hloop (fun exit => ?_) fun error => ?_
    · refine .strengthen (fun w hw => And.symm hw) (.assuming fun hsound => ?_)
      refine .bind hE ((holds_close _ _).weaken (fun _ _ h => h) fun _ w h => hfails w h) fun _ => ?_
      have hclosed := onRecord_closedBy own₀ exit.reason
      have hreport : ∀ continues, turnRules.Holds (ClosedBy own₀ exit.reason)
          (pure { continues, reason := exit.reason, steps := exit.steps } : LoopCode TurnReport)
          (fun report w => TurnReport.Sound report ∧ ClosedBy own₀ report.reason w)
          (fun _ => ClosedWith own₀ Failed) :=
        fun continues => .pure hclosed.stable fun w hw => ⟨⟨exit.returned, hsound⟩, hw⟩
      split
      · exact hreport false
      refine .bind hE (holds_quiet hclosed rfl) fun pending => ?_
      split
      · refine .bind hE ?_ fun _ => hreport true
        refine .ask hclosed.stable (fun _ => hclosed.stable) fun w hw => ⟨trivial, ?_⟩
        intro reply x w' hperform
        rw [LoopWorld.perform_write hperform]
        exact hclosed w _ rfl hw
      · exact hreport false
    · refine .bind hE ((holds_failedReason error).weaken (fun _ _ h => h) fun _ w h => hfails w h)
        fun reason => .assuming fun hreason => ?_
      refine .bind hE ((holds_close _ reason).weaken (fun _ _ h => h) fun _ w h => hfails w h) fun _ => ?_
      exact .throw (closedBy_stable own₀ reason) fun w hw => hw.1.mono fun _ h => h ▸ hreason

/-- A turn that closes as completed or truncated does not do so right after a step that
executed tool calls without a conclusion. -/
def OffersResults (report : TurnReport) : Prop :=
  report.reason = .completed ∨ report.reason = .maxTokens →
    report.steps.getLast? ≠ some (.calls false)

theorem TurnReport.Sound.offers {report : TurnReport} (h : TurnReport.Sound report)
    (hceiling : NoCallsAfterCeiling report.steps) : OffersResults report := by
  obtain ⟨continues, reason, steps⟩ := report
  obtain ⟨returned, hexit⟩ := h
  intro hreason
  cases hexit with
  | blocked steps => rcases hreason with h | h <;> cases h
  | empty => simp
  | carried reason steps hcarried =>
    exact last_ne_calls (by rw [hcarried]; rfl) hceiling

/-- What one reply or act stands for in the runs below. -/
abbrev TurnInput := Machine.Input LoopReply LoopAct

def asked : TurnInput := .reply .done

def appended : TurnInput := .reply (.now 0)

def promptOf (id : JsString) : Draft where
  message := { id, content := [.text "go"], source := .user }
  lossless := true

def wokenAgent : LoopWorld where
  io := { session := .empty, inbox := { Inbox.empty with nextTurn := [(promptOf "u").message] } }
  phase := .running none 0 0 false
  requestHeaderLogged := false
  pool := .empty
  running := []
  own := []
  requests := []
  prepared := []

def chatAgent : AgentOptions := { id := "a", provider := some "p", model := some "m", maxTokens := none }

def opened : List TurnInput := [asked, asked, appended, asked]

/-- A pre-step that lets the messages in, and the start of the step. -/
def entered (messages : List Draft) : List TurnInput :=
  [asked, asked, appended, .reply (.assembly ⟨⟨[]⟩, [], by simp⟩), asked, .reply (.context none),
    .reply (.decision (.enter messages)), asked, asked, appended, asked, asked]
    ++ messages.map (fun _ => appended) ++ [asked]

/-- A request over a route without an adapter; the first one logs its header and route. -/
def requested (first : Bool) : List TurnInput :=
  [asked, asked, asked, .reply (.config { provider := "p", model := "m" }), asked,
    .reply (.failed (.llm
      { message := "none", code := "NO_ADAPTER", status := none, providerRetryAfterMs := none
        requestId := none })), asked, asked, asked]
    ++ (if first then [appended, asked, asked, appended] else [asked]) ++ [asked, asked, asked]

def streamed (chunks : List StreamChunk) : List TurnInput :=
  chunks.flatMap (fun chunk => [.reply (.chunk (some ⟨chunk, true⟩)), asked, appended])
    ++ [.reply (.chunk none), asked, .reply (.messageId "x"), appended]

/-- One exclusive tool call with an empty result that concludes nothing. -/
def callChunks : List StreamChunk :=
  [.blockEnd (.int 0) (.toolCall { id := "c", name := "read", arguments := ⟨[]⟩ }),
    .finish .toolCalls none]

def executed : List TurnInput :=
  [.reply (.mode .exclusive), .reply (.number 1), asked, asked, asked, appended,
    .reply (.preparation (.finalResult { isError := false, content := [] })), asked, asked, asked, asked,
    .reply (.result { isError := false, content := [] }), .reply (.messageId "r"), appended, asked,
    asked, asked]

def stepEnded : List TurnInput := [appended, asked, asked, asked]

def turnEnded : List TurnInput := [appended, asked, asked, asked, asked, asked, appended, asked]

def steered : TurnInput := .act (.send (promptOf "s") .nextStep true 0)

/-- The report of a run that came to its end. -/
def reported (c : Option (Program LoopOp LoopOp.Answer (Except Thrown TurnReport) × LoopWorld)) :
    Option (TurnEndReason × List StepOutcome) :=
  match c with
  | some (.done (.ok report), _) => some (report.reason, report.steps)
  | _ => none

theorem run_of_reported {c : Option (Program LoopOp LoopOp.Answer (Except Thrown TurnReport) × LoopWorld)}
    {r : TurnEndReason} {s : List StepOutcome} (h : reported c = some (r, s)) :
    ∃ report w', c = some (.done (.ok report), w') ∧ report.reason = r ∧ report.steps = s := by
  unfold reported at h
  split at h
  · next report w' =>
    cases h
    exact ⟨report, w', rfl, rfl, rfl⟩
  · cases h

end Driver

end Harness
