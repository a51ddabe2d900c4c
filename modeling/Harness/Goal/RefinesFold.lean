-- SUMMARY: The goal service refines the strict fold in every run in which no listener cuts across a mutation, and a run in which one does.
import Harness.Goal.Invariant

/-!
# The goal service refines the strict goal fold

Over every run of a session's service: requests, listeners that call the service again, session
starts, rounds and other appends of anyone. The log stays one the fold accepts, the service reads
what the fold says, and a mutation is one event or nothing.
-/

namespace Harness

open List

/-! ## What a log promises -/

/-- The goals of a log: numbered revisions at times that never decrease, ids used once, and rounds
within the cap that was in force. -/
structure GoalHistory (log : List SessionEvent) : Prop where
  revisions : ∀ id, (Revisions.of id (goalEntries log)).map Revisions.Entry.revision
    = List.range' 1 (Revisions.of id (goalEntries log)).length
  times : ∀ id, (Revisions.of id (goalEntries log)).Pairwise fun earlier later =>
    earlier.time ≤ later.time
  ids : ∀ before event change, before ++ [event] <+: log →
    goalChangeOf event = some (.snapshot change) → change.operation = .create →
    ∀ entry ∈ goalEntries before, entry.key ≠ change.goal.id
  rounds : ∀ before event source, before ++ [event] <+: log → goalRoundOf event = some source →
    ∃ state goal, foldGoalEvents (before ++ [event]) = .ok state ∧ state.goal = some goal ∧
      state.roundsStarted = source.round ∧ source.round ≤ goal.maxGoalRounds

theorem foldGoalEvents_begin {before log : List SessionEvent} {state : GoalFoldState}
    (hbegins : before <+: log) (h : foldGoalEvents log = .ok state) :
    ∃ state', foldGoalEvents before = .ok state' := by
  obtain ⟨rest, rfl⟩ := hbegins
  rw [foldGoalEvents, foldlM_append] at h
  obtain ⟨state', hbefore, -⟩ := Except.bind_eq_ok.mp h
  exact ⟨state', hbefore⟩

theorem goalHistory {log : List SessionEvent} {state : GoalFoldState}
    (h : foldGoalEvents log = .ok state) : GoalHistory log where
  revisions := (foldGoalEvents_replays h).history.counted
  times := (foldGoalEvents_replays h).history.monotone
  ids := by
    intro before event change hbegins hrecords hoperation entry hentry
    obtain ⟨after, hafter⟩ := foldGoalEvents_begin hbegins h
    obtain ⟨state', hbefore, hevent⟩ := foldGoalEvents_snoc_ok hafter
    cases applyGoalEvent_moves hevent with
    | change type records wellFormed accepts =>
      cases hrecords.symm.trans records
      cases accepts with
      | create operation founds =>
        have hunseen : change.goal.id ∉ state'.seenGoalIds := by
          simp only [GoalFoldState.founds, Bool.and_eq_true, Bool.not_eq_true'] at founds
          simpa using founds.2
        exact fun hkey => hunseen (hkey ▸ (foldGoalEvents_replays hbefore).seen entry hentry)
      | revise operation => exact absurd hoperation operation
    | round type records => cases hrecords.symm.trans records
    | other type records => cases hrecords.symm.trans records
  rounds := by
    intro before event source hbegins hasks
    obtain ⟨after, hafter⟩ := foldGoalEvents_begin hbegins h
    obtain ⟨state', hbefore, hevent⟩ := foldGoalEvents_snoc_ok hafter
    cases applyGoalEvent_moves hevent with
    | change type =>
      have hnot : goalRoundOf event = none := by
        unfold goalRoundOf
        split
        · rename_i message hdata
          rw [SessionEvent.type, hdata] at type
          exact absurd type (by simp only [EventData.type]; decide)
        · rfl
      cases hnot.symm.trans hasks
    | round type records asks admits =>
      cases hasks.symm.trans asks
      cases hgoal : state'.goal with
      | none => simp [GoalFoldState.admits, hgoal] at admits
      | some goal =>
        simp only [GoalFoldState.admits, hgoal, Option.any_some, Bool.and_eq_true,
          decide_eq_true_eq] at admits
        exact ⟨_, goal, hafter, hgoal, rfl, admits.2⟩
    | other type records asks => cases hasks.symm.trans asks

/-! ## What the service promises -/

def FoldedGoal.view (folded : FoldedGoal) (activation : GoalActivation) : Option GoalView :=
  match folded.goal, folded.createdAt, folded.updatedAt with
  | some goal, some createdAt, some updatedAt =>
    some { goal with roundsStarted := folded.roundsStarted, createdAt, updatedAt, activation }
  | _, _, _ => none

namespace GoalWorld

/-- The service reads the fold of the log, is armed with authority only, and every mutation that
ended was one event or nothing. -/
structure Faithful (w : GoalWorld) : Prop where
  reads : ∃ state activation, foldGoalEvents w.log = .ok state ∧
    w.observed = .ok (state, activation) ∧ (activation = .armed → w.authority = true) ∧
    ∀ caller, caller.live = true → (w.get caller).1 = .ok (state.folded.view activation)
  atomic : ∀ outcome ∈ w.settled, outcome.Atomic
  history : GoalHistory w.log

/-- The log grows by one accepted event, which is the change of a mutation whose ref was current
or an event of someone else; everything but a disarm and a session start leaves the rest. -/
structure StepFaithful (w : GoalWorld) (act : GoalAction) (w' : GoalWorld) : Prop where
  grows : act = .push → ∃ append state state', w.publication = some append ∧
    w'.log = w.log ++ [append.event] ∧ foldGoalEvents w.log = .ok state ∧
    applyGoalEvent state append.event = .ok state' ∧
    ∀ call, append.own = some call →
      append.event.data = call.change.eventData ∧ call.request.Current w.log
  stays : act ≠ .push → w'.log = w.log
  unchanged : act ≠ .push → act ≠ .sessionStart → (∀ caller, act ≠ .disarm caller) →
    w'.observed = w.observed

variable {w w' : GoalWorld} {config : GoalServiceConfig} {act : GoalAction}

theorem Inv.opened {log : List SessionEvent}
    (hseed : ∀ (i : Nat) (event : SessionEvent), log[i]? = some event → event.seq = i)
    {state : GoalFoldState} (hlog : foldGoalEvents log = .ok state) :
    (GoalWorld.opened log).Inv where
  contiguous := hseed
  accepted := ⟨state, hlog⟩
  tracks := fun _ hcache => absurd hcache (Option.some_ne_none _).symm
  pending := fun _ _ hcache => absurd hcache (Option.some_ne_none _).symm
  publication := fun _ hnone => absurd hnone (Option.some_ne_none _).symm
  listening := fun _ hcall => absurd hcall not_mem_nil
  settled := fun _ houtcome => absurd houtcome not_mem_nil
  armed := fun harmed => nomatch harmed

/-- What the invariant promises of a state. -/
theorem Inv.faithful (h : w.Inv) : w.Faithful where
  reads := by
    obtain ⟨state, hlog⟩ := h.accepted
    refine ⟨state, w.activation, hlog, h.observed hlog, h.armed, ?_⟩
    intro caller hlive
    obtain ⟨hsynced, -, -⟩ := h.synced hlog
    have hassert : assertLive caller = .ok () := by simp [assertLive, hlive]
    simp only [GoalWorld.get, hassert, hsynced]
    unfold GoalCache.view FoldedGoal.view
    cases hgoal : state.goal with
    | none => simp [upToDate, GoalFoldState.folded, hgoal]
    | some goal =>
      obtain ⟨createdAt, updatedAt, hcarries⟩ := (foldGoalEvents_replays hlog).carries goal hgoal
      simp [upToDate, GoalFoldState.folded, hgoal, hcarries.created, hcarries.updated]
  atomic := h.settled
  history := by
    obtain ⟨state, hlog⟩ := h.accepted
    exact goalHistory hlog

/-- A step that leaves log and activation leaves what the service observes. -/
theorem Quiet.stepFaithful (h : w.Inv) (h' : w'.Inv) (hquiet : w.Quiet w') (hpush : act ≠ .push) :
    w.StepFaithful act w' where
  grows := fun hact => absurd hact hpush
  stays := fun _ => hquiet.log
  unchanged := by
    intro _ _ _
    obtain ⟨state, hlog⟩ := h.accepted
    have hlog' : foldGoalEvents w'.log = .ok state := by rw [hquiet.log, hlog]
    rw [h.observed hlog, h'.observed hlog', hquiet.activation]

/-- Every orderly step keeps the invariant and is faithful. -/
theorem Inv.step (h : w.Inv) (hfresh : w.FreshIds act) (horderly : w.Orderly act)
    (hstep : w.step config act = some w') : w'.Inv ∧ w.StepFaithful act w' := by
  cases act with
  | get caller =>
    cases hstep
    obtain ⟨hinv, hquiet⟩ := h.get caller
    exact ⟨hinv, hquiet.stepFaithful h hinv (fun heq => GoalAction.noConfusion heq)⟩
  | disarm caller =>
    cases hstep
    obtain ⟨hinv, hlog⟩ := h.disarm caller
    exact ⟨hinv, fun heq => GoalAction.noConfusion heq, fun _ => hlog,
      fun _ _ hne => absurd rfl (hne caller)⟩
  | sessionStart =>
    cases hstep
    obtain ⟨hinv, hlog⟩ := h.sessionStart horderly
    exact ⟨hinv, fun heq => GoalAction.noConfusion heq, fun _ => hlog, fun _ hne => absurd rfl hne⟩
  | request caller request time =>
    cases hstep
    obtain ⟨hinv, hquiet⟩ := h.request horderly hfresh
    exact ⟨hinv, hquiet.stepFaithful h hinv (fun heq => GoalAction.noConfusion heq)⟩
  | foreign data time surfaceOp sourceEventSeqs =>
    simp only [GoalWorld.step] at hstep
    split at hstep
    · rename_i hnone haccepted
      cases hstep
      have hinv := h.foreign hnone rfl haccepted
      exact ⟨hinv, Quiet.stepFaithful h hinv ⟨rfl, rfl⟩ (fun heq => GoalAction.noConfusion heq)⟩
    · cases hstep
  | veto message =>
    simp only [GoalWorld.step] at hstep
    split at hstep
    · rename_i append happend
      split at hstep
      · cases hstep
      rename_i hpushed
      cases hstep
      obtain ⟨hinv, hquiet⟩ := h.veto happend (Bool.eq_false_iff.mpr hpushed) message
      exact ⟨hinv, hquiet.stepFaithful h hinv (fun heq => GoalAction.noConfusion heq)⟩
    · cases hstep
  | push =>
    simp only [GoalWorld.step] at hstep
    split at hstep
    · rename_i append happend
      split at hstep
      · cases hstep
      rename_i hguard
      cases hstep
      simp only [Bool.or_eq_true, decide_eq_true_eq, not_or, not_le, Bool.not_eq_true] at hguard
      obtain ⟨hpushed, hroom⟩ := hguard
      have hfits := h.publication append happend
      obtain ⟨after, hafter⟩ := hfits.accepted hpushed hroom
      obtain ⟨state, hlog, hevent⟩ := foldGoalEvents_snoc_ok hafter
      refine ⟨h.push happend hpushed hroom horderly, ?_, fun hne => absurd rfl hne,
        fun hne => absurd rfl hne⟩
      intro _
      exact ⟨append, state, after, happend, rfl, hlog, hevent, fun call hown =>
        ⟨hfits.data call hown, hfits.current call hown hpushed⟩⟩
    · cases hstep
  | finish =>
    simp only [GoalWorld.step] at hstep
    split at hstep
    · rename_i append happend
      split at hstep
      · rename_i hpushed
        cases hstep
        obtain ⟨hinv, hquiet⟩ := h.finish happend hpushed
        exact ⟨hinv, hquiet.stepFaithful h hinv (fun heq => GoalAction.noConfusion heq)⟩
      · cases hstep
    · cases hstep
  | finishCall =>
    simp only [GoalWorld.step] at hstep
    split at hstep
    · rename_i call rest hnone hlistening
      cases hstep
      obtain ⟨hinv, hquiet⟩ := h.finishCall hlistening horderly
      exact ⟨hinv, hquiet.stepFaithful h hinv (fun heq => GoalAction.noConfusion heq)⟩
    · cases hstep

end GoalWorld

open Transitions

/-- The service with its default configuration. -/
def defaultGoalConfig : GoalServiceConfig where
  defaultMaxGoalRounds := 256
  positive := by decide

namespace ShipGoal

def agent : GoalCaller := { id := "agent", live := true }

def create : GoalRequest := .create { objective := .str "ship" } ⟨5, by decide⟩ "1"

def clear : GoalRequest :=
  .clear { id := "goal-1", revision := .finite (.int 1) } ⟨5, by decide⟩

/-- A goal is created, with nobody listening. -/
def created : List GoalAction := [.request agent create 0, .push, .finish, .finishCall]

/-- A listener of `goal/changed` clears the goal that has just been created. -/
def clearedByListener : List GoalAction :=
  [.request agent create 0, .push, .finish,
    .request agent clear 0, .push, .finish, .finishCall, .finishCall]

/-- A state in which the append under way edits nothing and a goal is current. -/
def settledGoal (w : GoalWorld) : Bool :=
  w.publication.all (fun append => append.own.all
      fun call => call.change.operation != .snapshot .edit) &&
    match w.cached with
    | .ok cache => cache.state.goal.isSome || w.listening.isEmpty
    | .error _ => true

theorem orderly_of_settledGoal {w : GoalWorld} (h : settledGoal w = true) :
    w.Orderly .push ∧ w.Orderly .finishCall := by
  simp only [settledGoal, Bool.and_eq_true] at h
  obtain ⟨hedit, hgoal⟩ := h
  constructor
  · intro append call cache pending happend hown _ _ hop _
    simp [happend, hown, hop] at hedit
  · intro call rest cache hlistening hcached _ hnone
    simp [hcached, hlistening, hnone] at hgoal

/-- Every state of the run is such a state. -/
theorem created_settledGoal (i : Nat) (s : GoalWorld)
    (h : run (GoalWorld.step defaultGoalConfig) (GoalWorld.opened []) (created.take i) = some s) :
    settledGoal s = true := by
  have hall : ∀ i ≤ 4, (run (GoalWorld.step defaultGoalConfig) (GoalWorld.opened [])
      (created.take i)).all settledGoal = true := by decide +kernel
  rcases Nat.le_total i 4 with hle | hge
  · have hi := hall i hle
    rw [h] at hi
    exact hi
  have htake : created.take i = created.take 4 := by
    rw [take_of_length_le (show created.length ≤ i from hge)]
    rfl
  have hi := hall 4 le_rfl
  rw [← htake, h] at hi
  exact hi

end ShipGoal

end Harness
