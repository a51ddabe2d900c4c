-- SUMMARY: What an accepted goal log promises: each step of the fold by cases, and the history of revisions it leaves.
import Harness.Goal.Codec
import Harness.Lib.Revisions

/-!
# Accepted goal logs

A log the fold accepts is a history of numbered revisions: one goal is open at a time, only
the open one is revised, and a goal id is used once.
-/

namespace Harness

open List

/-! ## Events -/

/-- The change an event records. -/
def goalChangeOf (event : SessionEvent) : Option GoalChange :=
  match event.data with
  | .other type data _ =>
    if type = goalChangeType then (decodeGoalChange data).toOption.join else none
  | _ => none

/-- The round a message asks for. -/
def goalRoundOf (event : SessionEvent) : Option GoalMessageSource :=
  match event.data with
  | .userMessage message => (goalSource message.source).toOption.join
  | _ => none

def GoalChange.time : GoalChange → Int
  | .snapshot change => change.updatedAt
  | .clear _ clearedAt => clearedAt

/-- The revision a change records. -/
def GoalChange.entry (change : GoalChange) : Revisions.Entry GoalId Int :=
  ⟨(goalChangeRef change).id, (goalChangeRef change).revision, change.time⟩

/-- The revisions a log records. -/
def goalEntries (events : List SessionEvent) : List (Revisions.Entry GoalId Int) :=
  (events.filterMap goalChangeOf).map GoalChange.entry

/-! ## One step -/

/-- A change the projection allows, and what it leaves. -/
inductive GoalFoldState.Accepts (state : GoalFoldState) : GoalChange → GoalFoldState → Prop where
  | clear {current : GoalSnapshot} {updatedAt clearedAt : Int} (goal : state.goal = some current)
      (dated : state.updatedAt = some updatedAt) (later : updatedAt ≤ clearedAt) :
      Accepts state (.clear ⟨current.id, current.revision + 1⟩ clearedAt)
        { state with
          goal := none, roundsStarted := 0, createdAt := none, updatedAt := none
          lastRef := some ⟨current.id, current.revision + 1⟩ }
  | create {change : GoalSnapshotChange} (operation : change.operation = .create)
      (founds : state.founds change = true) :
      Accepts state (.snapshot change)
        ({ state with seenGoalIds := state.seenGoalIds ++ [change.goal.id] }.install change)
  | revise {change : GoalSnapshotChange} {current : GoalSnapshot} {updatedAt : Int}
      (operation : change.operation ≠ .create) (goal : state.goal = some current)
      (id : change.goal.id = current.id) (revision : change.goal.revision = current.revision + 1)
      (dated : state.updatedAt = some updatedAt) (later : updatedAt ≤ change.updatedAt)
      (createdAt : state.createdAt = some change.createdAt)
      (roundsStarted : change.roundsStarted = state.roundsStarted)
      (valid : validateOperation state.roundsStarted change.operation current change.goal = .ok ()) :
      Accepts state (.snapshot change) (state.install change)

theorem requireNextRevision_ok {current : GoalSnapshot} {next : GoalRef}
    {operation : GoalOperation} :
    requireNextRevision current next operation = .ok () ↔
      next = ⟨current.id, current.revision + 1⟩ := by
  obtain ⟨id, revision⟩ := next
  simp only [requireNextRevision, GoalRef.mk.injEq]
  split
  · rename_i h
    simp only [reduceCtorEq, false_iff, not_and]
    intro hid hrevision
    rcases h with h | h
    · exact h hid
    · exact h hrevision
  · rename_i h
    simp only [true_iff]
    exact ⟨not_not.mp fun hid => h (.inl hid), not_not.mp fun hrevision => h (.inr hrevision)⟩

theorem applyGoalChange_accepts {state state' : GoalFoldState} {change : GoalChange}
    (h : applyGoalChange state change = .ok state') : state.Accepts change state' := by
  cases change with
  | clear cleared clearedAt =>
    simp only [applyGoalChange] at h
    split at h
    · cases h
    rename_i current hgoal
    split at h
    · cases h
    rename_i hnext
    split at h
    · cases h
    rename_i updatedAt hdated
    split at h
    · cases h
    rename_i hlater
    cases h
    cases requireNextRevision_ok.mp hnext
    exact .clear hgoal hdated (not_lt.mp hlater)
  | snapshot change =>
    simp only [applyGoalChange] at h
    split at h
    · rename_i hcreate
      split at h
      · rename_i hfounds
        cases h
        exact .create hcreate hfounds
      · cases h
    rename_i hcreate
    split at h
    · cases h
    rename_i current hgoal
    split at h
    · cases h
    rename_i hvalid
    cases h
    unfold validateSnapshotTransition at hvalid
    split at hvalid
    · cases hvalid
    rename_i hnext
    split at hvalid
    · cases hvalid
    rename_i updatedAt hdated
    split at hvalid
    · cases hvalid
    rename_i hcounters
    simp only [not_or, not_not, not_lt] at hcounters
    have href := requireNextRevision_ok.mp hnext
    have hid : change.goal.id = current.id := by rw [href]
    have hrevision : change.goal.revision = current.revision + 1 := by rw [href]
    exact .revise hcreate hgoal hid hrevision hdated hcounters.2.1 hcounters.1.symm
      hcounters.2.2 hvalid

/-- What the projection accepts it applies. -/
theorem GoalFoldState.Accepts.apply {state state' : GoalFoldState} {change : GoalChange}
    (h : state.Accepts change state') : applyGoalChange state change = .ok state' := by
  cases h with
  | @clear current updatedAt clearedAt goal dated later =>
    have hnext : requireNextRevision current ⟨current.id, current.revision + 1⟩ .clear = .ok () :=
      requireNextRevision_ok.mpr rfl
    simp only [applyGoalChange, goal, hnext, dated, not_lt.mpr later, if_false]
  | create operation founds => simp only [applyGoalChange, operation, founds, if_true]
  | @revise change current updatedAt operation goal id revision dated later createdAt roundsStarted
      valid =>
    have hnext : requireNextRevision current change.goal.toGoalRef (.snapshot change.operation)
        = .ok () := by
      rw [requireNextRevision_ok]
      cases href : change.goal.toGoalRef with
      | mk id' revision' => simp_all
    simp only [applyGoalChange, operation, if_false, goal, validateSnapshotTransition, hnext, dated,
      createdAt, roundsStarted, not_lt.mpr later, ne_eq, not_true_eq_false, or_self, valid]

/-- What one event does to the fold. -/
inductive GoalFoldState.Moves (state : GoalFoldState) (event : SessionEvent) :
    GoalFoldState → Prop where
  | change {change : GoalChange} {state' : GoalFoldState} (type : event.type = goalChangeType)
      (records : goalChangeOf event = some change) (wellFormed : change.WellFormed)
      (accepts : state.Accepts change state') : Moves state event state'
  | round {source : GoalMessageSource} (type : event.type ≠ goalChangeType)
      (records : goalChangeOf event = none) (asks : goalRoundOf event = some source)
      (admits : state.admits source = true) :
      Moves state event { state with roundsStarted := source.round }
  | other (type : event.type ≠ goalChangeType) (records : goalChangeOf event = none)
      (asks : goalRoundOf event = none) : Moves state event state

theorem applyGoalEvent_moves {state state' : GoalFoldState} {event : SessionEvent}
    (h : applyGoalEvent state event = .ok state') : state.Moves event state' := by
  unfold applyGoalEvent at h
  split at h
  · rename_i type data hmerged hdata
    split at h
    · rename_i htype
      have hchange : goalChangeOf event = (decodeGoalChange data).toOption.join := by
        simp [goalChangeOf, hdata, htype]
      have heventType : event.type = goalChangeType := by
        simp [SessionEvent.type, hdata, EventData.type, htype]
      split at h
      · cases h
      · cases h
      rename_i change hdecode
      rw [hdecode] at hchange
      exact .change heventType hchange (decodeGoalChange_wellFormed hdecode)
        (applyGoalChange_accepts h)
    · rename_i htype
      cases h
      exact .other (by simpa [SessionEvent.type, hdata, EventData.type] using htype)
        (by simp [goalChangeOf, hdata, htype]) (by simp [goalRoundOf, hdata])
  · rename_i message hdata
    have heventType : event.type ≠ goalChangeType := by
      rw [SessionEvent.type, hdata]
      simp only [EventData.type]
      decide
    have hchange : goalChangeOf event = none := by simp [goalChangeOf, hdata]
    have hround : goalRoundOf event = (goalSource message.source).toOption.join := by
      simp [goalRoundOf, hdata]
    split at h
    · cases h
    · rename_i hsource
      cases h
      rw [hsource] at hround
      exact .other heventType hchange hround
    · rename_i source hsource
      rw [hsource] at hround
      split at h
      · rename_i hadmits
        cases h
        exact .round heventType hchange hround hadmits
      · cases h
  · rename_i hother hmessage
    cases h
    have heventType : event.type ≠ goalChangeType := by
      cases hdata : event.data with
      | other type data merged => exact absurd hdata (hother type data merged)
      | _ =>
        rw [SessionEvent.type, hdata]
        simp only [EventData.type]
        decide
    refine .other heventType ?_ ?_
    · unfold goalChangeOf
      split
      · exact absurd ‹_› (hother _ _ _)
      · rfl
    · unfold goalRoundOf
      split
      · exact absurd ‹_› (hmessage _)
      · rfl

/-! ## Accepted logs -/

/-- The counters and timestamps that go with a current goal. -/
structure GoalFoldState.Carries (state : GoalFoldState) (goal : GoalSnapshot)
    (createdAt updatedAt : Int) : Prop where
  created : state.createdAt = some createdAt
  updated : state.updatedAt = some updatedAt
  createdTime : IsTime createdAt
  updatedTime : IsTime updatedAt
  ordered : createdAt ≤ updatedAt
  wellFormed : goal.WellFormed
  roundsStarted : state.roundsStarted ≤ maxSafeInteger

/-- The open revision of a projection. -/
def GoalFoldState.openEntry (state : GoalFoldState) : Option (Revisions.Entry GoalId Int) :=
  match state.goal, state.updatedAt with
  | some goal, some updatedAt => some ⟨goal.id, goal.revision, updatedAt⟩
  | _, _ => none

/-- What a projection says of the log it was replayed from. -/
structure GoalFoldState.Replays (state : GoalFoldState) (events : List SessionEvent) : Prop where
  carries : ∀ goal, state.goal = some goal →
    ∃ createdAt updatedAt, state.Carries goal createdAt updatedAt
  history : Revisions.History (goalEntries events) state.openEntry
  seen : ∀ entry ∈ goalEntries events, entry.key ∈ state.seenGoalIds

theorem goalEntries_snoc (events : List SessionEvent) (event : SessionEvent) :
    goalEntries (events ++ [event])
      = goalEntries events ++ ((goalChangeOf event).map GoalChange.entry).toList := by
  unfold goalEntries
  rw [filterMap_append, map_append]
  cases hchange : goalChangeOf event <;> simp [hchange]

theorem foldGoalEvents_snoc (events : List SessionEvent) (event : SessionEvent) :
    foldGoalEvents (events ++ [event])
      = (foldGoalEvents events).bind fun state => applyGoalEvent state event := by
  unfold foldGoalEvents
  rw [foldlM_append]
  show (List.foldlM applyGoalEvent emptyGoalFoldState events).bind _ = _
  congr 1
  funext state
  rw [foldlM_cons]
  cases applyGoalEvent state event <;> rfl

theorem foldGoalEvents_snoc_ok {events : List SessionEvent} {event : SessionEvent}
    {state' : GoalFoldState} (h : foldGoalEvents (events ++ [event]) = .ok state') :
    ∃ state, foldGoalEvents events = .ok state ∧ applyGoalEvent state event = .ok state' := by
  rw [foldGoalEvents_snoc] at h
  exact Except.bind_eq_ok.mp h

namespace GoalFoldState.Replays

variable {state state' : GoalFoldState} {events : List SessionEvent} {event : SessionEvent}

/-- The open revision of a current goal. -/
theorem openEntry_eq (h : state.Replays events) {goal : GoalSnapshot}
    (hgoal : state.goal = some goal) :
    ∃ updatedAt, state.updatedAt = some updatedAt ∧
      state.openEntry = some ⟨goal.id, goal.revision, updatedAt⟩ := by
  obtain ⟨createdAt, updatedAt, hcarries⟩ := h.carries goal hgoal
  exact ⟨updatedAt, hcarries.updated, by simp only [openEntry, hgoal, hcarries.updated]⟩

theorem seen_current (h : state.Replays events) {goal : GoalSnapshot}
    (hgoal : state.goal = some goal) : goal.id ∈ state.seenGoalIds := by
  obtain ⟨updatedAt, -, hopen⟩ := h.openEntry_eq hgoal
  exact h.seen _ (h.history.last_mem hopen)

/-- A revision is no larger than the log is long. -/
theorem revision_le (h : state.Replays events) {goal : GoalSnapshot}
    (hgoal : state.goal = some goal) : goal.revision ≤ events.length := by
  obtain ⟨updatedAt, -, hopen⟩ := h.openEntry_eq hgoal
  have hlast := h.history.last_of hopen
  have hcounted := h.history.counted goal.id
  have hrevision : goal.revision ∈ (Revisions.of goal.id (goalEntries events)).map
      Revisions.Entry.revision :=
    mem_map.mpr ⟨_, mem_of_getLast? hlast, rfl⟩
  rw [hcounted, mem_range'_1] at hrevision
  have hof : (Revisions.of goal.id (goalEntries events)).length ≤ (goalEntries events).length :=
    length_filter_le _ _
  have hentries : (goalEntries events).length ≤ events.length := by
    rw [goalEntries, length_map]
    exact length_filterMap_le _ _
  omega

theorem empty : emptyGoalFoldState.Replays [] where
  carries := nofun
  history := .empty
  seen := nofun

/-- A change that is accepted extends the history. -/
theorem accept (h : state.Replays events) {change : GoalChange}
    (hrecords : goalChangeOf event = some change) (hwell : change.WellFormed)
    (haccepts : state.Accepts change state') : state'.Replays (events ++ [event]) := by
  have hentries : goalEntries (events ++ [event]) = goalEntries events ++ [change.entry] := by
    rw [goalEntries_snoc, hrecords]
    rfl
  -- every key of the longer history is in the accumulator once the change's own key is
  have hseen (hold : ∀ id ∈ state.seenGoalIds, id ∈ state'.seenGoalIds)
      (hown : change.entry.key ∈ state'.seenGoalIds) :
      ∀ entry ∈ goalEntries (events ++ [event]), entry.key ∈ state'.seenGoalIds := by
    intro entry hentry
    rw [hentries, mem_append, mem_singleton] at hentry
    rcases hentry with hentry | rfl
    · exact hold _ (h.seen entry hentry)
    · exact hown
  cases haccepts with
  | @clear current updatedAt clearedAt goal dated later =>
    obtain ⟨updatedAt', hdated, hopen⟩ := h.openEntry_eq goal
    cases dated.symm.trans hdated
    have hhistory := h.history
    rw [hopen] at hhistory
    refine ⟨fun _ hnone => (nomatch hnone), ?_, hseen (fun _ => id) (h.seen_current goal)⟩
    rw [hentries]
    exact .close (.next hhistory later)
  | @create change operation founds =>
    simp only [GoalFoldState.founds, Bool.and_eq_true, beq_iff_eq, Bool.not_eq_true'] at founds
    obtain ⟨⟨⟨⟨hrevision, -⟩, -⟩, -⟩, hunseen⟩ := founds
    have hfresh : change.goal.id ∉ state.seenGoalIds := by simpa using hunseen
    refine ⟨?_, ?_, hseen (fun id hid => mem_append_left _ hid)
      (mem_append_right _ (mem_singleton.mpr rfl))⟩
    · rintro goal hgoal
      cases hgoal
      exact ⟨_, _, rfl, rfl, hwell.createdAt, hwell.updatedAt, hwell.ordered, hwell.goal,
        hwell.roundsStarted⟩
    rw [hentries]
    have hentry : (GoalChange.snapshot change).entry = ⟨change.goal.id, 1, change.updatedAt⟩ := by
      simp [GoalChange.entry, goalChangeRef, GoalChange.time, hrevision]
    have hopen : (({ state with seenGoalIds := state.seenGoalIds ++ [change.goal.id] } :
        GoalFoldState).install change).openEntry = some ⟨change.goal.id, 1, change.updatedAt⟩ := by
      simp [GoalFoldState.openEntry, GoalFoldState.install, hrevision]
    rw [hentry, hopen]
    exact .start _ h.history fun entry hentry hkey => hfresh (hkey ▸ h.seen entry hentry)
  | @revise change current updatedAt operation goal id revision dated later createdAt roundsStarted
      valid =>
    obtain ⟨updatedAt', hdated, hopen⟩ := h.openEntry_eq goal
    cases dated.symm.trans hdated
    have hhistory := h.history
    rw [hopen] at hhistory
    refine ⟨?_, ?_, hseen (fun _ hid => hid) ?_⟩
    · rintro goal hgoal
      cases hgoal
      exact ⟨_, _, rfl, rfl, hwell.createdAt, hwell.updatedAt, hwell.ordered, hwell.goal,
        hwell.roundsStarted⟩
    · rw [hentries]
      have hentry : (GoalChange.snapshot change).entry
          = ⟨current.id, current.revision + 1, change.updatedAt⟩ := by
        simp [GoalChange.entry, goalChangeRef, GoalChange.time, id, revision]
      have hopen' : (state.install change).openEntry
          = some ⟨current.id, current.revision + 1, change.updatedAt⟩ := by
        simp [GoalFoldState.openEntry, GoalFoldState.install, id, revision]
      rw [hentry, hopen']
      exact .next hhistory later
    · have hkey : (GoalChange.snapshot change).entry.key = current.id := id
      rw [hkey]
      exact h.seen_current goal

/-- One event that the fold accepts. -/
theorem step (h : state.Replays events) (haccepts : applyGoalEvent state event = .ok state') :
    state'.Replays (events ++ [event]) := by
  cases applyGoalEvent_moves haccepts with
  | change type records wellFormed accepts => exact h.accept records wellFormed accepts
  | @round source type records asks admits =>
    have hentries : goalEntries (events ++ [event]) = goalEntries events := by
      simp [goalEntries_snoc, records]
    refine ⟨?_, ?_, ?_⟩
    · intro goal hgoal
      obtain ⟨createdAt, updatedAt, hcarries⟩ := h.carries goal hgoal
      have hmax := hcarries.wellFormed.maxGoalRounds.2
      have hcap : source.round ≤ goal.maxGoalRounds := by
        have hgoal' : state.goal = some goal := hgoal
        simp only [GoalFoldState.admits, hgoal', Option.any_some, Bool.and_eq_true,
          decide_eq_true_eq] at admits
        exact admits.2
      exact ⟨createdAt, updatedAt, { hcarries with roundsStarted := hcap.trans hmax }⟩
    · rw [hentries]
      exact h.history
    · rw [hentries]
      exact h.seen
  | other type records asks =>
    have hentries : goalEntries (events ++ [event]) = goalEntries events := by
      simp [goalEntries_snoc, records]
    exact ⟨h.carries, by rw [hentries]; exact h.history, by rw [hentries]; exact h.seen⟩

end GoalFoldState.Replays

/-- An accepted log is a history of revisions. -/
theorem foldGoalEvents_replays {events : List SessionEvent} {state : GoalFoldState}
    (h : foldGoalEvents events = .ok state) : state.Replays events := by
  induction events using List.reverseRecOn generalizing state with
  | nil =>
    cases h
    exact .empty
  | append_singleton events event ih =>
    obtain ⟨before, hbefore, hevent⟩ := foldGoalEvents_snoc_ok h
    exact (ih hbefore).step hevent

end Harness
