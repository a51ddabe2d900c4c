-- SUMMARY: A session is a list of accepted events; its caches agree with the log they were built from, and what each read and each push does to them.
import Harness.Session.Session
import Harness.Session.SurfaceManager

/-!
# The cacheless session

The abstract counterpart of `Session`. It keeps the accepted events and the store
attachment and nothing else: every read refolds the whole log, and a candidate is
accepted when the log that ends in it refolds.
-/

namespace Harness

structure SessionSpec where
  events : List SessionEvent
  entry : Attachment

namespace SessionSpec

variable (t : SessionSpec)

def nodes : Except String (List Nat) := (foldSurface t.events).map (·.nodes)

def replaceGeneration : Nat := t.events.countP isReplacementSurfaceEvent

/-- The message a surface node derives to, if any. -/
def projectEvent (events : List SessionEvent) (seq : Nat) : Option Message :=
  events[seq]?.bind deriveEventMessage

def deriveMessages : Except String (List Message) :=
  (foldSurface t.events).map fun surface => surface.nodes.filterMap (projectEvent t.events)

def requestHeader : Option EpochHeader := foldRequestHeader t.events none

def requestContext : Option RequestContext :=
  t.events.foldl Session.foldContextEvent none

/-- The event an append would log. -/
def planAppend (request : AppendRequest) : Except String SessionEvent :=
  match request.prepare t.events.length t.entry.appending with
  | .error e => .error e
  | .ok event => (foldSurface (t.events ++ [event])).map fun _ => event

def push (event : SessionEvent) : SessionSpec :=
  { t with events := t.events ++ [event] }

mutual

/-- Run one call to its end. -/
def step (t : SessionSpec) : SessionOp → SessionReply × SessionSpec
  | .events => (.events t.events, t)
  | .seq => (.seq t.events.length, t)
  | .nodes => (.nodes t.nodes, t)
  | .replaceGeneration => (.replaceGeneration (.ok t.replaceGeneration), t)
  | .deriveMessages => (.deriveMessages t.deriveMessages, t)
  | .requestHeader => (.requestHeader t.requestHeader, t)
  | .requestContext => (.requestContext t.requestContext, t)
  | .append request dispatch veto observers =>
    match t.planAppend request with
    | .error e => (.append [] (.error e) [], t)
    | .ok event =>
      if t.entry.isNone then (.append [] (.ok event) [], t.push event)
      else
        let (dispatched, t) := runOps { t with entry := t.entry.beginAppend } dispatch
        match veto with
        | some e => (.append dispatched (.error e) [], { t with entry := t.entry.finishAppend })
        | none =>
          let (observed, t) := runOps (t.push event) observers
          (.append dispatched (.ok event) observed, { t with entry := t.entry.finishAppend })
  | .enter =>
    let (result, entry) := t.entry.enter
    (.enter result, { t with entry })
  | .announce listeners veto =>
    match t.entry.beginAnnounce with
    | .error e => (.announce [] (.error e), t)
    | .ok entry =>
      let (listened, t) := runOps { t with entry } listeners
      (.announce listened (veto.elim (.ok ()) .error), { t with entry := t.entry.finishAnnounce })
  | .detach => (.detach, { t with entry := t.entry.detach })

def runOps (t : SessionSpec) : List SessionOp → List SessionReply × SessionSpec
  | [] => ([], t)
  | op :: ops =>
    let (reply, t) := step t op
    let (replies, t) := runOps t ops
    (reply :: replies, t)

end

end SessionSpec

end Harness

namespace Harness

open List

/-! ## Plans and refolds -/

/-- The refold of a log that grew by one event is the plan of that event. -/
theorem foldSurface_snoc {log : List SessionEvent} {state : SurfaceFoldState}
    {replacements : List SurfaceFoldReplacement} (h : SurfaceAccepts log state replacements)
    (event : SessionEvent) :
    (foldSurface (log ++ [event])).map (fun _ => ()) =
      (planSurfaceEvent state event log.length log 0).map fun _ => () := by
  have hcongr : planSurfaceEvent state event log.length (log ++ [event]) 0 =
      planSurfaceEvent state event log.length log 0 := by
    apply planSurfaceEvent_congr
    intro x hx
    rw [getElem?_append_left (h.nodes_lt x hx)]
  rw [foldSurface, foldSurfaceFrom_append, h.foldSurfaceFrom]
  simp only [foldSurfaceFrom, Nat.zero_add, applySurfaceEvent, hcongr]
  cases planSurfaceEvent state event log.length log 0 <;> rfl

namespace Session

/-! ## The invariant -/

/-- The derived messages are those of the surface some prefix of the log folds to. -/
def DerivedFrom (s : Session) (j : Nat) : Prop :=
  ∃ state replacements, SurfaceAccepts (LogEntry.events (s.log.take j)) state replacements ∧
    state.replaceGeneration = s.derivedGeneration ∧ state.nodes.length = s.derivedNodes ∧
    s.derived = state.nodes.filterMap (projectNode s.log)

structure Inv (s : Session) : Prop where
  accepted : ∃ state replacements, SurfaceAccepts (LogEntry.events s.log) state replacements
  manager : ∃ k, s.surfaceManager.Tracks s.log k
  identities : ∀ entry ∈ s.log, entry.identity < s.nextIdentity
  snapshot : ∀ es, s.eventsSnapshot = some es → es = LogEntry.events s.log
  headerSeq : s.headerFoldSeq ≤ s.log.length
  header : s.headerFold = foldRequestHeader (LogEntry.events (s.log.take s.headerFoldSeq)) none
  contextSeq : s.contextFoldSeq ≤ s.log.length
  context : s.contextFold =
    (LogEntry.events (s.log.take s.contextFoldSeq)).foldl foldContextEvent none
  derivedFrom : ∃ j ≤ s.log.length, s.DerivedFrom j

theorem Inv.empty : Inv empty where
  accepted := ⟨_, _, .nil⟩
  manager := ⟨0, .create⟩
  identities := by simp [Session.empty]
  snapshot := by simp [Session.empty]
  headerSeq := Nat.le_refl _
  header := rfl
  contextSeq := Nat.le_refl _
  context := rfl
  derivedFrom := ⟨0, Nat.le_refl _, _, _, .nil, rfl, rfl, rfl⟩

variable {s : Session}

/-- The attachment plays no part in the invariant. -/
theorem Inv.withEntry (h : s.Inv) (entry : Attachment) : Inv { s with entry } := { h with }

theorem Inv.withManager (h : s.Inv) {m : SurfaceManager} {k : Nat}
    (hm : m.Tracks s.log k) : Inv { s with surfaceManager := m } :=
  { h with
    manager := ⟨k, hm⟩ }

theorem Inv.withIdentity (h : s.Inv) : Inv { s with nextIdentity := s.nextIdentity + 1 } :=
  { h with
    identities := fun entry hentry => Nat.lt_succ_of_lt (h.identities entry hentry) }

/-! ## Reads -/

theorem Inv.events (h : s.Inv) : s.events.1 = LogEntry.events s.log ∧ s.events.2.Inv ∧
      s.events.2.log = s.log ∧ s.events.2.entry = s.entry := by
  unfold Session.events
  cases hsnapshot : s.eventsSnapshot with
  | some es => exact ⟨h.snapshot es hsnapshot, h, rfl, rfl⟩
  | none =>
    refine ⟨rfl, ?_, rfl, rfl⟩
    exact { h with snapshot := by rintro es ⟨rfl⟩; rfl }

variable {replacements : List SurfaceFoldReplacement} {state : SurfaceFoldState}

/-- What a drained surface read returns, and what it leaves behind. -/
theorem Inv.surfaceRead (h : s.Inv)
    (haccepts : SurfaceAccepts (LogEntry.events s.log) state replacements) :
    (s.surfaceManager.drain s.log).1 = .ok () ∧
      (s.surfaceManager.drain s.log).2.Tracks s.log s.log.length ∧
      (s.surfaceManager.drain s.log).2.state = state := by
  obtain ⟨k, hk⟩ := h.manager
  exact hk.drain haccepts

theorem Inv.nodes (h : s.Inv)
    (haccepts : SurfaceAccepts (LogEntry.events s.log) state replacements) :
    s.nodes = (.ok state.nodes, { s with surfaceManager := (s.surfaceManager.drain s.log).2 }) := by
  obtain ⟨hok, -, rfl⟩ := h.surfaceRead haccepts
  simp [Session.nodes, SurfaceManager.nodes, hok, Except.map]

theorem Inv.replaceGeneration (h : s.Inv)
    (haccepts : SurfaceAccepts (LogEntry.events s.log) state replacements) :
    s.replaceGeneration = (.ok state.replaceGeneration,
      { s with surfaceManager := (s.surfaceManager.drain s.log).2 }) := by
  obtain ⟨hok, -, rfl⟩ := h.surfaceRead haccepts
  simp [Session.replaceGeneration, SurfaceManager.replaceGeneration, hok, Except.map]

theorem projectNode_eq (log : List LogEntry) (seq : Nat) :
    projectNode log seq = SessionSpec.projectEvent (LogEntry.events log) seq := by
  simp only [projectNode, SessionSpec.projectEvent, getElem?_map]
  cases log[seq]? <;> rfl

/-- The message cache, brought up to the current surface, holds the messages of
every node of it. -/
theorem DerivedFrom.extend {j : Nat} (h : s.DerivedFrom j)
    (haccepts : SurfaceAccepts (LogEntry.events s.log) state replacements) :
    let r := s.refreshDerived state.replaceGeneration
    r.derived ++ (state.nodes.drop r.derivedNodes).filterMap (projectNode s.log) =
      state.nodes.filterMap (projectNode s.log) := by
  intro r
  by_cases hgeneration : state.replaceGeneration = s.derivedGeneration
  · have hr : r = s := if_neg (not_not.mpr hgeneration)
    obtain ⟨before, _, hbefore, hgen, hlen, hderived⟩ := h
    have hsplit : LogEntry.events s.log =
        LogEntry.events (s.log.take j) ++ LogEntry.events (s.log.drop j) := by
      rw [← map_append, take_append_drop]
    rw [hsplit] at haccepts
    obtain ⟨extra, hextra⟩ := (hbefore.grows haccepts).2 (hgen.trans hgeneration.symm)
    rw [hr, ← hextra, ← hlen, hderived, drop_left, filterMap_append]
  · have hderived : r.derived = [] ∧ r.derivedNodes = 0 := by
      simp only [r, refreshDerived, if_pos hgeneration, and_self]
    rw [hderived.1, hderived.2]
    simp

theorem refreshDerived_frame (s : Session) (generation : Nat) :
    s.refreshDerived generation =
      { s with
        derived := (s.refreshDerived generation).derived
        derivedNodes := (s.refreshDerived generation).derivedNodes
        derivedGeneration := generation } := by
  unfold refreshDerived
  split
  · rfl
  · rename_i hsame
    rw [not_not.mp hsame]

theorem Inv.deriveMessages (h : s.Inv)
    (haccepts : SurfaceAccepts (LogEntry.events s.log) state replacements) :
    s.deriveMessages = (.ok (state.nodes.filterMap (projectNode s.log)),
      { s with
        surfaceManager := (s.surfaceManager.drain s.log).2
        derived := state.nodes.filterMap (projectNode s.log)
        derivedNodes := state.nodes.length
        derivedGeneration := state.replaceGeneration }) := by
  obtain ⟨-, htracks, -⟩ := h.surfaceRead haccepts
  have hdrained : Inv { s with surfaceManager := (s.surfaceManager.drain s.log).2 } :=
    h.withManager htracks
  obtain ⟨j, -, hj⟩ := hdrained.derivedFrom
  have hextend := hj.extend haccepts
  simp only at hextend
  unfold Session.deriveMessages
  rw [h.nodes haccepts]
  simp only
  rw [hdrained.replaceGeneration haccepts]
  simp only [htracks.drain_self]
  rw [refreshDerived_frame]
  simp only [hextend]

theorem Inv.afterDerive (h : s.Inv)
    (haccepts : SurfaceAccepts (LogEntry.events s.log) state replacements) :
    s.deriveMessages.2.Inv := by
  obtain ⟨-, htracks, -⟩ := h.surfaceRead haccepts
  rw [h.deriveMessages haccepts]
  refine { h.withManager htracks with derivedFrom := ?_ }
  refine ⟨s.log.length, Nat.le_refl _, state, replacements, ?_, rfl, rfl, rfl⟩
  rwa [take_length]

/-- An incremental fold over the log: what is folded and what is not make the whole. -/
theorem foldl_take_drop {α : Type} (f : α → SessionEvent → α) (init : α) (log : List LogEntry)
    (k : Nat) :
    (LogEntry.events (log.drop k)).foldl f ((LogEntry.events (log.take k)).foldl f init) =
      (LogEntry.events log).foldl f init := by
  rw [← foldl_append, ← map_append, take_append_drop]

theorem Inv.requestHeader (h : s.Inv) :
    s.requestHeader.1 = foldRequestHeader (LogEntry.events s.log) none ∧ s.requestHeader.2.Inv ∧
      s.requestHeader.2.log = s.log ∧ s.requestHeader.2.entry = s.entry := by
  unfold Session.requestHeader
  split
  · have hfold : foldRequestHeader ((s.log.drop s.headerFoldSeq).map LogEntry.event) s.headerFold =
        foldRequestHeader (LogEntry.events s.log) none := by
      rw [h.header]
      exact foldl_take_drop foldHeaderEvent none s.log s.headerFoldSeq
    refine ⟨hfold, ?_, rfl, rfl⟩
    exact { h with
      headerSeq := Nat.le_refl _
      header := by rw [take_length]; exact hfold }
  · rename_i hcaughtUp
    have hk : s.headerFoldSeq = s.log.length := Nat.le_antisymm h.headerSeq (Nat.le_of_not_lt hcaughtUp)
    refine ⟨?_, h, rfl, rfl⟩
    rw [h.header, hk, take_length]

theorem Inv.requestContext (h : s.Inv) :
    s.requestContext.1 = (LogEntry.events s.log).foldl foldContextEvent none ∧
      s.requestContext.2.Inv ∧ s.requestContext.2.log = s.log ∧
      s.requestContext.2.entry = s.entry := by
  unfold Session.requestContext
  split
  · have hfold : ((s.log.drop s.contextFoldSeq).map LogEntry.event).foldl foldContextEvent
          s.contextFold = (LogEntry.events s.log).foldl foldContextEvent none := by
      rw [h.context]
      exact foldl_take_drop foldContextEvent none s.log s.contextFoldSeq
    refine ⟨hfold, ?_, rfl, rfl⟩
    exact { h with
      contextSeq := Nat.le_refl _
      context := by rw [take_length]; exact hfold }
  · rename_i hcaughtUp
    have hk : s.contextFoldSeq = s.log.length :=
      Nat.le_antisymm h.contextSeq (Nat.le_of_not_lt hcaughtUp)
    refine ⟨?_, h, rfl, rfl⟩
    rw [h.context, hk, take_length]

/-! ## Pushes -/

/-- A candidate that may enter the log: the full fold accepts it and the manager
does not confuse it with what it has pending. -/
structure Planned (s : Session) (candidate : LogEntry) : Prop where
  caughtUp : s.surfaceManager.Tracks s.log s.log.length
  accepted : ∃ state replacements,
    SurfaceAccepts (LogEntry.events (s.log ++ [candidate])) state replacements
  pending : ∃ expectedSeq plan, s.surfaceManager.pendingPlan =
    some { event := candidate, expectedSeq, plan }
  identity : candidate.identity < s.nextIdentity

theorem Inv.push (h : s.Inv) {candidate : LogEntry} (hplanned : s.Planned candidate) :
    (s.push candidate).Inv where
  accepted := hplanned.accepted
  manager := by
    refine ⟨_, hplanned.caughtUp.push ?_⟩
    obtain ⟨expectedSeq, plan, hpending⟩ := hplanned.pending
    intro p hp _
    rw [hpending] at hp
    cases hp
    rfl
  identities := by
    intro entry hentry
    rcases mem_append.mp hentry with hentry | hentry
    · exact h.identities entry hentry
    · rw [mem_singleton.mp hentry]
      exact hplanned.identity
  snapshot := by simp [Session.push]
  headerSeq := by simpa [Session.push] using Nat.le_succ_of_le h.headerSeq
  header := by simpa [Session.push, take_append_of_le_length h.headerSeq] using h.header
  contextSeq := by simpa [Session.push] using Nat.le_succ_of_le h.contextSeq
  context := by simpa [Session.push, take_append_of_le_length h.contextSeq] using h.context
  derivedFrom := by
    obtain ⟨j, hj, state, replacements, haccepts, hgeneration, hlen, hderived⟩ := h.derivedFrom
    refine ⟨j, by simpa [Session.push] using Nat.le_succ_of_le hj, state, replacements, ?_,
      hgeneration, hlen, ?_⟩
    · simpa [Session.push, take_append_of_le_length hj] using haccepts
    rw [show (s.push candidate).derived = s.derived from rfl, hderived]
    -- a cached node lies in the old log, where the push changes nothing
    apply filterMap_congr
    intro seq hseq
    have hlt : seq < s.log.length := by
      have := haccepts.nodes_lt seq hseq
      simp only [length_map, length_take] at this
      omega
    simp [projectNode, Session.push, getElem?_append_left hlt]

/-- Everything one planned or rejected candidate leaves behind. -/
theorem Inv.planAppend (h : s.Inv) (request : AppendRequest) :
    (s.planAppend request).2.Inv ∧ (s.planAppend request).2.log = s.log ∧
      (s.planAppend request).2.entry = s.entry ∧
      (s.planAppend request).1.map LogEntry.event =
        SessionSpec.planAppend { events := LogEntry.events s.log, entry := s.entry } request ∧
      ∀ candidate, (s.planAppend request).1 = .ok candidate →
        (s.planAppend request).2.Planned candidate := by
  unfold Session.planAppend SessionSpec.planAppend
  rw [length_map]
  cases hprepare : request.prepare s.log.length s.entry.appending with
  | error e => exact ⟨h, rfl, rfl, rfl, by simp⟩
  | ok event =>
    obtain ⟨state, replacements, haccepts⟩ := h.accepted
    obtain ⟨k, hk⟩ := h.manager
    have hfresh : ∀ entry ∈ s.log, entry.identity ≠
        ({ identity := s.nextIdentity, event } : LogEntry).identity :=
      fun entry hentry => Nat.ne_of_lt (h.identities entry hentry)
    obtain ⟨htracks, hresult⟩ := hk.validateNext haccepts hfresh
    have hsnoc := foldSurface_snoc haccepts event
    rw [length_map] at hsnoc
    simp only
    cases hplan : planSurfaceEvent state event s.log.length (LogEntry.events s.log) 0 with
    | error e =>
      rw [hplan] at hresult hsnoc
      have hvalidate : s.surfaceManager.validateNext s.log ⟨s.nextIdentity, event⟩ =
          (.error e, (s.surfaceManager.validateNext s.log ⟨s.nextIdentity, event⟩).2) :=
        Prod.ext hresult.1 rfl
      rw [hvalidate]
      refine ⟨h.withIdentity.withManager htracks, rfl, rfl, ?_, by simp⟩
      cases hfold : foldSurface (LogEntry.events s.log ++ [event]) with
      | error e' =>
        rw [hfold] at hsnoc
        cases hsnoc
        rfl
      | ok result =>
        rw [hfold] at hsnoc
        cases hsnoc
    | ok plan =>
      rw [hplan] at hresult hsnoc
      have hvalidate : s.surfaceManager.validateNext s.log ⟨s.nextIdentity, event⟩ =
          (.ok (), (s.surfaceManager.validateNext s.log ⟨s.nextIdentity, event⟩).2) :=
        Prod.ext hresult.1 rfl
      rw [hvalidate]
      refine ⟨h.withIdentity.withManager htracks, rfl, rfl, ?_, ?_⟩
      · cases hfold : foldSurface (LogEntry.events s.log ++ [event]) with
        | error e' =>
          rw [hfold] at hsnoc
          cases hsnoc
        | ok result => rfl
      · rintro candidate ⟨rfl⟩
        refine ⟨htracks, ?_, ⟨_, plan, hresult.2⟩, Nat.lt_succ_self _⟩
        have hplan' : planSurfaceEvent state event (LogEntry.events s.log).length
            (LogEntry.events s.log) 0 = .ok plan := by rwa [length_map]
        exact ⟨_, _, by simpa using haccepts.snoc hplan'⟩

end Session

end Harness
