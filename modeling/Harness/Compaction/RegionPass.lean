-- SUMMARY: The passes of the three compaction backends: a region call is accepted by both validators and closes its bracket on every outcome.
import Harness.Compaction.EntryState
import Harness.Json.RoundTrip
import Harness.Session.Growth
import Harness.TokenMeter.MeterSurface
import Mathlib.Algebra.Order.BigOperators.Group.List

namespace Harness

namespace AppendOutcome

/-- Neither validator rejects the event; a refused append has none. -/
def Accepted : AppendOutcome → Prop
  | .vetoed .. => False
  | .refused _ | .logged _ => True

end AppendOutcome

namespace PassRun

/-- Every event of the pass is accepted, and a bracket it opened is closed. -/
structure Clean (p : PassRun) : Prop where
  accepted : ∀ outcome ∈ p.outcomes, outcome.Accepted
  closed : ∀ event, .logged event ∈ p.outcomes → event.type = ("compaction/start" : JsString) →
    p.session.compaction.compaction = none

end PassRun

/-! ## The fold pass -/

/-- Where a fold pass is started from: a step boundary, a pressure check that looked up the
latest started turn, or a manual request. -/
inductive FoldCall where
  | preStep (turn step : Nat)
  | compactIfNeeded (currentTurn : Option Nat)
  | compactNow

namespace FoldCall

def turn : FoldCall → Option Nat
  | .preStep turn _ => some turn
  | .compactIfNeeded currentTurn => currentTurn
  | .compactNow => none

def step : FoldCall → Nat
  | .preStep _ step => step
  | .compactIfNeeded _ | .compactNow => 0

end FoldCall

namespace GuardedSession

/-- `executeFolds`, with the validators listening. -/
def executeFolds (s : GuardedSession) (x : FoldTransaction) (ops : List FoldOp) :
    Except String Unit × PassRun :=
  match s.session.nodes with
  | .error e => (.error e, { session := s })
  | .ok nodes =>
    match assertFoldOpsApply nodes ops with
    | .error e => (.error e, { session := s })
    | .ok () => PassRun.appendAll { session := s } (x.startRequest ::
        (ops.flatMap fun op => [x.summaryRequest op, x.foldRequest op]) ++ [x.endRequest])

/-- The end of a fold pass: land the plan, unless it is empty. -/
def foldPass (s : GuardedSession) (call : FoldCall) (x : FoldTransaction) (ops : List FoldOp) :
    Except String Unit × PassRun :=
  if ops.length = 0 then (.ok (), { session := s })
  else s.executeFolds { x with turn := call.turn, step := call.step } ops

end GuardedSession

/-! ## Any pass -/

inductive CompactionPass where
  | region (call : RegionCall)
  | prune (config : PruneConfig) (clock : Nat → Int)
  | fold (call : FoldCall) (x : FoldTransaction) (ops : List FoldOp)

namespace CompactionPass

def run (s : GuardedSession) : CompactionPass → PassRun
  | .region call => (call.compactSurfaceRegion s).2
  | .prune config clock => (ToolResultPruner.pruneSession config clock s).2
  | .fold call x ops => (s.foldPass call x ops).2

/-- What holds where a pass is started. A region call meets events of others, who do not
know its identity, and a surface whose price is a number JavaScript counts with; the
listener of `agent/pre-step` runs before the step opens. -/
def StartedAt (s : GuardedSession) : CompactionPass → Prop
  | .region call =>
    (∀ request ∈ call.others, ∀ data, request.payload = .lossless data →
        CompactionSessionTrace.Foreign call.compactionId.val data) ∧
      ∀ nodes, s.session.nodes = .ok nodes → totalTokens (priced s.events nodes) ≤ maxSafeInteger
  | .prune .. => True
  | .fold (.preStep _ _) .. => s.trace.openStep = none
  | .fold .. => True

/-- The passes whose events the validators accept: a fold pass that lands nothing, a prune
pass inside a turn or over a surface within budget, and every region call. -/
def Clear (s : GuardedSession) : CompactionPass → Prop
  | .region _ => True
  | .prune config _ =>
    s.trace.openTurn.isSome = true ∨
      ∀ nodes, s.session.nodes = .ok nodes →
        ∀ candidate ∈ ToolResultPruner.candidates s.events nodes,
          ToolResultPruner.measureContent candidate.2.message.block.content ≤ config.thresholdChars
  | .fold _ _ ops =>
    ops = [] ∨ ∀ nodes, s.session.nodes = .ok nodes → (assertFoldOpsApply nodes ops).isOk = false

end CompactionPass

/-- A session whose traces are seeded from its accepted log, between two appends. The log
is an array, so that its length is a safe integer, and the metadata of its tool results are
objects, so that they repeat no key. -/
structure GuardedSession.Reached (s : GuardedSession) : Prop where
  accepts : ∃ state replacements, SurfaceAccepts s.events state replacements
  trace : SessionTrace.fresh.seed s.events = .ok s.trace
  compaction : CompactionSessionTrace.seed s.events = .ok s.compaction
  idle : s.session.entry.appending = false
  length_le : s.events.length ≤ maxSafeInteger
  proper : ∀ event ∈ s.events, ∀ data, event.data = .toolResult data →
    ∀ value, data.presentation = some value → value.Proper

end Harness

namespace Harness

open List CompactionSessionTrace

namespace PassRun

/-- A pass whose appends so far are accepted, on a session open to more. -/
structure Steady (p : PassRun) : Prop where
  ready : ∃ state, p.session.Ready state
  accepted : ∀ outcome ∈ p.outcomes, outcome.Accepted

theorem Steady.withSession {p : PassRun} (h : p.Steady) {s : GuardedSession}
    (hready : ∃ state, s.Ready state) : Steady { p with session := s } :=
  ⟨hready, h.accepted⟩

/-- An append that the validators do not reject keeps a pass steady. -/
theorem Steady.append {p : PassRun} (h : p.Steady) {request : AppendRequest}
    (hvalid : ∀ event, request.prepare p.session.seq false = .ok event →
      ∃ traces, p.session.validate event = .ok traces) :
    (p.append request).2.Steady ∧
      ((∃ e, p.append request =
          (.error e, { p with outcomes := p.outcomes ++ [.refused e] })) ∨
        ∃ event traces, request.prepare p.session.seq false = .ok event ∧
          p.session.validate event = .ok traces ∧
          p.append request = (.ok event,
            { session := p.session.logged event traces
              outcomes := p.outcomes ++ [.logged event] })) := by
  obtain ⟨state, hready⟩ := h.ready
  have hsnoc : ∀ outcome : AppendOutcome, outcome.Accepted →
      ∀ o ∈ p.outcomes ++ [outcome], o.Accepted := by
    intro outcome houtcome o ho
    rcases mem_append.mp ho with ho | ho
    · exact h.accepted o ho
    · rw [mem_singleton.mp ho]
      exact houtcome
  unfold PassRun.append
  obtain ⟨e, happend⟩ | ⟨event, e, hprepare, hveto, -⟩ |
    ⟨event, plan, traces, hprepare, hplan, hok, happend⟩ := hready.append_cases request
  · rw [happend]
    exact ⟨⟨⟨state, hready⟩, hsnoc (.refused e) trivial⟩, .inl ⟨e, rfl⟩⟩
  · obtain ⟨traces, htraces⟩ := hvalid event hprepare
    rw [htraces] at hveto
    cases hveto
  · rw [happend]
    refine ⟨⟨⟨_, hready.logged hplan hok⟩, hsnoc (.logged event) trivial⟩, .inr ?_⟩
    exact ⟨event, traces, hprepare, hok, rfl⟩

end PassRun

namespace GuardedSession

/-- An event whose only mark on the session trace is its seq is up to the other validator. -/
theorem Ready.validate_of_advance {s : GuardedSession} {state : SurfaceFoldState}
    (h : s.Ready state) {event : SessionEvent} {c : CompactionSessionTrace}
    (hseq : event.seq = s.seq) (htrace : s.trace.Accepts event (s.trace.advance event))
    (hadvance : s.compaction.advance event = .ok c) :
    s.validate event = .ok (s.trace.advance event, c) := by
  refine validate_ok.mpr ⟨SessionTrace.step_ok_iff.mpr ⟨?_, htrace⟩, hadvance⟩
  rw [hseq]
  exact h.lastSeq

/-- What others append leaves an open bracket as it is. -/
theorem appendEach_within {call : RegionCall} {startSeq : Nat} {turn : Option Nat}
    {summarized : Bool} {s : GuardedSession} {requests : List AppendRequest}
    (hready : ∃ state, s.Ready state)
    (hwithin : s.compaction = within call startSeq turn summarized)
    (hforeign : ∀ request ∈ requests, ∀ data, request.payload = .lossless data →
      Foreign call.compactionId.val data) :
    (∃ state, (s.appendEach requests).Ready state) ∧
      (s.appendEach requests).compaction = within call startSeq turn summarized := by
  induction requests generalizing s with
  | nil => exact ⟨hready, hwithin⟩
  | cons request requests ih =>
    obtain ⟨state, hready⟩ := hready
    refine ih (hready.append request) ?_ fun r hr => hforeign r (mem_cons_of_mem _ hr)
    obtain ⟨e, happend⟩ | ⟨event, e, -, -, happend⟩ |
      ⟨event, plan, traces, hprepare, -, hvalid, happend⟩ := hready.append_cases request
    · rw [happend]
      exact hwithin
    · rw [happend]
      exact hwithin
    · rw [happend]
      have hadvance := (validate_ok.mp hvalid).2
      rw [hwithin] at hadvance
      refine advance_foreign call (hforeign request mem_cons_self event.data ?_) hadvance
      exact AppendRequest.prepare_data request hprepare

end GuardedSession

/-! ## The selection and its price -/

theorem validateSurfaceRegion_ok {s : GuardedSession} {start end_ : Nat}
    {selection : SurfaceSelection} (h : validateSurfaceRegion s start end_ = .ok selection) :
    selection.shadowedSeqs.head? = some selection.start ∧
      selection.shadowedSeqs.getLast? = some selection.end_ := by
  unfold validateSurfaceRegion at h
  simp only [bind, Except.bind] at h
  split at h
  · cases h
  rename_i nodes hnodes
  split at h
  · cases h
  · cases h
  rename_i startIdx endIdx hstart hend
  split at h
  · cases h
  rename_i hle
  split at h
  · cases h
  split at h
  · cases h
  split at h
  · cases h
  split at h
  · cases h
  cases h
  have hstartNode := getElem?_of_idxOf? hstart
  have hendNode := getElem?_of_idxOf? hend
  have hinside := (List.getElem?_eq_some_iff.mp hendNode).1
  have hindex : startIdx + (endIdx + 1 - startIdx - 1) = endIdx := by omega
  dsimp only
  constructor
  · rw [head?_eq_getElem?, getElem?_slice, if_pos (by omega), Nat.add_zero,
      hstartNode]
  · rw [getLast?_eq_getElem?, length_slice _ (by omega) (by omega),
      getElem?_slice, if_pos (by omega), hindex, hendNode]

theorem totalTokens_slice_le (nodes : List TokenSurfaceNode) (start count : Nat) :
    totalTokens (nodes.slice start count) ≤ totalTokens nodes := by
  have hsub : (nodes.slice start count).Sublist nodes :=
    (take_sublist _ _).trans (drop_sublist _ _)
  exact (hsub.map _).sum_le_sum fun n _ => Nat.zero_le n

theorem prepareCompaction_ok {s : GuardedSession} {selection : SurfaceSelection}
    {prepared : PreparedCompaction} (h : prepareCompaction s selection = .ok prepared) :
    prepared.toSurfaceSelection = selection ∧
      ∃ measurement, measure s.events = .ok measurement ∧
        prepared.shadowedTokenCount ≤ totalTokens measurement.nodes := by
  unfold prepareCompaction at h
  split at h
  · cases h
  rename_i measurement hmeasure
  dsimp only at h
  split at h
  · cases h
  · cases h
    exact ⟨rfl, measurement, hmeasure, totalTokens_slice_le _ _ _⟩

/-! ## The bracket of a pass -/

/-- A pass inside the bracket of a call. -/
structure PassRun.Held (p : PassRun) (call : RegionCall) (startSeq : Nat) (turn : Option Nat)
    (summarized : Bool) : Prop extends p.Steady where
  compaction : p.session.compaction = within call startSeq turn summarized

structure PassRun.Closed (p : PassRun) : Prop where
  accepted : ∀ outcome ∈ p.outcomes, outcome.Accepted
  closed : p.session.compaction.compaction = none

theorem PassRun.Closed.clean {p : PassRun} (h : p.Closed) : p.Clean :=
  ⟨h.accepted, fun _ _ _ => h.closed⟩

namespace RegionCall

variable {call : RegionCall} {startSeq : Nat} {turn : Option Nat} {summarized : Bool} {p : PassRun}

/-- The end of a bracket is always logged. -/
theorem append_end (h : p.Held call startSeq turn summarized) (error : Option String)
    (hsummarized : error.isSome = true ∨ summarized = true) :
    ∃ event p', p.append (call.endRequest turn error p.session.seq) = (.ok event, p') ∧
      p'.Closed := by
  obtain ⟨state, hready⟩ := h.ready
  have happend : p.session.append (call.endRequest turn error p.session.seq) = _ :=
    (hready.append_other "compaction/end" (.obj (call.lifecycle turn ++ errorField error))
      (by decide) rfl (call.clock p.session.seq)).1
  rw [h.compaction, advance_end call _ _ error hsummarized] at happend
  unfold PassRun.append
  rw [happend]
  refine ⟨_, _, rfl, ?_, rfl⟩
  intro outcome houtcome
  rcases mem_append.mp houtcome with houtcome | houtcome
  · exact h.accepted outcome houtcome
  · rw [mem_singleton.mp houtcome]
    trivial

theorem closeFailed_closed (h : p.Held call startSeq turn summarized) (failure : CompactionError) :
    (call.closeFailed p turn failure).2.2.Closed := by
  obtain ⟨event, p', happend, hclosed⟩ := append_end h (some failure.message) (.inl rfl)
  unfold closeFailed
  rw [happend]
  exact hclosed

theorem append_summary (h : p.Held call startSeq turn false) {prepared : PreparedCompaction}
    (result : SummaryResult)
    (hhead : prepared.shadowedSeqs.head? = some prepared.start)
    (hlast : prepared.shadowedSeqs.getLast? = some prepared.end_)
    (hsafe : prepared.shadowedTokenCount ≤ maxSafeInteger) :
    ((p.append (call.summaryRequest prepared result p.session.seq)).1.isOk = false ∧
        (p.append (call.summaryRequest prepared result p.session.seq)).2.Held call startSeq turn
          false) ∨
      ∃ event, (p.append (call.summaryRequest prepared result p.session.seq)).1 = .ok event ∧
        (p.append (call.summaryRequest prepared result p.session.seq)).2.Held call startSeq turn
          true := by
  have hvalid : ∀ event, (call.summaryRequest prepared result p.session.seq).prepare
      p.session.seq false = .ok event →
      p.session.validate event =
        .ok (p.session.trace.advance event, within call startSeq turn true) := by
    intro event hprepare
    obtain ⟨state, hready⟩ := h.ready
    cases hprovenance : result.provenance with
    | none =>
      unfold summaryRequest at hprepare
      rw [hprovenance] at hprepare
      cases hprepare
    | some provenance =>
      unfold summaryRequest at hprepare
      rw [hprovenance] at hprepare
      rw [prepare_other "compaction/summary" (call.summaryData prepared result provenance)
        (by decide) rfl] at hprepare
      cases hprepare
      refine hready.validate_of_advance rfl rfl ?_
      rw [h.compaction]
      exact advance_summary call result provenance _ _ hhead hlast hsafe
  obtain ⟨hsteady, ⟨e, happend⟩ | ⟨event, traces, hprepare, htraces, happend⟩⟩ :=
    h.toSteady.append fun event hprepare => ⟨_, hvalid event hprepare⟩
  · rw [happend] at hsteady ⊢
    exact .inl ⟨rfl, hsteady, h.compaction⟩
  rw [hvalid event hprepare] at htraces
  cases htraces
  rw [happend] at hsteady ⊢
  exact .inr ⟨event, rfl, hsteady, rfl⟩

theorem append_checkpoint (h : p.Held call startSeq turn summarized)
    (prepared : PreparedCompaction) (result : SummaryResult) (first summarySeq : Nat) :
    (p.append (call.checkpointRequest prepared result first summarySeq p.session.seq)).2.Held call
      startSeq turn summarized := by
  have hvalid : ∀ event, (call.checkpointRequest prepared result first summarySeq
      p.session.seq).prepare p.session.seq false = .ok event →
      p.session.validate event =
        .ok (p.session.trace.advance event, within call startSeq turn summarized) := by
    intro event hprepare
    obtain ⟨state, hready⟩ := h.ready
    obtain ⟨hpayload, hseq, -⟩ := AppendRequest.prepare_event _ hprepare
    have hdata : event.data = .userMessage (call.checkpointMessage result) :=
      (Payload.lossless.inj hpayload).symm
    refine hready.validate_of_advance hseq ?_ ?_
    · unfold SessionTrace.Accepts
      rw [hdata]
    · rw [h.compaction]
      exact advance_checkpoint call result event hdata
  obtain ⟨hsteady, ⟨e, happend⟩ | ⟨event, traces, hprepare, htraces, happend⟩⟩ :=
    h.toSteady.append fun event hprepare => ⟨_, hvalid event hprepare⟩
  · rw [happend] at hsteady ⊢
    exact ⟨hsteady, h.compaction⟩
  rw [hvalid event hprepare] at htraces
  cases htraces
  rw [happend] at hsteady ⊢
  exact ⟨hsteady, rfl⟩

/-- The commit leaves the bracket summarized, or the pass with an error inside it. -/
theorem commitCompactionBody_held (h : p.Held call startSeq turn false)
    {prepared : PreparedCompaction} (result : SummaryResult)
    (hhead : prepared.shadowedSeqs.head? = some prepared.start)
    (hlast : prepared.shadowedSeqs.getLast? = some prepared.end_)
    (hsafe : prepared.shadowedTokenCount ≤ maxSafeInteger) :
    match call.commitCompactionBody p startSeq prepared result with
    | (.error _, p') => ∃ summarized, p'.Held call startSeq turn summarized
    | (.ok (), p') => p'.Held call startSeq turn true := by
  unfold commitCompactionBody
  rcases append_summary h result hhead hlast hsafe with ⟨hfail, hheld⟩ | ⟨event, hok, hheld⟩
  · cases hsummary : p.append (call.summaryRequest prepared result p.session.seq) with
    | mk reply p₁ =>
      rw [hsummary] at hfail hheld
      cases reply with
      | error e => exact ⟨false, hheld⟩
      | ok event => cases hfail
  cases hsummary : p.append (call.summaryRequest prepared result p.session.seq) with
  | mk reply p₁ =>
    rw [hsummary] at hok hheld
    cases hok
    have hcheckpoint := append_checkpoint hheld prepared result startSeq event.seq
    dsimp only
    cases hreplace : p₁.append (call.checkpointRequest prepared result startSeq event.seq
        p₁.session.seq) with
    | mk reply p₂ =>
      rw [hreplace] at hcheckpoint
      cases reply with
      | error e => exact ⟨true, hcheckpoint⟩
      | ok event => exact hcheckpoint

/-- The summary stage leaves the bracket open and untouched. -/
theorem summaryStage_held (h : p.Held call startSeq turn false) (selection : SurfaceSelection)
    (hforeign : ∀ request ∈ call.others, ∀ data, request.payload = .lossless data →
      Foreign call.compactionId.val data) :
    PassRun.Held { p with session := (call.summaryStage p.session selection).2 } call startSeq turn
        false ∧
      ∀ prepared result, (call.summaryStage p.session selection).1 = .ok (prepared, result) →
        prepareCompaction p.session selection = .ok prepared := by
  have hothers := GuardedSession.appendEach_within h.ready h.compaction hforeign
  have hheld : PassRun.Held { p with session := p.session.appendEach call.others } call startSeq
      turn false := ⟨h.toSteady.withSession hothers.1, hothers.2⟩
  unfold summaryStage
  cases hprepared : prepareCompaction p.session selection with
  | error e => exact ⟨h, fun _ _ hok => nomatch hok⟩
  | ok prepared =>
    dsimp only
    cases call.summarizeCompaction prepared with
    | error e => exact ⟨hheld, fun _ _ hok => nomatch hok⟩
    | ok result =>
      dsimp only
      cases call.throwIfAborted call.abortedAfterSummary with
      | error e => exact ⟨hheld, fun _ _ hok => nomatch hok⟩
      | ok u =>
        dsimp only
        cases call.assertStable (p.session.appendEach call.others) prepared with
        | error e => exact ⟨hheld, fun _ _ hok => nomatch hok⟩
        | ok u =>
          refine ⟨hheld, fun prepared' result' hok => ?_⟩
          cases hok
          rfl

theorem bracketBody_closed (h : p.Held call startSeq turn false) {selection : SurfaceSelection}
    (hhead : selection.shadowedSeqs.head? = some selection.start)
    (hlast : selection.shadowedSeqs.getLast? = some selection.end_)
    (hsafe : ∀ measurement, measure p.session.events = .ok measurement →
      totalTokens measurement.nodes ≤ maxSafeInteger)
    (hforeign : ∀ request ∈ call.others, ∀ data, request.payload = .lossless data →
      Foreign call.compactionId.val data) :
    (call.bracketBody p startSeq turn selection).2.2.Closed := by
  obtain ⟨hheld, hprepared⟩ := summaryStage_held h selection hforeign
  unfold bracketBody
  cases hstage : call.summaryStage p.session selection with
  | mk staged session =>
    rw [hstage] at hheld hprepared
    dsimp only
    cases staged with
    | error failure => exact closeFailed_closed hheld failure
    | ok answer =>
      obtain ⟨prepared, result⟩ := answer
      obtain ⟨hselection, measurement, hmeasure, hprice⟩ :=
        prepareCompaction_ok (hprepared prepared result rfl)
      subst hselection
      have hcommit := commitCompactionBody_held hheld result hhead hlast
        (hprice.trans (hsafe measurement hmeasure))
      dsimp only
      cases hbody : call.commitCompactionBody { p with session } startSeq prepared result with
      | mk reply p' =>
        rw [hbody] at hcommit
        cases reply with
        | error e =>
          obtain ⟨summarized, hheld'⟩ := hcommit
          exact closeFailed_closed hheld' _
        | ok u =>
          obtain ⟨event, p'', happend, hclosed⟩ := append_end hcommit none (.inr rfl)
          dsimp only
          rw [happend]
          exact hclosed

end RegionCall

end Harness
