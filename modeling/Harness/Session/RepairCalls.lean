-- SUMMARY: Which open tool calls repair closes: exactly when every call of the open step gets its synthetic result.
import Harness.Session.RepairBalance

/-!
# Open calls

A tool-call block of the open step is open until an append-origin `tool/result`
answers it. Repair waits for the result in a map by call id, and ends the wait at
a result of either origin, so the calls it closes are the ones that no result at
all follows, one for each id.
-/

namespace Harness

open List OrderedMap

/-! ## Calls of a step -/

def SessionEvent.isStepStart (event : SessionEvent) : Bool :=
  match event.data with
  | .stepStart .. => true
  | _ => false

/-- The events behind the last `step/start`. -/
def openStepEvents (log : List SessionEvent) : List SessionEvent :=
  (log.reverse.takeWhile fun event => !event.isStepStart).reverse

def SessionEvent.toolCallIds (event : SessionEvent) : List CallId :=
  match event.data with
  | .assistantMessage _ _ message _ => message.toolCallIds
  | _ => []

/-- A `tool/result` for `id`, of either origin. -/
def isResultFor (id : CallId) (event : SessionEvent) : Bool :=
  match event.data with
  | .toolResult data => data.message.callId == id
  | _ => false

/-- A `tool/result` that answers a call for `id`. -/
def isAppendResultFor (id : CallId) (event : SessionEvent) : Bool :=
  isResultFor id event && event.surfaceOp.any Json.isAppendMarker

/-- A `tool/result` that rewrites an earlier one for `id`. -/
def isReplacementResultFor (id : CallId) (event : SessionEvent) : Bool :=
  isResultFor id event && !event.surfaceOp.any Json.isAppendMarker

/-- The `tool/call` seq of a call after `event`, when `seq` was its seq before. -/
def recordCallSeq (event : SessionEvent) (id : CallId) (seq : Option Nat) : Option Nat :=
  match event.data with
  | .toolCall _ _ callId _ _ => if callId = id then some event.seq else seq
  | _ => seq

/-- The seq of the last `tool/call` for `id`. -/
def recordedCall (id : CallId) (events : List SessionEvent) : Option Nat :=
  events.foldl (fun seq event => recordCallSeq event id seq) none

/-- The calls that no later event `closes`, in model order, each with its `tool/call`. -/
def callsOf (closes : CallId → SessionEvent → Bool) :
    List SessionEvent → List (CallId × Option Nat)
  | [] => []
  | event :: rest =>
    (event.toolCallIds.filter fun id => !rest.any (closes id)).map
        (fun id => (id, recordedCall id rest))
      ++ callsOf closes rest

/-- The calls without a later append-origin result. -/
def openCalls : List SessionEvent → List (CallId × Option Nat) := callsOf isAppendResultFor

structure SyntheticResult where
  callId : CallId
  error : Option ErrorInfo
  cited : Option Json

def syntheticResult (event : SessionEvent) : Option SyntheticResult :=
  match event.data with
  | .toolResult data =>
    some { callId := data.message.callId, error := data.error, cited := event.sourceEventSeqs }
  | _ => none

/-- The result an open call is to get: its outcome is unknown when its `tool/call`
was recorded, which the result then cites, and it has not started otherwise. -/
def dueResult (call : CallId × Option Nat) : SyntheticResult where
  callId := call.1
  error := some
    (if call.2.isSome then { name := "ToolOutcomeUnknownError", code := TOOL_OUTCOME_UNKNOWN }
    else { name := "ToolNotStartedError", code := TOOL_NOT_STARTED })
  cited := call.2.map fun callSeq => .arr [Json.ofNat callSeq]

/-- Repair gives each open call its one due result, in model order, and no other call one. -/
def ClosesOpenCalls (log : List SessionEvent) : Prop :=
  (interruptedTurnClosers log).filterMap syntheticResult =
    (openCalls (openStepEvents log)).map dueResult

/-- No rewrite of another result for the same id follows an open call, and no two
open calls share an id. -/
structure NoneSuppressed (events : List SessionEvent) : Prop where
  unrewritten : ∀ before event after, events = before ++ event :: after →
    ∀ id ∈ event.toolCallIds, after.any (isAppendResultFor id) = false →
      after.any (isReplacementResultFor id) = false
  distinct : ((openCalls events).map Prod.fst).Nodup

/-! ## Event by event -/

theorem openStepEvents_snoc (log : List SessionEvent) (event : SessionEvent) :
    openStepEvents (log ++ [event]) =
      if event.isStepStart then [] else openStepEvents log ++ [event] := by
  simp only [openStepEvents, reverse_append, reverse_singleton, singleton_append,
    takeWhile_cons]
  cases event.isStepStart <;> simp

theorem callsOf_snoc (closes : CallId → SessionEvent → Bool) (events : List SessionEvent)
    (event : SessionEvent) :
    callsOf closes (events ++ [event]) =
      ((callsOf closes events).filter fun call => !closes call.1 event).map
          (fun call => (call.1, recordCallSeq event call.1 call.2))
        ++ event.toolCallIds.map fun id => (id, none) := by
  induction events with
  | nil => simp [callsOf, recordedCall]
  | cons first rest ih =>
    simp only [cons_append, callsOf, ih, filter_append, map_append,
      append_assoc, filter_map, map_map, filter_filter]
    congr 1
    have hfilter : (first.toolCallIds.filter fun id => !(rest ++ [event]).any (closes id)) =
        first.toolCallIds.filter fun id => !closes id event && !rest.any (closes id) := by
      apply filter_congr
      intro id _
      simp [any_append, Bool.and_comm]
    rw [hfilter]
    apply map_congr_left
    intro id _
    simp [recordedCall, foldl_append]

/-- What a call that no result of either origin follows is to the scan. -/
theorem callsOf_unmoved {closes : CallId → SessionEvent → Bool} {event : SessionEvent}
    (hids : event.toolCallIds = []) (hcloses : ∀ id, closes id event = false)
    (hrecords : ∀ id seq, recordCallSeq event id seq = seq) (events : List SessionEvent) :
    callsOf closes (events ++ [event]) = callsOf closes events := by
  simp [callsOf_snoc, hids, hcloses, hrecords]

/-- The calls the scan waits for, with their `tool/call` seqs. -/
def RepairScan.waiting (s : RepairScan) : OrderedMap CallId (Option Nat) :=
  mapValues PendingCall.callSeq s.pendingCalls

theorem mapValues_registerCalls (step : Nat) (ids : List CallId)
    (m : OrderedMap CallId PendingCall) :
    mapValues PendingCall.callSeq (RepairScan.registerCalls step ids m) =
      (ids.map fun id => (id, (none : Option Nat))).foldl (fun m e => OrderedMap.set m e.1 e.2)
        (mapValues PendingCall.callSeq m) := by
  induction ids generalizing m with
  | nil => rfl
  | cons id ids ih =>
    have hset := mapValues_set PendingCall.callSeq m id { step, callSeq := none }
    exact (ih _).trans (by rw [hset]; rfl)

theorem mapValues_recordCall (callId : CallId) (seq : Nat) (m : OrderedMap CallId PendingCall) :
    mapValues PendingCall.callSeq (RepairScan.recordCall callId seq m) =
      OrderedMap.modify (mapValues PendingCall.callSeq m) callId fun _ => some seq :=
  mapValues_modify PendingCall.callSeq (fun entry => { entry with callSeq := some seq })
    (fun _ => some seq) (fun _ => rfl) m callId

/-- Inside an open step the scan waits for the calls that no result follows. -/
theorem scan_waiting {log : List SessionEvent} {state : SurfaceFoldState}
    {replacements : List SurfaceFoldReplacement} (haccepts : SurfaceAccepts log state replacements)
    {trace : SessionTrace} (htrace : SessionTrace.fresh.seed log = .ok trace)
    (hopen : trace.openStep.isSome = true) :
    (RepairScan.scan log).waiting =
      ofList (callsOf isResultFor (openStepEvents log)) := by
  induction log using List.reverseRecOn generalizing state replacements trace with
  | nil =>
    cases htrace
    cases hopen
  | append_singleton log event ih =>
    obtain ⟨middle, hmiddle, hstep⟩ := SessionTrace.seed_snoc_ok.mp htrace
    obtain ⟨before, replacements', hbefore⟩ := haccepts.of_append
    obtain ⟨-, haccept⟩ := SessionTrace.step_ok_iff.mp hstep
    have hmatches := RepairScan.scan_matches hbefore hmiddle
    -- an event that is neither a call, nor a result, nor a boundary
    have hunmoved : middle.openStep.isSome = true → event.toolCallIds = [] →
        (∀ id, isResultFor id event = false) → (∀ id seq, recordCallSeq event id seq = seq) →
        (RepairScan.scan log).waiting =
          ofList (callsOf isResultFor (openStepEvents log ++ [event])) := by
      intro hstepOpen hids hcloses hrecords
      rw [callsOf_unmoved hids hcloses hrecords]
      exact ih hbefore hmiddle hstepOpen
    rw [RepairScan.scan_snoc, openStepEvents_snoc]
    unfold SessionTrace.Accepts at haccept
    unfold RepairScan.scanEvent SessionEvent.isStepStart
    cases hdata : event.data with
    | turnStart turn =>
      simp only [hdata] at haccept
      obtain ⟨hclosed, -, rfl⟩ := haccept
      have hnone : middle.openStep = none := hmatches.stepInTurn hclosed
      simp [SessionTrace.advance, hnone] at hopen
    | turnEnd turn reason =>
      simp only [hdata] at haccept
      obtain ⟨-, hclosed, rfl⟩ := haccept
      simp [SessionTrace.advance, hclosed] at hopen
    | stepStart turn step =>
      simp only [hdata] at haccept
      obtain ⟨-, hclosed, -, rfl⟩ := haccept
      have hnil : (RepairScan.scan log).pendingCalls = [] := hmatches.idle hclosed
      simp [RepairScan.waiting, hnil, mapValues, callsOf, ofList]
    | stepEnd turn step =>
      simp only [hdata] at haccept
      obtain ⟨-, rfl⟩ := haccept
      cases hopen
    | assistantMessage turn step message usage =>
      simp only [hdata] at haccept
      obtain ⟨⟨-, hstepOpen⟩, -⟩ := haccept
      have hih := ih hbefore hmiddle (by simp [hstepOpen])
      have hids : event.toolCallIds = message.toolCallIds := by simp [SessionEvent.toolCallIds, hdata]
      have hcalls : callsOf isResultFor (openStepEvents log ++ [event]) =
          callsOf isResultFor (openStepEvents log) ++
            message.toolCallIds.map fun id => (id, none) := by
        simp [callsOf_snoc, hids, isResultFor, recordCallSeq, hdata]
      simp only [Bool.false_eq_true, if_false, hcalls, ofList_append, ← hih]
      exact mapValues_registerCalls _ _ _
    | toolCall turn step callId name arguments =>
      simp only [hdata] at haccept
      obtain ⟨⟨-, hstepOpen⟩, -⟩ := haccept
      have hih := ih hbefore hmiddle (by simp [hstepOpen])
      have hcalls : callsOf isResultFor (openStepEvents log ++ [event]) =
          (callsOf isResultFor (openStepEvents log)).map fun call =>
            if call.1 = callId then (call.1, some event.seq) else call := by
        simp only [callsOf_snoc, SessionEvent.toolCallIds, isResultFor, recordCallSeq, hdata,
          Bool.not_false, filter_true, map_nil, append_nil]
        apply map_congr_left
        intro call _
        by_cases hid : callId = call.1
        · simp [hid]
        · simp [hid, Ne.symm hid]
      simp only [Bool.false_eq_true, if_false, hcalls, RepairScan.waiting]
      rw [mapValues_recordCall, ofList_map_modify _ callId fun _ => some event.seq, ← hih]
      rfl
    | toolResult data =>
      simp only [hdata] at haccept
      have hstepOpen : middle.openStep.isSome = true := by
        split at haccept
        · obtain ⟨⟨-, hstepOpen⟩, -⟩ := haccept
          simp [hstepOpen]
        · obtain ⟨-, rfl⟩ := haccept
          exact hopen
      have hih := ih hbefore hmiddle hstepOpen
      have hcalls : callsOf isResultFor (openStepEvents log ++ [event]) =
          (callsOf isResultFor (openStepEvents log)).filter fun call =>
            call.1 ≠ data.message.callId := by
        simp only [callsOf_snoc, SessionEvent.toolCallIds, isResultFor, recordCallSeq, hdata,
          map_nil, append_nil, map_id']
        apply filter_congr
        intro call _
        by_cases hid : data.message.callId = call.1
        · simp [hid]
        · simp [hid, Ne.symm hid]
      simp only [Bool.false_eq_true, if_false, hcalls, RepairScan.waiting]
      rw [mapValues_delete, ofList_filter, ← hih]
      rfl
    | assistantChunk turn step chunk =>
      simp only [hdata] at haccept
      obtain ⟨⟨-, hstepOpen⟩, -⟩ := haccept
      exact hunmoved (by simp [hstepOpen]) (by simp [SessionEvent.toolCallIds, hdata])
        (by simp [isResultFor, hdata]) (by simp [recordCallSeq, hdata])
    | todoWrite | requestHeader | requestContext =>
      simp only [hdata] at haccept
      obtain ⟨-, rfl⟩ := haccept
      exact hunmoved hopen (by simp [SessionEvent.toolCallIds, hdata])
        (by simp [isResultFor, hdata]) (by simp [recordCallSeq, hdata])
    | userMessage | sessionEndSeed | inboxSpliced | other =>
      simp only [hdata] at haccept
      subst haccept
      exact hunmoved hopen (by simp [SessionEvent.toolCallIds, hdata])
        (by simp [isResultFor, hdata]) (by simp [recordCallSeq, hdata])

/-! ## Closed calls -/

theorem syntheticResult_closeCalls (turn : Nat) (time : Int) (seq : Nat)
    (calls : OrderedMap CallId PendingCall) :
    (closeCalls turn time seq calls).filterMap syntheticResult =
      (mapValues PendingCall.callSeq calls).map dueResult := by
  induction calls generalizing seq with
  | nil => rfl
  | cons e calls ih =>
    simp only [closeCalls, filterMap_cons, mapValues, map_cons] at ih ⊢
    rw [ih]
    rfl

theorem syntheticResult_closeBoundaries (turn : Nat) (openStep : Option Nat) (time : Int) (seq : Nat) :
    (closeBoundaries turn openStep time seq).filterMap syntheticResult = [] := by
  cases openStep <;> rfl

theorem syntheticResults_waiting {log : List SessionEvent} (h : AcceptedLog log)
    {trace : SessionTrace} (htrace : SessionTrace.fresh.seed log = .ok trace)
    (hopen : trace.openStep.isSome = true) :
    (interruptedTurnClosers log).filterMap syntheticResult =
      (RepairScan.scan log).waiting.map dueResult := by
  obtain ⟨state, replacements, haccepts⟩ := h.accepts
  have hmatches := RepairScan.scan_matches haccepts htrace
  have hturn : (RepairScan.scan log).openTurn.isSome = true := by
    cases hnone : trace.openTurn with
    | none =>
      rw [hmatches.stepInTurn hnone] at hopen
      cases hopen
    | some turn => rw [hmatches.openTurn, hnone]; rfl
  obtain ⟨turn, hturn⟩ := Option.isSome_iff_exists.mp hturn
  cases hlast : log.getLast? with
  | none =>
    have hempty : log = [] := by simpa using hlast
    rw [hempty] at hturn
    cases hturn
  | some last =>
    simp only [interruptedTurnClosers, hturn, hlast, filterMap_append,
      syntheticResult_closeCalls, syntheticResult_closeBoundaries, append_nil]
    rfl

/-! ## Open and waiting calls -/

theorem isResultFor_eq (id : CallId) (events : List SessionEvent) :
    events.any (isResultFor id) =
      (events.any (isAppendResultFor id) || events.any (isReplacementResultFor id)) := by
  induction events with
  | nil => rfl
  | cons event events ih =>
    simp only [any_cons, ih, isAppendResultFor, isReplacementResultFor]
    cases isResultFor id event <;> cases event.surfaceOp.any Json.isAppendMarker <;>
      cases events.any (isAppendResultFor id) <;> simp

theorem waiting_length_le (events : List SessionEvent) :
    (callsOf isResultFor events).length ≤ (openCalls events).length ∧
      ((callsOf isResultFor events).length = (openCalls events).length →
        callsOf isResultFor events = openCalls events ∧
          ∀ before event after, events = before ++ event :: after →
            ∀ id ∈ event.toolCallIds, after.any (isAppendResultFor id) = false →
              after.any (isReplacementResultFor id) = false) := by
  induction events with
  | nil =>
    refine ⟨Nat.le_refl _, fun _ => ⟨rfl, ?_⟩⟩
    intro before event after hsplit
    simp at hsplit
  | cons first rest ih =>
    obtain ⟨hle, heq⟩ := ih
    have himp : ∀ id, (!rest.any (isResultFor id)) = true → (!rest.any (isAppendResultFor id)) = true := by
      intro id
      rw [isResultFor_eq]
      cases rest.any (isAppendResultFor id) <;> simp
    have hsub : (first.toolCallIds.filter fun id => !rest.any (isResultFor id)).Sublist
        (first.toolCallIds.filter fun id => !rest.any (isAppendResultFor id)) :=
      monotone_filter_right _ himp
    simp only [openCalls, callsOf, length_append, length_map]
    refine ⟨Nat.add_le_add hsub.length_le hle, fun hlen => ?_⟩
    have hfirst := hsub.length_le
    have hrest : (callsOf isResultFor rest).length = (openCalls rest).length := by
      simp only [openCalls] at hle ⊢
      omega
    have hsame := hsub.eq_of_length (by simp only [openCalls] at hle; omega)
    obtain ⟨hcalls, hkept⟩ := heq hrest
    simp only [openCalls] at hcalls
    refine ⟨by rw [hsame, hcalls], ?_⟩
    intro before event after hsplit id hid happend
    cases before with
    | nil =>
      obtain ⟨rfl, rfl⟩ := cons.inj hsplit
      have hmem : id ∈ first.toolCallIds.filter fun id => !rest.any (isResultFor id) := by
        rw [hsame]
        exact mem_filter.mpr ⟨hid, by simp [happend]⟩
      have hnone := (mem_filter.mp hmem).2
      rw [isResultFor_eq, happend] at hnone
      simpa using hnone
    | cons _ before =>
      obtain ⟨-, hrestSplit⟩ := cons.inj hsplit
      exact hkept before event after hrestSplit id hid happend

theorem openCalls_eq_waiting {events : List SessionEvent}
    (h : ∀ before event after, events = before ++ event :: after →
      ∀ id ∈ event.toolCallIds, after.any (isAppendResultFor id) = false →
        after.any (isReplacementResultFor id) = false) :
    callsOf isResultFor events = openCalls events := by
  induction events with
  | nil => rfl
  | cons first rest ih =>
    have hrest := ih fun before event after hsplit =>
      h (first :: before) event after (by rw [hsplit]; rfl)
    simp only [openCalls] at hrest
    have hfilter : (first.toolCallIds.filter fun id => !rest.any (isResultFor id)) =
        first.toolCallIds.filter fun id => !rest.any (isAppendResultFor id) := by
      apply filter_congr
      intro id hid
      rw [isResultFor_eq]
      cases happend : rest.any (isAppendResultFor id) with
      | true => rfl
      | false => simp [h [] first rest rfl id hid happend]
    simp only [openCalls, callsOf, hfilter, hrest]

theorem dueResult_callIds (calls : List (CallId × Option Nat)) :
    (calls.map dueResult).map SyntheticResult.callId = calls.map Prod.fst := by
  rw [map_map]
  rfl

/-- Repair closes every open call of an open step exactly when none of them is
suppressed by a rewrite of an earlier result or by a second open call of its id. -/
theorem closesOpenCalls_iff {log : List SessionEvent} (h : AcceptedLog log) {trace : SessionTrace}
    (htrace : SessionTrace.fresh.seed log = .ok trace) (hopen : trace.openStep.isSome = true) :
    ClosesOpenCalls log ↔ NoneSuppressed (openStepEvents log) := by
  obtain ⟨state, replacements, haccepts⟩ := h.accepts
  have hwaiting := scan_waiting haccepts htrace hopen
  unfold ClosesOpenCalls
  rw [syntheticResults_waiting h htrace hopen, hwaiting]
  constructor
  · intro hcloses
    have hids := congrArg (List.map SyntheticResult.callId) hcloses
    rw [dueResult_callIds, dueResult_callIds] at hids
    have hlen := congrArg List.length hids
    simp only [length_map] at hlen
    have hmerge := length_ofList_le (callsOf isResultFor (openStepEvents log))
    obtain ⟨hle, heq⟩ := waiting_length_le (openStepEvents log)
    obtain ⟨-, hkept⟩ := heq (by omega)
    exact ⟨hkept, hids ▸ nodup_ofList _⟩
  · intro hkept
    rw [openCalls_eq_waiting hkept.unrewritten, ofList_eq_self hkept.distinct]

theorem reusedCallId_closes_iff :
    ClosesOpenCalls reusedCallId ↔ NoneSuppressed (openStepEvents reusedCallId) :=
  have htrace : SessionTrace.fresh.seed reusedCallId =
      .ok { lastSeq := 9, openTurn := some 1, openStep := some 2, nextTurn := 1, nextStep := 2
            pendingCalls := {("c" : CallId)} } := by rfl
  closesOpenCalls_iff reusedCallId_accepted htrace rfl

/-- The rewrite of the first step's result suppresses the closer of the second step's call. -/
theorem reusedCallId_suppressed :
    AcceptedLog reusedCallId ∧
    (∃ trace, SessionTrace.fresh.seed reusedCallId = .ok trace ∧ trace.openStep.isSome = true) ∧
    ¬ ClosesOpenCalls reusedCallId := by
  refine ⟨reusedCallId_accepted, ⟨_, rfl, rfl⟩, ?_⟩
  intro hcloses
  have hlen : ((interruptedTurnClosers reusedCallId).filterMap syntheticResult).length =
      ((openCalls (openStepEvents reusedCallId)).map dueResult).length :=
    congrArg List.length hcloses
  exact absurd hlen (by decide)

end Harness
