-- SUMMARY: A prune pass is accepted inside a turn, and outside one as long as nothing is over budget.
import Harness.Compaction.PruneContent
import Harness.Compaction.RegionPass

namespace Harness

open List
open Json (field ofNat get?)

theorem Json.Proper.of_keys {fields : List (JsString × Json)} (keys : List JsString)
    (hkeys : fields.map Prod.fst = keys) (hnodup : keys.Nodup) (h : Json.ProperFields fields) :
    (Json.obj fields).Proper :=
  ⟨hkeys ▸ hnodup, h⟩

/-- What a tool result holds beside its content is a proper object. -/
theorem ToolResultData.rest_proper (data : ToolResultData)
    (h : ∀ value, data.presentation = some value → value.Proper) : data.rest.Proper := by
  have hcontent : (Json.obj
      ([field "type" (.str "tool-result"),
          field "toolCallId" (.str data.message.block.toolCallId),
          field "content" .null]
        ++ (data.message.block.isError.map fun b => field "isError" (.bool b)).toList)).Proper := by
    cases data.message.block.isError with
    | none =>
      exact .of_keys ["type", "toolCallId", "content"] rfl (by decide)
        ⟨trivial, trivial, trivial, trivial⟩
    | some b =>
      exact .of_keys ["type", "toolCallId", "content", "isError"] rfl (by decide)
        ⟨trivial, trivial, trivial, trivial, trivial⟩
  have hsource : (Json.obj [("kind", .str "tool"), ("callId", .str data.message.callId)]).Proper :=
    .of_keys ["kind", "callId"] rfl (by decide) ⟨trivial, trivial, trivial⟩
  have herror : ∀ e : ErrorInfo,
      (Json.obj [("name", .str e.name), ("code", .str e.code)]).Proper := fun e =>
    .of_keys ["name", "code"] rfl (by decide) ⟨trivial, trivial, trivial⟩
  have hmessage : (Json.obj
      [("id", .str data.message.id), ("role", .str "user"), ("content", .arr [.obj
          ([field "type" (.str "tool-result"),
              field "toolCallId" (.str data.message.block.toolCallId),
              field "content" .null]
            ++ (data.message.block.isError.map fun b => field "isError" (.bool b)).toList)]),
        ("source", .obj [("kind", .str "tool"), ("callId", .str data.message.callId)])]).Proper :=
    .of_keys ["id", "role", "content", "source"] rfl (by decide)
      ⟨trivial, trivial, ⟨hcontent, trivial⟩, hsource, trivial⟩
  unfold rest
  cases hmeta : data.presentation with
  | none =>
    cases data.error with
    | none =>
      exact .of_keys ["turn", "step", "message"] rfl (by decide)
        ⟨trivial, trivial, hmessage, trivial⟩
    | some e =>
      exact .of_keys ["turn", "step", "message", "error"] rfl (by decide)
        ⟨trivial, trivial, hmessage, herror e, trivial⟩
  | some value =>
    have hvalue := h value hmeta
    cases data.error with
    | none =>
      exact .of_keys ["turn", "step", "message", "meta"] rfl (by decide)
        ⟨trivial, trivial, hmessage, hvalue, trivial⟩
    | some e =>
      exact .of_keys ["turn", "step", "message", "error", "meta"] rfl (by decide)
        ⟨trivial, trivial, hmessage, herror e, hvalue, trivial⟩

namespace ToolResultPruner

variable {clock : Nat → Int} {target seq : Nat} {data : ToolResultData}

/-! ## The two events of a rewrite -/

/-- The event that replaces a tool result. -/
def rewriteEvent (clock : Nat → Int) (target : Nat) (data : ToolResultData) (seq : Nat) :
    SessionEvent where
  seq
  time := clock seq
  data := .toolResult data
  surfaceOp := some (SurfaceOp.replace target target).toJson
  sourceEventSeqs := some (.arr [ofNat target])

theorem rewriteRequest_prepare (clock : Nat → Int) (target : Nat) (data : ToolResultData)
    (seq : Nat) :
    (rewriteRequest clock target data seq).prepare seq false =
      .ok (rewriteEvent clock target data seq) := by
  have hmeta : snapshotJsonValue (rewriteRequest clock target data seq).surfaceMetadata =
      some (.obj [("sourceEventSeqs", .arr [ofNat target]),
        ("surfaceOp", (SurfaceOp.replace target target).toJson)]) := rfl
  have hsupported : assertSupportedRequestHeader (rewriteEvent clock target data seq).data
      s!"session event \"{(rewriteEvent clock target data seq).data.type}\"" = .ok () := rfl
  unfold AppendRequest.prepare
  simp only [show (rewriteRequest clock target data seq).payload =
    .lossless (rewriteEvent clock target data seq).data from rfl, hsupported, hmeta]
  rfl

theorem rewriteEvent_surfaceOp (hsafe : target ≤ maxSafeInteger) :
    surfaceOpOf (rewriteEvent clock target data seq) = .ok (some (.replace target target)) := by
  have hreplace : asReplaceOp [("op", .str "replace"), ("start", ofNat target),
      ("end", ofNat target)] = some (target, target) := by
    unfold asReplaceOp
    rw [show get? "op" [("op", .str "replace"), ("start", ofNat target),
        ("end", ofNat target)] = some (.str "replace") from rfl,
      show get? "start" [("op", .str "replace"), ("start", ofNat target),
        ("end", ofNat target)] = some (ofNat target) from rfl,
      show get? "end" [("op", .str "replace"), ("start", ofNat target),
        ("end", ofNat target)] = some (ofNat target) from rfl]
    simp only [asEventSeq_ofNat hsafe]
    rfl
  unfold surfaceOpOf
  rw [show isSurfaceEligibleType (rewriteEvent clock target data seq).type = true from rfl]
  simp only [rewriteEvent, SurfaceOp.toJson, hreplace]
  rfl

theorem rewriteEvent_sources (hsafe : target ≤ maxSafeInteger) (hlt : target < seq) :
    provenanceSources (rewriteEvent clock target data seq) = .ok [target] := by
  have hmap : [ofNat target].mapM asEventSeq = some [target] := by
    rw [mapM_cons, asEventSeq_ofNat hsafe]
    rfl
  have hfind : [target].find? ((rewriteEvent clock target data seq).seq ≤ ·) = none := by
    rw [find?_eq_none]
    intro y hy hle
    rw [mem_singleton.mp hy] at hle
    have hle : seq ≤ target := of_decide_eq_true hle
    omega
  unfold provenanceSources
  rw [show (rewriteEvent clock target data seq).sourceEventSeqs =
    some (.arr [ofNat target]) from rfl]
  simp only [hmap, hfind, nodup_singleton, decide_true, Bool.not_true, Bool.false_eq_true,
    if_false, length_singleton, Bool.false_and, show ((1 : Nat) == 0) = false from rfl]

variable {state : SurfaceFoldState}

/-- The rewrite of a result on the surface is planned. -/
theorem plan_rewriteEvent {events : List SessionEvent}
    (hnode : target ∈ state.nodes) (hsafe : target ≤ maxSafeInteger) (hlt : target < seq)
    (hevent : (events[target]?).map SessionEvent.data = some (.toolResult data))
    (hproper : ∀ value, data.presentation = some value → value.Proper)
    (content : List ContentBlock) :
    ∃ plan, planSurfaceEvent state (rewriteEvent clock target (rewrite data content) seq) seq
      events 0 = .ok plan := by
  obtain ⟨i, hi⟩ : ∃ i, state.nodes.idxOf? target = some i :=
    Option.ne_none_iff_exists'.mp fun h => idxOf?_eq_none_iff.mp h hnode
  have hslice : state.nodes.slice i (i + 1 - i) = [target] := by
    obtain ⟨hlt', hget⟩ := List.getElem?_eq_some_iff.mp (getElem?_of_idxOf? hi)
    rw [Nat.add_sub_cancel_left, List.slice, drop_eq_getElem_cons hlt', hget]
    rfl
  have hrange : replacementRange state target target =
      .ok { startIdx := i, endIdx := i, shadowedSeqs := [target] } := by
    unfold replacementRange
    simp only [hi, Nat.lt_irrefl, if_false, gt_iff_lt, hslice]
  have hprovenance : assertProvenance (rewriteEvent clock target (rewrite data content) seq)
      [target] = .ok () := by
    unfold assertProvenance
    simp [rewriteEvent_sources hsafe hlt]
  have hrewrite : assertToolResultRewrite (rewriteEvent clock target (rewrite data content) seq)
      [target] events 0 = .ok () := by
    unfold assertToolResultRewrite
    simp only [rewriteEvent, Nat.sub_zero, hevent]
    rw [show (rewrite data content).rest = data.rest from rfl,
      isDeepEqualJson_self _ (data.rest_proper hproper), if_pos rfl]
  unfold planSurfaceEvent
  rw [rewriteEvent_surfaceOp hsafe]
  simp only [show (rewriteEvent clock target (rewrite data content) seq).seq = seq from rfl,
    bne_self_eq_false, Bool.false_eq_true, if_false, hrange, hprovenance, hrewrite]
  exact ⟨_, rfl⟩

/-! ## Inside a turn -/

/-- A pass that opened no bracket, inside an open turn. -/
structure Pruning (p : PassRun) : Prop extends p.Steady where
  openTurn : p.session.trace.openTurn.isSome = true
  unopened : ∀ event, .logged event ∈ p.outcomes → event.type ≠ ("compaction/start" : JsString)

/-- An event that both validators let pass inside a turn keeps the pass going. -/
theorem Pruning.append {p : PassRun} (h : Pruning p) {request : AppendRequest}
    (hvalid : ∀ event, request.prepare p.session.seq false = .ok event →
      event.type ≠ ("compaction/start" : JsString) ∧
        ∃ c, p.session.validate event = .ok (p.session.trace.advance event, c)) :
    Pruning (p.append request).2 := by
  have hsnoc : ∀ outcome : AppendOutcome, (∀ event, outcome = .logged event →
      event.type ≠ ("compaction/start" : JsString)) → ∀ event,
        .logged event ∈ p.outcomes ++ [outcome] → event.type ≠ ("compaction/start" : JsString) := by
    intro outcome houtcome event hevent
    rcases mem_append.mp hevent with hevent | hevent
    · exact h.unopened event hevent
    · exact houtcome event (mem_singleton.mp hevent).symm
  obtain ⟨hsteady, ⟨e, happend⟩ | ⟨event, traces, hprepare, htraces, happend⟩⟩ :=
    h.toSteady.append fun event hprepare => ⟨_, (hvalid event hprepare).2.choose_spec⟩
  · rw [happend] at hsteady ⊢
    exact ⟨hsteady, h.openTurn, hsnoc _ fun event hevent => nomatch hevent⟩
  obtain ⟨htype, c, hc⟩ := hvalid event hprepare
  rw [hc] at htraces
  cases htraces
  rw [happend] at hsteady ⊢
  refine ⟨hsteady, h.openTurn, hsnoc _ fun event' hevent => ?_⟩
  cases hevent
  exact htype

variable {s : GuardedSession}

/-- The metering event is accepted anywhere. -/
theorem validate_prune (h : s.Ready state)
    (clock : Nat → Int) (target : Nat) (data : ToolResultData) {event : SessionEvent}
    (hprepare : (pruneRequest clock target data s.seq).prepare s.seq false = .ok event) :
    event.type ≠ ("compaction/start" : JsString) ∧
      s.validate event = .ok (s.trace.advance event, s.compaction) := by
  unfold pruneRequest at hprepare
  rw [prepare_other "compaction/prune" _ (by decide) rfl] at hprepare
  cases hprepare
  have htype : ("compaction/prune" : JsString) ≠ "compaction/start" := by decide
  refine ⟨htype, h.validate_of_advance rfl rfl ?_⟩
  exact CompactionSessionTrace.advance_unmarked _ _ _ _ _ rfl rfl rfl

/-- A rewrite is accepted inside a turn, and only there. -/
theorem validate_rewrite (h : s.Ready state)
    (clock : Nat → Int) (target : Nat) (data : ToolResultData) :
    if s.trace.openTurn.isSome = true then
      s.validate (rewriteEvent clock target data s.seq) =
        .ok (s.trace.advance (rewriteEvent clock target data s.seq), s.compaction)
    else ∃ e, s.validate (rewriteEvent clock target data s.seq) = .error e := by
  have hmarker : (rewriteEvent clock target data s.seq).surfaceOp.any Json.isAppendMarker = false :=
    rfl
  split
  · rename_i hopen
    refine h.validate_of_advance rfl ?_ rfl
    unfold SessionTrace.Accepts
    simp only [rewriteEvent]
    exact ⟨hopen, trivial⟩
  rename_i hclosed
  cases hstep : s.trace.step (rewriteEvent clock target data s.seq) with
  | error e =>
    refine ⟨e, ?_⟩
    unfold GuardedSession.validate
    rw [hstep]
    rfl
  | ok trace =>
    obtain ⟨-, haccepts⟩ := SessionTrace.step_ok_iff.mp hstep
    unfold SessionTrace.Accepts at haccepts
    exact absurd haccepts.1 hclosed

/-- Inside a turn every candidate is handled without a rejection. -/
theorem pruneEach_pruning (config : PruneConfig) (clock : Nat → Int)
    (candidates : List (Nat × ToolResultData)) {p : PassRun} (h : Pruning p) :
    Pruning (pruneEach config clock p candidates).2 := by
  induction candidates generalizing p with
  | nil => exact h
  | cons candidate candidates ih =>
    obtain ⟨target, data⟩ := candidate
    unfold pruneEach
    cases pruneContent config data.message.block.content with
    | error e => exact h
    | ok pruned =>
      cases pruned with
      | none => exact ih h
      | some content =>
        have hmeter : Pruning (p.append (pruneRequest clock target data p.session.seq)).2 := by
          refine h.append fun event hprepare => ?_
          obtain ⟨state, hready⟩ := h.ready
          obtain ⟨htype, hvalid⟩ := validate_prune hready clock target data hprepare
          exact ⟨htype, _, hvalid⟩
        simp only [PassRun.appendAll]
        cases hfirst : p.append (pruneRequest clock target data p.session.seq) with
        | mk reply p₁ =>
          rw [hfirst] at hmeter
          cases reply with
          | error e => exact hmeter
          | ok event =>
            have hreplace : Pruning
                (p₁.append (rewriteRequest clock target (rewrite data content) p₁.session.seq)).2 := by
              refine hmeter.append fun event hprepare => ?_
              obtain ⟨state, hready⟩ := hmeter.ready
              rw [rewriteRequest_prepare] at hprepare
              cases hprepare
              have hvalid := validate_rewrite hready clock target (rewrite data content)
              rw [if_pos hmeter.openTurn] at hvalid
              have htype : ("tool/result" : JsString) ≠ "compaction/start" := by decide
              exact ⟨htype, _, hvalid⟩
            dsimp only
            cases hsecond : p₁.append
                (rewriteRequest clock target (rewrite data content) p₁.session.seq) with
            | mk reply p₂ =>
              rw [hsecond] at hreplace
              cases reply with
              | error e => exact hreplace
              | ok event => exact ih hreplace

/-! ## Outside a turn -/

/-- Within budget there is nothing to append. -/
theorem pruneEach_within (config : PruneConfig) (clock : Nat → Int)
    (candidates : List (Nat × ToolResultData)) (p : PassRun)
    (h : ∀ candidate ∈ candidates,
      measureContent candidate.2.message.block.content ≤ config.thresholdChars) :
    (pruneEach config clock p candidates).2 = p := by
  induction candidates with
  | nil => rfl
  | cons candidate candidates ih =>
    obtain ⟨target, data⟩ := candidate
    have hok := pruneContent_ok config data.message.block.content
    rw [if_pos (h (target, data) mem_cons_self)] at hok
    unfold pruneEach
    rw [hok]
    exact ih fun candidate hmem => h candidate (mem_cons_of_mem _ hmem)

/-- A tool result that is on the surface and in the log. -/
structure Current (s : GuardedSession) (state : SurfaceFoldState)
    (candidate : Nat × ToolResultData) : Prop where
  node : candidate.1 ∈ state.nodes
  event : (s.events[candidate.1]?).map SessionEvent.data = some (.toolResult candidate.2)
  lt : candidate.1 < s.seq
  safe : candidate.1 ≤ maxSafeInteger
  proper : ∀ value, candidate.2.presentation = some value → value.Proper

/-- The metering event is logged, whatever the turn. -/
theorem append_prune (h : s.Ready state)
    (clock : Nat → Int) (target : Nat) (data : ToolResultData) :
    ∃ s', s.append (pruneRequest clock target data s.seq) =
        (.logged { seq := s.seq, time := clock s.seq
                   data := .other "compaction/prune" (pruneData target data) (by decide) }, s') ∧
      s'.Ready state ∧ s'.trace.openTurn = s.trace.openTurn ∧
      s'.events = s.events ++ [{ seq := s.seq, time := clock s.seq
                                 data := .other "compaction/prune" (pruneData target data)
                                   (by decide) }] := by
  have hunmarked := CompactionSessionTrace.advance_unmarked s.compaction s.seq (clock s.seq)
    (pruneData target data) (show ("compaction/prune" : JsString) ∉ coreEventTypes by decide)
    rfl rfl rfl
  obtain ⟨hmeter, hkept⟩ := h.append_other "compaction/prune" (pruneData target data)
    (by decide) rfl (clock s.seq)
  rw [hunmarked] at hmeter
  exact ⟨_, hmeter, hkept _ hunmarked, rfl, rfl⟩

/-- Outside a turn the first rewrite is rejected. -/
theorem pruneEach_rejected (config : PruneConfig) (clock : Nat → Int)
    (candidates : List (Nat × ToolResultData))
    (hready : s.Ready state) (hclosed : ¬s.trace.openTurn.isSome = true)
    (hcurrent : ∀ candidate ∈ candidates, Current s state candidate)
    (hover : ∃ candidate ∈ candidates,
      ¬measureContent candidate.2.message.block.content ≤ config.thresholdChars) :
    ∃ outcome ∈ (pruneEach config clock { session := s } candidates).2.outcomes,
      ¬outcome.Accepted := by
  induction candidates with
  | nil =>
    obtain ⟨candidate, hmem, -⟩ := hover
    cases hmem
  | cons candidate candidates ih =>
    obtain ⟨target, data⟩ := candidate
    have hok := pruneContent_ok config data.message.block.content
    unfold pruneEach
    split at hok
    · rename_i hwithin
      rw [hok]
      refine ih (fun c hc => hcurrent c (mem_cons_of_mem _ hc)) ?_
      obtain ⟨c, hmem, hc⟩ := hover
      rcases mem_cons.mp hmem with rfl | hmem
      · exact absurd hwithin hc
      · exact ⟨c, hmem, hc⟩
    obtain ⟨content, hcontent⟩ := hok
    rw [hcontent]
    have hthis := hcurrent (target, data) mem_cons_self
    -- the metering event is logged, and the surface stands as before
    obtain ⟨s', hmeter, hready', htrace, hevents⟩ := append_prune hready clock target data
    have hcurrent' : (s'.events[target]?).map SessionEvent.data = some (.toolResult data) := by
      rw [hevents, getElem?_append_left hthis.lt]
      exact hthis.event
    have hlt : target < s'.seq := by
      have hlength : s'.seq = s.seq + 1 := by
        unfold GuardedSession.seq
        rw [hevents, length_append]
        rfl
      have := hthis.lt
      omega
    obtain ⟨plan, hplan⟩ := plan_rewriteEvent hthis.node hthis.safe hlt hcurrent' hthis.proper content
    have hveto := validate_rewrite hready' clock target (rewrite data content)
    rw [htrace, if_neg hclosed] at hveto
    obtain ⟨e, hveto⟩ := hveto
    have hreplace := hready'.append_planned
      (rewriteRequest_prepare clock target (rewrite data content) s'.seq) hplan
    rw [hveto] at hreplace
    simp only [PassRun.appendAll, PassRun.append, hmeter, hreplace]
    exact ⟨.vetoed (rewriteEvent clock target (rewrite data content) s'.seq) e, by simp, id⟩

end ToolResultPruner

end Harness
