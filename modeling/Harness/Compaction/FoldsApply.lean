-- SUMMARY: Landing a plan: what the appends of a fold transaction do to the surface.
import Harness.Compaction.FoldWalk
import Harness.Session.Refinement
import Harness.Session.SurfacePartition

namespace Harness

open List
open Json (ofNat get?)

/-! ## One append -/

/-- With no listeners around, an append pushes its event or leaves the session alone. -/
theorem SessionSpec.step_append {t : SessionSpec} (hsound : t.entry.Sound)
    (hopen : t.entry.appending = false) (request : AppendRequest) :
    t.step (.append request [] none []) =
      match t.planAppend request with
      | .error e => (.append [] (.error e) [], t)
      | .ok event => (.append [] (.ok event) [], t.push event) := by
  simp only [SessionSpec.step, SessionSpec.runOps]
  cases t.planAppend request with
  | error e => rfl
  | ok event =>
    simp only
    split
    · rfl
    rw [show (SessionSpec.push { t with entry := t.entry.beginAppend } event).entry =
        t.entry.beginAppend from rfl, hsound.finishAppend_beginAppend hopen]
    rfl

namespace Session

/-- `s` is open to appends and its surface is `state`. -/
structure Shows (s : Session) (state : SurfaceFoldState) : Prop where
  refines : s.Refines s.toSpec
  open_ : s.entry.appending = false
  accepts : ∃ replacements, SurfaceAccepts s.toSpec.events state replacements

variable {s : Session} {state : SurfaceFoldState}

theorem Shows.length (s : Session) : s.toSpec.events.length = s.seq := length_map _

theorem Shows.nodup (h : s.Shows state) : state.nodes.Nodup := by
  obtain ⟨replacements, haccepts⟩ := h.accepts
  exact (nodup_append.mp haccepts.partitioned.nodup).1

theorem Shows.nodes_lt (h : s.Shows state) : ∀ x ∈ state.nodes, x < s.seq := by
  obtain ⟨replacements, haccepts⟩ := h.accepts
  intro x hx
  rw [← Shows.length]
  exact haccepts.nodes_lt x hx

theorem append_eq (s : Session) (request : AppendRequest) :
    s.append request =
      (match (s.step (.append request [] none [])).1 with
        | .append _ (.error e) _ => .error e
        | _ => .ok (), (s.step (.append request [] none [])).2) := by
  unfold Session.append
  split
  · rename_i hstep
    rw [hstep]
  rename_i hnot hstep
  rw [hstep]
  dsimp only
  split
  · rename_i e _
    exact absurd rfl (hnot _ e _)
  · rfl

/-- What an append makes of the plan its event gets. -/
theorem Shows.append (h : s.Shows state) {request : AppendRequest} {event : SessionEvent}
    (hprepare : request.prepare s.seq false = .ok event) :
    match planSurfaceEvent state event s.seq s.toSpec.events 0 with
    | .error _ => ∃ e, (s.append request).1 = .error e
    | .ok plan => (s.append request).1 = .ok () ∧
        (s.append request).2.Shows (applySurfacePlan state plan).1 ∧
        (s.append request).2.toSpec.events = s.toSpec.events ++ [event] := by
  obtain ⟨replacements, haccepts⟩ := h.accepts
  obtain ⟨hreply, hnext⟩ := h.refines.step (.append request [] none [])
  rw [SessionSpec.step_append h.refines.sound h.open_] at hreply hnext
  have hspec : s.toSpec.planAppend request =
      (foldSurface (s.toSpec.events ++ [event])).map fun _ => event := by
    unfold SessionSpec.planAppend
    rw [Shows.length, show s.toSpec.entry.appending = false from h.open_, hprepare]
  have hsnoc := foldSurface_snoc haccepts event
  rw [Shows.length] at hsnoc
  cases hplan : planSurfaceEvent state event s.seq s.toSpec.events 0 with
  | error e =>
    rw [hplan] at hsnoc
    cases hfold : foldSurface (s.toSpec.events ++ [event]) with
    | ok result =>
      rw [hfold] at hsnoc
      cases hsnoc
    | error e' =>
      rw [hspec, hfold] at hreply
      exact ⟨e', by rw [append_eq, hreply]; rfl⟩
  | ok plan =>
    rw [hplan] at hsnoc
    cases hfold : foldSurface (s.toSpec.events ++ [event]) with
    | error e' =>
      rw [hfold] at hsnoc
      cases hsnoc
    | ok result =>
      rw [hspec, hfold] at hreply hnext
      have heq := hnext.eq_toSpec
      rw [append_eq, hreply]
      refine ⟨rfl, ⟨?_, ?_, ?_⟩, (congrArg SessionSpec.events heq).symm⟩
      · rw [← heq]
        exact hnext
      · rw [hnext.entry]
        exact h.open_
      · rw [← heq]
        exact ⟨_, haccepts.snoc (by rw [Shows.length]; exact hplan)⟩

end Session

/-! ## What the transaction logs -/

theorem snapshotItems_numbers (seqs : List Nat) :
    snapshotItems (seqs.map fun seq => some (FoldTransaction.numberOf seq)) =
      some (seqs.map ofNat) := by
  induction seqs with
  | nil => rfl
  | cons seq seqs ih =>
    simp only [map_cons, snapshotItems, FoldTransaction.numberOf, snapshotJsonValue] at ih ⊢
    rw [ih]
    rfl

theorem snapshotJsonValue_seqs (seqs : List Nat) :
    snapshotJsonValue (.array true 0 (seqs.map fun seq => some (FoldTransaction.numberOf seq))) =
      some (.arr (seqs.map ofNat)) := by
  have hdense : (seqs.map fun seq => some (FoldTransaction.numberOf seq)).countP Option.isSome =
      seqs.length := by
    simp [countP_map, Function.comp_def]
  simp only [snapshotJsonValue, hdense, length_map, snapshotItems_numbers]
  simp

namespace FoldTransaction

variable (x : FoldTransaction)

/-- The event that opens the bracket of a transaction. -/
def startEvent (seq : Nat) : SessionEvent :=
  { seq, time := x.clock seq, data := .other "compaction/start" x.bracketData start_merged }

/-- The event that closes the bracket of a transaction. -/
def endEvent (seq : Nat) : SessionEvent :=
  { seq, time := x.clock seq, data := .other "compaction/end" x.bracketData end_merged }

def summaryEvent (op : FoldOp) (seq : Nat) : SessionEvent :=
  { seq, time := x.clock seq, data := .other "compaction/summary" (x.summaryData op) summary_merged }

/-- The event of a recollection node. -/
def foldEvent (op : FoldOp) (seq : Nat) : SessionEvent where
  seq
  time := x.clock seq
  data := .assistantMessage (x.turn.getD 0) x.step
    { id := x.messageId seq
      content := [.text op.text]
      source := { provider := x.provider, model := x.model, replayState := none } } none
  surfaceOp := some (SurfaceOp.replace op.startSeq op.endSeq).toJson
  sourceEventSeqs := some (.arr (op.shadowedSeqs.map ofNat))

theorem foldRequest_prepare (op : FoldOp) (seq : Nat) :
    (x.foldRequest op seq).prepare seq false = .ok (x.foldEvent op seq) := by
  have hmeta : snapshotJsonValue (x.foldRequest op seq).surfaceMetadata =
      some (.obj [("sourceEventSeqs", .arr (op.shadowedSeqs.map ofNat)),
        ("surfaceOp", (SurfaceOp.replace op.startSeq op.endSeq).toJson)]) := by
    unfold foldRequest AppendRequest.surfaceMetadata
    simp only [spreadField, cons_append, nil_append]
    rw [snapshotJsonValue, snapshotFields, snapshotJsonValue_seqs]
    rfl
  have hsupported : assertSupportedRequestHeader (x.foldEvent op seq).data
      s!"session event \"{(x.foldEvent op seq).data.type}\"" = .ok () := rfl
  unfold AppendRequest.prepare
  simp only [show (x.foldRequest op seq).payload = .lossless (x.foldEvent op seq).data from rfl,
    hsupported, hmeta]
  rfl

end FoldTransaction

/-- A `compaction/…` event, as an append with no surface metadata logs it. -/
theorem prepare_other (type : JsString) (data : Json) (hmerged : type ∉ coreEventTypes)
    (hsupported : (type == "request/header-delta") = false) (time : Int) (seq : Nat) :
    AppendRequest.prepare { payload := .lossless (.other type data hmerged), time } seq false =
      .ok { seq, time, data := .other type data hmerged } := by
  have hheader : ∀ location,
      assertSupportedRequestHeader (.other type data hmerged) location = .ok () := by
    intro location
    unfold assertSupportedRequestHeader
    rw [show (EventData.other type data hmerged).type = type from rfl, hsupported]
    rfl
  have hmeta : snapshotJsonValue (AppendRequest.surfaceMetadata
      { payload := .lossless (.other type data hmerged), time }) = some (.obj []) := rfl
  unfold AppendRequest.prepare
  dsimp only
  rw [hheader, hmeta]
  rfl

/-- Events of other packages stay off the surface. -/
theorem isSurfaceEligibleType_other {type : JsString} (hmerged : type ∉ coreEventTypes) :
    isSurfaceEligibleType type = false := by
  rw [isSurfaceEligibleType, Bool.eq_false_iff]
  intro h
  refine hmerged ?_
  rw [contains_iff_mem] at h
  simp only [mem_cons, not_mem_nil, or_false] at h
  rcases h with rfl | rfl | rfl <;> simp only [coreEventTypes, mem_cons, true_or, or_true]

theorem planSurfaceEvent_other (state : SurfaceFoldState) (type : JsString) (data : Json)
    (hmerged : type ∉ coreEventTypes) (time : Int) (seq : Nat) (events : List SessionEvent) :
    planSurfaceEvent state { seq, time, data := .other type data hmerged } seq events 0 =
      .ok none := by
  have hop : surfaceOpOf { seq, time, data := .other type data hmerged } = .ok none := by
    unfold surfaceOpOf
    rw [show SessionEvent.type { seq, time, data := .other type data hmerged } = type from rfl,
      isSurfaceEligibleType_other hmerged]
    rfl
  unfold planSurfaceEvent
  rw [hop]
  simp

/-! ## One recollection node -/

theorem asEventSeq_ofNat {n : Nat} (h : n ≤ maxSafeInteger) : asEventSeq (ofNat n) = some n := by
  have hsafe : isSafeInt (n : Int) = true := by
    simp only [isSafeInt, decide_eq_true_eq]
    omega
  simp [asEventSeq, Json.asSafeInteger, ofNat, Num.asSafeInteger, hsafe]

theorem mapM_asEventSeq {seqs : List Nat} (h : ∀ x ∈ seqs, x ≤ maxSafeInteger) :
    (seqs.map ofNat).mapM asEventSeq = some seqs := by
  induction seqs with
  | nil => rfl
  | cons seq seqs ih =>
    rw [map_cons, mapM_cons, asEventSeq_ofNat (h seq mem_cons_self),
      ih fun x hx => h x (mem_cons_of_mem _ hx)]
    rfl

/-- What a fold op has to be for its node to be logged at `seq`. -/
structure FoldOp.LoggableAt (op : FoldOp) (seq : Nat) : Prop where
  nodup : op.shadowedSeqs.Nodup
  earlier : ∀ x ∈ op.shadowedSeqs, x < seq
  start : op.startSeq ∈ op.shadowedSeqs
  end_ : op.endSeq ∈ op.shadowedSeqs
  safe : ∀ x ∈ op.shadowedSeqs, x ≤ maxSafeInteger

namespace FoldTransaction

variable {x : FoldTransaction} {op : FoldOp} {seq : Nat}

theorem foldEvent_surfaceOp (h : op.LoggableAt seq) :
    surfaceOpOf (x.foldEvent op seq) = .ok (some (.replace op.startSeq op.endSeq)) := by
  have hstart := asEventSeq_ofNat (h.safe _ h.start)
  have hend := asEventSeq_ofNat (h.safe _ h.end_)
  have hreplace : asReplaceOp [("op", .str "replace"), ("start", ofNat op.startSeq),
      ("end", ofNat op.endSeq)] = some (op.startSeq, op.endSeq) := by
    unfold asReplaceOp
    rw [show get? "op" [("op", .str "replace"), ("start", ofNat op.startSeq),
        ("end", ofNat op.endSeq)] = some (.str "replace") from rfl,
      show get? "start" [("op", .str "replace"), ("start", ofNat op.startSeq),
        ("end", ofNat op.endSeq)] = some (ofNat op.startSeq) from rfl,
      show get? "end" [("op", .str "replace"), ("start", ofNat op.startSeq),
        ("end", ofNat op.endSeq)] = some (ofNat op.endSeq) from rfl]
    simp only [hstart, hend]
    rfl
  unfold surfaceOpOf
  rw [show isSurfaceEligibleType (x.foldEvent op seq).type = true from rfl]
  simp only [foldEvent, SurfaceOp.toJson, hreplace]
  rfl

theorem foldEvent_sources (h : op.LoggableAt seq) :
    provenanceSources (x.foldEvent op seq) = .ok op.shadowedSeqs := by
  have hmap := mapM_asEventSeq h.safe
  have hfind : op.shadowedSeqs.find? (seq ≤ ·) = none := by
    rw [find?_eq_none]
    intro y hy hle
    have := h.earlier y hy
    have : seq ≤ y := by simpa using hle
    omega
  have htype : ((x.foldEvent op seq).type != "assistant/message") = false := rfl
  have hseq : (x.foldEvent op seq).seq = seq := rfl
  unfold provenanceSources
  rw [show (x.foldEvent op seq).sourceEventSeqs = some (.arr (op.shadowedSeqs.map ofNat)) from
    rfl]
  simp only [htype, Bool.and_false, Bool.false_eq_true, if_false, hmap, h.nodup, decide_true,
    Bool.not_true, hseq, hfind]

/-- A fold applies when the surface still holds what it shadows in one piece. -/
theorem plan_foldEvent_ok (h : op.LoggableAt seq) {state : SurfaceFoldState} {front back : List Nat}
    (hnodup : state.nodes.Nodup) (hnodes : state.nodes = front ++ op.shadowedSeqs ++ back)
    (hstart : op.shadowedSeqs.head? = some op.startSeq)
    (hend : op.shadowedSeqs.getLast? = some op.endSeq) (events : List SessionEvent) :
    ∃ plan, planSurfaceEvent state (x.foldEvent op seq) seq events 0 = .ok plan ∧
      (applySurfacePlan state plan).1.nodes = front ++ seq :: back := by
  have hpos : 0 < op.shadowedSeqs.length := length_pos_of_mem h.start
  have hstartIdx : state.nodes.idxOf? op.startSeq = some front.length := by
    refine List.idxOf?_of_getElem? hnodup ?_
    rw [hnodes, append_assoc, getElem?_append_right (Nat.le_refl _), Nat.sub_self,
      getElem?_append_left hpos, ← head?_eq_getElem?, hstart]
  have hendIdx : state.nodes.idxOf? op.endSeq =
      some (front.length + op.shadowedSeqs.length - 1) := by
    refine List.idxOf?_of_getElem? hnodup ?_
    have hindex : front.length + op.shadowedSeqs.length - 1 - front.length =
        op.shadowedSeqs.length - 1 := by omega
    rw [hnodes, append_assoc, getElem?_append_right (by omega), hindex,
      getElem?_append_left (by omega), ← getLast?_eq_getElem?, hend]
  have hrange : replacementRange state op.startSeq op.endSeq =
      .ok { startIdx := front.length, endIdx := front.length + op.shadowedSeqs.length - 1
            shadowedSeqs := op.shadowedSeqs } := by
    have hcount : front.length + op.shadowedSeqs.length - 1 + 1 - front.length =
        op.shadowedSeqs.length := by omega
    unfold replacementRange
    simp only [hstartIdx, hendIdx]
    rw [if_neg (by omega), hcount, hnodes, List.slice, append_assoc, drop_left,
      take_left]
  have hprov : assertProvenance (x.foldEvent op seq) op.shadowedSeqs = .ok () := by
    unfold assertProvenance
    simp [foldEvent_sources h]
  refine ⟨some (.replace { seq, start := op.startSeq, end_ := op.endSeq
                           shadowedSeqs := op.shadowedSeqs, startIdx := front.length
                           endIdx := front.length + op.shadowedSeqs.length - 1 }), ?_, ?_⟩
  · unfold planSurfaceEvent
    rw [show ((x.foldEvent op seq).seq != seq) = false from bne_self_eq_false seq]
    simp only [Bool.false_eq_true, if_false, foldEvent_surfaceOp h, hrange, hprov]
    rfl
  · have hcount : front.length + op.shadowedSeqs.length - 1 - front.length + 1 =
        op.shadowedSeqs.length := by omega
    have hdrop : front.length + op.shadowedSeqs.length = (front ++ op.shadowedSeqs).length := by
      rw [length_append]
    simp only [applySurfacePlan, List.splice, hcount, hnodes]
    rw [hdrop, drop_left, append_assoc front, take_left]
    simp

/-- A fold that applies cites every node between its ends. -/
theorem plan_foldEvent_cited (h : op.LoggableAt seq) {state : SurfaceFoldState}
    {events : List SessionEvent} {plan : Option SurfacePlan}
    (hplan : planSurfaceEvent state (x.foldEvent op seq) seq events 0 = .ok plan) :
    ∃ i k : Nat, state.nodes[i]? = some op.startSeq ∧ state.nodes[k]? = some op.endSeq ∧
      ∀ j n, i ≤ j → j ≤ k → state.nodes[j]? = some n → n ∈ op.shadowedSeqs := by
  obtain ⟨-, hplan⟩ := planSurfaceEvent_ok hplan
  cases plan with
  | none =>
    rw [foldEvent_surfaceOp h] at hplan
    cases hplan
  | some plan =>
    cases plan with
    | append seq' =>
      rw [foldEvent_surfaceOp h] at hplan
      cases hplan.2
    | replace p =>
      obtain ⟨-, hreplace⟩ := hplan
      have hop := hreplace.op
      rw [foldEvent_surfaceOp h] at hop
      simp only [Except.ok.injEq, Option.some.injEq, SurfaceOp.replace.injEq] at hop
      obtain ⟨sources, hsources, hcited⟩ := hreplace.cited
      rw [foldEvent_sources h] at hsources
      cases hsources
      refine ⟨p.startIdx, p.endIdx, hop.1 ▸ hreplace.startNode, hop.2 ▸ hreplace.endNode, ?_⟩
      intro j n hlo hhi hget
      refine hcited n ?_
      rw [hreplace.shadowed, mem_slice_iff]
      exact ⟨j, hlo, by omega, hget⟩

end FoldTransaction

/-! ## The appends of a transaction -/

namespace Session

variable {s : Session} {state : SurfaceFoldState} {x : FoldTransaction}

theorem appendAll_append (s : Session) (requests more : List (Nat → AppendRequest)) :
    s.appendAll (requests ++ more) =
      match s.appendAll requests with
      | (.error e, s) => (.error e, s)
      | (.ok (), s) => s.appendAll more := by
  induction requests generalizing s with
  | nil => rfl
  | cons request requests ih =>
    rw [cons_append, appendAll, appendAll]
    cases s.append (request s.seq) with
    | mk result s' =>
      cases result with
      | error e => rfl
      | ok _ => exact ih s'

/-- A bracket or summary append leaves the surface as it is. -/
theorem Shows.append_other (h : s.Shows state) (type : JsString) (data : Json)
    (hmerged : type ∉ coreEventTypes) (hsupported : (type == "request/header-delta") = false)
    (time : Int) :
    ∃ s', s.append { payload := .lossless (.other type data hmerged), time } = (.ok (), s') ∧
      s'.Shows state ∧ s'.toSpec.events =
        s.toSpec.events ++ [{ seq := s.seq, time, data := .other type data hmerged }] := by
  have happend := h.append (prepare_other type data hmerged hsupported time s.seq)
  rw [planSurfaceEvent_other] at happend
  obtain ⟨hok, hshows, hevents⟩ := happend
  exact ⟨_, Prod.ext hok rfl, hshows, hevents⟩

theorem Shows.append_fold (h : s.Shows state) {op : FoldOp} {front back : List Nat}
    (hlog : op.LoggableAt s.seq) (hnodes : state.nodes = front ++ op.shadowedSeqs ++ back)
    (hstart : op.shadowedSeqs.head? = some op.startSeq)
    (hend : op.shadowedSeqs.getLast? = some op.endSeq) :
    ∃ s' state', s.append (x.foldRequest op s.seq) = (.ok (), s') ∧ s'.Shows state' ∧
      state'.nodes = front ++ s.seq :: back ∧
      s'.toSpec.events = s.toSpec.events ++ [x.foldEvent op s.seq] := by
  obtain ⟨plan, hplan, hafter⟩ :=
    FoldTransaction.plan_foldEvent_ok (x := x) hlog h.nodup hnodes hstart hend s.toSpec.events
  have happend := h.append (x.foldRequest_prepare op s.seq)
  rw [hplan] at happend
  obtain ⟨hok, hshows, hevents⟩ := happend
  exact ⟨_, _, Prod.ext hok rfl, hshows, hafter, hevents⟩

theorem seq_of_events {s s' : Session} {event : SessionEvent}
    (h : s'.toSpec.events = s.toSpec.events ++ [event]) : s'.seq = s.seq + 1 := by
  rw [← Shows.length, h, length_append, Shows.length, length_singleton]

end Session

/-! ## Ops on the live surface -/

section

variable {surface : List SurfaceAnno} {op : FoldOp} {range : Nat × Nat}

section

variable (h : OpAt surface op range)
include h

theorem OpAt.shadowed_eq :
    op.shadowedSeqs = (surface.map (·.seq)).slice range.1 (range.2 - range.1) := by
  rw [h.shadowed, List.slice, List.slice, map_take, map_drop]

theorem OpAt.mem_surface : ∀ y ∈ op.shadowedSeqs, y ∈ surface.map (·.seq) := by
  rw [h.shadowed_eq]
  exact fun y hy => List.mem_of_mem_slice hy

theorem OpAt.startNode : (surface.map (·.seq))[range.1]? = some op.startSeq := by
  rw [getElem?_map]
  exact h.start

theorem OpAt.endNode : (surface.map (·.seq))[range.2 - 1]? = some op.endSeq := by
  rw [getElem?_map]
  exact h.end_

end

theorem OpAt.head? (h : OpAt surface op range) : op.shadowedSeqs.head? = some op.startSeq := by
  have hlt := h.nonempty
  rw [h.shadowed_eq, head?_eq_getElem?, getElem?_slice, if_pos (by omega), Nat.add_zero,
    h.startNode]

theorem OpAt.getLast? (h : OpAt surface op range) : op.shadowedSeqs.getLast? = some op.endSeq := by
  have hlt := h.nonempty
  have hinside := h.inside
  have hindex : range.1 + (range.2 - range.1 - 1) = range.2 - 1 := by omega
  rw [h.shadowed_eq, getLast?_eq_getElem?, length_slice _ (by omega) (by simpa using hinside),
    getElem?_slice, if_pos (by omega), hindex, h.endNode]

/-- On a live surface the node of an op can be logged. -/
theorem OpAt.loggableAt (h : OpAt surface op range) (hnodup : (surface.map (·.seq)).Nodup)
    {seq : Nat} (hlt : ∀ y ∈ surface.map (·.seq), y < seq)
    (hsafe : ∀ y ∈ surface.map (·.seq), y ≤ maxSafeInteger) : op.LoggableAt seq where
  nodup := by
    rw [h.shadowed_eq]
    exact hnodup.sublist ((take_sublist _ _).trans (drop_sublist _ _))
  earlier y hy := hlt y (h.mem_surface y hy)
  start := mem_of_mem_head? h.head?
  end_ := mem_of_getLast? h.getLast?
  safe y hy := hsafe y (h.mem_surface y hy)

/-- The pre-flight of an op passes on the surface it was planned on. -/
theorem OpAt.applies (h : OpAt surface op range) (hnodup : (surface.map (·.seq)).Nodup) :
    assertFoldOpApplies (surface.map (·.seq)) op = .ok () := by
  have hlt := h.nonempty
  have hcount : range.2 - 1 + 1 - range.1 = range.2 - range.1 := by omega
  unfold assertFoldOpApplies
  simp only [List.idxOf?_of_getElem? hnodup h.startNode, List.idxOf?_of_getElem? hnodup h.endNode]
  rw [if_neg (by omega), hcount, ← h.shadowed_eq]
  simp

end

theorem assertFoldOpsApply_ok {surface : List SurfaceAnno} {ops : List FoldOp}
    {ranges : List (Nat × Nat)} (hops : List.Forall₂ (OpAt surface) ops ranges)
    (hnodup : (surface.map (·.seq)).Nodup) :
    assertFoldOpsApply (surface.map (·.seq)) ops = .ok () := by
  induction hops with
  | nil => rfl
  | cons hop _ ih =>
    rw [assertFoldOpsApply, hop.applies hnodup]
    exact ih

/-- The surface that is left of `nodes` from `e` on, once the ranges are replaced by the
nodes that are logged from `seq` on. -/
def landed (nodes : List Nat) : (seq e : Nat) → List (Nat × Nat) → List Nat
  | _, e, [] => nodes.drop e
  | seq, e, range :: ranges =>
    nodes.slice e (range.1 - e) ++ (seq + 1) :: landed nodes (seq + 2) range.2 ranges

namespace Session

variable {s : Session} {state : SurfaceFoldState}

/-- The appends of the planned folds. -/
def foldRequests (x : FoldTransaction) (ops : List FoldOp) : List (Nat → AppendRequest) :=
  ops.flatMap fun op => [x.summaryRequest op, x.foldRequest op]

/-- What the folds of a plan leave behind: the log grows, and the surface holds nodes it held
and recollections. -/
structure Landed (x : FoldTransaction) (s s' : Session) (front nodes rest : List Nat) : Prop where
  shows : ∃ state', s'.Shows state' ∧ state'.nodes = front ++ rest
  grows : ∃ more, s'.toSpec.events = s.toSpec.events ++ more
  fresh : ∀ n ∈ rest, n ∈ nodes ∨ ∃ op, s'.toSpec.events[n]? = some (x.foldEvent op n)

section

variable {x : FoldTransaction} {surface : List SurfaceAnno} {front : List Nat} {e : Nat}

/-- A fold behind the ones that have landed lands too. -/
theorem Shows.landOp (h : s.Shows state) {op : FoldOp} {range : Nat × Nat}
    (hop : OpAt surface op range) (hnodes : state.nodes = front ++ (surface.map (·.seq)).drop e)
    (hnodup : (surface.map (·.seq)).Nodup) (hlt : ∀ y ∈ surface.map (·.seq), y < s.seq)
    (hsafe : ∀ y ∈ surface.map (·.seq), y ≤ maxSafeInteger) (hle : e ≤ range.1) :
    ∃ (s' : Session) (state' : SurfaceFoldState),
      (∀ requests, s.appendAll (x.summaryRequest op :: x.foldRequest op :: requests) =
        s'.appendAll requests) ∧
      s'.Shows state' ∧ s'.seq = s.seq + 2 ∧
      state'.nodes = front ++ (surface.map (·.seq)).slice e (range.1 - e) ++ [s.seq + 1] ++
        (surface.map (·.seq)).drop range.2 ∧
      s'.toSpec.events =
        s.toSpec.events ++ [x.summaryEvent op s.seq, x.foldEvent op (s.seq + 1)] := by
  have hrange := hop.nonempty
  -- the summary leaves the surface alone
  obtain ⟨s₁, hsummary, hshows₁, hevents₁⟩ := h.append_other "compaction/summary"
    (x.summaryData op) (by decide) rfl (x.clock s.seq)
  have hseq₁ := seq_of_events hevents₁
  -- the recollection takes the place of what it shadows
  have hsplit : state.nodes = (front ++ (surface.map (·.seq)).slice e (range.1 - e)) ++
      op.shadowedSeqs ++ (surface.map (·.seq)).drop range.2 := by
    rw [hnodes, ← slice_append_drop _ hle, ← slice_append_drop _ (Nat.le_of_lt hrange),
      ← hop.shadowed_eq, append_assoc, append_assoc]
  have hlog : op.LoggableAt s₁.seq :=
    hop.loggableAt hnodup (fun y hy => hseq₁ ▸ Nat.lt_succ_of_lt (hlt y hy)) hsafe
  obtain ⟨s₂, state₂, hfold, hshows₂, hnodes₂, hevents₂⟩ :=
    hshows₁.append_fold (x := x) hlog hsplit hop.head? hop.getLast?
  have hseq₂ := seq_of_events hevents₂
  refine ⟨s₂, state₂, fun requests => ?_, hshows₂, by omega, ?_, ?_⟩
  · rw [appendAll, show s.append (x.summaryRequest op s.seq) = (.ok (), s₁) from hsummary]
    dsimp only
    rw [appendAll, hfold]
  · rw [hnodes₂, hseq₁]
    simp
  · rw [hevents₂, hevents₁, hseq₁, append_assoc]
    rfl

/-- Ranges that keep clear of each other land one after the other. -/
theorem Shows.land (h : s.Shows state) {ops : List FoldOp} {ranges : List (Nat × Nat)}
    (hops : List.Forall₂ (OpAt surface) ops ranges)
    (hnodes : state.nodes = front ++ (surface.map (·.seq)).drop e)
    (hnodup : (surface.map (·.seq)).Nodup) (hlt : ∀ y ∈ surface.map (·.seq), y < s.seq)
    (hsafe : ∀ y ∈ surface.map (·.seq), y ≤ maxSafeInteger)
    (hclear : ∀ r ∈ ranges, e ≤ r.1) (hpairs : ranges.Pairwise (·.2 ≤ ·.1)) :
    ∃ s', s.appendAll (foldRequests x ops) = (.ok (), s') ∧
      Landed x s s' front (surface.map (·.seq)) (landed (surface.map (·.seq)) s.seq e ranges) := by
  induction hops generalizing s state front e with
  | nil =>
    refine ⟨s, rfl, ⟨state, h, hnodes⟩, ⟨[], (append_nil _).symm⟩, fun n hn => .inl ?_⟩
    exact mem_of_mem_drop hn
  | @cons op range ops ranges hop _ ih =>
    obtain ⟨hfirst, hpairs⟩ := pairwise_cons.mp hpairs
    obtain ⟨s₁, state₁, hrun, hshows₁, hseq₁, hnodes₁, hevents₁⟩ :=
      h.landOp (x := x) hop hnodes hnodup hlt hsafe (hclear range mem_cons_self)
    obtain ⟨s', hrest, hlanded⟩ := ih hshows₁ hnodes₁
      (fun y hy => by have := hlt y hy; omega) hfirst hpairs
    obtain ⟨more, hmore⟩ := hlanded.grows
    refine ⟨s', (hrun _).trans hrest, ?_, ?_, ?_⟩
    · obtain ⟨state', hshows', hnodes'⟩ := hlanded.shows
      refine ⟨state', hshows', ?_⟩
      rw [hnodes', landed, hseq₁]
      simp
    · refine ⟨[x.summaryEvent op s.seq, x.foldEvent op (s.seq + 1)] ++ more, ?_⟩
      rw [hmore, hevents₁, append_assoc]
    · intro n hn
      rw [landed, mem_append, mem_cons] at hn
      rcases hn with hn | rfl | hn
      · exact .inl (List.mem_of_mem_slice hn)
      · refine .inr ⟨op, ?_⟩
        rw [hmore, hevents₁, append_assoc, getElem?_append_right (by
          rw [Shows.length]; omega), Shows.length, Nat.add_sub_cancel_left]
        rfl
      · exact hlanded.fresh n (by rwa [hseq₁])

/-- A range that reaches back over what has landed does not. -/
theorem Shows.clash (h : s.Shows state) {ops : List FoldOp} {ranges : List (Nat × Nat)}
    (hops : List.Forall₂ (OpAt surface) ops ranges)
    (hnodes : state.nodes = front ++ (surface.map (·.seq)).drop e)
    (hnodup : (surface.map (·.seq)).Nodup) (hlt : ∀ y ∈ surface.map (·.seq), y < s.seq)
    (hsafe : ∀ y ∈ surface.map (·.seq), y ≤ maxSafeInteger)
    (htip : e = 0 ∨ ∃ n, n ∉ surface.map (·.seq) ∧ front.getLast? = some n)
    (hbehind : ∀ r ∈ ranges, e < r.2) (hrising : ranges.Pairwise (·.2 < ·.2))
    (hnot : ¬((∀ r ∈ ranges, e ≤ r.1) ∧ ranges.Pairwise (·.2 ≤ ·.1))) :
    ∃ error, (s.appendAll (foldRequests x ops)).1 = .error error := by
  induction hops generalizing s state front e with
  | nil => exact absurd ⟨by simp, .nil⟩ hnot
  | @cons op range ops ranges hop _ ih =>
    obtain ⟨hfirst, hrising⟩ := pairwise_cons.mp hrising
    by_cases hle : e ≤ range.1
    · obtain ⟨s₁, state₁, hrun, hshows₁, hseq₁, hnodes₁, -⟩ :=
        h.landOp (x := x) hop hnodes hnodup hlt hsafe hle
      have hrest := ih hshows₁ hnodes₁ (fun y hy => by have := hlt y hy; omega)
        (.inr ⟨s.seq + 1, fun hy => by have := hlt _ hy; omega, by simp⟩) hfirst hrising
        fun ⟨hclear, hpairs⟩ => hnot ⟨?_, pairwise_cons.mpr ⟨hclear, hpairs⟩⟩
      · rw [show foldRequests x (op :: ops) = x.summaryRequest op :: x.foldRequest op ::
          foldRequests x ops from rfl, hrun]
        exact hrest
      have hrange := hop.nonempty
      intro r hr
      rcases mem_cons.mp hr with rfl | hr
      · exact hle
      · have := hclear r hr
        omega
    · -- the range starts in front of the newest node and ends behind it
      obtain ⟨n, hn, htip⟩ := htip.resolve_left (by omega)
      obtain ⟨s₁, hsummary, hshows₁, hevents₁⟩ := h.append_other "compaction/summary"
        (x.summaryData op) (by decide) rfl (x.clock s.seq)
      have hseq₁ := seq_of_events hevents₁
      have hlog : op.LoggableAt s₁.seq :=
        hop.loggableAt hnodup (fun y hy => hseq₁ ▸ Nat.lt_succ_of_lt (hlt y hy)) hsafe
      have happend := hshows₁.append (x.foldRequest_prepare op s₁.seq)
      rw [show foldRequests x (op :: ops) = x.summaryRequest op :: x.foldRequest op ::
          foldRequests x ops from rfl, appendAll,
        show s.append (x.summaryRequest op s.seq) = (.ok (), s₁) from hsummary]
      dsimp only
      rw [appendAll]
      cases hplan : planSurfaceEvent state (x.foldEvent op s₁.seq) s₁.seq s₁.toSpec.events 0 with
      | error e =>
        rw [hplan] at happend
        obtain ⟨error, herror⟩ := happend
        refine ⟨error, ?_⟩
        cases hfold : s₁.append (x.foldRequest op s₁.seq) with
        | mk result s₂ =>
          rw [hfold] at herror
          dsimp only at herror
          subst herror
          rfl
      | ok plan =>
        obtain ⟨i, k, hi, hk, hcited⟩ := FoldTransaction.plan_foldEvent_cited hlog hplan
        refine absurd (hop.mem_surface n (hcited (front.length - 1) n ?_ ?_ ?_)) hn
        · -- the first node the op shadows is gone, or stands before the newest node
          by_contra hafter
          rw [hnodes, getElem?_append_right (by omega), getElem?_drop] at hi
          have hsame := Option.some.inj ((List.idxOf?_of_getElem? hnodup hi).symm.trans
            (List.idxOf?_of_getElem? hnodup hop.startNode))
          omega
        · have hend : state.nodes[front.length + (range.2 - 1 - e)]? = some op.endSeq := by
            have hbehind := hbehind range mem_cons_self
            rw [hnodes, getElem?_append_right (by omega), Nat.add_sub_cancel_left,
              getElem?_drop, Nat.add_sub_cancel' (by omega), hop.endNode]
          have hsame := Option.some.inj ((List.idxOf?_of_getElem? h.nodup hk).symm.trans
            (List.idxOf?_of_getElem? h.nodup hend))
          omega
        · rw [hnodes, getElem?_append_left ?_, ← getLast?_eq_getElem?, htip]
          cases front with
          | nil => cases htip
          | cons => simp

end

end Session

end Harness
