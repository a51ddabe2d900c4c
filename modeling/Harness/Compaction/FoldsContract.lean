-- SUMMARY: When a plan lands as a whole: exactly when no fold pulls in what an earlier fold of it shadows.
import Harness.Compaction.FoldsApply
import Harness.Session.SessionContract

namespace Harness

open List

/-- No fold of the plan pulls in a node that an earlier fold of it shadows. -/
def PlanKeepsClear (events : List SessionEvent) (nodes : List Nat) (runtime : SessionRuntime)
    (entries : List ContextEntry) : Prop :=
  ∀ desired, parseDesired runtime entries = some desired →
    RepairsKeepClear (annotateSurface events nodes) desired

theorem annotateSurface_seqs (events : List SessionEvent) (nodes : List Nat) :
    (annotateSurface events nodes).map (·.seq) = nodes := by
  rw [annotateSurface, map_map]
  exact map_id' nodes

theorem planFolds_walked {events : List SessionEvent} {nodes : List Nat} {runtime : SessionRuntime}
    {entries : List ContextEntry} {ops : List FoldOp} (hnodup : nodes.Nodup)
    (hplan : planFolds events nodes runtime entries = some ops) :
    ∃ ranges, List.Forall₂ (OpAt (annotateSurface events nodes)) ops ranges ∧
      ranges.Pairwise (·.2 < ·.2) ∧
      (PlanKeepsClear events nodes runtime entries ↔ ranges.Pairwise (·.2 ≤ ·.1)) := by
  obtain ⟨desired, hdesired, hwalk⟩ := Option.bind_eq_some_iff.mp hplan
  obtain ⟨w, hw, rfl⟩ := Option.map_eq_some_iff.mp hwalk
  obtain ⟨ranges, hwalked⟩ :=
    planItems_walked (by rw [annotateSurface_seqs]; exact hnodup) hw
  refine ⟨ranges, hwalked.ops, hwalked.rising, ?_⟩
  rw [← hwalked.clear]
  constructor
  · exact fun hclear => hclear desired hdesired
  intro hclear desired' hdesired'
  cases hdesired.symm.trans hdesired'
  exact hclear

namespace Session

/-- What `a` shadows stands on the surface before what `b` shadows. -/
def Before (nodes : List Nat) (a b : FoldOp) : Prop :=
  ∀ (i j y z : Nat), nodes[i]? = some y → y ∈ a.shadowedSeqs → nodes[j]? = some z → z ∈ b.shadowedSeqs →
    i < j

/-- The transaction of a plan on the surface `nodes` lands as a whole. -/
structure PlanApplies (s : Session) (nodes : List Nat) (x : FoldTransaction) (ops : List FoldOp) :
    Prop where
  done : (s.executeFolds x ops).1 = .ok ()
  ordered : ops.Pairwise (Before nodes)
  /-- What an op shadows is one piece of the surface when its turn comes. -/
  contiguous : ∀ pre op post, ops = pre ++ op :: post → ∃ s' current front back,
    s.nodes.2.appendAll (x.startRequest :: foldRequests x pre) = (.ok (), s') ∧
      s'.nodes.1 = .ok current ∧ current = front ++ op.shadowedSeqs ++ back
  bracketed : ∃ folds seq, (s.executeFolds x ops).2.toSpec.events =
    s.toSpec.events ++ x.startEvent s.seq :: folds ++ [x.endEvent seq]

variable {s : Session} {state : SurfaceFoldState} {x : FoldTransaction}

/-- A session between appends shows the surface its log folds to. -/
theorem Reached.shows (h : s.Reached) (hopen : s.entry.appending = false) {nodes : List Nat}
    (hnodes : s.nodes.1 = .ok nodes) :
    ∃ state, s.nodes.2.Shows state ∧ state.nodes = nodes ∧ s.nodes.2.toSpec = s.toSpec := by
  obtain ⟨state, replacements, haccepts⟩ := h.refines.inv.accepted
  have hread := h.refines.inv.nodes haccepts
  obtain ⟨-, hafter⟩ := h.refines.nodes
  rw [hread] at hnodes
  cases hnodes
  refine ⟨state, ⟨?_, ?_, ?_⟩, rfl, hafter.eq_toSpec.symm⟩
  · rw [← hafter.eq_toSpec]
    exact hafter
  · rw [hafter.entry]
    exact hopen
  · rw [← hafter.eq_toSpec]
    exact ⟨replacements, haccepts⟩

theorem Shows.events (h : s.Shows state) : s.events.1 = s.toSpec.events := h.refines.inv.events.1

theorem Shows.nodes (h : s.Shows state) : s.nodes.1 = .ok state.nodes := by
  obtain ⟨replacements, haccepts⟩ := h.accepts
  rw [h.refines.inv.nodes haccepts]

/-- What the nodes behind the last range leave as it was. -/
theorem landed_suffix (nodes : List Nat) (seq : Nat) {e bound : Nat} (hle : e ≤ bound)
    {ranges : List (Nat × Nat)} (hbefore : ∀ r ∈ ranges, r.2 ≤ bound) :
    ∃ front, landed nodes seq e ranges = front ++ nodes.drop bound := by
  induction ranges generalizing seq e with
  | nil => exact ⟨_, (slice_append_drop nodes hle).symm⟩
  | cons range ranges ih =>
    obtain ⟨front, hfront⟩ := ih (seq + 2) (hbefore range mem_cons_self)
      fun r hr => hbefore r (mem_cons_of_mem _ hr)
    exact ⟨nodes.slice e (range.1 - e) ++ (seq + 1) :: front, by rw [landed, hfront]; simp⟩

theorem before_of_ranges {surface : List SurfaceAnno} (hnodup : (surface.map (·.seq)).Nodup)
    {a b : FoldOp} {ra rb : Nat × Nat} (ha : OpAt surface a ra) (hb : OpAt surface b rb)
    (hle : ra.2 ≤ rb.1) : Before (surface.map (·.seq)) a b := by
  intro i j y z hi hy hj hz
  obtain ⟨i', node, -, hi', hget, rfl⟩ := ha.mem_shadowed.mp hy
  obtain ⟨j', node', hj', -, hget', rfl⟩ := hb.mem_shadowed.mp hz
  have hsame {k k' : Nat} {node : SurfaceAnno} (hk : (surface.map (·.seq))[k]? = some node.seq)
      (hk' : surface[k']? = some node) : k = k' :=
    Option.some.inj ((List.idxOf?_of_getElem? hnodup hk).symm.trans
      (List.idxOf?_of_getElem? hnodup (by rw [getElem?_map, hk']; rfl)))
  rw [hsame hi hget, hsame hj hget']
  omega

theorem ordered_of_ranges {surface : List SurfaceAnno} (hnodup : (surface.map (·.seq)).Nodup)
    {ops : List FoldOp} {ranges : List (Nat × Nat)} (hops : List.Forall₂ (OpAt surface) ops ranges)
    (hpairs : ranges.Pairwise (·.2 ≤ ·.1)) : ops.Pairwise (Before (surface.map (·.seq))) := by
  induction hops with
  | nil => exact .nil
  | cons hop hops ih =>
    obtain ⟨hfirst, hpairs⟩ := pairwise_cons.mp hpairs
    refine pairwise_cons.mpr ⟨fun b hb => ?_, ih hpairs⟩
    obtain ⟨rb, hrb, hat⟩ := exists_of_forall₂_left hops hb
    exact before_of_ranges hnodup hop hat (hfirst rb hrb)

/-- `s₁` is `s` with the bracket of a transaction on the surface `nodes` open. -/
structure Opened (s : Session) (x : FoldTransaction) (nodes : List Nat) (s₁ : Session)
    (state : SurfaceFoldState) : Prop where
  read : s.nodes.1 = .ok nodes
  appended : s.nodes.2.append (x.startRequest s.nodes.2.seq) = (.ok (), s₁)
  shows : s₁.Shows state
  shown : state.nodes = nodes
  events : s₁.toSpec.events = s.toSpec.events ++ [x.startEvent s.seq]
  lt : ∀ y ∈ nodes, y < s.seq
  safe : s.seq ≤ maxSafeInteger

theorem Reached.opens (hs : s.Reached) (hopen : s.entry.appending = false)
    (hlen : s.seq ≤ maxSafeInteger) {nodes : List Nat} (hnodes : s.nodes.1 = .ok nodes) :
    ∃ s₁ state, Opened s x nodes s₁ state := by
  obtain ⟨state, hshows, rfl, hspec⟩ := hs.shows hopen hnodes
  have hseq : s.nodes.2.seq = s.seq := by
    rw [← Shows.length, ← Shows.length, hspec]
  obtain ⟨s₁, hstart, hshows₁, hevents⟩ := hshows.append_other "compaction/start" x.bracketData
    (by decide) rfl (x.clock s.nodes.2.seq)
  exact ⟨s₁, state, hnodes, hstart, hshows₁, rfl, by rw [hevents, hspec, hseq]; rfl,
    hseq ▸ hshows.nodes_lt, hlen⟩

namespace Opened

variable {nodes : List Nat} {s₁ : Session} {surface : List SurfaceAnno} {ops : List FoldOp}
  {ranges : List (Nat × Nat)}

theorem seq (h : Opened s x nodes s₁ state) : s₁.seq = s.seq + 1 := seq_of_events h.events

theorem nodup (h : Opened s x nodes s₁ state) : nodes.Nodup := h.shown ▸ h.shows.nodup

/-- The transaction behind its opening bracket. -/
theorem executeFolds (h : Opened s x nodes s₁ state) (hsurface : surface.map (·.seq) = nodes)
    (hops : List.Forall₂ (OpAt surface) ops ranges) :
    s.executeFolds x ops = s₁.appendAll (foldRequests x ops ++ [x.endRequest]) := by
  have hread : s.nodes = (.ok nodes, s.nodes.2) := Prod.ext h.read rfl
  unfold Session.executeFolds
  rw [hread]
  dsimp only
  rw [← hsurface, assertFoldOpsApply_ok hops (hsurface ▸ h.nodup)]
  dsimp only
  rw [cons_append, appendAll, h.appended]
  rfl

theorem land (h : Opened s x nodes s₁ state) (hsurface : surface.map (·.seq) = nodes)
    (hops : List.Forall₂ (OpAt surface) ops ranges) (hpairs : ranges.Pairwise (·.2 ≤ ·.1)) :
    ∃ s', s₁.appendAll (foldRequests x ops) = (.ok (), s') ∧
      Landed x s₁ s' [] nodes (landed nodes (s.seq + 1) 0 ranges) := by
  subst hsurface
  rw [← h.seq]
  refine h.shows.land hops h.shown h.nodup (fun y hy => ?_) (fun y hy => ?_)
    (fun _ _ => Nat.zero_le _) hpairs
  · rw [h.seq]
    exact Nat.lt_succ_of_lt (h.lt y hy)
  · exact Nat.le_trans (Nat.le_of_lt (h.lt y hy)) h.safe

theorem clash (h : Opened s x nodes s₁ state) (hsurface : surface.map (·.seq) = nodes)
    (hops : List.Forall₂ (OpAt surface) ops ranges) (hrising : ranges.Pairwise (·.2 < ·.2))
    (hpairs : ¬ranges.Pairwise (·.2 ≤ ·.1)) :
    ∃ error, (s₁.appendAll (foldRequests x ops)).1 = .error error := by
  subst hsurface
  have hnodes : state.nodes = [] ++ (surface.map (·.seq)).drop 0 := h.shown
  refine h.shows.clash hops hnodes h.nodup (fun y hy => ?_) (fun y hy => ?_) (.inl rfl)
    (fun r hr => ?_) hrising fun hclear => hpairs hclear.2
  · rw [h.seq]
    exact Nat.lt_succ_of_lt (h.lt y hy)
  · exact Nat.le_trans (Nat.le_of_lt (h.lt y hy)) h.safe
  · obtain ⟨op, -, hop⟩ := exists_of_forall₂_right hops hr
    exact Nat.lt_of_le_of_lt (Nat.zero_le _) hop.nonempty

/-- A plan whose ranges keep clear of each other runs to its closing bracket. -/
theorem close (h : Opened s x nodes s₁ state) (hsurface : surface.map (·.seq) = nodes)
    (hops : List.Forall₂ (OpAt surface) ops ranges) (hpairs : ranges.Pairwise (·.2 ≤ ·.1)) :
    ∃ s' state' folds seq, s.executeFolds x ops = (.ok (), s') ∧ s'.Shows state' ∧
      s'.toSpec.events = s.toSpec.events ++ x.startEvent s.seq :: folds ++ [x.endEvent seq] ∧
      state'.nodes = landed nodes (s.seq + 1) 0 ranges ∧
      ∀ n ∈ landed nodes (s.seq + 1) 0 ranges,
        n ∈ nodes ∨ ∃ op, s'.toSpec.events[n]? = some (x.foldEvent op n) := by
  obtain ⟨s₂, hfolds, ⟨state₂, hshows₂, hnodes₂⟩, ⟨more, hmore⟩, hfresh⟩ :=
    h.land hsurface hops hpairs
  obtain ⟨s₃, hend, hshows₃, hevents₃⟩ := hshows₂.append_other "compaction/end" x.bracketData
    (by decide) rfl (x.clock s₂.seq)
  refine ⟨s₃, state₂, more, s₂.seq, ?_, hshows₃, ?_, hnodes₂, fun n hn =>
    (hfresh n hn).imp_right ?_⟩
  · rw [h.executeFolds hsurface hops, appendAll_append, hfolds]
    dsimp only
    rw [appendAll, show s₂.append (x.endRequest s₂.seq) = (.ok (), s₃) from hend]
    rfl
  · rw [hevents₃, hmore, h.events]
    simp only [append_assoc, cons_append]
    rfl
  · rintro ⟨op, hop⟩
    refine ⟨op, ?_⟩
    rw [hevents₃, getElem?_append_left (List.getElem?_eq_some_iff.mp hop).1, hop]

end Opened

/-- A plan lands as a whole exactly when its repairs keep clear of its other folds. -/
theorem plan_applies_iff (hs : s.Reached) (hopen : s.entry.appending = false)
    (hlen : s.seq ≤ maxSafeInteger) {nodes : List Nat} (hnodes : s.nodes.1 = .ok nodes)
    {runtime : SessionRuntime} {entries : List ContextEntry} {ops : List FoldOp}
    (hplan : planFolds s.events.1 nodes runtime entries = some ops) (x : FoldTransaction) :
    PlanApplies s nodes x ops ↔ PlanKeepsClear s.events.1 nodes runtime entries := by
  obtain ⟨s₁, state, hopened⟩ := hs.opens (x := x) hopen hlen hnodes
  obtain ⟨ranges, hops, hrising, hclear⟩ := planFolds_walked hopened.nodup hplan
  have hsurface := annotateSurface_seqs s.events.1 nodes
  rw [hclear]
  constructor
  · intro happlies
    by_contra hpairs
    obtain ⟨error, herror⟩ := hopened.clash hsurface hops hrising hpairs
    have hdone := happlies.done
    rw [hopened.executeFolds hsurface hops, appendAll_append] at hdone
    cases hfolds : s₁.appendAll (foldRequests x ops) with
    | mk result s₂ =>
      rw [hfolds] at herror hdone
      dsimp only at herror
      subst herror
      cases hdone
  · intro hpairs
    obtain ⟨s', -, folds, seq, hrun, -, hevents, -, -⟩ := hopened.close hsurface hops hpairs
    refine ⟨by rw [hrun], ?_, ?_, folds, seq, by rw [hrun, hevents]⟩
    · conv => arg 1; rw [← hsurface]
      exact ordered_of_ranges (hsurface.symm ▸ hopened.nodup) hops hpairs
    rintro pre op post rfl
    obtain ⟨ranges₁, ranges₂, hpre, hpost, rfl⟩ := forall₂_append_left hops
    obtain ⟨range, ranges₂, hop, -, rfl⟩ := forall₂_cons_left_iff.mp hpost
    obtain ⟨hpairs₁, -, hbefore⟩ := pairwise_append.mp hpairs
    obtain ⟨s', hfolds', ⟨state', hshows', hnodes'⟩, -, -⟩ := hopened.land hsurface hpre hpairs₁
    obtain ⟨front, hfront⟩ := landed_suffix nodes (s.seq + 1) (Nat.zero_le _)
      fun r hr => hbefore r hr range mem_cons_self
    refine ⟨s', state'.nodes, front, nodes.drop range.2, ?_, hshows'.nodes, ?_⟩
    · rw [appendAll, hopened.appended]
      exact hfolds'
    have hrange := hop.nonempty
    rw [hnodes', hfront, hop.shadowed_eq, hsurface, ← slice_append_drop _ (Nat.le_of_lt hrange)]
    simp

theorem Reached.append (h : s.Reached) (request : AppendRequest) : (s.append request).2.Reached := by
  rw [append_eq]
  exact .step _ h

theorem Reached.appendAll (h : s.Reached) (requests : List (Nat → AppendRequest)) :
    (s.appendAll requests).2.Reached := by
  induction requests generalizing s with
  | nil => exact h
  | cons request requests ih =>
    have hnext := h.append (request s.seq)
    rw [Session.appendAll]
    cases happend : s.append (request s.seq) with
    | mk result s' =>
      rw [happend] at hnext
      cases result with
      | error e => exact hnext
      | ok _ => exact ih hnext

end Session

/-! ## Repeated tool-call ids -/

/-- The assistant message and the tool result of step `turn`, which calls `call-0`. -/
def repeatedCall (turn : Nat) : List (Nat → AppendRequest) :=
  [fun seq =>
    { payload := .lossless (.assistantMessage turn 1
        { id := "m"
          content := [.toolCall { id := "call-0", name := "f", arguments := "" }]
          source := { provider := "p", model := "m", replayState := none } } none)
      surfaceOp := .str "append"
      time := seq },
    fun seq =>
    { payload := .lossless (.toolResult
        { turn
          step := 1
          message :=
            { id := "m", callId := "call-0"
              block := { toolCallId := "call-0", content := [], isError := none } } })
      surfaceOp := .str "append"
      time := seq }]

/-- Two steps that both call `call-0`. -/
def repeatedIds : Session := (Session.empty.appendAll (repeatedCall 1 ++ repeatedCall 2)).2

def recallPair (key : JsString) : List ContextEntry :=
  [none, some key].map fun cacheLayoutKey =>
    { sourceRelation := .derived, sourceMessageIds := none, sourceMessageId := none, cacheLayoutKey
      texts := ["t"] }

/-- An archive with a summary of the first three messages and one of the last. -/
def splitCallRuntime : SessionRuntime where
  messageSeq id :=
    if id = "a" then some 0 else if id = "b" then some 2 else if id = "c" then some 3 else none
  getSummary key :=
    if key = "A" then some { id := "A", level := .int 1, first := "a", last := "b" }
    else if key = "B" then some { id := "B", level := .int 1, first := "c", last := "c" }
    else none

def splitCallEntries : List ContextEntry := recallPair "A" ++ recallPair "B"

def sampleTransaction : FoldTransaction where
  compactionId := "k"
  turn := none
  step := 0
  provider := "p"
  model := "m"
  maxTokens := none
  clock _ := 0
  messageId _ := "m"

theorem repeatedIds_reached : repeatedIds.Reached :=
  have hcreate : Session.create none 0 = .ok Session.empty := rfl
  (Session.Reached.create hcreate).appendAll _

theorem repeatedIds_nodes : repeatedIds.nodes.1 = .ok [0, 1, 2, 3] := by decide +kernel

/-- What becomes of the plan of `repeatedIds`. -/
theorem repeatedIds_run : ∃ ops,
    planFolds repeatedIds.events.1 [0, 1, 2, 3] splitCallRuntime splitCallEntries = some ops ∧
      ops.map (·.shadowedSeqs) = [[0, 1, 2], [2, 3]] ∧
      (assertFoldOpsApply [0, 1, 2, 3] ops).isOk = true ∧
      (repeatedIds.executeFolds sampleTransaction ops).1.isOk = false ∧
      (repeatedIds.executeFolds sampleTransaction ops).2.events.1.map SessionEvent.type =
        ["assistant/message", "tool/result", "assistant/message", "tool/result",
          "compaction/start", "compaction/summary", "assistant/message", "compaction/summary"] := by
  have hrun : ((planFolds repeatedIds.events.1 [0, 1, 2, 3] splitCallRuntime
      splitCallEntries).any fun ops => decide (ops.map (·.shadowedSeqs) = [[0, 1, 2], [2, 3]]) &&
        (assertFoldOpsApply [0, 1, 2, 3] ops).isOk &&
        !(repeatedIds.executeFolds sampleTransaction ops).1.isOk &&
        decide ((repeatedIds.executeFolds sampleTransaction ops).2.events.1.map SessionEvent.type =
          ["assistant/message", "tool/result", "assistant/message", "tool/result",
            "compaction/start", "compaction/summary", "assistant/message",
            "compaction/summary"])) = true := by decide +kernel
  obtain ⟨ops, hops, hrun⟩ := Option.any_eq_true _ _ |>.mp hrun
  simp only [Bool.and_eq_true, decide_eq_true_eq, Bool.not_eq_true'] at hrun
  exact ⟨ops, hops, hrun.1.1.1, hrun.1.1.2, hrun.1.2, hrun.2⟩

/-- The second fold pulls in the call that the first one shadows: the pre-flight passes, and
the bracket stays open. -/
theorem repeatedIds_not_applies : repeatedIds.Reached ∧ repeatedIds.nodes.1 = .ok [0, 1, 2, 3] ∧
    ∃ ops, planFolds repeatedIds.events.1 [0, 1, 2, 3] splitCallRuntime splitCallEntries = some ops ∧
      (assertFoldOpsApply [0, 1, 2, 3] ops).isOk = true ∧
      ¬repeatedIds.PlanApplies [0, 1, 2, 3] sampleTransaction ops ∧
      (repeatedIds.executeFolds sampleTransaction ops).2.events.1.map SessionEvent.type =
        ["assistant/message", "tool/result", "assistant/message", "tool/result",
          "compaction/start", "compaction/summary", "assistant/message", "compaction/summary"] := by
  obtain ⟨ops, hops, -, hpreflight, hfails, htypes⟩ := repeatedIds_run
  refine ⟨repeatedIds_reached, repeatedIds_nodes, ops, hops, hpreflight, fun happlies => ?_, htypes⟩
  rw [happlies.done] at hfails
  cases hfails

theorem repeatedIds_reaches_back :
    ¬PlanKeepsClear repeatedIds.events.1 [0, 1, 2, 3] splitCallRuntime splitCallEntries := by
  obtain ⟨ops, hops, -, -, hfails, -⟩ := repeatedIds_run
  intro hclear
  have happlies := (Session.plan_applies_iff repeatedIds_reached (by decide +kernel)
    (by decide +kernel) repeatedIds_nodes hops sampleTransaction).mpr hclear
  rw [happlies.done] at hfails
  cases hfails

end Harness
