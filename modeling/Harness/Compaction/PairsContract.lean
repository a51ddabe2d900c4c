-- SUMMARY: A plan keeps tool pairs whole: what stays visible keeps its other half.
import Harness.Compaction.FoldPairs
import Harness.Compaction.FoldsContract

namespace Harness

open List

/-! ## What stays visible -/

/-- The node at `i` lies in no range. -/
def Kept (ranges : List (Nat × Nat)) (i : Nat) : Prop := ∀ r ∈ ranges, i < r.1 ∨ r.2 ≤ i

variable {nodes : List Nat} {ranges : List (Nat × Nat)}

theorem mem_landed_of_kept {seq e i n : Nat}
    (hget : nodes[i]? = some n) (hle : e ≤ i) (hkept : Kept ranges i) :
    n ∈ landed nodes seq e ranges := by
  induction ranges generalizing seq e with
  | nil =>
    refine mem_iff_getElem?.mpr ⟨i - e, ?_⟩
    rw [landed, getElem?_drop, Nat.add_sub_cancel' hle, hget]
  | cons range ranges ih =>
    rw [landed, mem_append, mem_cons]
    rcases hkept range mem_cons_self with hbefore | hbehind
    · exact .inl (mem_slice_iff.mpr ⟨i, hle, by omega, hget⟩)
    · exact .inr (.inr (ih hbehind fun r hr => hkept r (mem_cons_of_mem _ hr)))

theorem kept_of_mem_landed {seq e n : Nat}
    (hn : n ∈ landed nodes seq e ranges) (hle : ∀ r ∈ ranges, e ≤ r.1 ∧ r.1 < r.2)
    (hpairs : ranges.Pairwise (·.2 ≤ ·.1)) :
    seq ≤ n ∨ ∃ i, e ≤ i ∧ nodes[i]? = some n ∧ Kept ranges i := by
  induction ranges generalizing seq e with
  | nil =>
    obtain ⟨i, hi⟩ := mem_iff_getElem?.mp hn
    rw [landed, getElem?_drop] at hi
    exact .inr ⟨e + i, by omega, hi, by simp [Kept]⟩
  | cons range ranges ih =>
    obtain ⟨hfirst, hpairs⟩ := pairwise_cons.mp hpairs
    obtain ⟨hrange, hlt⟩ := hle range mem_cons_self
    rw [landed, mem_append, mem_cons] at hn
    rcases hn with hn | rfl | hn
    · obtain ⟨i, hlo, hhi, hget⟩ := mem_slice_iff.mp hn
      refine .inr ⟨i, hlo, hget, fun r hr => .inl ?_⟩
      rcases mem_cons.mp hr with rfl | hr
      · omega
      · have := hfirst r hr
        omega
    · exact .inl (Nat.le_succ _)
    · have hrest := ih hn (fun r hr => ⟨hfirst r hr, (hle r (mem_cons_of_mem _ hr)).2⟩) hpairs
      rcases hrest with hseq | ⟨i, hlo, hget, hkept⟩
      · exact .inl (by omega)
      refine .inr ⟨i, by omega, hget, fun r hr => ?_⟩
      rcases mem_cons.mp hr with rfl | hr
      · exact .inr hlo
      · exact hkept r hr

/-! ## Visible halves -/

/-- A visible node declares the call `id`. -/
def VisibleCall (surface : List SurfaceAnno) (id : CallId) : Prop := ∃ node ∈ surface, id ∈ node.calls

/-- A visible node answers the call `id`. -/
def VisibleResult (surface : List SurfaceAnno) (id : CallId) : Prop :=
  ∃ node ∈ surface, id ∈ node.results

instance (surface : List SurfaceAnno) (id : CallId) : Decidable (VisibleCall surface id) :=
  inferInstanceAs (Decidable (∃ node ∈ surface, id ∈ node.calls))

instance (surface : List SurfaceAnno) (id : CallId) : Decidable (VisibleResult surface id) :=
  inferInstanceAs (Decidable (∃ node ∈ surface, id ∈ node.results))

/-- The calls that are still visible keep the results they had, and the results their calls. -/
structure PairsKept (before after : List SurfaceAnno) : Prop where
  calls : ∀ id, VisibleCall after id → VisibleResult before id → VisibleResult after id
  results : ∀ id, VisibleResult after id → VisibleCall after id

theorem visibleResult_iff {surface : List SurfaceAnno} {id : CallId} :
    VisibleResult surface id ↔ ∃ i, ResultAt surface i id := by
  simp only [VisibleResult, ResultAt, mem_iff_getElem?]
  constructor
  · rintro ⟨node, ⟨i, hi⟩, hid⟩
    exact ⟨i, node, hi, hid⟩
  · rintro ⟨i, node, hi, hid⟩
    exact ⟨node, ⟨i, hi⟩, hid⟩

/-- What the visible nodes of `after` carry, by their positions in `before`. -/
structure KeptNodes (before after : List SurfaceAnno) (ranges : List (Nat × Nat)) : Prop where
  calls : ∀ id, VisibleCall after id ↔ ∃ i, Kept ranges i ∧ CallAt before i id
  results : ∀ id, VisibleResult after id ↔ ∃ i, Kept ranges i ∧ ResultAt before i id

/-- Outside closed ranges pairs stay whole. -/
theorem KeptNodes.pairsKept {before after : List SurfaceAnno}
    (h : KeptNodes before after ranges) (hpaired : PairedSurface before)
    (hclosed : ∀ r ∈ ranges, PairClosed before r) : PairsKept before after where
  calls id hcall hresult := by
    obtain ⟨i, hkept, hcall⟩ := (h.calls id).mp hcall
    obtain ⟨j, hresult⟩ := visibleResult_iff.mp hresult
    refine (h.results id).mpr ⟨j, fun r hr => ?_, hresult⟩
    by_contra hin
    obtain ⟨i', hlo, hhi, hcall'⟩ := (hclosed r hr).results j id (by omega) (by omega) hresult
    have := hkept r hr
    rw [hpaired.call_unique hcall hcall'] at this
    omega
  results id hresult := by
    obtain ⟨j, hkept, hresult⟩ := (h.results id).mp hresult
    obtain ⟨i, hlt, hcall⟩ := hpaired.after j id hresult
    refine (h.calls id).mpr ⟨i, fun r hr => ?_, hcall⟩
    by_contra hin
    have hafter := (hclosed r hr).calls i j id (by omega) (by omega) hcall hresult
    have := hkept r hr
    omega

/-- What the nodes of a landed surface carry of `f`: what the kept nodes did. -/
theorem carried_iff {events events' : List SessionEvent} {seq : Nat} {f : SurfaceAnno → List CallId}
    (hlt : ∀ n ∈ nodes, n < seq) (hranges : ∀ r ∈ ranges, r.1 < r.2)
    (hpairs : ranges.Pairwise (·.2 ≤ ·.1))
    (hold : ∀ n ∈ nodes, f (annotateNode events' n) = f (annotateNode events n))
    (hfresh : ∀ n ∈ landed nodes seq 0 ranges, n ∈ nodes ∨ f (annotateNode events' n) = [])
    (id : CallId) :
    (∃ node ∈ annotateSurface events' (landed nodes seq 0 ranges), id ∈ f node) ↔
      ∃ i, Kept ranges i ∧ ∃ node, (annotateSurface events nodes)[i]? = some node ∧ id ∈ f node := by
  simp only [annotateSurface, mem_map, getElem?_map, Option.map_eq_some_iff]
  constructor
  · rintro ⟨_, ⟨n, hn, rfl⟩, hid⟩
    have hmem : n ∈ nodes := (hfresh n hn).resolve_right fun hbare => by
      rw [hbare] at hid
      cases hid
    rcases kept_of_mem_landed hn (fun r hr => ⟨Nat.zero_le _, hranges r hr⟩) hpairs with
      hseq | ⟨i, -, hget, hkept⟩
    · exact absurd (hlt n hmem) (Nat.not_lt.mpr hseq)
    · exact ⟨i, hkept, _, ⟨n, hget, rfl⟩, hold n hmem ▸ hid⟩
  · rintro ⟨i, hkept, _, ⟨n, hget, rfl⟩, hid⟩
    refine ⟨_, ⟨n, mem_landed_of_kept hget (Nat.zero_le _) hkept, rfl⟩, ?_⟩
    rw [hold n (mem_of_getElem? hget)]
    exact hid

theorem annotateNode_fold {events : List SessionEvent} {x : FoldTransaction} {op : FoldOp} {n : Nat}
    (h : events[n]? = some (x.foldEvent op n)) :
    (annotateNode events n).calls = [] ∧ (annotateNode events n).results = [] := by
  unfold annotateNode
  simp only [h]
  exact ⟨rfl, rfl⟩

theorem annotateNode_congr {events events' : List SessionEvent} {n : Nat}
    (h : events'[n]? = events[n]?) :
    (annotateNode events' n).calls = (annotateNode events n).calls ∧
      (annotateNode events' n).results = (annotateNode events n).results := by
  unfold annotateNode
  simp only [h, and_self]

namespace Session

variable {s : Session}

/-- Applying a plan leaves no half of a tool pair alone, on a surface whose calls have one
result at most and whose fold nodes are plain. -/
theorem plan_keeps_pairs (hs : s.Reached) (hopen : s.entry.appending = false)
    (hlen : s.seq ≤ maxSafeInteger) {nodes : List Nat} (hnodes : s.nodes.1 = .ok nodes)
    {runtime : SessionRuntime} {entries : List ContextEntry} {ops : List FoldOp}
    (hplan : planFolds s.events.1 nodes runtime entries = some ops)
    (hpaired : PairedSurface (annotateSurface s.events.1 nodes))
    (hplain : PlainSurface (annotateSurface s.events.1 nodes)) (x : FoldTransaction) :
    ∃ s' nodes', s.executeFolds x ops = (.ok (), s') ∧ s'.nodes.1 = .ok nodes' ∧
      PairsKept (annotateSurface s.events.1 nodes) (annotateSurface s'.events.1 nodes') := by
  obtain ⟨desired, -, hwalk⟩ := Option.bind_eq_some_iff.mp hplan
  obtain ⟨w, hw, rfl⟩ := Option.map_eq_some_iff.mp hwalk
  obtain ⟨ranges, hwalked⟩ := PairWalked.init.run hpaired hplain hw
  obtain ⟨s₁, state, hopened⟩ := hs.opens (x := x) hopen hlen hnodes
  obtain ⟨s', state', folds, seq, hrun, hshows', hevents, hnodes', hfresh⟩ :=
    hopened.close (annotateSurface_seqs s.events.1 nodes) hwalked.ops hwalked.clear
  refine ⟨s', state'.nodes, hrun, hshows'.nodes, ?_⟩
  rw [hnodes']
  have hlt : ∀ n ∈ nodes, n < s.seq + 1 := fun n hn => Nat.lt_succ_of_lt (hopened.lt n hn)
  have hranges : ∀ r ∈ ranges, r.1 < r.2 := fun r hr =>
    (exists_of_forall₂_right hwalked.ops hr).elim fun op hop => hop.2.nonempty
  have hold : ∀ n ∈ nodes, s'.events.1[n]? = s.events.1[n]? := by
    intro n hn
    rw [hs.refines.inv.events.1, hshows'.events, hevents, append_assoc,
      getElem?_append_left (by rw [Shows.length]; exact hopened.lt n hn)]
    rfl
  rw [← hshows'.events] at hfresh
  have hkept : KeptNodes (annotateSurface s.events.1 nodes)
      (annotateSurface s'.events.1 (landed nodes (s.seq + 1) 0 ranges)) ranges := by
    refine ⟨fun id => ?_, fun id => ?_⟩
    · exact carried_iff hlt hranges hwalked.clear (fun n hn => (annotateNode_congr (hold n hn)).1)
        (fun n hn => (hfresh n hn).imp_right fun ⟨_, hop⟩ => (annotateNode_fold hop).1) id
    · exact carried_iff hlt hranges hwalked.clear (fun n hn => (annotateNode_congr (hold n hn)).2)
        (fun n hn => (hfresh n hn).imp_right fun ⟨_, hop⟩ => (annotateNode_fold hop).2) id
  exact hkept.pairsKept hpaired hwalked.closed

end Session

/-! ## Surfaces that lose a half -/

/-- An archive with one summary, of the messages `first` up to `last`. -/
def oneSummaryRuntime (first last : Nat) : SessionRuntime where
  messageSeq id := if id = "a" then some first else if id = "b" then some last else none
  getSummary key :=
    if key = "A" then some { id := "A", level := .int 1, first := "a", last := "b" } else none

/-- The assistant message and the result of `repeatedCall`, and the result again. -/
def answeredTwice : Session :=
  (Session.empty.appendAll (repeatedCall 1 ++ (repeatedCall 1).drop 1)).2

/-- An assistant message of another author that takes the place of `seq 0`, opens like a
recollection and carries a tool call; its result follows. -/
def callInRecall : Session :=
  (Session.empty.appendAll ([fun seq =>
      { payload := .lossless (.userMessage { id := "m", content := [], source := .user })
        surfaceOp := .str "append", time := seq },
      fun seq =>
      { payload := .lossless (.assistantMessage 1 1
          { id := "m"
            content := [.text "[Recall Z]", .toolCall { id := "call-0", name := "f", arguments := "" }]
            source := { provider := "p", model := "m", replayState := none } } none)
        surfaceOp := .object true false
          [("op", .str "replace"), ("start", FoldTransaction.numberOf 0),
            ("end", FoldTransaction.numberOf 0)]
        sourceEventSeqs := .array true 0 [some (FoldTransaction.numberOf 0)]
        time := seq }] ++ (repeatedCall 1).drop 1)).2

/-- What becomes of the plan for one summary. -/
def afterOneSummary (s : Session) (nodes : List Nat) (first last : Nat) :
    Option (Session × List Nat) :=
  (planFolds s.events.1 nodes (oneSummaryRuntime first last) (recallPair "A")).bind fun ops =>
    match s.executeFolds sampleTransaction ops with
    | (.ok (), s') => s'.nodes.1.toOption.map (s', ·)
    | (.error _, _) => none

/-- Two surfaces whose calls are distinct and followed by their results, and whose plans tear
a pair apart: a second result of one call, and a call of a fold node. -/
theorem halves_lost :
    (answeredTwice.Reached ∧ answeredTwice.nodes.1 = .ok [0, 1, 2] ∧
      PairedSurface (annotateSurface answeredTwice.events.1 [0, 1, 2]) ∧
      ∃ after nodes', afterOneSummary answeredTwice [0, 1, 2] 0 1 = some (after, nodes') ∧
        ¬PairsKept (annotateSurface answeredTwice.events.1 [0, 1, 2])
          (annotateSurface after.events.1 nodes')) ∧
    (callInRecall.Reached ∧ callInRecall.nodes.1 = .ok [1, 2] ∧
      PairedSurface (annotateSurface callInRecall.events.1 [1, 2]) ∧
      ∃ after nodes', afterOneSummary callInRecall [1, 2] 2 2 = some (after, nodes') ∧
        ¬PairsKept (annotateSurface callInRecall.events.1 [1, 2])
          (annotateSurface after.events.1 nodes')) := by
  have hcreate : Session.create none 0 = .ok Session.empty := rfl
  refine ⟨⟨(Session.Reached.create hcreate).appendAll _, by decide +kernel, by decide +kernel, ?_⟩,
    ⟨(Session.Reached.create hcreate).appendAll _, by decide +kernel, by decide +kernel, ?_⟩⟩
  · have hrun : ((afterOneSummary answeredTwice [0, 1, 2] 0 1).any fun after =>
        decide (VisibleResult (annotateSurface after.1.events.1 after.2) "call-0") &&
          !decide (VisibleCall (annotateSurface after.1.events.1 after.2) "call-0")) = true := by
      decide +kernel
    obtain ⟨⟨after, nodes'⟩, hafter, hlost⟩ := (Option.any_eq_true _ _).mp hrun
    simp only [Bool.and_eq_true, decide_eq_true_eq, Bool.not_eq_true', decide_eq_false_iff_not]
      at hlost
    exact ⟨after, nodes', hafter, fun hkept => hlost.2 (hkept.results _ hlost.1)⟩
  · have hrun : ((afterOneSummary callInRecall [1, 2] 2 2).any fun after =>
        decide (VisibleCall (annotateSurface after.1.events.1 after.2) "call-0") &&
          !decide (VisibleResult (annotateSurface after.1.events.1 after.2) "call-0")) = true := by
      decide +kernel
    obtain ⟨⟨after, nodes'⟩, hafter, hlost⟩ := (Option.any_eq_true _ _).mp hrun
    simp only [Bool.and_eq_true, decide_eq_true_eq, Bool.not_eq_true', decide_eq_false_iff_not]
      at hlost
    have hbefore : VisibleResult (annotateSurface callInRecall.events.1 [1, 2]) "call-0" := by
      decide +kernel
    exact ⟨after, nodes', hafter, fun hkept => hlost.2 (hkept.calls _ hlost.1 hbefore)⟩

/-- One step that calls a tool. -/
def oneCall : Session := (Session.empty.appendAll (repeatedCall 1)).2

/-- A summary of the call alone takes its result along. -/
theorem oneCall_keeps_pairs : ∃ ops s' nodes',
    planFolds oneCall.events.1 [0, 1] (oneSummaryRuntime 0 0) (recallPair "A") = some ops ∧
      oneCall.executeFolds sampleTransaction ops = (.ok (), s') ∧ s'.nodes.1 = .ok nodes' ∧
      PairsKept (annotateSurface oneCall.events.1 [0, 1]) (annotateSurface s'.events.1 nodes') := by
  have hcreate : Session.create none 0 = .ok Session.empty := rfl
  have hplan : (planFolds oneCall.events.1 [0, 1] (oneSummaryRuntime 0 0)
      (recallPair "A")).isSome = true := by decide +kernel
  obtain ⟨ops, hops⟩ := Option.isSome_iff_exists.mp hplan
  obtain ⟨s', nodes', hrun⟩ := Session.plan_keeps_pairs ((Session.Reached.create hcreate).appendAll _)
    (by decide +kernel) (by decide +kernel) (by decide +kernel) hops (by decide +kernel)
    (by decide +kernel) sampleTransaction
  exact ⟨ops, s', nodes', hops, hrun⟩

end Harness
