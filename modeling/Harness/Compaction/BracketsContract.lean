-- SUMMARY: Exactly which compaction passes append events that both trace validators accept.
import Harness.Compaction.FoldPass

namespace Harness

open List CompactionSessionTrace

namespace RegionCall

/-- The turn a call may open its bracket for is the one the validator has open, with no bracket
in it. -/
theorem enter_trace {s : GuardedSession} (hs : s.Reached) {call : RegionCall}
    {selection : SurfaceSelection} {turn : Option Nat} (h : call.enter s = .ok (selection, turn)) :
    validateSurfaceRegion s call.start call.end_ = .ok selection ∧
      s.compaction = { openTurn := turn, compaction := none } := by
  obtain ⟨state, replacements, haccepts⟩ := hs.accepts
  have hscans := scans_of_seedFrom haccepts hs.compaction
  unfold enter at h
  split at h
  · cases h
  split at h
  · cases h
  rename_i selection' hselection
  dsimp only at h
  split at h
  · cases h
  rename_i hinactive
  split at h
  · cases h
  rename_i turn' howner
  cases h
  refine ⟨hselection, ?_⟩
  have hturn : s.compaction.openTurn = turn := by
    rw [hscans.openTurn]
    unfold ownerTurn inspectCompactionEntryState at howner
    cases hopen : (latest turnBoundary s.events).join with
    | none =>
      rw [hopen] at howner
      cases hcall : call.owner <;> rw [hcall] at howner <;> cases howner
      rfl
    | some n =>
      rw [hopen] at howner
      cases hcall : call.owner <;> rw [hcall] at howner <;> cases howner
      rfl
  have hnone : s.compaction.compaction = none := by
    cases hbracket : s.compaction.compaction with
    | none => rfl
    | some opened =>
      obtain ⟨hmarker, hseed⟩ := hscans.opened opened hbracket
      unfold assertCompactionInactive inspectCompactionEntryState at hinactive
      rw [hmarker] at hinactive
      dsimp only [Option.join_some] at hinactive
      split at hinactive
      · rename_i hlater
        obtain ⟨seed, hlatest, hlt⟩ := Option.any_eq_true _ _ |>.mp hlater
        have := hseed seed hlatest
        have hlt : opened.startSeq < seed := of_decide_eq_true hlt
        omega
      · cases hinactive
  rw [← hturn, ← hnone]

/-- The event that opens a bracket. -/
def startEvent (call : RegionCall) (turn : Option Nat) (seq : Nat) : SessionEvent where
  seq
  time := call.clock seq
  data := .other "compaction/start" (.obj (call.lifecycle turn)) start_merged

/-- With no bracket open, the start of one is logged. -/
theorem append_start {s : GuardedSession} {state : SurfaceFoldState} (h : s.Ready state)
    (call : RegionCall) {turn : Option Nat}
    (htrace : s.compaction = { openTurn := turn, compaction := none }) :
    ∃ s', s.append (call.startRequest turn s.seq) = (.logged (call.startEvent turn s.seq), s') ∧
      s'.Ready state ∧ s'.compaction = within call s.seq turn false ∧
      s'.events = s.events ++ [call.startEvent turn s.seq] := by
  obtain ⟨happend, hkept⟩ := h.append_other "compaction/start" (.obj (call.lifecycle turn))
    (by decide) rfl (call.clock s.seq)
  have hadvance : s.compaction.advance (call.startEvent turn s.seq) =
      .ok (within call s.seq turn false) := by
    rw [htrace]
    exact advance_start call s.seq (call.clock s.seq)
  rw [startEvent] at hadvance
  rw [hadvance] at happend
  exact ⟨_, happend, hkept _ hadvance, rfl, rfl⟩

/-- A region call never has an event rejected, and leaves no bracket open. -/
theorem compactSurfaceRegion_clean {s : GuardedSession} (hs : s.Reached) {call : RegionCall}
    (hstart : (CompactionPass.region call).StartedAt s) :
    (call.compactSurfaceRegion s).2.Clean := by
  obtain ⟨state, hready⟩ := hs.ready
  have hsteady : PassRun.Steady { session := s } :=
    ⟨⟨state, hready⟩, fun outcome houtcome => nomatch houtcome⟩
  unfold compactSurfaceRegion
  cases henter : call.enter s with
  | error e => exact ⟨hsteady.accepted, fun event hevent => nomatch hevent⟩
  | ok answer =>
    obtain ⟨selection, turn⟩ := answer
    obtain ⟨hselection, htrace⟩ := enter_trace hs henter
    obtain ⟨hhead, hlast⟩ := validateSurfaceRegion_ok hselection
    obtain ⟨s', happend, hready', hwithin, hevents⟩ := append_start hready call htrace
    have hheld : PassRun.Held
        { session := s', outcomes := [] ++ [.logged (call.startEvent turn s.seq)] } call s.seq turn
        false :=
      { ready := ⟨state, hready'⟩
        accepted := fun outcome houtcome => by
          rw [mem_singleton.mp houtcome]
          trivial
        compaction := hwithin }
    have hprice : ∀ measurement, measure s'.events = .ok measurement →
        totalTokens measurement.nodes ≤ maxSafeInteger := by
      intro measurement hmeasure
      obtain ⟨replacements, haccepts⟩ := hready.accepts
      obtain ⟨replacements', haccepts'⟩ := hready'.accepts
      rw [(measure_nodes haccepts' hmeasure).1, hevents, priced_append_left haccepts.nodes_lt]
      exact hstart.2 _ hready.nodes
    have hbody := bracketBody_closed hheld hhead hlast hprice hstart.1
    simp only [PassRun.append, happend]
    exact hbody.clean

end RegionCall

/-! ## Every pass -/

namespace CompactionPass

theorem prune_clean_iff {s : GuardedSession} (hs : s.Reached) (config : PruneConfig)
    (clock : Nat → Int) :
    ((CompactionPass.prune config clock).run s).Clean ↔
      (CompactionPass.prune config clock).Clear s := by
  obtain ⟨state, hready⟩ := hs.ready
  obtain ⟨replacements, haccepts⟩ := hready.accepts
  have hrun : (CompactionPass.prune config clock).run s =
      (ToolResultPruner.pruneEach config clock { session := s }
        (ToolResultPruner.candidates s.events state.nodes)).2 := by
    simp only [run, ToolResultPruner.pruneSession, hready.nodes]
  rw [hrun]
  constructor
  · intro hclean
    by_contra hnot
    simp only [Clear, not_or, not_forall] at hnot
    obtain ⟨hclosed, nodes, hnodes, candidate, hmem, hover⟩ := hnot
    rw [hready.nodes] at hnodes
    cases hnodes
    have hcurrent : ∀ candidate ∈ ToolResultPruner.candidates s.events state.nodes,
        ToolResultPruner.Current s state candidate := by
      intro candidate hmem
      obtain ⟨seq, hseq, hread⟩ := mem_filterMap.mp hmem
      split at hread
      · rename_i data hdata
        cases hread
        have hlt := haccepts.nodes_lt seq hseq
        have hlength := hs.length_le
        refine ⟨hseq, hdata, hlt, by omega, fun value hvalue => ?_⟩
        obtain ⟨event, hevent, hof⟩ := Option.map_eq_some_iff.mp hdata
        exact hs.proper event (mem_of_getElem? hevent) data hof value hvalue
      · cases hread
    obtain ⟨outcome, houtcome, hrejected⟩ := ToolResultPruner.pruneEach_rejected config clock _
      hready hclosed hcurrent ⟨candidate, hmem, hover⟩
    exact hrejected (hclean.accepted outcome houtcome)
  · rintro (hopen | hwithin)
    · have hstart : ToolResultPruner.Pruning { session := s } :=
        { ready := ⟨state, hready⟩
          accepted := fun outcome houtcome => nomatch houtcome
          openTurn := hopen
          unopened := fun event hevent => nomatch hevent }
      have hend := ToolResultPruner.pruneEach_pruning config clock
        (ToolResultPruner.candidates s.events state.nodes) hstart
      exact ⟨hend.accepted, fun event hevent htype => absurd htype (hend.unopened event hevent)⟩
    · rw [ToolResultPruner.pruneEach_within config clock _ _ (hwithin state.nodes hready.nodes)]
      exact ⟨fun outcome houtcome => (not_mem_nil houtcome).elim,
        fun event hevent => (not_mem_nil hevent).elim⟩

theorem fold_clean_iff {s : GuardedSession} (hs : s.Reached) {call : FoldCall}
    (x : FoldTransaction) (ops : List FoldOp)
    (hstart : (CompactionPass.fold call x ops).StartedAt s) :
    ((CompactionPass.fold call x ops).run s).Clean ↔ (CompactionPass.fold call x ops).Clear s := by
  obtain ⟨state, hready⟩ := hs.ready
  have hstep : s.trace.openStep ≠ some call.step := by
    intro hopen
    have hpositive := hs.countsSteps.open_ _ hopen
    cases call with
    | preStep turn step =>
      rw [show s.trace.openStep = none from hstart] at hopen
      cases hopen
    | compactIfNeeded currentTurn => exact absurd hpositive (by simp [FoldCall.step])
    | compactNow => exact absurd hpositive (by simp [FoldCall.step])
  have hidle : PassRun.Clean { session := s } :=
    ⟨fun outcome houtcome => (nomatch houtcome), fun event hevent => nomatch hevent⟩
  simp only [run, GuardedSession.foldPass, Clear]
  cases ops with
  | nil =>
    simp only [length_nil, if_true, true_or, iff_true]
    exact hidle
  | cons op ops =>
    simp only [length_cons, Nat.add_one_ne_zero, if_false, cons_ne_nil, false_or,
      GuardedSession.executeFolds, hready.nodes]
    cases hpreflight : assertFoldOpsApply state.nodes (op :: ops) with
    | error e =>
      refine iff_of_true hidle fun nodes hnodes => ?_
      cases hnodes
      rw [hpreflight]
      rfl
    | ok u =>
      refine iff_of_false ?_ fun hclear => ?_
      · exact FoldTransaction.appendAll_unclean hready
          { x with turn := call.turn, step := call.step } op _ hstep
      have hfails := hclear state.nodes rfl
      rw [hpreflight] at hfails
      cases hfails

/-- A pass appends only events that both validators accept, and closes the bracket it opens,
exactly when it is a region call, a prune pass inside a turn or with nothing over budget, or
a fold pass that lands nothing. -/
theorem pass_clean_iff {s : GuardedSession} (hs : s.Reached) (pass : CompactionPass)
    (hstart : pass.StartedAt s) : (pass.run s).Clean ↔ pass.Clear s := by
  cases pass with
  | region call => exact iff_of_true (RegionCall.compactSurfaceRegion_clean hs hstart) trivial
  | prune config clock => exact prune_clean_iff hs config clock
  | fold call x ops => exact fold_clean_iff hs x ops hstart

/-! ## One message in an open turn -/

/-- A turn with one user message, before its first step. -/
def openedTurn : GuardedSession where
  session :=
    { events :=
        [{ seq := 0, time := 0, data := .turnStart 1 },
          { seq := 1, time := 0
            data := .userMessage { id := "m", content := [.text "hi"], source := .user }
            surfaceOp := some (.str "append") }]
      entry := none }
  trace :=
    { lastSeq := 1, openTurn := some 1, openStep := none, nextTurn := 1, nextStep := 1
      pendingCalls := ∅ }
  compaction := { openTurn := some 1, compaction := none }

theorem openedTurn_reached : openedTurn.Reached where
  accepts := by
    have hfold : foldSurface openedTurn.events = .ok { nodes := [1], replacements := [] } := rfl
    obtain ⟨state, haccepts, -⟩ := foldSurface_ok_iff.mp hfold
    exact ⟨state, _, haccepts⟩
  trace := rfl
  compaction := rfl
  idle := rfl
  length_le := by decide
  proper := by
    intro event hevent data hdata
    rcases mem_cons.mp hevent with rfl | hevent
    · cases hdata
    · rw [mem_singleton.mp hevent] at hdata
      cases hdata

/-- The step boundary folds the message into a recollection. -/
def foldsMessage : CompactionPass :=
  .fold (.preStep 1 1)
    { compactionId := "autobio-s-1", turn := none, step := 0, provider := "p", model := "m"
      maxTokens := none, clock := fun _ => 0, messageId := fun _ => "f" }
    [{ summaryId := "L1-0", level := .int 1, startSeq := 1, endSeq := 1, shadowedSeqs := [1]
       shadowedTokens := 1, text := "t" }]

def AppendOutcome.isVetoed : AppendOutcome → Bool
  | .vetoed .. => true
  | _ => false

/-- The general statement at a step boundary. -/
theorem foldsMessage_clean_iff :
    openedTurn.Reached ∧ foldsMessage.StartedAt openedTurn ∧
      ((foldsMessage.run openedTurn).Clean ↔ foldsMessage.Clear openedTurn) :=
  ⟨openedTurn_reached, rfl, pass_clean_iff openedTurn_reached foldsMessage rfl⟩

/-- The message names a step that is not open: the pass stops with its bracket open. -/
theorem foldsMessage_rejected :
    openedTurn.Reached ∧ foldsMessage.StartedAt openedTurn ∧
      (foldsMessage.run openedTurn).outcomes.map AppendOutcome.isVetoed = [false, false, true] ∧
      (foldsMessage.run openedTurn).session.compaction.compaction.isSome = true ∧
      ¬(foldsMessage.run openedTurn).Clean := by
  have hbracket : (foldsMessage.run openedTurn).session.compaction.compaction.isSome = true := rfl
  refine ⟨openedTurn_reached, rfl, rfl, hbracket, fun hclean => ?_⟩
  have hnone := hclean.closed
    { seq := 2, time := 0
      data := .other "compaction/start" (.obj [Json.field "compactionId" (.str "autobio-s-1"),
        Json.field "turn" (Json.ofNat 1)]) (by decide) } (mem_cons_self) rfl
  rw [hnone] at hbracket
  cases hbracket

end CompactionPass

end Harness
