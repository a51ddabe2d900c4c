-- SUMMARY: The range that `compaction-basic/src/region.ts` selects, and that it is the longest one no tool call crosses.
import Harness.Compaction.BalanceCache
import Harness.Compaction.Region
import Harness.Session.Repair

/-!
# Range selection

A prefix is compactable where a tail of the retained price is left and every tool call of
the prefix is answered inside it. The code finds the cut by a running count of the calls in
progress, which is zero exactly at such cuts when ids are distinct and results follow calls.
-/

namespace Harness

open List

/-! ## The selection -/

/-- The walk from the surface tail: `rest` nodes are unvisited and the visited ones cost
`accumulated`. -/
def keepFromIndex (nodes : List TokenSurfaceNode) (retainTokens : ℚ) : Nat → Nat → Nat
  | 0, _ => 0
  | index + 1, accumulated =>
    let accumulated := accumulated + ((nodes[index]?).map (·.tokens)).getD 0
    if retainTokens ≤ accumulated then index
    else keepFromIndex nodes retainTokens index accumulated

/-- The walk on to a balanced cut. -/
def balancedKeep (events : List SessionEvent) (nodes : List Nat) : Nat → Except String Nat
  | 0 => .ok 0
  | index + 1 =>
    match toolPairingBalancedBefore events nodes (nodes.getD (index + 1) 0) with
    | .error e => .error e
    | .ok true => .ok (index + 1)
    | .ok false => balancedKeep events nodes index

/-- Resolve the next head-anchored range while retaining a priced recent tail. -/
def selectCompactableRange (s : GuardedSession) (measurement : TokenMeasurement)
    (retainTokens : ℚ) : Except String (Option (Nat × Nat)) :=
  let pricedNodes := measurement.nodes
  if pricedNodes.length = 0 then .ok none
  else
    match s.session.nodes with
    | .error e => .error e
    | .ok surfaceNodes =>
      if surfaceNodes ≠ pricedNodes.map (·.seq) then
        .error "compaction: token-meter surface does not match the current session surface"
      else
        let keepFromIdx := keepFromIndex pricedNodes retainTokens pricedNodes.length 0
        if keepFromIdx = 0 then .ok none
        else
          match balancedKeep s.events surfaceNodes keepFromIdx with
          | .error e => .error e
          | .ok 0 => .ok none
          | .ok (cut + 1) => .ok (some (surfaceNodes.getD 0 0, surfaceNodes.getD cut 0))

/-! ## Paired surfaces -/

def surfaceEvents (events : List SessionEvent) (nodes : List Nat) : List SessionEvent :=
  nodes.filterMap fun seq => events[seq]?

/-- The tool calls of one event. -/
def calledIds (event : SessionEvent) : List CallId :=
  match event.data with
  | .assistantMessage _ _ message _ => message.toolCallIds
  | _ => []

/-- The tool call that one event answers. -/
def answeredIds (event : SessionEvent) : List CallId :=
  match event.data with
  | .toolResult data => [data.message.block.toolCallId]
  | _ => []

/-- The ids of tool calls are distinct, and each is answered at most once and after its call. -/
structure AnsweredSurface (surface : List SessionEvent) : Prop where
  calls : (surface.flatMap calledIds).Nodup
  answers : (surface.flatMap answeredIds).Nodup
  order : ∀ cut, (surface.take cut).flatMap answeredIds ⊆ (surface.take cut).flatMap calledIds

/-- Every tool call before the cut is answered before the cut. -/
def ClosedCut (surface : List SessionEvent) (cut : Nat) : Prop :=
  (surface.take cut).flatMap calledIds ⊆ (surface.take cut).flatMap answeredIds

/-- A tool call before the cut has its result after it. -/
def Straddled (surface : List SessionEvent) (cut : Nat) : Prop :=
  ∃ id ∈ (surface.take cut).flatMap calledIds, id ∈ (surface.drop cut).flatMap answeredIds

/-- What the nodes from `cut` on cost. -/
def tailPrice (nodes : List TokenSurfaceNode) (cut : Nat) : Nat := totalTokens (nodes.drop cut)

/-- The first `cut` nodes may be compacted: a node is left, the nodes left cost what is to be
retained, and no tool call crosses the cut. -/
structure Compactable (surface : List SessionEvent) (nodes : List TokenSurfaceNode)
    (retainTokens : ℚ) (cut : Nat) : Prop where
  left : cut < nodes.length
  retained : retainTokens ≤ tailPrice nodes cut
  closed : ClosedCut surface cut

/-! ## The running count -/

theorem eventDelta_eq (event : SessionEvent) :
    ToolPairing.eventDelta event
      = ((calledIds event).length : Int) - (answeredIds event).length := by
  cases hdata : event.data <;>
    simp [ToolPairing.eventDelta, calledIds, answeredIds, hdata, AssistantMessage.toolCallIds,
      length_filterMap_eq_countP]

/-- The calls in progress after a surface. -/
def inProgress (surface : List SessionEvent) : Int :=
  ((surface.flatMap calledIds).length : Int) - (surface.flatMap answeredIds).length

theorem inProgress_concat (surface : List SessionEvent) (event : SessionEvent) :
    inProgress (surface ++ [event]) = inProgress surface + ToolPairing.eventDelta event := by
  simp [inProgress, eventDelta_eq]
  ring

namespace AnsweredSurface

variable {surface : List SessionEvent}

theorem nodup_take (h : AnsweredSurface surface) (cut : Nat) :
    ((surface.take cut).flatMap calledIds).Nodup
      ∧ ((surface.take cut).flatMap answeredIds).Nodup := by
  have hsublist (ids : SessionEvent → List CallId) :
      ((surface.take cut).flatMap ids).Sublist (surface.flatMap ids) := by
    conv_rhs => rw [← take_append_drop cut surface, flatMap_append]
    exact sublist_append_left _ _
  exact ⟨h.calls.sublist (hsublist calledIds), h.answers.sublist (hsublist answeredIds)⟩

/-- The answered calls are among the calls, so the count is never negative. -/
theorem inProgress_nonneg (h : AnsweredSurface surface) (cut : Nat) :
    0 ≤ inProgress (surface.take cut) := by
  have hsubperm := subperm_of_subset (h.nodup_take cut).2 (h.order cut)
  have hlength := hsubperm.length_le
  rw [inProgress]
  omega

/-- The count is zero exactly where every call is answered. -/
theorem inProgress_eq_zero (h : AnsweredSurface surface) (cut : Nat) :
    inProgress (surface.take cut) = 0 ↔ ClosedCut surface cut := by
  have hsubperm := subperm_of_subset (h.nodup_take cut).2 (h.order cut)
  constructor
  · intro hzero
    have hperm := hsubperm.perm_of_length_le (by rw [inProgress] at hzero; omega)
    exact hperm.symm.subset
  intro hclosed
  have hback := subperm_of_subset (h.nodup_take cut).1 hclosed
  have hle := hsubperm.length_le
  have hge := hback.length_le
  rw [inProgress]
  omega

end AnsweredSurface

/-! ## The cuts of an accepted surface -/

theorem SurfaceAccepts.named {log : List SessionEvent} {state : SurfaceFoldState}
    {replacements : List SurfaceFoldReplacement} (h : SurfaceAccepts log state replacements) :
    List.Forall₂ (fun seq event => ToolPairing.eventForSeq log seq = .ok event) state.nodes
      (surfaceEvents log state.nodes) := by
  have hlt := h.nodes_lt
  generalize state.nodes = nodes at hlt
  induction nodes with
  | nil => exact .nil
  | cons seq nodes ih =>
    obtain ⟨hseq, hnodes⟩ := forall_mem_cons.1 hlt
    have hevent : log[seq]? = some log[seq] := getElem?_eq_getElem hseq
    rw [surfaceEvents, filterMap_cons, hevent]
    refine .cons ?_ (ih hnodes)
    rw [ToolPairing.eventForSeq, hevent]
    simp [h.seq_eq hevent]

/-- A fold whose running counts stay above zero finds every cut where the count is zero. -/
theorem cutsAfter_of_counts {events : List SessionEvent} {nodes : List Nat}
    {seen surface : List SessionEvent}
    (hnamed : List.Forall₂ (fun seq event => ToolPairing.eventForSeq events seq = .ok event)
      nodes surface)
    (hcounts : ∀ cut, 0 ≤ inProgress (seen ++ surface.take cut)) :
    ToolPairing.cutsAfter events (inProgress seen) nodes
      = .ok ((List.range nodes.length).map fun i =>
          inProgress (seen ++ surface.take (i + 1)) == 0) := by
  induction hnamed generalizing seen with
  | nil => rfl
  | @cons seq event nodes surface hevent _ ih =>
    have hcount : inProgress seen + ToolPairing.eventDelta event = inProgress (seen ++ [event]) :=
      (inProgress_concat seen event).symm
    have hrest (cut : Nat) : 0 ≤ inProgress (seen ++ [event] ++ surface.take cut) := by
      have hcut := hcounts (cut + 1)
      rwa [take_succ_cons, ← singleton_append, ← append_assoc] at hcut
    have hnext := ih hrest
    have hnonneg : ¬ inProgress (seen ++ [event]) < 0 := by
      have hone := hcounts 1
      rw [take_succ_cons, take_zero] at hone
      omega
    rw [ToolPairing.cutsAfter, hevent]
    simp only [bind, Except.bind, hcount, if_neg hnonneg, hnext]
    simp [range_succ_eq_map, Function.comp_def]

section
variable {events : List SessionEvent} {nodes : List Nat} {surface : List SessionEvent}

theorem cutBalance_paired (hnodup : nodes.Nodup)
    (hnamed : List.Forall₂ (fun seq event => ToolPairing.eventForSeq events seq = .ok event)
      nodes surface)
    (hpaired : AnsweredSurface surface) {index seq offset : Nat} (hseq : nodes[index]? = some seq)
    (hoffset : offset ≤ 1) :
    ∃ balanced, ToolPairing.cutBalance events nodes seq offset = .ok balanced
      ∧ (balanced = true ↔ ClosedCut surface (index + offset)) := by
  have hlt : index < nodes.length := (List.getElem?_eq_some_iff.1 hseq).1
  have hindex := List.idxOf?_of_getElem? hnodup hseq
  have hcounts (cut : Nat) : 0 ≤ inProgress ([] ++ surface.take cut) :=
    hpaired.inProgress_nonneg cut
  have hcuts := cutsAfter_of_counts hnamed hcounts
  have hzero : inProgress ([] : List SessionEvent) = 0 := rfl
  rw [hzero] at hcuts
  have hbalance (cut : Nat) (hcut : cut ≤ nodes.length) :
      (true :: (List.range nodes.length).map fun i =>
        inProgress ([] ++ surface.take (i + 1)) == 0)[cut]?
        = some (inProgress (surface.take cut) == 0) := by
    cases cut with
    | zero => rfl
    | succ cut =>
      have hlt : cut < nodes.length := hcut
      simp [hlt]
  refine ⟨inProgress (surface.take (index + offset)) == 0, ?_, ?_⟩
  · have hlookup := hbalance (index + offset) (by omega)
    rw [ToolPairing.cutBalance, ToolPairing.cutBalanced, hcuts, hindex]
    simp only [Except.map, bind, Except.bind, Option.bind_some, hlookup]
  · rw [beq_iff_eq, hpaired.inProgress_eq_zero]

/-! ## The two walks -/

/-- The longest prefix that leaves a tail of the retained price, among the first `index`. -/
theorem keepFromIndex_spec (nodes : List TokenSurfaceNode) (retainTokens : ℚ) {index : Nat}
    (hindex : index ≤ nodes.length) :
    (keepFromIndex nodes retainTokens index (tailPrice nodes index) < index
        ∨ keepFromIndex nodes retainTokens index (tailPrice nodes index) = 0)
      ∧ ∀ cut, 0 < cut → cut < index →
        (cut ≤ keepFromIndex nodes retainTokens index (tailPrice nodes index)
          ↔ retainTokens ≤ tailPrice nodes cut) := by
  induction index with
  | zero => exact ⟨.inr rfl, fun cut _ hlt => absurd hlt (Nat.not_lt_zero cut)⟩
  | succ index ih =>
    have hprice : tailPrice nodes (index + 1) + ((nodes[index]?).map (·.tokens)).getD 0
        = tailPrice nodes index := by
      rw [tailPrice, tailPrice, totalTokens, totalTokens, drop_eq_getElem_cons hindex,
        getElem?_eq_getElem hindex]
      exact Nat.add_comm _ _
    rw [keepFromIndex, hprice]
    by_cases hreached : retainTokens ≤ tailPrice nodes index
    · rw [if_pos hreached]
      refine ⟨.inl (Nat.lt_succ_self index), fun cut _ hlt => ?_⟩
      have hle : cut ≤ index := Nat.le_of_lt_succ hlt
      -- A longer tail costs no less.
      have hsplit : nodes.drop cut = (nodes.drop cut).take (index - cut) ++ nodes.drop index := by
        conv_lhs => rw [← take_append_drop (index - cut) (nodes.drop cut), drop_drop]
        congr 2
        omega
      have hmore : tailPrice nodes index ≤ tailPrice nodes cut := by
        rw [tailPrice, tailPrice, hsplit, totalTokens, totalTokens, map_append,
          sum_append]
        exact Nat.le_add_left _ _
      exact ⟨fun _ => hreached.trans (Nat.cast_le.2 hmore), fun _ => hle⟩
    · rw [if_neg hreached]
      obtain ⟨hbound, hfirst⟩ := ih (Nat.le_of_succ_le hindex)
      refine ⟨hbound.imp Nat.lt_succ_of_lt id, fun cut hpos hlt => ?_⟩
      rcases Nat.lt_succ_iff_lt_or_eq.1 hlt with hlt | rfl
      · exact hfirst cut hpos hlt
      constructor
      · intro hle
        omega
      · intro hreach
        exact absurd hreach hreached

/-- The last closed cut up to `index`. -/
theorem balancedKeep_spec (hnodup : nodes.Nodup)
    (hnamed : List.Forall₂ (fun seq event => ToolPairing.eventForSeq events seq = .ok event)
      nodes surface)
    (hpaired : AnsweredSurface surface) {index : Nat} (hindex : index = 0 ∨ index < nodes.length) :
    ∃ cut, balancedKeep events nodes index = .ok cut ∧ cut ≤ index
      ∧ (cut = 0 ∨ ClosedCut surface cut)
      ∧ ∀ later, cut < later → later ≤ index → ¬ ClosedCut surface later := by
  induction index with
  | zero => exact ⟨0, rfl, Nat.le_refl 0, .inl rfl, fun later hlt hle => by omega⟩
  | succ index ih =>
    have hlt : index + 1 < nodes.length := by
      rcases hindex with hzero | hlt
      · cases hzero
      · exact hlt
    have hseq : nodes[index + 1]? = some (nodes.getD (index + 1) 0) := by
      simp [hlt]
    obtain ⟨balanced, hbalanced, hclosed⟩ :=
      cutBalance_paired hnodup hnamed hpaired hseq (Nat.zero_le 1)
    rw [balancedKeep, toolPairingBalancedBefore, hbalanced]
    cases balanced with
    | true =>
      exact ⟨index + 1, rfl, Nat.le_refl _, .inr (hclosed.1 rfl), fun later hgt hle => by omega⟩
    | false =>
      obtain ⟨cut, hcut, hle, hkept, hskipped⟩ := ih (.inr (Nat.lt_of_succ_lt hlt))
      refine ⟨cut, hcut, Nat.le_succ_of_le hle, hkept, fun later hgt hlast => ?_⟩
      rcases Nat.le_succ_iff.1 hlast with hlast | rfl
      · exact hskipped later hgt hlast
      · intro hopen
        exact Bool.false_ne_true (hclosed.2 hopen)

end

/-! ## The selected range -/

/-- What the selection answers on a paired surface: the longest prefix that may be compacted,
which the validation of a region accepts, or nothing where there is none. -/
def SelectsLongest (s : GuardedSession) (surface : List SessionEvent) (nodes : List Nat)
    (measurement : TokenMeasurement) (retainTokens : ℚ) : Prop :=
  (∃ cut, Compactable surface measurement.nodes retainTokens (cut + 1)
      ∧ (∀ longer, Compactable surface measurement.nodes retainTokens longer → longer ≤ cut + 1)
      ∧ ∃ start end_, nodes[0]? = some start ∧ nodes[cut]? = some end_
        ∧ selectCompactableRange s measurement retainTokens = .ok (some (start, end_))
        ∧ validateSurfaceRegion s start end_
          = .ok { start, end_, startIdx := 0, endIdx := cut, shadowedSeqs := nodes.take (cut + 1) })
    ∨ selectCompactableRange s measurement retainTokens = .ok none
      ∧ ∀ cut, 0 < cut → ¬ Compactable surface measurement.nodes retainTokens cut

/-- A region from the surface head to a closed cut passes validation. -/
theorem validateSurfaceRegion_closed {s : GuardedSession} {nodes : List Nat}
    (hnodes : s.session.nodes = .ok nodes) (hnodup : nodes.Nodup)
    {surface : List SessionEvent}
    (hnamed : List.Forall₂ (fun seq event => ToolPairing.eventForSeq s.events seq = .ok event)
      nodes surface)
    (hpaired : AnsweredSurface surface) {cut start end_ : Nat} (hstart : nodes[0]? = some start)
    (hend : nodes[cut]? = some end_) (hclosed : ClosedCut surface (cut + 1)) :
    validateSurfaceRegion s start end_
      = .ok { start, end_, startIdx := 0, endIdx := cut, shadowedSeqs := nodes.take (cut + 1) } := by
  have hfirst := List.idxOf?_of_getElem? hnodup hstart
  have hlast := List.idxOf?_of_getElem? hnodup hend
  obtain ⟨before, hbefore, hhead⟩ :=
    cutBalance_paired hnodup hnamed hpaired hstart (Nat.zero_le 1)
  obtain ⟨after, hafter, htail⟩ := cutBalance_paired hnodup hnamed hpaired hend (Nat.le_refl 1)
  have hempty : ClosedCut surface (0 + 0) := by simp [ClosedCut]
  rw [hhead.2 hempty] at hbefore
  rw [htail.2 hclosed] at hafter
  simp only [validateSurfaceRegion, hnodes, bind, Except.bind, hfirst, hlast,
    toolPairingBalancedBefore, toolPairingBalancedAfter, hbefore, hafter]
  simp [List.slice]

theorem selectCompactableRange_longest {s : GuardedSession} {state : SurfaceFoldState}
    {replacements : List SurfaceFoldReplacement}
    (haccepts : SurfaceAccepts s.events state replacements)
    (hpaired : AnsweredSurface (surfaceEvents s.events state.nodes))
    {measurement : TokenMeasurement} (hmeasured : measurement.nodes.map (·.seq) = state.nodes)
    (retainTokens : ℚ) :
    SelectsLongest s (surfaceEvents s.events state.nodes) state.nodes measurement
      retainTokens := by
  have hnodes : s.session.nodes = .ok state.nodes := by
    have hfold : foldSurface s.session.events = .ok _ := haccepts.foldSurface
    rw [SessionSpec.nodes, hfold]
    rfl
  have hlength : measurement.nodes.length = state.nodes.length := by
    rw [← hmeasured, length_map]
  have hzeroPrice : tailPrice measurement.nodes measurement.nodes.length = 0 := by
    simp [tailPrice, totalTokens]
  obtain ⟨hbound, hfirst⟩ :=
    keepFromIndex_spec measurement.nodes retainTokens (Nat.le_refl measurement.nodes.length)
  rw [hzeroPrice] at hbound hfirst
  generalize hkeep : keepFromIndex measurement.nodes retainTokens measurement.nodes.length 0
    = keep at hbound hfirst
  have hinside : keep = 0 ∨ keep < state.nodes.length := by omega
  obtain ⟨cut, hcut, hle, hkept, hskipped⟩ := balancedKeep_spec haccepts.nodes_nodup
    haccepts.named hpaired hinside
  -- A prefix that may be compacted ends where both walks have passed.
  have hlongest : ∀ longer, 0 < longer →
      Compactable (surfaceEvents s.events state.nodes) measurement.nodes retainTokens longer →
      longer ≤ cut := by
    intro longer hpos hcompactable
    have hreached := (hfirst longer hpos hcompactable.left).2 hcompactable.retained
    by_contra hlater
    exact hskipped longer (by omega) hreached hcompactable.closed
  rw [SelectsLongest]
  by_cases hempty : measurement.nodes.length = 0
  · right
    rw [selectCompactableRange, if_pos hempty]
    refine ⟨rfl, fun longer hpos hcompactable => ?_⟩
    have hleft := hcompactable.left
    omega
  have hselect : selectCompactableRange s measurement retainTokens
      = if keep = 0 then .ok none
        else
          match balancedKeep s.events state.nodes keep with
          | .error e => .error e
          | .ok 0 => .ok none
          | .ok (cut + 1) => .ok (some (state.nodes.getD 0 0, state.nodes.getD cut 0)) := by
    rw [selectCompactableRange, if_neg hempty, hnodes]
    simp only [hmeasured, ne_eq, not_true, if_false, hkeep]
  cases cut with
  | zero =>
    right
    refine ⟨?_, fun longer hpos hcompactable => ?_⟩
    · rw [hselect, hcut]
      simp
    · exact absurd (hlongest longer hpos hcompactable) (Nat.not_le.2 hpos)
  | succ cut =>
    left
    have hclosed := hkept.resolve_left (Nat.succ_ne_zero cut)
    have hkeepPos : keep ≠ 0 := by omega
    have hinside : cut + 1 < measurement.nodes.length := by omega
    have hstart : state.nodes[0]? = some (state.nodes.getD 0 0) := by
      simp [show 0 < state.nodes.length by omega]
    have hend : state.nodes[cut]? = some (state.nodes.getD cut 0) := by
      simp [show cut < state.nodes.length by omega]
    refine ⟨cut, ⟨hinside, (hfirst (cut + 1) (Nat.succ_pos cut) hinside).1 hle, hclosed⟩, ?_,
      state.nodes.getD 0 0, state.nodes.getD cut 0, hstart, hend, ?_, ?_⟩
    · intro longer hcompactable
      rcases Nat.eq_zero_or_pos longer with rfl | hpos
      · exact Nat.zero_le _
      · exact hlongest longer hpos hcompactable
    · rw [hselect, if_neg hkeepPos, hcut]
    · exact validateSurfaceRegion_closed hnodes haccepts.nodes_nodup haccepts.named hpaired hstart
        hend hclosed

/-- A measurement of another surface is refused, unless it is empty. -/
theorem selectCompactableRange_foreign {s : GuardedSession} {nodes : List Nat}
    (hnodes : s.session.nodes = .ok nodes) {measurement : TokenMeasurement}
    (hforeign : measurement.nodes.map (·.seq) ≠ nodes) (retainTokens : ℚ) :
    selectCompactableRange s measurement retainTokens
      = if measurement.nodes = [] then .ok none
        else .error "compaction: token-meter surface does not match the current session surface" := by
  rw [selectCompactableRange]
  by_cases hempty : measurement.nodes = []
  · rw [if_pos hempty, if_pos (by rw [hempty]; rfl)]
  · rw [if_neg hempty, if_neg (by rwa [length_eq_zero_iff]), hnodes]
    simp only [if_pos hforeign.symm]

/-- In every state that appends, replacements and balance queries lead to, a query answers
what a rebuild of the cache answers, an error included, and the lookups are those of the
rebuilt cache. On a paired surface, for every measurement of it, the selected range is the
longest prefix that leaves a tail of the retained price and that no tool call crosses. -/
theorem balance_and_selection {session : GuardedSession} {result : SurfaceFoldResult}
    (hsession : foldSurface session.events = .ok result) (ops : List CachedSession.Op)
    {s : CachedSession} (hs : s = CachedSession.run { session, cached := none } ops) :
    s.balanceCache.1 = s.rebuild
      ∧ ∃ nodes, s.session.session.nodes = .ok nodes
        ∧ (∀ seq offset, (s.balanceAt seq offset).1
          = ToolPairing.cutBalance s.session.events nodes seq offset)
        ∧ (AnsweredSurface (surfaceEvents s.session.events nodes) →
          ∀ measurement retainTokens, measurement.nodes.map (·.seq) = nodes →
            SelectsLongest s.session (surfaceEvents s.session.events nodes) nodes measurement
              retainTokens)
        ∧ ∀ measurement retainTokens, measurement.nodes.map (·.seq) ≠ nodes →
          selectCompactableRange s.session measurement retainTokens
            = if measurement.nodes = [] then .ok none
              else .error "compaction: token-meter surface does not match the current session surface" := by
  have hinv : s.Inv := hs ▸ (CachedSession.Inv.start hsession).run ops
  obtain ⟨state, replacements, haccepts⟩ := hinv.folds
  have hnodes := CachedSession.Folds.nodes ⟨replacements, haccepts⟩
  refine ⟨hinv.balanceCache.1, state.nodes, hnodes, ?_, ?_, ?_⟩
  · intro seq offset
    exact (hinv.balanceAt hnodes seq offset).1
  · intro hpaired measurement retainTokens hmeasured
    exact selectCompactableRange_longest haccepts hpaired hmeasured retainTokens
  · intro measurement retainTokens hforeign
    exact selectCompactableRange_foreign hnodes hforeign retainTokens

/-! ## Two short sessions -/

def userNode (seq : Nat) : SessionEvent :=
  { seq
    time := 0
    data := .userMessage { id := "u", content := [], source := .user }
    surfaceOp := some (.str "append") }

def callNode (seq : Nat) (id : CallId) : SessionEvent :=
  { seq
    time := 0
    data := .assistantMessage 1 1
      { id := "a", content := [.toolCall { id, name := "t", arguments := "" }]
        source := { provider := "p", model := "m", replayState := none } } none
    surfaceOp := some (.str "append") }

def resultNode (seq : Nat) (id : CallId) : SessionEvent :=
  { seq
    time := 0
    data := .toolResult
      { turn := 1, step := 1
        message :=
          { id := "r", callId := id
            block := { toolCallId := id, content := [], isError := none } } }
    surfaceOp := some (.str "append") }

def detachedSession (events : List SessionEvent) : GuardedSession :=
  { session := { events, entry := none }
    trace := .fresh
    compaction := { openTurn := none, compaction := none } }

/-- One token for each node. -/
def unitPrices (seqs : List Nat) : TokenMeasurement :=
  { logRevision := 0
    surfaceTokens := seqs.length
    nodes := seqs.map fun seq => { seq, tokens := 1 } }

def answeredCall : List SessionEvent :=
  [userNode 0, callNode 1 "c", resultNode 2 "c", userNode 3]

theorem answeredCall_paired : AnsweredSurface answeredCall where
  calls := by decide +kernel
  answers := by decide +kernel
  order := by
    intro cut
    match cut with
    | 0 | 1 | 2 | 3 | cut + 4 =>
      simp [answeredCall, answeredIds, calledIds, userNode, callNode, resultNode,
        AssistantMessage.toolCallIds, ContentBlock.toolCall?]

/-- A query, and then the selection, which takes the call with its result. -/
theorem balance_and_selection_answered :
    SelectsLongest (detachedSession answeredCall) answeredCall [0, 1, 2, 3]
        (unitPrices [0, 1, 2, 3]) 1
      ∧ selectCompactableRange (detachedSession answeredCall) (unitPrices [0, 1, 2, 3]) 1
        = .ok (some (0, 2)) := by
  have hfold : foldSurface (detachedSession answeredCall).events
      = .ok { nodes := [0, 1, 2, 3], replacements := [] } := rfl
  obtain ⟨-, nodes, hnodes, -, hselects, -⟩ :=
    balance_and_selection hfold [.balance 2 1] rfl
  obtain rfl : [0, 1, 2, 3] = nodes := Except.ok.inj hnodes
  exact ⟨hselects answeredCall_paired (unitPrices [0, 1, 2, 3]) 1 rfl, rfl⟩

theorem unanswered_paired : AnsweredSurface [callNode 0 "c", userNode 1] where
  calls := by decide +kernel
  answers := by decide +kernel
  order := by
    intro cut
    match cut with
    | 0 | 1 | cut + 2 =>
      simp [answeredIds, calledIds, userNode, callNode]

/-- A call without a result keeps a prefix that no pair of a call and a result straddles from
being selected. -/
theorem unanswered_call_crosses :
    ¬ ∀ (s : GuardedSession) (nodes : List Nat) (measurement : TokenMeasurement)
      (retainTokens : ℚ), s.session.nodes = .ok nodes →
      AnsweredSurface (surfaceEvents s.events nodes) → measurement.nodes.map (·.seq) = nodes →
      selectCompactableRange s measurement retainTokens = .ok none →
      ¬ ∃ cut, 0 < cut ∧ cut < nodes.length ∧ retainTokens ≤ tailPrice measurement.nodes cut
        ∧ ¬ Straddled (surfaceEvents s.events nodes) cut := by
  intro hall
  apply hall (detachedSession [callNode 0 "c", userNode 1]) [0, 1] (unitPrices [0, 1]) 1 rfl
    unanswered_paired rfl rfl
  refine ⟨1, by decide, by decide, by decide +kernel, ?_⟩
  rintro ⟨id, -, hanswered⟩
  simp [surfaceEvents, detachedSession, GuardedSession.events, answeredIds, callNode,
    userNode] at hanswered

end Harness
