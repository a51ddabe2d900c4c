-- SUMMARY: The folded surface partitions history: nothing is lost, duplicated or reordered by nested replacements.
import Mathlib.Data.List.Pairwise
import Harness.Session.SurfaceFold

open scoped List

namespace Harness

open List

/-! ## Expanding replacements -/

/-- Expand a surface node into the seqs it stands for: a replacement into what it
replaced, recursively, any other node into itself. A replacement only shadows
earlier seqs, so the filter drops nothing; it makes the descent evident. -/
def expand (replacements : List SurfaceFoldReplacement) (seq : Nat) : List Nat :=
  match replacements.find? (·.seq == seq) with
  | none => [seq]
  | some r => (r.shadowedSeqs.filter (· < seq)).attach.flatMap fun ⟨x, hx⟩ =>
      have : x < seq := by simpa using (mem_filter.mp hx).2
      expand replacements x
termination_by seq

variable {replacements : List SurfaceFoldReplacement} {seq : Nat}

theorem expand_of_not_replaced
    (h : ∀ r ∈ replacements, r.seq ≠ seq) : expand replacements seq = [seq] := by
  rw [expand, find?_eq_none.mpr (by simpa using h)]

variable {r : SurfaceFoldReplacement}

theorem expand_of_find (hfind : replacements.find? (·.seq == seq) = some r)
    (hlt : ∀ x ∈ r.shadowedSeqs, x < seq) :
    expand replacements seq = r.shadowedSeqs.flatMap (expand replacements) := by
  have hfilter : r.shadowedSeqs.filter (· < seq) = r.shadowedSeqs :=
    filter_eq_self.mpr (by simpa using hlt)
  rw [expand, hfind]
  simp only [flatMap_subtype, unattach_attach, hfilter]

/-- A later replacement does not change what an earlier node stands for. -/
theorem expand_append_of_lt (h : seq < r.seq) :
    expand (replacements ++ [r]) seq = expand replacements seq := by
  induction seq using Nat.strongRecOn with
  | ind seq ih =>
    have hfind : (replacements ++ [r]).find? (·.seq == seq) =
        replacements.find? (·.seq == seq) := by
      have hne : (r.seq == seq) = false := by simpa using Nat.ne_of_gt h
      simp [find?_append, hne]
    rw [expand, hfind]
    conv_rhs => rw [expand]
    split
    · rfl
    rename_i r' _
    apply flatMap_congr
    rintro ⟨x, hx⟩ -
    have hlt : x < seq := by simpa using (mem_filter.mp hx).2
    exact ih x hlt (Nat.lt_trans hlt h)

theorem flatMap_expand_append_of_lt {seqs : List Nat} (h : ∀ x ∈ seqs, x < r.seq) :
    seqs.flatMap (expand (replacements ++ [r])) = seqs.flatMap (expand replacements) :=
  flatMap_congr fun x hx => expand_append_of_lt (h x hx)

/-! ## The partition invariant -/

/-- The seqs of the append-origin surface events, in log order. -/
def appendOrigins (log : List SessionEvent) : List Nat :=
  (log.filter isAppendSurfaceEvent).map SessionEvent.seq

def surfaceSeqs (log : List SessionEvent) : List Nat :=
  (log.filter isSurfaceEvent).map SessionEvent.seq

/-- `r` records a replacement event of `log` that cites every seq it shadows. -/
def RecordedIn (log : List SessionEvent) (r : SurfaceFoldReplacement) : Prop :=
  ∃ event ∈ log, event.seq = r.seq ∧ isReplacementSurfaceEvent event = true ∧
    (∀ x ∈ r.shadowedSeqs, x < r.seq) ∧
    ∃ sources, provenanceSources event = .ok sources ∧ ∀ x ∈ r.shadowedSeqs, x ∈ sources

structure Partitioned (log : List SessionEvent) (state : SurfaceFoldState)
    (replacements : List SurfaceFoldReplacement) : Prop where
  /-- Every surface event is on the surface or shadowed, and at one place only. -/
  seqs : state.nodes ++ replacements.flatMap (·.shadowedSeqs) ~ surfaceSeqs log
  /-- Sequence numbers are positions. -/
  positions : log.map SessionEvent.seq = List.range log.length
  recorded : ∀ r ∈ replacements, RecordedIn log r
  expanded : state.nodes.flatMap (expand replacements) = appendOrigins log

variable {log : List SessionEvent}

theorem RecordedIn.mono
    {event : SessionEvent} (h : RecordedIn log r) : RecordedIn (log ++ [event]) r := by
  obtain ⟨e, he, hrest⟩ := h
  exact ⟨e, mem_append_left _ he, hrest⟩

namespace Partitioned

variable {log : List SessionEvent} {state : SurfaceFoldState}
  {replacements : List SurfaceFoldReplacement} {event : SessionEvent}

section

variable (h : Partitioned log state replacements)
include h

theorem recorded_lt : ∀ r ∈ replacements, r.seq < log.length := by
  intro r hr
  obtain ⟨e, he, hseq, -⟩ := h.recorded r hr
  have hmem : e.seq ∈ List.range log.length := h.positions ▸ mem_map_of_mem he
  rw [← hseq]
  exact mem_range.mp hmem

theorem positions_snoc (hseq : event.seq = log.length) :
    (log ++ [event]).map SessionEvent.seq = List.range (log ++ [event]).length := by
  rw [map_append, h.positions, length_append, length_singleton, range_succ]
  simp [hseq]

/-- An event off the surface changes nothing. -/
theorem skip (hseq : event.seq = log.length)
    (hevent : isSurfaceEvent event = false) : Partitioned (log ++ [event]) state replacements where
  seqs := by simpa [surfaceSeqs, hevent] using h.seqs
  positions := h.positions_snoc hseq
  recorded := fun r hr => (h.recorded r hr).mono
  expanded := by
    have hnot : isAppendSurfaceEvent event = false := by
      cases ha : isAppendSurfaceEvent event with
      | false => rfl
      | true => simp [isSurfaceEvent_of_append ha] at hevent
    simpa [appendOrigins, hnot] using h.expanded

/-- An append-origin event becomes the last node. -/
theorem append (hseq : event.seq = log.length) (hevent : isAppendSurfaceEvent event = true) :
    Partitioned (log ++ [event]) { state with nodes := state.nodes ++ [log.length] } replacements where
  seqs := by
    have hsurface := isSurfaceEvent_of_append hevent
    simp only [surfaceSeqs, filter_append, map_append, filter_cons, hsurface, hseq,
      filter_nil, if_true, map_cons, map_nil, append_assoc]
    rw [perm_iff_count]
    intro x
    have hkept := h.seqs.count_eq x
    simp only [count_append, surfaceSeqs] at hkept ⊢
    omega
  positions := h.positions_snoc hseq
  recorded := fun r hr => (h.recorded r hr).mono
  expanded := by
    have hfresh : ∀ r ∈ replacements, r.seq ≠ log.length :=
      fun r hr => Nat.ne_of_lt (h.recorded_lt r hr)
    simp [appendOrigins, hevent, hseq, expand_of_not_replaced hfresh, h.expanded]

end

/-- A replacement takes the place of the slice it shadows. -/
theorem replace {plan : SurfaceReplacePlan} (h : Partitioned log state replacements)
    (hnodes : ∀ x ∈ state.nodes, x < log.length) (hseq : event.seq = log.length)
    (hplan : plan.seq = log.length) (hplanned : ReplacePlanned state event log 0 plan) :
    Partitioned (log ++ [event]) (applySurfacePlan state (some (.replace plan))).1
      (replacements ++ [plan.toSurfaceFoldReplacement]) := by
  have hevent : isReplacementSurfaceEvent event = true := surfaceOpOf_ok hplanned.op
  have hsurface : isSurfaceEvent event = true := isSurfaceEvent_iff.mpr (.inr hevent)
  have hshadowed : ∀ x ∈ plan.shadowedSeqs, x < plan.seq := by
    rw [hplan, hplanned.shadowed]
    exact fun x hx => hnodes x (List.mem_of_mem_slice hx)
  constructor
  · have hsplice := List.splice_perm state.nodes [plan.seq] plan.startIdx
      (plan.endIdx - plan.startIdx + 1)
    rw [← hplanned.shadowed] at hsplice
    simp only [applySurfacePlan, flatMap_append, flatMap_singleton, surfaceSeqs,
      filter_append, map_append, filter_cons, hsurface, hseq, filter_nil,
      if_true, map_cons, map_nil]
    generalize state.nodes.splice _ _ _ = nodes' at hsplice ⊢
    rw [perm_iff_count]
    intro x
    have hmoved := hsplice.count_eq x
    have hkept := h.seqs.count_eq x
    simp only [count_append, surfaceSeqs, hplan] at hmoved hkept ⊢
    omega
  · exact h.positions_snoc hseq
  · intro r hr
    rcases mem_append.mp hr with hr | hr
    · exact (h.recorded r hr).mono
    · rw [mem_singleton.mp hr]
      exact ⟨event, by simp, by rw [hseq, hplan], hevent, hshadowed, hplanned.cited⟩
  · have hnot : isAppendSurfaceEvent event = false := not_append_of_replacement hevent
    have hfind : (replacements ++ [plan.toSurfaceFoldReplacement]).find? (·.seq == plan.seq) =
        some plan.toSurfaceFoldReplacement := by
      have hnone : replacements.find? (·.seq == plan.seq) = none := by
        rw [find?_eq_none]
        intro r hr
        simpa [hplan] using Nat.ne_of_lt (h.recorded_lt r hr)
      simp [find?_append, hnone]
    have hold : ∀ seqs : List Nat, (∀ x ∈ seqs, x ∈ state.nodes) →
        seqs.flatMap (expand (replacements ++ [plan.toSurfaceFoldReplacement])) =
          seqs.flatMap (expand replacements) := by
      intro seqs hsub
      apply flatMap_expand_append_of_lt
      intro x hx
      rw [hplan]
      exact hnodes x (hsub x hx)
    -- the new node expands to exactly the slice it displaced
    have hnew : expand (replacements ++ [plan.toSurfaceFoldReplacement]) plan.seq =
        plan.shadowedSeqs.flatMap (expand replacements) := by
      rw [expand_of_find hfind hshadowed, hold]
      rw [hplanned.shadowed]
      exact fun x hx => List.mem_of_mem_slice hx
    calc (applySurfacePlan state (some (.replace plan))).1.nodes.flatMap
          (expand (replacements ++ [plan.toSurfaceFoldReplacement]))
        = (state.nodes.take plan.startIdx ++ plan.shadowedSeqs ++
            state.nodes.drop (plan.startIdx + (plan.endIdx - plan.startIdx + 1))).flatMap
              (expand replacements) := by
          simp only [applySurfacePlan, List.splice, flatMap_append, flatMap_singleton, hnew]
          rw [hold _ fun x => mem_of_mem_take, hold _ fun x => mem_of_mem_drop]
      _ = appendOrigins log := by
          rw [hplanned.shadowed, List.take_slice_drop, h.expanded]
      _ = appendOrigins (log ++ [event]) := by
          simp [appendOrigins, hnot]

end Partitioned

variable {state : SurfaceFoldState}

theorem SurfaceAccepts.partitioned (h : SurfaceAccepts log state replacements) :
    Partitioned log state replacements := by
  induction h with
  | nil => exact ⟨.rfl, rfl, by simp, rfl⟩
  | @snoc log state replacements event plan haccepts hplan ih =>
    obtain ⟨hseq, hplan⟩ := planSurfaceEvent_ok hplan
    cases plan with
    | none => simpa [applySurfacePlan] using ih.skip hseq (surfaceOpOf_ok hplan)
    | some plan =>
      cases plan with
      | append seq =>
        obtain ⟨rfl, hop⟩ := hplan
        simpa [applySurfacePlan] using ih.append hseq (surfaceOpOf_ok hop)
      | replace p => exact ih.replace haccepts.nodes_lt hseq hplan.1 hplan.2

/-! ## What the partition says about single events -/

/-- Positions ascend, so any selection of events does. -/
theorem selected_seqs_ascending
    (h : log.map SessionEvent.seq = List.range log.length) (p : SessionEvent → Bool) :
    ((log.filter p).map SessionEvent.seq).Pairwise (· < ·) := by
  have hall : (log.map SessionEvent.seq).Pairwise (· < ·) := h ▸ pairwise_lt_range
  exact hall.sublist ((List.filter_sublist (p := p)).map _)

/-- No surface event stands at two places. -/
theorem Partitioned.nodup (h : Partitioned log state replacements) :
    (state.nodes ++ replacements.flatMap (·.shadowedSeqs)).Nodup :=
  h.seqs.nodup_iff.mpr ((selected_seqs_ascending h.positions isSurfaceEvent).imp Nat.ne_of_lt)

/-- Where a surface event stands: on the surface, or in one replacement's shadow. -/
theorem Partitioned.placement (h : Partitioned log state replacements)
    {event : SessionEvent} (hmem : event ∈ log) (hevent : isSurfaceEvent event = true) :
    (event.seq ∈ state.nodes ∧ ∀ r ∈ replacements, event.seq ∉ r.shadowedSeqs) ∨
      (event.seq ∉ state.nodes ∧
        ∃ r ∈ replacements, event.seq ∈ r.shadowedSeqs ∧
          ∀ r' ∈ replacements, event.seq ∈ r'.shadowedSeqs → r' = r) := by
  have hplace : event.seq ∈ state.nodes ++ replacements.flatMap (·.shadowedSeqs) :=
    h.seqs.mem_iff.mpr (mem_map_of_mem (mem_filter.mpr ⟨hmem, hevent⟩))
  obtain ⟨-, hshadows, hdisjoint⟩ := nodup_append.mp h.nodup
  rcases mem_append.mp hplace with hnode | hshadow
  · refine .inl ⟨hnode, fun r hr hx => ?_⟩
    exact hdisjoint _ hnode _ (mem_flatMap.mpr ⟨r, hr, hx⟩) rfl
  refine .inr ⟨fun hnode => hdisjoint _ hnode _ hshadow rfl, ?_⟩
  obtain ⟨r, hr, hx⟩ := mem_flatMap.mp hshadow
  refine ⟨r, hr, hx, fun r' hr' hx' => ?_⟩
  by_contra hne
  have hpair := (nodup_flatMap.mp hshadows).2
  have : Std.Symm (Function.onFun List.Disjoint
      fun r : SurfaceFoldReplacement => r.shadowedSeqs) := ⟨fun _ _ hd _ ha hb => hd hb ha⟩
  exact hpair.forall hr' hr hne hx' hx

theorem foldSurface_faithful_partition {log : List SessionEvent} {result : SurfaceFoldResult}
    (h : foldSurface log = .ok result) :
    result.nodes.Nodup ∧
    (∀ event ∈ log, isSurfaceEvent event = true →
      (event.seq ∈ result.nodes ∧ ∀ r ∈ result.replacements, event.seq ∉ r.shadowedSeqs) ∨
      (event.seq ∉ result.nodes ∧
        ∃ r ∈ result.replacements, event.seq ∈ r.shadowedSeqs ∧ event.seq < r.seq ∧
          RecordedIn log r ∧
          ∀ r' ∈ result.replacements, event.seq ∈ r'.shadowedSeqs → r' = r)) ∧
    result.nodes.flatMap (expand result.replacements) = appendOrigins log ∧
    (appendOrigins log).Pairwise (· < ·) := by
  obtain ⟨state, haccepts, hnodes⟩ := foldSurface_ok_iff.mp h
  have hpart := haccepts.partitioned
  rw [← hnodes]
  refine ⟨?_, ?_, hpart.expanded, selected_seqs_ascending hpart.positions _⟩
  · exact (nodup_append.mp hpart.nodup).1
  intro event hmem hevent
  rcases hpart.placement hmem hevent with hnode | ⟨hnot, r, hr, hx, hunique⟩
  · exact .inl hnode
  · obtain ⟨_, _, _, _, hlt, _⟩ := hpart.recorded r hr
    exact .inr ⟨hnot, r, hr, hx, hlt _ hx, hpart.recorded r hr, hunique⟩

/-- A user message at `seq`, placed by `op` and citing `sources`. -/
def userEvent (seq : Nat) (op : SurfaceOp) (sources : Option (List Nat)) : SessionEvent where
  seq := seq
  time := 0
  data := .userMessage { id := "m", content := [], source := .user }
  surfaceOp := some op.toJson
  sourceEventSeqs := sources.map fun seqs => .arr (seqs.map Json.ofNat)

/-- Three messages, a replacement of the first two, and a replacement of that one
together with the third. -/
def nestedReplacements : List SessionEvent :=
  [userEvent 0 .append none, userEvent 1 .append none,
    userEvent 2 (.replace 0 1) (some [0, 1]), userEvent 3 .append none,
    userEvent 4 (.replace 2 3) (some [2, 3])]

theorem nestedReplacements_faithful_partition :
    [4].flatMap (expand [⟨2, 0, 1, [0, 1]⟩, ⟨4, 2, 3, [2, 3]⟩]) =
      appendOrigins nestedReplacements :=
  have hfold : foldSurface nestedReplacements =
      .ok { nodes := [4], replacements := [⟨2, 0, 1, [0, 1]⟩, ⟨4, 2, 3, [2, 3]⟩] } := by rfl
  (foldSurface_faithful_partition hfold).2.2.1

end Harness
