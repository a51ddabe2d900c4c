-- SUMMARY: The surface the meter prices is the surface of the log, node by node.
import Mathlib.Algebra.BigOperators.Group.List.Basic
import Harness.Session.SurfacePartition
import Harness.TokenMeter.Meter

namespace Harness

open List Option

def priced (log : List SessionEvent) (nodes : List Nat) : List TokenSurfaceNode :=
  nodes.map fun seq => { seq, tokens := (log[seq]?.map estimateEvent).getD 0 }

theorem priced_append_left {log more : List SessionEvent} {nodes : List Nat}
    (h : ∀ x ∈ nodes, x < log.length) : priced (log ++ more) nodes = priced log nodes := by
  refine map_congr_left fun x hx => ?_
  rw [getElem?_append_left (h x hx)]

theorem priced_last (log : List SessionEvent) (event : SessionEvent) :
    priced (log ++ [event]) [log.length] =
      [{ seq := log.length, tokens := estimateEvent event }] := by
  simp [priced]

theorem findNode_priced (log : List SessionEvent) (nodes : List Nat) (bound : Option Nat) :
    findNode (priced log nodes) bound = bound.bind nodes.idxOf? := by
  unfold findNode priced
  cases bound with
  | none => rfl
  | some seq =>
    simp only [bind_some, findIdx?_map, List.idxOf?]
    rfl

theorem asNat_of_asEventSeq {value : Json} {n : Nat} (h : asEventSeq value = some n) :
    value.asNat = some n := by
  cases value with
  | num m =>
    cases m with
    | int z =>
      simp only [asEventSeq, Json.asSafeInteger, Num.asSafeInteger] at h
      cases hsafe : isSafeInt z with
      | false =>
        rw [hsafe] at h
        cases h
      | true =>
        rw [hsafe] at h
        exact h
    | frac m k reduced => cases h
  | _ => cases h

variable {event : SessionEvent}

/-- The bounds the meter reads off a placement are the ones the session validated. -/
theorem replaceBounds_of_surfaceOpOf {start end_ : Nat}
    (h : surfaceOpOf event = .ok (some (.replace start end_))) :
    ∃ op, event.surfaceOp = some op ∧ op.isAppendMarker = false ∧
      replaceBounds op = (some start, some end_) := by
  unfold surfaceOpOf at h
  split at h
  · split at h
    · cases h
    · split at h <;> cases h
  cases hop : event.surfaceOp with
  | none =>
    rw [hop] at h
    cases h
  | some op =>
    rw [hop] at h
    dsimp only at h
    split at h
    · cases h
    rename_i hmarker
    refine ⟨op, rfl, by simpa using hmarker, ?_⟩
    split at h
    · rename_i fields
      split at h
      · rename_i start' end' hreplace
        cases h
        unfold asReplaceOp at hreplace
        split at hreplace
        · cases hreplace
        split at hreplace
        · rename_i hop' hstart hend
          split at hreplace
          · split at hreplace
            · rename_i hs he
              cases hreplace
              unfold replaceBounds Json.property
              simp only [hstart, hend, bind_some, asNat_of_asEventSeq hs,
                asNat_of_asEventSeq he]
            · cases hreplace
          · cases hreplace
        · cases hreplace
      · cases h
    · cases h

theorem append_of_surfaceOpOf (h : surfaceOpOf event = .ok (some .append)) :
    ∃ op, event.surfaceOp = some op ∧ op.isAppendMarker = true := by
  have happend : isAppendSurfaceEvent event = true := surfaceOpOf_ok h
  unfold isAppendSurfaceEvent at happend
  obtain ⟨op, hop, hmarker⟩ := Option.any_eq_true _ _ |>.mp (Bool.and_eq_true_iff.mp happend).2
  exact ⟨op, hop, hmarker⟩

theorem totalTokens_append (xs ys : List TokenSurfaceNode) :
    totalTokens (xs ++ ys) = totalTokens xs + totalTokens ys := by
  simp [totalTokens]

/-- A splice takes the price of what it removes and adds the price of what it inserts. -/
theorem totalTokens_splice (nodes inserted : List TokenSurfaceNode) (start count : Nat) :
    totalTokens (nodes.slice start count) + totalTokens (nodes.splice start count inserted) =
      totalTokens inserted + totalTokens nodes := by
  rw [← totalTokens_append, ← totalTokens_append]
  exact ((List.splice_perm nodes inserted start count).map _).sum_eq

theorem priced_splice (log : List SessionEvent) (nodes inserted : List Nat) (start count : Nat) :
    priced log (nodes.splice start count inserted) =
      (priced log nodes).splice start count (priced log inserted) := by
  simp [priced, List.splice, map_take, map_drop]

/-! ## One event -/

/-- An append prices its own message. -/
theorem foldSurfaceTokens_append {nodes : List TokenSurfaceNode} {op : Json}
    (hmarker : op.isAppendMarker = true) :
    foldSurfaceTokens nodes event op =
      .ok { tokens := estimateEvent event
            nodes := nodes ++ [{ seq := event.seq, tokens := estimateEvent event }]
            deltaTokens := estimateEvent event } := by
  unfold foldSurfaceTokens
  rw [if_pos hmarker]

/-- A replacement prices its own message in place of the range it shadows. -/
theorem foldSurfaceTokens_replace {nodes : List TokenSurfaceNode}
    {op : Json} {startIdx endIdx : Nat} (hmarker : op.isAppendMarker = false)
    (hstart : findNode nodes (replaceBounds op).1 = some startIdx)
    (hend : findNode nodes (replaceBounds op).2 = some endIdx) (hle : startIdx ≤ endIdx) :
    foldSurfaceTokens nodes event op =
      .ok { tokens := estimateEvent event
            nodes := nodes.splice startIdx (endIdx - startIdx + 1)
              [{ seq := event.seq, tokens := estimateEvent event }]
            deltaTokens := estimateEvent event -
              totalTokens (nodes.slice startIdx (endIdx - startIdx + 1)) } := by
  have hcount : endIdx + 1 - startIdx = endIdx - startIdx + 1 := by omega
  unfold foldSurfaceTokens
  simp only [hmarker, Bool.false_eq_true, if_false, hstart, hend, gt_iff_lt,
    Nat.not_lt.mpr hle, hcount]

/-- The two bounds of a planned replacement, as positions of the priced surface. -/
theorem findNode_planned {state : SurfaceFoldState}
    {events : List SessionEvent} {plan : SurfaceReplacePlan} (hnodup : state.nodes.Nodup)
    (h : ReplacePlanned state event events 0 plan) (log : List SessionEvent) :
    findNode (priced log state.nodes) (some plan.start) = some plan.startIdx ∧
      findNode (priced log state.nodes) (some plan.end_) = some plan.endIdx := by
  have hindex : ∀ {x i : Nat}, state.nodes[i]? = some x → state.nodes.idxOf? x = some i := by
    intro x i hget
    obtain ⟨hlt, hget⟩ := List.getElem?_eq_some_iff.mp hget
    refine idxOf?_eq_some_iff.mpr ⟨hlt, hget, fun j hj hsame => ?_⟩
    have := (List.Nodup.getElem_inj_iff hnodup).mp (hsame.trans hget.symm)
    omega
  rw [findNode_priced, findNode_priced]
  exact ⟨hindex h.startNode, hindex h.endNode⟩

namespace ReplayState

/-- An accepted event moves the priced surface as it moves the surface. -/
theorem foldSurface_planned {log : List SessionEvent} {state : SurfaceFoldState}
    {replacements : List SurfaceFoldReplacement} (haccepts : SurfaceAccepts log state replacements)
    {event : SessionEvent} {plan : Option SurfacePlan}
    (hplan : planSurfaceEvent state event log.length log 0 = .ok plan) {r : ReplayState}
    (hsurface : r.surface = priced log state.nodes) :
    ∃ fold, r.foldSurface event = .ok fold ∧
      (fold.map (·.nodes)).getD r.surface =
        priced (log ++ [event]) (applySurfacePlan state plan).1.nodes ∧
      (totalTokens r.surface : Int) + (fold.map (·.deltaTokens)).getD 0 =
        totalTokens ((fold.map (·.nodes)).getD r.surface) := by
  obtain ⟨hseq, hplanned⟩ := planSurfaceEvent_ok hplan
  have hlt := haccepts.nodes_lt
  have hkept : priced (log ++ [event]) state.nodes = r.surface := by
    rw [hsurface, priced_append_left hlt]
  cases plan with
  | none =>
    have hoff : isSurfaceEvent event = false := surfaceOpOf_ok hplanned
    refine ⟨none, ?_, hkept.symm, by simp⟩
    unfold ReplayState.foldSurface
    cases event.surfaceOp <;> simp [hoff]
  | some plan =>
    cases plan with
    | append seq =>
      obtain ⟨rfl, hop⟩ := hplanned
      obtain ⟨op, hsome, hmarker⟩ := append_of_surfaceOpOf hop
      have hon : isSurfaceEvent event = true := isSurfaceEvent_of_append (surfaceOpOf_ok hop)
      have hfold : r.foldSurface event = .ok (some
          { tokens := estimateEvent event
            nodes := r.surface ++ [{ seq := event.seq, tokens := estimateEvent event }]
            deltaTokens := estimateEvent event }) := by
        unfold ReplayState.foldSurface
        simp only [hsome, hon, if_true, foldSurfaceTokens_append hmarker]
        rfl
      refine ⟨_, hfold, ?_, ?_⟩
      · simp only [map_some, getD_some, applySurfacePlan, hseq]
        rw [priced, map_append, ← priced, ← priced, hkept, priced_last]
      · simp [totalTokens]
    | replace p =>
      obtain ⟨hpseq, hp⟩ := hplanned
      obtain ⟨op, hsome, hmarker, hbounds⟩ := replaceBounds_of_surfaceOpOf hp.op
      obtain ⟨hstart, hend⟩ :=
        findNode_planned (nodup_append.mp haccepts.partitioned.nodup).1 hp log
      have hon : isSurfaceEvent event = true :=
        isSurfaceEvent_iff.mpr (.inr (surfaceOpOf_ok hp.op))
      rw [← hsurface] at hstart hend
      have hfold : r.foldSurface event = .ok (some
          { tokens := estimateEvent event
            nodes := r.surface.splice p.startIdx (p.endIdx - p.startIdx + 1)
              [{ seq := event.seq, tokens := estimateEvent event }]
            deltaTokens := estimateEvent event -
              totalTokens (r.surface.slice p.startIdx (p.endIdx - p.startIdx + 1)) }) := by
        unfold ReplayState.foldSurface
        simp only [hsome, hon, if_true]
        rw [foldSurfaceTokens_replace hmarker (by rw [hbounds]; exact hstart)
          (by rw [hbounds]; exact hend) hp.ordered]
        rfl
      refine ⟨_, hfold, ?_, ?_⟩
      · simp only [map_some, getD_some, applySurfacePlan, hpseq, hseq]
        rw [priced_splice, hkept, priced_last]
      have htotal := totalTokens_splice r.surface
        [{ seq := event.seq, tokens := estimateEvent event }] p.startIdx
        (p.endIdx - p.startIdx + 1)
      simp only [map_some, getD_some]
      have hone : totalTokens [{ seq := event.seq, tokens := estimateEvent event }] =
        estimateEvent event := by simp [totalTokens]
      rw [hone] at htotal
      omega

variable {events : List SessionEvent}

theorem foldEvent_ok {r r' : ReplayState} {event : SessionEvent}
    (h : foldEvent events r event = .ok r') :
    ∃ fold, r.foldSurface event = .ok fold ∧
      r'.surface = (fold.map (·.nodes)).getD r.surface ∧
      r'.surfaceTokens = r.surfaceTokens + (fold.map (·.deltaTokens)).getD 0 ∧
      r.nextStepStart event = .ok r'.stepStart ∧
      r'.header = foldHeaderEvent r.header event := by
  unfold foldEvent at h
  simp only [bind, Except.bind] at h
  split at h
  · cases h
  rename_i stepStart hstep
  split at h
  · cases h
  rename_i fold hfold
  split at h
  · cases h
  · cases h
    exact ⟨fold, hfold, rfl, rfl, hstep, rfl⟩

theorem replay_append {r r' : ReplayState}
    {xs ys : List SessionEvent} : replay events r (xs ++ ys) = .ok r' ↔
      ∃ middle, replay events r xs = .ok middle ∧ replay events middle ys = .ok r' := by
  induction xs generalizing r with
  | nil => simp [replay]
  | cons x xs ih =>
    rw [cons_append]
    simp only [replay]
    cases foldEvent events r x with
    | error e => simp
    | ok r₁ => exact ih

theorem replay_surface {log : List SessionEvent} {state : SurfaceFoldState}
    {replacements : List SurfaceFoldReplacement} (haccepts : SurfaceAccepts log state replacements)
    {r : ReplayState} (h : replay events init log = .ok r) :
    r.surface = priced log state.nodes ∧ r.surfaceTokens = totalTokens r.surface := by
  induction haccepts generalizing r with
  | nil =>
    cases h
    exact ⟨rfl, rfl⟩
  | @snoc log state replacements event plan haccepts hplan ih =>
    obtain ⟨middle, hlog, hlast⟩ := replay_append.mp h
    obtain ⟨hsurface, htotal⟩ := ih hlog
    simp only [replay] at hlast
    cases hevent : foldEvent events middle event with
    | error e =>
      rw [hevent] at hlast
      cases hlast
    | ok r' =>
      rw [hevent] at hlast
      cases hlast
      obtain ⟨fold, hfold, hnodes, htokens, -, -⟩ := foldEvent_ok hevent
      obtain ⟨fold', hfold', hpriced, hdelta⟩ := foldSurface_planned haccepts hplan hsurface
      rw [hfold] at hfold'
      cases hfold'
      rw [hnodes]
      exact ⟨hpriced, by rw [htokens, htotal, hdelta]⟩

end ReplayState

/-- What a measurement of an accepted log holds. -/
theorem measure_nodes {log : List SessionEvent} {state : SurfaceFoldState}
    {replacements : List SurfaceFoldReplacement} (haccepts : SurfaceAccepts log state replacements)
    {measurement : TokenMeasurement} (h : measure log = .ok measurement) :
    measurement.nodes = priced log state.nodes ∧
      measurement.surfaceTokens = totalTokens measurement.nodes := by
  unfold measure ReplayState.sync at h
  obtain ⟨r, hreplay, h⟩ := Except.bind_eq_ok.mp h
  cases h
  exact ReplayState.replay_surface haccepts hreplay

end Harness
