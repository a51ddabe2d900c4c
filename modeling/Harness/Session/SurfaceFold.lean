-- SUMMARY: What one surface transition can do, and the event-by-event view of a full refold.
import Mathlib.Data.List.Induction
import Harness.Session.Surface

namespace Harness

open List

/-! ## Event-local validation -/

variable {event : SessionEvent}

theorem isSurfaceEvent_of_append (h : isAppendSurfaceEvent event = true) :
    isSurfaceEvent event = true := by
  simp only [isAppendSurfaceEvent, isSurfaceEvent, Bool.and_eq_true] at h ⊢
  refine ⟨h.1, ?_⟩
  cases hop : event.surfaceOp with
  | none => simp [hop] at h
  | some op => rfl

/-- The two origins split the surface events. -/
theorem isSurfaceEvent_iff : isSurfaceEvent event = true ↔
      isAppendSurfaceEvent event = true ∨ isReplacementSurfaceEvent event = true := by
  simp only [isSurfaceEvent, isAppendSurfaceEvent, isReplacementSurfaceEvent, Bool.and_eq_true]
  cases event.surfaceOp with
  | none => simp
  | some op => cases h : op.isAppendMarker <;> simp [h]

theorem not_append_of_replacement
    (h : isReplacementSurfaceEvent event = true) : isAppendSurfaceEvent event = false := by
  simp only [isReplacementSurfaceEvent, isAppendSurfaceEvent, Bool.and_eq_true] at h ⊢
  cases hop : event.surfaceOp with
  | none => simp [hop] at h
  | some op => cases hm : op.isAppendMarker <;> simp_all

/-- What an event may carry for each placement it is given. -/
theorem surfaceOpOf_ok {op : Option SurfaceOp} (h : surfaceOpOf event = .ok op) : match op with
    | none => isSurfaceEvent event = false
    | some .append => isAppendSurfaceEvent event = true
    | some (.replace _ _) => isReplacementSurfaceEvent event = true := by
  unfold surfaceOpOf at h
  split at h
  · rename_i hineligible
    split at h
    · cases h
    split at h
    · cases h
    · cases h
      simp_all [isSurfaceEvent]
  rename_i heligible
  have htype : isSurfaceEligibleType event.type = true := by simpa using heligible
  split at h
  · cases h
  rename_i raw hop
  split at h
  · rename_i hmarker
    cases h
    simp [isAppendSurfaceEvent, htype, hop, hmarker]
  rename_i hmarker
  have hnot : raw.isAppendMarker = false := by simpa using hmarker
  split at h
  · split at h
    · cases h
      simp only [isReplacementSurfaceEvent, htype, hop, Option.any_some, Bool.true_and,
        Bool.not_eq_true']
      exact hnot
    · cases h
  · cases h

/-! ## One transition -/

/-- What `planSurfaceEvent` has established about a replacement plan it returns. -/
structure ReplacePlanned (state : SurfaceFoldState) (event : SessionEvent)
    (events : List SessionEvent) (baseSeq : Nat) (plan : SurfaceReplacePlan) : Prop where
  op : surfaceOpOf event = .ok (some (.replace plan.start plan.end_))
  startNode : state.nodes[plan.startIdx]? = some plan.start
  endNode : state.nodes[plan.endIdx]? = some plan.end_
  ordered : plan.startIdx ≤ plan.endIdx
  shadowed : plan.shadowedSeqs = state.nodes.slice plan.startIdx (plan.endIdx - plan.startIdx + 1)
  cited : ∃ sources, provenanceSources event = .ok sources ∧ ∀ x ∈ plan.shadowedSeqs, x ∈ sources
  rewrite : assertToolResultRewrite event plan.shadowedSeqs events baseSeq = .ok ()

theorem getElem?_of_idxOf? {xs : List Nat} {x i : Nat} (h : xs.idxOf? x = some i) :
    xs[i]? = some x := by
  obtain ⟨hlt, hget, -⟩ := idxOf?_eq_some_iff.mp h
  rw [getElem?_eq_getElem hlt, hget]

variable {state : SurfaceFoldState}

theorem replacementRange_ok {start end_ : Nat} {range : ReplacementRange}
    (h : replacementRange state start end_ = .ok range) :
    state.nodes[range.startIdx]? = some start ∧ state.nodes[range.endIdx]? = some end_ ∧
      range.startIdx ≤ range.endIdx ∧
      range.shadowedSeqs = state.nodes.slice range.startIdx (range.endIdx - range.startIdx + 1) := by
  unfold replacementRange at h
  split at h
  · cases h
  rename_i startIdx hstart
  split at h
  · cases h
  rename_i endIdx hend
  split at h
  · cases h
  rename_i hle
  cases h
  have hle' : startIdx ≤ endIdx := Nat.le_of_not_gt hle
  have hcount : endIdx + 1 - startIdx = endIdx - startIdx + 1 := by omega
  refine ⟨?_, ?_, hle', by simp [hcount]⟩
  · exact getElem?_of_idxOf? hstart
  · exact getElem?_of_idxOf? hend

theorem assertProvenance_ok {shadowedSeqs : List Nat}
    (h : assertProvenance event shadowedSeqs = .ok ()) :
    ∃ sources, provenanceSources event = .ok sources ∧ ∀ x ∈ shadowedSeqs, x ∈ sources := by
  unfold assertProvenance at h
  split at h
  · cases h
  rename_i sources hsources
  refine ⟨sources, hsources, ?_⟩
  simp only at h
  split at h
  · cases h
  rename_i hmissing
  intro x hx
  have hnil : shadowedSeqs.filter (fun seq => !sources.contains seq) = [] := by
    simpa using hmissing
  have := filter_eq_nil_iff.mp hnil x hx
  simpa using this

/-- Everything one accepted event can plan. -/
theorem planSurfaceEvent_ok {expectedSeq : Nat}
    {events : List SessionEvent} {baseSeq : Nat} {plan : Option SurfacePlan}
    (h : planSurfaceEvent state event expectedSeq events baseSeq = .ok plan) :
    event.seq = expectedSeq ∧
      match plan with
      | none => surfaceOpOf event = .ok none
      | some (.append seq) => seq = expectedSeq ∧ surfaceOpOf event = .ok (some .append)
      | some (.replace p) => p.seq = expectedSeq ∧ ReplacePlanned state event events baseSeq p := by
  unfold planSurfaceEvent at h
  split at h
  · cases h
  rename_i hseq
  have hseq : event.seq = expectedSeq := by simpa using hseq
  refine ⟨hseq, ?_⟩
  split at h
  · cases h
  · rename_i hop
    cases h
    exact hop
  · rename_i hop
    split at h
    · cases h
    · cases h
      exact ⟨hseq, hop⟩
  · rename_i start end_ hop
    split at h
    · cases h
    rename_i range hrange
    split at h
    · cases h
    rename_i hprov
    split at h
    · cases h
    rename_i hrewrite
    cases h
    obtain ⟨hstart, hend, hle, hshadowed⟩ := replacementRange_ok hrange
    exact ⟨hseq, hop, hstart, hend, hle, hshadowed, assertProvenance_ok hprov, hrewrite⟩

/-- Planning looks at the log only through the nodes of the current surface. -/
theorem planSurfaceEvent_congr {expectedSeq : Nat}
    {events events' : List SessionEvent} (h : ∀ x ∈ state.nodes, events[x]? = events'[x]?) :
    planSurfaceEvent state event expectedSeq events 0 =
      planSurfaceEvent state event expectedSeq events' 0 := by
  have hrewrite : ∀ shadowedSeqs, (∀ x ∈ shadowedSeqs, x ∈ state.nodes) →
      assertToolResultRewrite event shadowedSeqs events 0 =
        assertToolResultRewrite event shadowedSeqs events' 0 := by
    intro shadowedSeqs hsub
    unfold assertToolResultRewrite
    split
    · match shadowedSeqs with
      | [] => rfl
      | [x] => simp only [Nat.sub_zero, h x (hsub x (mem_singleton_self x))]
      | _ :: _ :: _ => rfl
    · rfl
  unfold planSurfaceEvent
  split
  · rfl
  split
  · rfl
  · rfl
  · rfl
  · split
    · rfl
    rename_i range hrange
    have hsub : ∀ x ∈ range.shadowedSeqs, x ∈ state.nodes := by
      rw [(replacementRange_ok hrange).2.2.2]
      exact fun x hx => List.mem_of_mem_slice hx
    rw [hrewrite range.shadowedSeqs hsub]

/-! ## Event by event -/

/-- `log` is accepted one event after the other and folds to `state`, with the
replacements that occurred on the way. -/
inductive SurfaceAccepts :
    List SessionEvent → SurfaceFoldState → List SurfaceFoldReplacement → Prop where
  | nil : SurfaceAccepts [] createFoldState []
  | snoc {log state replacements event plan} :
      SurfaceAccepts log state replacements →
      planSurfaceEvent state event log.length log 0 = .ok plan →
      SurfaceAccepts (log ++ [event]) (applySurfacePlan state plan).1
        (replacements ++ (applySurfacePlan state plan).2.toList)

variable {log : List SessionEvent} {replacements : List SurfaceFoldReplacement}

/-- The last event of an accepted log is numbered by its position. -/
theorem SurfaceAccepts.seq_last
    (h : SurfaceAccepts (log ++ [event]) state replacements) : event.seq = log.length := by
  generalize hwhole : log ++ [event] = whole at h
  cases h with
  | nil => simp at hwhole
  | snoc _ hplan =>
    obtain ⟨rfl, hevent⟩ := append_inj' hwhole rfl
    cases hevent
    exact (planSurfaceEvent_ok hplan).1

section

variable (h : SurfaceAccepts log state replacements)
include h

/-- Every event of an accepted log stands at its own seq. -/
theorem SurfaceAccepts.seq_eq {seq : Nat} (hevent : log[seq]? = some event) : event.seq = seq := by
  induction h with
  | nil => simp at hevent
  | @snoc log state replacements last plan _ hplan ih =>
    rw [getElem?_append] at hevent
    split at hevent
    · exact ih hevent
    rename_i hlt
    rw [getElem?_singleton] at hevent
    split at hevent
    case isTrue hzero =>
      cases hevent
      rw [(planSurfaceEvent_ok hplan).1]
      omega
    case isFalse => cases hevent

/-- Nodes name positions of the log. -/
theorem SurfaceAccepts.nodes_lt : ∀ x ∈ state.nodes, x < log.length := by
  induction h with
  | nil => simp [createFoldState]
  | @snoc log state replacements event plan _ hplan ih =>
    have hold : ∀ x ∈ state.nodes, x < log.length + 1 := fun x hx => Nat.lt_succ_of_lt (ih x hx)
    obtain ⟨-, hplan⟩ := planSurfaceEvent_ok hplan
    rw [length_append, length_singleton]
    cases plan with
    | none => exact hold
    | some plan =>
      cases plan with
      | append seq =>
        obtain ⟨rfl, -⟩ := hplan
        intro x hx
        rcases mem_append.mp hx with hx | hx
        · exact hold x hx
        · rw [mem_singleton.mp hx]
          exact Nat.lt_succ_self _
      | replace p =>
        obtain ⟨hseq, -⟩ := hplan
        intro x hx
        rcases List.mem_splice hx with hx | hx
        · exact hold x hx
        · rw [mem_singleton.mp hx, hseq]
          exact Nat.lt_succ_self _

/-- The generation counts the replacements. -/
theorem SurfaceAccepts.generation : state.replaceGeneration = replacements.length := by
  induction h with
  | nil => rfl
  | @snoc log state replacements event plan _ _ ih =>
    cases plan with
    | none => simpa [applySurfacePlan] using ih
    | some plan => cases plan <;> simp [applySurfacePlan, ih]

theorem SurfaceAccepts.replacements_count :
    replacements.length = log.countP isReplacementSurfaceEvent := by
  induction h with
  | nil => rfl
  | @snoc log state replacements event plan _ hplan ih =>
    obtain ⟨-, hplan⟩ := planSurfaceEvent_ok hplan
    rw [countP_append, countP_singleton, length_append, ih]
    cases plan with
    | none =>
      have hevent : isSurfaceEvent event = false := surfaceOpOf_ok hplan
      have hnot : isReplacementSurfaceEvent event = false := by
        cases hr : isReplacementSurfaceEvent event with
        | false => rfl
        | true => simp [isSurfaceEvent_iff.mpr (.inr hr)] at hevent
      simp [applySurfacePlan, hnot]
    | some plan =>
      cases plan with
      | append seq =>
        have hevent : isAppendSurfaceEvent event = true := surfaceOpOf_ok hplan.2
        have hnot : isReplacementSurfaceEvent event = false := by
          cases hr : isReplacementSurfaceEvent event with
          | false => rfl
          | true => simp [not_append_of_replacement hr] at hevent
        simp [applySurfacePlan, hnot]
      | replace p =>
        have hevent : isReplacementSurfaceEvent event = true := surfaceOpOf_ok hplan.2.op
        simp [applySurfacePlan, hevent]

end

/-! ## The full refold -/

theorem foldSurfaceFrom_append (events xs ys : List SessionEvent) (index : Nat)
    (state : SurfaceFoldState) (replacements : List SurfaceFoldReplacement) :
    foldSurfaceFrom events (xs ++ ys) index state replacements =
      match foldSurfaceFrom events xs index state replacements with
      | .error e => .error e
      | .ok (state', replacements') =>
        foldSurfaceFrom events ys (index + xs.length) state' replacements' := by
  induction xs generalizing index state replacements with
  | nil => rfl
  | cons x xs ih =>
    simp only [cons_append, foldSurfaceFrom]
    split
    · rfl
    · rw [ih, length_cons, Nat.add_assoc, Nat.add_comm 1]

/-- A refold that runs over an accepted log continues from its state. -/
theorem SurfaceAccepts.foldSurfaceFrom (h : SurfaceAccepts log state replacements)
    (more : List SessionEvent) :
    foldSurfaceFrom (log ++ more) log 0 createFoldState [] = .ok (state, replacements) := by
  induction h generalizing more with
  | nil => rfl
  | @snoc log state replacements event plan haccepts hplan ih =>
    have hcongr : planSurfaceEvent state event log.length (log ++ [event] ++ more) 0 = .ok plan := by
      rw [← hplan]
      apply planSurfaceEvent_congr
      intro x hx
      rw [append_assoc, getElem?_append_left (haccepts.nodes_lt x hx)]
    rw [foldSurfaceFrom_append, append_assoc, ih]
    simp only [Harness.foldSurfaceFrom, Nat.zero_add, applySurfaceEvent]
    rw [← append_assoc, hcongr]

theorem SurfaceAccepts.foldSurface (h : SurfaceAccepts log state replacements) :
    foldSurface log = .ok { nodes := state.nodes, replacements } := by
  have hfold := h.foldSurfaceFrom []
  rw [append_nil] at hfold
  simp [Harness.foldSurface, hfold]

/-- The loop of a successful refold, seen from the log it has already consumed. -/
theorem SurfaceAccepts.of_foldSurfaceFrom {rest log : List SessionEvent}
    {state state' : SurfaceFoldState} {replacements replacements' : List SurfaceFoldReplacement}
    (haccepts : SurfaceAccepts log state replacements)
    (h : Harness.foldSurfaceFrom (log ++ rest) rest log.length state replacements =
      .ok (state', replacements')) :
    SurfaceAccepts (log ++ rest) state' replacements' := by
  induction rest generalizing log state replacements with
  | nil =>
    cases h
    simpa using haccepts
  | cons event rest ih =>
    simp only [Harness.foldSurfaceFrom, applySurfaceEvent] at h
    split at h
    · cases h
    rename_i applied replacement happly
    split at happly
    · cases happly
    rename_i plan hplan
    have hcongr : planSurfaceEvent state event log.length log 0 = .ok plan := by
      rw [← hplan]
      apply planSurfaceEvent_congr
      intro x hx
      rw [getElem?_append_left (haccepts.nodes_lt x hx)]
    simp only [Except.ok.injEq, Prod.ext_iff] at happly
    obtain ⟨rfl, rfl⟩ := happly
    have := ih (haccepts.snoc hcongr) (by simpa using h)
    simpa using this

/-- The refold succeeds exactly on the logs that are accepted event by event. -/
theorem foldSurface_ok_iff {result : SurfaceFoldResult} : foldSurface log = .ok result ↔
      ∃ state, SurfaceAccepts log state result.replacements ∧ state.nodes = result.nodes := by
  constructor
  · intro h
    unfold foldSurface at h
    split at h
    · cases h
    rename_i state replacements hfold
    cases h
    exact ⟨state, SurfaceAccepts.nil.of_foldSurfaceFrom hfold, rfl⟩
  · rintro ⟨state, haccepts, hnodes⟩
    rw [haccepts.foldSurface, hnodes]

theorem SurfaceAccepts.unique {state state' : SurfaceFoldState}
    {replacements replacements' : List SurfaceFoldReplacement}
    (h : SurfaceAccepts log state replacements) (h' : SurfaceAccepts log state' replacements') :
    state = state' ∧ replacements = replacements' := by
  have heq := (h.foldSurfaceFrom []).symm.trans (h'.foldSurfaceFrom [])
  cases heq
  exact ⟨rfl, rfl⟩

theorem SurfaceAccepts.of_append {log more : List SessionEvent}
    (h : SurfaceAccepts (log ++ more) state replacements) :
    ∃ state' replacements', SurfaceAccepts log state' replacements' := by
  induction more using List.reverseRecOn generalizing state replacements with
  | nil => exact ⟨state, replacements, by simpa using h⟩
  | append_singleton more event ih =>
    generalize hlog : log ++ (more ++ [event]) = whole at h
    cases h with
    | nil => simp at hlog
    | snoc haccepts _ =>
      rw [← append_assoc] at hlog
      obtain ⟨rfl, -⟩ := append_inj' hlog rfl
      exact ih haccepts

end Harness
