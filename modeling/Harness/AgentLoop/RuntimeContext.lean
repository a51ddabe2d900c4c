-- SUMMARY: The last retained runtime-context snapshot of `agent-loop/src/runtime-context.ts`, followed live and restored.
import Harness.Session.SurfaceFold

/-!
# Runtime context

A snapshot of the dynamic context is a user message of the system-prompt plugin. The
projection remembers the last one the model still sees. It restores that from a log once,
then follows the events.
-/

namespace Harness

open List

namespace RuntimeContext

/-! ## Own snapshots -/

def SOURCE : JsString := "@deepseek-ai/dsh-system-prompt"

def CLEARED : JsString :=
  "Current runtime context: none. Earlier runtime-context snapshots no longer apply."

def isOwned (message : UserMessage) : Bool :=
  match message.source with
  | .plugin plugin _ => plugin = SOURCE
  | _ => false

def textOf (message : UserMessage) : Option JsString :=
  match message.content with
  | [.text text] => some text
  | _ => none

structure Snapshot where
  seq : Nat
  text : Option JsString
  deriving DecidableEq

def ownSnapshot (event : SessionEvent) : Option Snapshot :=
  match event.data with
  | .userMessage message =>
    if isOwned message then some { seq := event.seq, text := textOf message } else none
  | _ => none

/-! ## The projection -/

/-- `retained`: no snapshot ever existed, none is retained, or one is. -/
inductive Retained where
  | undefined
  | null
  | snapshot (s : Snapshot)
  deriving DecidableEq

/-- The scan of the constructor, from the last event back. -/
def restoreFrom (surface : List Nat) : List SessionEvent → Retained → Retained
  | [], retained => retained
  | event :: earlier, retained =>
    match ownSnapshot event with
    | none => restoreFrom surface earlier retained
    | some s => if s.seq ∈ surface then .snapshot s else restoreFrom surface earlier .null

/-- The constructor, over a log and its surface. -/
def restore (surface : List Nat) (events : List SessionEvent) : Retained :=
  restoreFrom surface events.reverse .undefined

/-- `event.sourceEventSeqs?.includes(seq)`. -/
def cites (event : SessionEvent) (seq : Nat) : Bool :=
  match event.sourceEventSeqs with
  | some (.arr raw) => raw.any fun value => asEventSeq value = some seq
  | _ => false

/-- The `session/event` listener. -/
def observe (retained : Retained) (event : SessionEvent) : Retained :=
  match ownSnapshot event with
  | some s => .snapshot s
  | none =>
    match retained with
    | .snapshot s =>
      if isReplacementSurfaceEvent event && cites event s.seq then .null else .snapshot s
    | retained => retained

/-- The projection of an agent that was there from the first event on. -/
def follow (events : List SessionEvent) : Retained := events.foldl observe .undefined

/-- The candidate message, when the retained value differs; `form` attributes the sections
and is absent when there are none. -/
def project (retained : Retained) (id : MessageId) (current : JsString) (form : Option Json) :
    Option UserMessage :=
  if retained = .undefined ∧ current.units.length = 0 then none
  else
    let snapshot := if current.units.length = 0 then CLEARED else current
    let shown :=
      match retained with
      | .snapshot s => s.text
      | _ => none
    if shown = some snapshot then none
    else some { id, content := [.text snapshot], source := .plugin SOURCE form }

/-! ## Restoring -/

def OwnOnSurface (log : List SessionEvent) (surface : List Nat) : Prop :=
  ∃ event ∈ log, ∃ s, ownSnapshot event = some s ∧ s.seq ∈ surface

variable {retained : Retained} {surface : List Nat}

theorem restoreFrom_foreign {later earlier : List SessionEvent}
    (h : ∀ event ∈ later, ownSnapshot event = none) :
    restoreFrom surface (later ++ earlier) retained = restoreFrom surface earlier retained := by
  induction later with
  | nil => rfl
  | cons event later ih =>
    rw [cons_append, restoreFrom, h event mem_cons_self]
    exact ih fun e he => h e (mem_cons_of_mem _ he)

variable {log : List SessionEvent}

/-- Once a snapshot was seen, the scan finds none retained exactly when none is left. -/
theorem restoreFrom_null : restoreFrom surface log .null = .null ↔ ¬OwnOnSurface log surface := by
  induction log with
  | nil => simp [restoreFrom, OwnOnSurface]
  | cons event log ih =>
    rw [restoreFrom]
    cases hown : ownSnapshot event with
    | none =>
      have hiff : OwnOnSurface (event :: log) surface ↔ OwnOnSurface log surface := by
        simp [OwnOnSurface, hown]
      simp only [ih, hiff]
    | some s =>
      by_cases hs : s.seq ∈ surface
      · have hon : OwnOnSurface (event :: log) surface := ⟨event, mem_cons_self, s, hown, hs⟩
        simp [hs, hon]
      have hiff : OwnOnSurface (event :: log) surface ↔ OwnOnSurface log surface := by
        simp [OwnOnSurface, hown, hs]
      simp only [hs, if_false, ih, hiff]

/-- A log without own snapshots, or its last one between what stands before and after. -/
theorem last_own_cases (log : List SessionEvent) :
    (∀ event ∈ log, ownSnapshot event = none) ∨
      ∃ earlier own later s, log = earlier ++ own :: later ∧ ownSnapshot own = some s ∧
        ∀ event ∈ later, ownSnapshot event = none := by
  induction log with
  | nil => exact .inl (by simp)
  | cons event log ih =>
    rcases ih with hnone | ⟨earlier, own, later, s, rfl, hown, hlater⟩
    · cases hevent : ownSnapshot event with
      | none => exact .inl (by simpa [hevent] using hnone)
      | some s => exact .inr ⟨[], event, log, s, rfl, hevent, hnone⟩
    · exact .inr ⟨event :: earlier, own, later, s, rfl, hown, hlater⟩

theorem restore_of_none
    (h : ∀ event ∈ log, ownSnapshot event = none) : restore surface log = .undefined := by
  have hscan : restoreFrom surface (log.reverse ++ []) .undefined =
      restoreFrom surface [] .undefined :=
    restoreFrom_foreign fun event hevent => h event (mem_reverse.mp hevent)
  rw [append_nil] at hscan
  exact hscan

variable {earlier later : List SessionEvent} {own : SessionEvent} {s : Snapshot}

theorem restore_of_last (hown : ownSnapshot own = some s)
    (hlater : ∀ event ∈ later, ownSnapshot event = none) :
    restore surface (earlier ++ own :: later) =
      if s.seq ∈ surface then .snapshot s else restoreFrom surface earlier.reverse .null := by
  have hreverse : (earlier ++ own :: later).reverse =
      later.reverse ++ (own :: earlier.reverse) := by simp
  rw [restore, hreverse,
    restoreFrom_foreign fun event hevent => hlater event (mem_reverse.mp hevent), restoreFrom,
    hown]

/-! ## Following -/

variable {event : SessionEvent}

theorem observe_own (h : ownSnapshot event = some s) : observe retained event = .snapshot s := by
  simp only [observe, h]

theorem observe_foreign (h : ownSnapshot event = none) : observe retained event =
      match retained with
      | .snapshot s =>
        if isReplacementSurfaceEvent event && cites event s.seq then .null else .snapshot s
      | retained => retained := by
  simp only [observe, h]

/-- A later replacement cites a snapshot. -/
def CitedIn (later : List SessionEvent) (s : Snapshot) : Prop :=
  ∃ event ∈ later, isReplacementSurfaceEvent event = true ∧ cites event s.seq = true

theorem foldl_observe_null {later : List SessionEvent}
    (h : ∀ event ∈ later, ownSnapshot event = none) : later.foldl observe .null = .null := by
  induction later with
  | nil => rfl
  | cons event later ih =>
    rw [foldl_cons, observe_foreign (h event mem_cons_self)]
    exact ih fun e he => h e (mem_cons_of_mem _ he)

theorem foldl_observe_cited {later : List SessionEvent}
    (h : ∀ event ∈ later, ownSnapshot event = none) (hcited : CitedIn later s) :
    later.foldl observe (.snapshot s) = .null := by
  induction later with
  | nil =>
    obtain ⟨event, hmem, _⟩ := hcited
    cases hmem
  | cons event later ih =>
    have hrest : ∀ e ∈ later, ownSnapshot e = none := fun e he => h e (mem_cons_of_mem _ he)
    rw [foldl_cons, observe_foreign (h event mem_cons_self)]
    simp only
    split
    · exact foldl_observe_null hrest
    next hnot =>
    obtain ⟨e, hmem, hreplacement, hcites⟩ := hcited
    rcases mem_cons.mp hmem with rfl | hmem
    · simp [hreplacement, hcites] at hnot
    · exact ih hrest ⟨e, hmem, hreplacement, hcites⟩

theorem foldl_observe_uncited {later : List SessionEvent}
    (h : ∀ event ∈ later, ownSnapshot event = none) (hcited : ¬CitedIn later s) :
    later.foldl observe (.snapshot s) = .snapshot s := by
  induction later with
  | nil => rfl
  | cons event later ih =>
    have hnot : (isReplacementSurfaceEvent event && cites event s.seq) = false := by
      by_contra hboth
      simp only [Bool.not_eq_false, Bool.and_eq_true] at hboth
      exact hcited ⟨event, mem_cons_self, hboth⟩
    rw [foldl_cons, observe_foreign (h event mem_cons_self)]
    simp only [hnot, Bool.false_eq_true, if_false]
    apply ih fun e he => h e (mem_cons_of_mem _ he)
    rintro ⟨e, hmem, hboth⟩
    exact hcited ⟨e, mem_cons_of_mem _ hmem, hboth⟩

theorem follow_of_none (h : ∀ event ∈ log, ownSnapshot event = none) : follow log = .undefined := by
  have hfold : ∀ events : List SessionEvent, (∀ event ∈ events, ownSnapshot event = none) →
      events.foldl observe .undefined = .undefined := by
    intro events hevents
    induction events with
    | nil => rfl
    | cons event events ih =>
      rw [foldl_cons, observe_foreign (hevents event mem_cons_self)]
      exact ih fun e he => hevents e (mem_cons_of_mem _ he)
  exact hfold log h

theorem follow_of_last (hown : ownSnapshot own = some s) :
    follow (earlier ++ own :: later) = later.foldl observe (.snapshot s) := by
  rw [follow, foldl_append, foldl_cons, observe_own hown]

/-! ## The surface -/

variable {seq : Nat}

theorem mem_of_mapM {raw : List Json} {sources : List Nat}
    (h : raw.mapM asEventSeq = some sources) (hseq : seq ∈ sources) :
    ∃ value ∈ raw, asEventSeq value = some seq := by
  induction raw generalizing sources with
  | nil =>
    cases h
    cases hseq
  | cons value raw ih =>
    rw [mapM_cons] at h
    obtain ⟨first, hvalue, h⟩ := Option.bind_eq_some_iff.mp h
    cases hrest : raw.mapM asEventSeq with
    | none => simp [hvalue, hrest] at h
    | some rest =>
      simp only [hvalue, hrest, Option.bind_eq_bind, Option.bind_some, Option.pure_def,
        Option.some.injEq] at h
      subst h
      rcases mem_cons.mp hseq with rfl | hseq
      · exact ⟨value, mem_cons_self, hvalue⟩
      · obtain ⟨value', hmem, heq⟩ := ih hrest hseq
        exact ⟨value', mem_cons_of_mem _ hmem, heq⟩

theorem cites_of_source {sources : List Nat}
    (h : provenanceSources event = .ok sources) (hseq : seq ∈ sources) : cites event seq = true := by
  unfold provenanceSources at h
  split at h
  · cases h
    cases hseq
  · next raw hraw =>
    split at h
    · cases h
    split at h
    · cases h
    next sources' hsources =>
    split at h
    · cases h
    split at h
    · cases h
    cases h
    obtain ⟨value, hvalue, hmap⟩ := mem_of_mapM hsources hseq
    unfold cites
    rw [hraw]
    exact any_eq_true.mpr ⟨value, hvalue, by simpa using hmap⟩
  · cases h

variable {state : SurfaceFoldState}

/-- A node stays on the surface through an event that does not replace it with a citation. -/
theorem mem_applySurfacePlan {plan : Option SurfacePlan}
    (hplan : planSurfaceEvent state event log.length log 0 = .ok plan) (hseq : seq ∈ state.nodes)
    (huncited : ¬(isReplacementSurfaceEvent event = true ∧ cites event seq = true)) :
    seq ∈ (applySurfacePlan state plan).1.nodes := by
  obtain ⟨_, hplan⟩ := planSurfaceEvent_ok hplan
  cases plan with
  | none => exact hseq
  | some plan =>
    cases plan with
    | append _ => exact mem_append_left _ hseq
    | replace p =>
      have hsplit := List.take_slice_drop state.nodes p.startIdx (p.endIdx - p.startIdx + 1)
      rw [← hsplit] at hseq
      simp only [applySurfacePlan, List.splice, mem_append] at hseq ⊢
      rcases hseq with (hseq | hseq) | hseq
      · exact .inl (.inl hseq)
      · exfalso
        obtain ⟨sources, hsources, hcited⟩ := hplan.2.cited
        refine huncited ⟨surfaceOpOf_ok hplan.2.op, cites_of_source hsources (hcited seq ?_)⟩
        rw [hplan.2.shadowed]
        exact hseq
      · exact .inr hseq

/-- An own snapshot takes its place on the surface. -/
theorem own_mem_applySurfacePlan {plan : Option SurfacePlan}
    (hplan : planSurfaceEvent state own log.length log 0 = .ok plan)
    (hown : ownSnapshot own = some s) : s.seq ∈ (applySurfacePlan state plan).1.nodes := by
  obtain ⟨hlength, hplan⟩ := planSurfaceEvent_ok hplan
  have hs : s.seq = own.seq ∧ isSurfaceEligibleType own.type = true := by
    unfold ownSnapshot at hown
    split at hown
    · next message hdata =>
      split at hown
      · cases hown
        refine ⟨rfl, ?_⟩
        rw [SessionEvent.type, hdata]
        rfl
      · cases hown
    · cases hown
  rw [hs.1, hlength]
  cases plan with
  | none =>
    -- An eligible event without a marker is refused.
    unfold surfaceOpOf at hplan
    simp only [hs.2, Bool.not_true, Bool.false_eq_true, if_false] at hplan
    split at hplan
    · cases hplan
    split at hplan
    · cases hplan
    split at hplan
    · split at hplan <;> cases hplan
    · cases hplan
  | some plan =>
    cases plan with
    | append seq =>
      rw [← hplan.1]
      exact mem_append_right _ mem_cons_self
    | replace p =>
      rw [← hplan.1]
      simp only [applySurfacePlan, List.splice, mem_append]
      exact .inl (.inr mem_cons_self)

/-- A snapshot that no later replacement cites is still on the surface. -/
theorem uncited_on_surface {replacements : List SurfaceFoldReplacement}
    (h : SurfaceAccepts (earlier ++ own :: later) state replacements)
    (hown : ownSnapshot own = some s) (hcited : ¬CitedIn later s) : s.seq ∈ state.nodes := by
  induction later using List.reverseRecOn generalizing state replacements with
  | nil =>
    generalize hwhole : earlier ++ [own] = whole at h
    cases h with
    | nil => simp at hwhole
    | snoc _ hplan =>
      obtain ⟨rfl, hevent⟩ := append_inj' hwhole rfl
      cases hevent
      exact own_mem_applySurfacePlan hplan hown
  | append_singleton later event ih =>
    generalize hwhole : earlier ++ own :: (later ++ [event]) = whole at h
    cases h with
    | nil => simp at hwhole
    | snoc haccepts hplan =>
      rw [← cons_append, ← append_assoc] at hwhole
      obtain ⟨rfl, hevent⟩ := append_inj' hwhole rfl
      cases hevent
      have hearlier : ¬CitedIn later s := by
        rintro ⟨e, hmem, hboth⟩
        exact hcited ⟨e, mem_append_left _ hmem, hboth⟩
      refine mem_applySurfacePlan hplan (ih haccepts hearlier) fun hboth => ?_
      exact hcited ⟨event, mem_append_right _ mem_cons_self, hboth⟩

/-! ## Live and restored -/

def LastOwnCited (log : List SessionEvent) : Prop :=
  ∃ earlier own later s, log = earlier ++ own :: later ∧ ownSnapshot own = some s ∧
    (∀ event ∈ later, ownSnapshot event = none) ∧ CitedIn later s

theorem LastOwnCited.of_last (h : LastOwnCited (earlier ++ own :: later))
    (hown : ownSnapshot own = some s)
    (hlater : ∀ event ∈ later, ownSnapshot event = none) : CitedIn later s := by
  obtain ⟨earlier', own', later', s', heq, hown', hlater', hcited⟩ := h
  rcases append_eq_append_iff.mp heq with ⟨mid, rfl, hmid⟩ | ⟨mid, rfl, hmid⟩
  · cases mid with
    | nil =>
      cases hmid
      cases hown.symm.trans hown'
      exact hcited
    | cons event mid =>
      cases hmid
      have hnone := hlater own' (by simp)
      rw [hown'] at hnone
      cases hnone
  · cases mid with
    | nil =>
      cases hmid
      cases hown.symm.trans hown'
      exact hcited
    | cons event mid =>
      cases hmid
      have hnone := hlater' own (by simp)
      rw [hown] at hnone
      cases hnone

/-- The projection that followed a log holds what one restored from it holds, unless the last
own snapshot was cited by a replacement while another own one is left on the surface. -/
theorem follow_eq_restore_iff {log : List SessionEvent} {surface : SurfaceFoldResult}
    (h : foldSurface log = .ok surface) :
    follow log = restore surface.nodes log ↔
      ¬(LastOwnCited log ∧ OwnOnSurface log surface.nodes) := by
  obtain ⟨state, haccepts, hnodes⟩ := foldSurface_ok_iff.mp h
  rcases last_own_cases log with hnone | ⟨earlier, own, later, s, rfl, hown, hlater⟩
  · rw [follow_of_none hnone, restore_of_none hnone]
    have hclear : ¬OwnOnSurface log surface.nodes := by
      rintro ⟨event, hmem, s, hs, _⟩
      rw [hnone event hmem] at hs
      cases hs
    simp [hclear]
  rw [follow_of_last hown, restore_of_last hown hlater]
  by_cases hcited : CitedIn later s
  · have hlast : LastOwnCited (earlier ++ own :: later) :=
      ⟨earlier, own, later, s, rfl, hown, hlater, hcited⟩
    rw [foldl_observe_cited hlater hcited]
    -- What is left on the surface is the last own snapshot itself or an earlier one.
    have hleft : OwnOnSurface (earlier ++ own :: later) surface.nodes ↔
        s.seq ∈ surface.nodes ∨ OwnOnSurface earlier.reverse surface.nodes := by
      constructor
      · rintro ⟨event, hmem, s', hs', hon⟩
        rcases mem_append.mp hmem with hmem | hmem
        · exact .inr ⟨event, mem_reverse.mpr hmem, s', hs', hon⟩
        rcases mem_cons.mp hmem with rfl | hmem
        · cases hown.symm.trans hs'
          exact .inl hon
        · rw [hlater event hmem] at hs'
          cases hs'
      · rintro (hon | ⟨event, hmem, s', hs', hon⟩)
        · exact ⟨own, by simp, s, hown, hon⟩
        · exact ⟨event, mem_append_left _ (mem_reverse.mp hmem), s', hs', hon⟩
    simp only [hlast, true_and, hleft]
    by_cases hs : s.seq ∈ surface.nodes
    · simp [hs]
    · simp only [hs, if_false, false_or]
      rw [eq_comm, restoreFrom_null]
  · have hlast : ¬LastOwnCited (earlier ++ own :: later) :=
      fun hlast => hcited (hlast.of_last hown hlater)
    have hon := uncited_on_surface haccepts hown hcited
    rw [hnodes] at hon
    rw [foldl_observe_uncited hlater hcited, if_pos hon]
    simp [hlast]

/-- A snapshot appended at a position. -/
def snapshotAt (seq : Nat) (text : JsString) : SessionEvent where
  seq := seq
  time := 0
  data := .userMessage { id := "m", content := [.text text], source := .plugin SOURCE none }
  surfaceOp := some SurfaceOp.append.toJson

/-- A summary that replaces one surface node. -/
def summaryOf (seq replaced : Nat) : SessionEvent where
  seq := seq
  time := 0
  data := .userMessage { id := "s", content := [.text "summary"], source := .user }
  surfaceOp := some (SurfaceOp.replace replaced replaced).toJson
  sourceEventSeqs := some (.arr [Json.ofNat replaced])

/-- Two snapshots, one of which a summary replaces. -/
def summarized (replaced : Nat) : List SessionEvent :=
  [snapshotAt 0 "branch main"] ++ snapshotAt 1 "branch fix" :: [summaryOf 2 replaced]

theorem follow_eq_restore_summarized_first :
    foldSurface (summarized 0) =
        .ok { nodes := [2, 1]
              replacements := [{ seq := 2, start := 0, end_ := 0, shadowedSeqs := [0] }] } ∧
      follow (summarized 0) = restore [2, 1] (summarized 0) := by
  have hfold : foldSurface (summarized 0) =
      .ok { nodes := [2, 1]
            replacements := [{ seq := 2, start := 0, end_ := 0, shadowedSeqs := [0] }] } := rfl
  refine ⟨hfold, (follow_eq_restore_iff hfold).mpr ?_⟩
  rintro ⟨hlast, _⟩
  have hforeign : ∀ event ∈ [summaryOf 2 0], ownSnapshot event = none := by
    intro event hmem
    rw [mem_singleton.mp hmem]
    rfl
  obtain ⟨event, hmem, _, hcites⟩ := hlast.of_last rfl hforeign
  rw [mem_singleton.mp hmem] at hcites
  cases hcites

/-- With the second one replaced, the live projection takes none to be left, a restored one
the first. -/
theorem summarized_second_diverges :
    foldSurface (summarized 1) =
        .ok { nodes := [0, 2]
              replacements := [{ seq := 2, start := 1, end_ := 1, shadowedSeqs := [1] }] } ∧
      follow (summarized 1) ≠ restore [0, 2] (summarized 1) :=
  ⟨rfl, fun h => by cases h⟩

end RuntimeContext

end Harness
