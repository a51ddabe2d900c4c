-- SUMMARY: Repair balances every crash point: the closed log is accepted, ends outside any turn, and needs no further repair.
import Harness.Session.Repair
import Harness.Session.SurfaceFold

namespace Harness

open List OrderedMap

/-- A log that append validation and the trace validator accept. It is held in a
JavaScript array, which has fewer than `2 ^ 32` entries. -/
structure AcceptedLog (log : List SessionEvent) : Prop where
  surface : ∃ surface, foldSurface log = .ok surface
  trace : ∃ trace, SessionTrace.fresh.seed log = .ok trace
  array : log.length < 2 ^ 32

variable {log : List SessionEvent}

theorem AcceptedLog.accepts (h : AcceptedLog log) :
    ∃ state replacements, SurfaceAccepts log state replacements := by
  obtain ⟨surface, hsurface⟩ := h.surface
  obtain ⟨state, haccepts, -⟩ := foldSurface_ok_iff.mp hsurface
  exact ⟨state, _, haccepts⟩

theorem AcceptedLog.of_append {log more : List SessionEvent} (h : AcceptedLog (log ++ more)) :
    AcceptedLog log where
  surface := by
    obtain ⟨state, replacements, haccepts⟩ := h.accepts
    obtain ⟨state', replacements', haccepts'⟩ := haccepts.of_append
    exact ⟨_, haccepts'.foldSurface⟩
  trace := by
    obtain ⟨trace, htrace⟩ := h.trace
    obtain ⟨middle, hmiddle, -⟩ := SessionTrace.seed_append_ok.mp htrace
    exact ⟨middle, hmiddle⟩
  array := by
    have := h.array
    rw [length_append] at this
    omega

theorem AcceptedLog.of_crashPoint {log more : List SessionEvent} (h : AcceptedLog more)
    (hcrash : log <+: more) : AcceptedLog log := by
  obtain ⟨rest, rfl⟩ := hcrash
  exact h.of_append

/-! ## The scan and the validator -/

/-- The repair scan and the validator's trace, after the same `length` events. -/
structure RepairScan.Matches (s : RepairScan) (t : SessionTrace) (length : Nat) : Prop where
  openTurn : s.openTurn = t.openTurn
  openStep : s.openStep = t.openStep
  lastSeq : t.lastSeq = (length : Int) - 1
  stepInTurn : t.openTurn = none → t.openStep = none
  steps : ∀ e ∈ s.pendingCalls, t.openStep = some e.2.step
  /-- A recorded call is one the validator waits for. -/
  recorded : ∀ e ∈ s.pendingCalls, ∀ callSeq, e.2.callSeq = some callSeq →
    e.1 ∈ t.pendingCalls ∧ callSeq < length
  unique : (keys s.pendingCalls).Nodup

namespace RepairScan

theorem Matches.start : Matches start .fresh 0 where
  openTurn := rfl
  openStep := rfl
  lastSeq := rfl
  stepInTurn := fun _ => rfl
  steps := by simp [RepairScan.start]
  recorded := by simp [RepairScan.start]
  unique := nodup_nil

variable {s : RepairScan}

/-- Outside a step nothing is pending. -/
theorem Matches.idle {t : SessionTrace} {length : Nat} (h : s.Matches t length)
    (hstep : t.openStep = none) : s.pendingCalls = [] := by
  cases hp : s.pendingCalls with
  | nil => rfl
  | cons e rest =>
    have := h.steps e (by simp [hp])
    rw [hstep] at this
    cases this

/-- An event that is none of the scan's, and that only advances the trace. -/
theorem Matches.advance {t : SessionTrace} {event : SessionEvent}
    (h : s.Matches t event.seq) : s.Matches (t.advance event) (event.seq + 1) :=
  { h with
    lastSeq := by simp [SessionTrace.advance]
    recorded := fun e he callSeq hcallSeq =>
      ⟨(h.recorded e he callSeq hcallSeq).1, Nat.lt_succ_of_lt (h.recorded e he callSeq hcallSeq).2⟩ }

variable {m : OrderedMap CallId PendingCall}

theorem registerCalls_mem {step : Nat} {ids : List CallId}
    {e : CallId × PendingCall} (he : e ∈ registerCalls step ids m) :
    e ∈ m ∨ e.2 = { step, callSeq := none } := by
  induction ids generalizing m with
  | nil => exact .inl he
  | cons id ids ih =>
    rcases ih he with he | he
    · rcases mem_set he with he | he
      · exact .inl he
      · exact .inr (by rw [he])
    · exact .inr he

theorem registerCalls_unique {step : Nat} {ids : List CallId}
    (h : (keys m).Nodup) : (keys (registerCalls step ids m)).Nodup := by
  induction ids generalizing m with
  | nil => exact h
  | cons id ids ih => exact ih (nodup_set h id _)

theorem recordCall_mem {callId : CallId} {seq : Nat}
    {e : CallId × PendingCall} (he : e ∈ recordCall callId seq m) :
    ∃ e' ∈ m, e.1 = e'.1 ∧ e.2.step = e'.2.step ∧
      (e.2.callSeq = e'.2.callSeq ∨ e.1 = callId ∧ e.2.callSeq = some seq) := by
  obtain ⟨e', he', heq⟩ := mem_map.mp he
  refine ⟨e', he', ?_⟩
  by_cases hid : e'.1 = callId
  · rw [if_pos hid] at heq
    subst heq
    exact ⟨rfl, rfl, .inr ⟨hid, rfl⟩⟩
  · rw [if_neg hid] at heq
    subst heq
    exact ⟨rfl, rfl, .inl rfl⟩

/-- One accepted event keeps the scan and the trace in step. -/
theorem Matches.step {t t' : SessionTrace} {event : SessionEvent}
    (h : s.Matches t event.seq) (hstep : t.step event = .ok t') :
    (s.scanEvent event).Matches t' (event.seq + 1) := by
  obtain ⟨-, haccepts⟩ := SessionTrace.step_ok_iff.mp hstep
  have hadvance := h.advance
  unfold SessionTrace.Accepts at haccepts
  unfold scanEvent
  cases hdata : event.data with
  | turnStart turn =>
    simp only [hdata] at haccepts ⊢
    obtain ⟨hclosed, -, rfl⟩ := haccepts
    exact { hadvance with
      openTurn := rfl
      openStep := (h.stepInTurn hclosed).symm
      stepInTurn := fun hnone => by cases hnone
      steps := by simp
      recorded := by simp
      unique := nodup_nil }
  | turnEnd turn reason =>
    simp only [hdata] at haccepts ⊢
    obtain ⟨-, hclosed, rfl⟩ := haccepts
    exact { hadvance with
      openTurn := rfl
      openStep := hclosed.symm
      stepInTurn := fun _ => hclosed
      steps := by simp
      recorded := by simp
      unique := nodup_nil }
  | stepStart turn step =>
    simp only [hdata] at haccepts ⊢
    obtain ⟨hturn, hclosed, -, rfl⟩ := haccepts
    have hnil : s.pendingCalls = [] := h.idle hclosed
    exact { hadvance with
      openTurn := h.openTurn
      openStep := rfl
      stepInTurn := fun hnone => by
        have : t.openTurn = none := hnone
        rw [hturn] at this
        cases this
      steps := by simp [hnil]
      recorded := by simp [hnil] }
  | stepEnd turn step =>
    simp only [hdata] at haccepts ⊢
    obtain ⟨-, rfl⟩ := haccepts
    exact { hadvance with
      openTurn := h.openTurn
      openStep := rfl
      stepInTurn := fun _ => rfl
      steps := by simp
      recorded := by simp
      unique := nodup_nil }
  | assistantMessage turn step message usage =>
    simp only [hdata] at haccepts ⊢
    obtain ⟨⟨-, hopen⟩, rfl⟩ := haccepts
    exact { hadvance with
      steps := by
        intro e he
        rcases registerCalls_mem he with he | he
        · exact hadvance.steps e he
        · rw [he]
          exact hopen
      recorded := by
        intro e he callSeq hcallSeq
        rcases registerCalls_mem he with he | he
        · exact hadvance.recorded e he callSeq hcallSeq
        · rw [he] at hcallSeq
          cases hcallSeq
      unique := registerCalls_unique h.unique }
  | toolCall turn step callId name arguments =>
    simp only [hdata] at haccepts ⊢
    obtain ⟨-, rfl⟩ := haccepts
    exact { hadvance with
      steps := by
        intro e he
        obtain ⟨e', he', -, hsame, -⟩ := recordCall_mem he
        rw [hsame]
        exact hadvance.steps e' he'
      recorded := by
        intro e he callSeq hcallSeq
        obtain ⟨e', he', hid, -, hseq⟩ := recordCall_mem he
        rcases hseq with hseq | ⟨hcall, hseq⟩
        · rw [hseq] at hcallSeq
          obtain ⟨hpending, hlt⟩ := hadvance.recorded e' he' callSeq hcallSeq
          rw [hid]
          exact ⟨Finset.mem_insert_of_mem hpending, hlt⟩
        · rw [hseq] at hcallSeq
          cases hcallSeq
          rw [hcall]
          exact ⟨Finset.mem_insert_self _ _, Nat.lt_succ_self _⟩
      unique := by
        rw [recordCall, keys_modify]
        exact h.unique }
  | toolResult data =>
    simp only [hdata] at haccepts ⊢
    -- a result of either origin ends the wait of the scan, an appended one that of the trace
    have hkept : ∀ e ∈ delete s.pendingCalls data.message.callId,
        e ∈ s.pendingCalls ∧ e.1 ≠ data.message.callId := by
      intro e he
      obtain ⟨hmem, hne⟩ := mem_filter.mp he
      exact ⟨hmem, by simpa using hne⟩
    split at haccepts
    · obtain ⟨-, -, rfl⟩ := haccepts
      exact { hadvance with
        steps := fun e he => hadvance.steps e (hkept e he).1
        recorded := by
          intro e he callSeq hcallSeq
          obtain ⟨hpending, hlt⟩ := hadvance.recorded e (hkept e he).1 callSeq hcallSeq
          exact ⟨Finset.mem_erase.mpr ⟨(hkept e he).2, hpending⟩, hlt⟩
        unique := nodup_delete h.unique _ }
    · obtain ⟨-, rfl⟩ := haccepts
      exact { hadvance with
        steps := fun e he => hadvance.steps e (hkept e he).1
        recorded := fun e he => hadvance.recorded e (hkept e he).1
        unique := nodup_delete h.unique _ }
  | assistantChunk turn step chunk =>
    simp only [hdata] at haccepts ⊢
    obtain ⟨-, rfl⟩ := haccepts
    exact hadvance
  | todoWrite todos =>
    simp only [hdata] at haccepts ⊢
    obtain ⟨-, rfl⟩ := haccepts
    exact hadvance
  | requestHeader header reason =>
    simp only [hdata] at haccepts ⊢
    obtain ⟨-, rfl⟩ := haccepts
    exact hadvance
  | requestContext context =>
    simp only [hdata] at haccepts ⊢
    obtain ⟨-, rfl⟩ := haccepts
    exact hadvance
  | userMessage message =>
    simp only [hdata] at haccepts ⊢
    exact haccepts ▸ hadvance
  | sessionEndSeed =>
    simp only [hdata] at haccepts ⊢
    exact haccepts ▸ hadvance
  | inboxSpliced splice =>
    simp only [hdata] at haccepts ⊢
    exact haccepts ▸ hadvance
  | other type data merged =>
    simp only [hdata] at haccepts ⊢
    exact haccepts ▸ hadvance

theorem scan_snoc (log : List SessionEvent) (event : SessionEvent) :
    scan (log ++ [event]) = (scan log).scanEvent event := by
  simp [scan, foldl_append]

theorem scan_matches {log : List SessionEvent} {state : SurfaceFoldState}
    {replacements : List SurfaceFoldReplacement} (haccepts : SurfaceAccepts log state replacements)
    {trace : SessionTrace} (htrace : SessionTrace.fresh.seed log = .ok trace) :
    (scan log).Matches trace log.length := by
  induction log using List.reverseRecOn generalizing state replacements trace with
  | nil =>
    cases htrace
    exact .start
  | append_singleton log event ih =>
    obtain ⟨middle, hmiddle, hstep⟩ := SessionTrace.seed_snoc_ok.mp htrace
    obtain ⟨before, replacements', hbefore⟩ := haccepts.of_append
    have hseq : event.seq = log.length := haccepts.seq_last
    have hmatches := ih hbefore hmiddle
    rw [← hseq] at hmatches
    rw [scan_snoc, length_append, length_singleton, ← hseq]
    exact hmatches.step hstep

end RepairScan

/-! ## Closers are accepted -/

/-- The surface takes a synthetic result that cites an earlier event. -/
theorem planSurfaceEvent_closeCall (state : SurfaceFoldState) (log : List SessionEvent) (turn : Nat)
    (time : Int) (seq : Nat) (callId : CallId) (pending : PendingCall)
    (hcited : ∀ callSeq, pending.callSeq = some callSeq → callSeq < seq ∧ callSeq < 2 ^ 32) :
    planSurfaceEvent state (closeCall turn time seq callId pending) seq log 0 =
      .ok (some (.append seq)) := by
  have hop : surfaceOpOf (closeCall turn time seq callId pending) = .ok (some .append) := by
    rfl
  have hsources : ∃ sources,
      provenanceSources (closeCall turn time seq callId pending) = .ok sources := by
    cases hseq : pending.callSeq with
    | none => exact ⟨[], by simp [provenanceSources, closeCall, hseq]⟩
    | some callSeq =>
      obtain ⟨hlt, hsafe⟩ := hcited callSeq hseq
      have hvalue : asEventSeq (Json.ofNat callSeq) = some callSeq := by
        have hin : isSafeInt (callSeq : Int) = true := by
          refine decide_eq_true ?_
          rw [maxSafeInteger]
          omega
        simp [asEventSeq, Json.asSafeInteger, Json.ofNat, Num.asSafeInteger, hin]
      refine ⟨[callSeq], ?_⟩
      have hnot : ¬ seq ≤ callSeq := by omega
      simp [provenanceSources, closeCall, hseq, hvalue, hnot]
  obtain ⟨sources, hsources⟩ := hsources
  have hseq : (closeCall turn time seq callId pending).seq = seq := rfl
  simp [planSurfaceEvent, hseq, hop, assertProvenance, hsources]

variable {t : SessionTrace}

/-- The trace takes a synthetic result of the open step. -/
theorem step_closeCall {turn seq : Nat} {callId : CallId} {pending : PendingCall}
    (time : Int) (hlast : t.lastSeq < seq) (hopen : t.Open turn pending.step)
    (hrecorded : pending.callSeq.isSome → callId ∈ t.pendingCalls) :
    t.step (closeCall turn time seq callId pending) =
      .ok { t with lastSeq := seq, pendingCalls := t.pendingCalls.erase callId } := by
  refine SessionTrace.step_ok_iff.mpr ⟨hlast, hopen, ?_, rfl⟩
  cases hseq : pending.callSeq with
  | none =>
    right
    simp [SessionTrace.isSyntheticNotStarted]
  | some callSeq => exact .inl (hrecorded (by simp [hseq]))

variable {replacements : List SurfaceFoldReplacement} {state : SurfaceFoldState}

/-- The closed calls, seen by both validators. -/
theorem closeCalls_accepted (turn : Nat) (time : Int) (calls : OrderedMap CallId PendingCall)
    (haccepts : SurfaceAccepts log state replacements) (hlast : t.lastSeq = (log.length : Int) - 1)
    (hopen : ∀ e ∈ calls, t.Open turn e.2.step)
    (hrecorded : ∀ e ∈ calls, ∀ callSeq, e.2.callSeq = some callSeq →
      e.1 ∈ t.pendingCalls ∧ callSeq < log.length ∧ callSeq < 2 ^ 32)
    (hunique : (keys calls).Nodup) :
    (∃ state' replacements',
      SurfaceAccepts (log ++ closeCalls turn time log.length calls) state' replacements') ∧
    ∃ t', t.seed (closeCalls turn time log.length calls) = .ok t' ∧
      t'.lastSeq = (log.length + calls.length : Int) - 1 ∧ t'.openTurn = t.openTurn ∧
      t'.openStep = t.openStep := by
  induction calls generalizing log state replacements t with
  | nil => exact ⟨⟨state, replacements, by simpa [closeCalls] using haccepts⟩, t, rfl, by simpa using hlast, rfl, rfl⟩
  | cons e calls ih =>
    obtain ⟨callId, pending⟩ := e
    have hplan := planSurfaceEvent_closeCall state log turn time log.length callId pending
      fun callSeq hcallSeq => (hrecorded (callId, pending) (by simp) callSeq hcallSeq).2
    have hstep : t.step (closeCall turn time log.length callId pending) =
        .ok { t with lastSeq := log.length, pendingCalls := t.pendingCalls.erase callId } := by
      refine step_closeCall time (by omega) (hopen (callId, pending) (by simp)) fun hsome => ?_
      obtain ⟨callSeq, hcallSeq⟩ := Option.isSome_iff_exists.mp hsome
      exact (hrecorded (callId, pending) (by simp) callSeq hcallSeq).1
    obtain ⟨hfresh, hunique⟩ := nodup_cons.mp hunique
    have hlen : (log ++ [closeCall turn time log.length callId pending]).length = log.length + 1 := by
      simp
    obtain ⟨⟨state', replacements', haccepts'⟩, t', hseed, hlast', hturn, hstep'⟩ :=
      ih (haccepts.snoc hplan)
        (t := { t with lastSeq := log.length, pendingCalls := t.pendingCalls.erase callId })
        (by rw [hlen]; push_cast; omega)
        (fun e he => hopen e (mem_cons_of_mem _ he))
        (by
          intro e he callSeq hcallSeq
          obtain ⟨hpending, hlt, hsafe⟩ := hrecorded e (mem_cons_of_mem _ he) callSeq hcallSeq
          refine ⟨Finset.mem_erase.mpr ⟨?_, hpending⟩, by rw [hlen]; omega, hsafe⟩
          intro heq
          have hmem : e.1 ∈ keys calls := mem_map_of_mem he
          rw [heq] at hmem
          exact hfresh hmem)
        hunique
    rw [hlen] at haccepts' hseed hlast'
    refine ⟨⟨state', replacements', by simpa [closeCalls] using haccepts'⟩, t', ?_, ?_, hturn, hstep'⟩
    · simp only [closeCalls, SessionTrace.seed, hstep]
      exact hseed
    rw [hlast', length_cons]
    push_cast
    omega

theorem closeCalls_length (turn : Nat) (time : Int) (seq : Nat)
    (calls : OrderedMap CallId PendingCall) : (closeCalls turn time seq calls).length = calls.length := by
  induction calls generalizing seq with
  | nil => rfl
  | cons e calls ih => simp [closeCalls, ih]

theorem surfaceOpOf_plain {event : SessionEvent} (htype : isSurfaceEligibleType event.type = false)
    (hop : event.surfaceOp = none) (hsources : event.sourceEventSeqs = none) :
    surfaceOpOf event = .ok none := by
  simp [surfaceOpOf, htype, hop, hsources]

/-- A log-only event at its place is accepted. -/
theorem SurfaceAccepts.snoc_plain (h : SurfaceAccepts log state replacements)
    {event : SessionEvent} (hseq : event.seq = log.length)
    (htype : isSurfaceEligibleType event.type = false) (hop : event.surfaceOp = none)
    (hsources : event.sourceEventSeqs = none) :
    SurfaceAccepts (log ++ [event]) state replacements := by
  have hplan : planSurfaceEvent state event log.length log 0 = .ok none := by
    simp [planSurfaceEvent, hseq, surfaceOpOf_plain htype hop hsources]
  simpa [applySurfacePlan] using h.snoc hplan

/-- The closed boundaries, seen by both validators. -/
theorem closeBoundaries_accepted {turn : Nat} (openStep : Option Nat) (time : Int)
    (haccepts : SurfaceAccepts log state replacements) (hlast : t.lastSeq = (log.length : Int) - 1)
    (hturn : t.openTurn = some turn)
    (hstep : t.openStep = openStep) :
    (∃ state' replacements',
      SurfaceAccepts (log ++ closeBoundaries turn openStep time log.length) state' replacements') ∧
    ∃ t', t.seed (closeBoundaries turn openStep time log.length) = .ok t' ∧
      t'.openTurn = none ∧ t'.openStep = none := by
  cases openStep with
  | none =>
    let ended : SessionTrace :=
      { t with lastSeq := log.length, openTurn := none, nextTurn := t.nextTurn + 1 }
    have hend : t.step { seq := log.length, time, data := .turnEnd turn .interrupted } = .ok ended :=
      SessionTrace.step_ok_iff.mpr ⟨by simp only; omega, hturn, hstep, rfl⟩
    refine ⟨⟨state, replacements, haccepts.snoc_plain rfl rfl rfl rfl⟩, ended, ?_, rfl, hstep⟩
    simp only [closeBoundaries, SessionTrace.seed, hend]
  | some step =>
    let stepped : SessionTrace :=
      { t with lastSeq := log.length, openStep := none, nextStep := t.nextStep + 1
               pendingCalls := ∅ }
    let ended : SessionTrace :=
      { stepped with lastSeq := (log.length + 1 : Nat), openTurn := none, nextTurn := t.nextTurn + 1 }
    have hclose : t.step { seq := log.length, time, data := .stepEnd turn step } = .ok stepped :=
      SessionTrace.step_ok_iff.mpr ⟨by simp only; omega, ⟨hturn, hstep⟩, rfl⟩
    have hend : stepped.step { seq := log.length + 1, time, data := .turnEnd turn .interrupted } =
        .ok ended :=
      SessionTrace.step_ok_iff.mpr ⟨by simp only [stepped]; omega, hturn, rfl, rfl⟩
    have hfirst : SurfaceAccepts (log ++ [{ seq := log.length, time, data := .stepEnd turn step }])
        state replacements := haccepts.snoc_plain rfl rfl rfl rfl
    have hboth : SurfaceAccepts (log ++ [{ seq := log.length, time, data := .stepEnd turn step }] ++
        [{ seq := log.length + 1, time, data := .turnEnd turn .interrupted }]) state replacements :=
      hfirst.snoc_plain (by simp) rfl rfl rfl
    refine ⟨⟨state, replacements, by simpa [closeBoundaries] using hboth⟩, ended, ?_, rfl, rfl⟩
    simp only [closeBoundaries, SessionTrace.seed, hclose, hend]

theorem scan_closeBoundaries (log : List SessionEvent) (turn : Nat) (openStep : Option Nat)
    (time : Int) (seq : Nat) :
    (RepairScan.scan (log ++ closeBoundaries turn openStep time seq)).openTurn = none := by
  cases openStep <;> simp [RepairScan.scan, closeBoundaries, foldl_append, RepairScan.scanEvent]

/-- For an accepted log and every crash point `log` of it: the log with its closers
is accepted by both validators, ends outside any turn and step, and needs no closers. -/
theorem interruptedTurnClosers_balance {whole log : List SessionEvent} (hwhole : AcceptedLog whole)
    (hcrash : log <+: whole) :
    let closed := log ++ interruptedTurnClosers log
    (∃ surface, foldSurface closed = .ok surface) ∧
    (∃ trace, SessionTrace.fresh.seed closed = .ok trace ∧ trace.openTurn = none ∧
      trace.openStep = none) ∧
    interruptedTurnClosers closed = [] := by
  intro closed
  have h : AcceptedLog log := hwhole.of_crashPoint hcrash
  obtain ⟨state, replacements, haccepts⟩ := h.accepts
  obtain ⟨trace, htrace⟩ := h.trace
  have hmatches := RepairScan.scan_matches haccepts htrace
  cases hturn : (RepairScan.scan log).openTurn with
  | none =>
    have hnil : interruptedTurnClosers log = [] := by simp [interruptedTurnClosers, hturn]
    have hclosed : closed = log := by simp [closed, hnil]
    have htraceTurn : trace.openTurn = none := hmatches.openTurn ▸ hturn
    rw [hclosed]
    exact ⟨h.surface, ⟨trace, htrace, htraceTurn, hmatches.stepInTurn htraceTurn⟩, hnil⟩
  | some turn =>
    cases hlast : log.getLast? with
    | none =>
      have hempty : log = [] := by simpa using hlast
      rw [hempty] at hturn
      cases hturn
    | some last =>
      have hseq : last.seq + 1 = log.length := by
        obtain ⟨init, rfl⟩ := getLast?_eq_some_iff.mp hlast
        rw [haccepts.seq_last, length_append, length_singleton]
      have hclosers : interruptedTurnClosers log =
          closeCalls turn last.time log.length (RepairScan.scan log).pendingCalls
            ++ closeBoundaries turn (RepairScan.scan log).openStep last.time
                (log.length + (RepairScan.scan log).pendingCalls.length) := by
        simp only [interruptedTurnClosers, hturn, hlast, hseq]
      have htraceTurn : trace.openTurn = some turn := hmatches.openTurn ▸ hturn
      have harray := h.array
      obtain ⟨⟨state₁, replacements₁, haccepts₁⟩, t₁, hseed₁, hlast₁, hturn₁, hstep₁⟩ :=
        closeCalls_accepted turn last.time (RepairScan.scan log).pendingCalls haccepts
          hmatches.lastSeq (fun e he => ⟨htraceTurn, hmatches.steps e he⟩)
          (fun e he callSeq hcallSeq => by
            obtain ⟨hpending, hlt⟩ := hmatches.recorded e he callSeq hcallSeq
            exact ⟨hpending, hlt, by omega⟩)
          hmatches.unique
      have hlen₁ : (log ++ closeCalls turn last.time log.length
          (RepairScan.scan log).pendingCalls).length =
            log.length + (RepairScan.scan log).pendingCalls.length := by
        rw [length_append, closeCalls_length]
      obtain ⟨⟨state₂, replacements₂, haccepts₂⟩, t₂, hseed₂, hturn₂, hstep₂⟩ :=
        closeBoundaries_accepted (RepairScan.scan log).openStep last.time haccepts₁
          (by rw [hlast₁, hlen₁]; push_cast; rfl) (hturn₁.trans htraceTurn)
          (hstep₁.trans hmatches.openStep.symm)
      rw [hlen₁] at haccepts₂ hseed₂
      have hclosed : closed = log ++ closeCalls turn last.time log.length
          (RepairScan.scan log).pendingCalls ++ closeBoundaries turn (RepairScan.scan log).openStep
            last.time (log.length + (RepairScan.scan log).pendingCalls.length) := by
        rw [append_assoc, ← hclosers]
      rw [hclosed]
      refine ⟨⟨_, haccepts₂.foldSurface⟩, ⟨t₂, ?_, hturn₂, hstep₂⟩, ?_⟩
      · exact SessionTrace.seed_append_ok.mpr
          ⟨t₁, SessionTrace.seed_append_ok.mpr ⟨trace, htrace, hseed₁⟩, hseed₂⟩
      · simp only [interruptedTurnClosers, scan_closeBoundaries]

/-! ## A log whose steps reuse a call id -/

def callingMessage (seq step : Nat) (id : MessageId) (callId : CallId) : SessionEvent where
  seq := seq
  time := 0
  data := .assistantMessage 1 step
    { id, content := [.toolCall { id := callId, name := "read", arguments := "" }]
      source := { provider := "p", model := "m", replayState := none } } none
  surfaceOp := some SurfaceOp.append.toJson

/-- The result of the first step's call, as logged first or rewritten later. -/
def firstResult (seq : Nat) (op : SurfaceOp) (cited : Nat) (text : JsString) : SessionEvent where
  seq := seq
  time := 0
  data := .toolResult
    { turn := 1, step := 1
      message := { id := "r", callId := "c"
                   block := { toolCallId := "c", content := [.text text], isError := none } } }
  surfaceOp := some op.toJson
  sourceEventSeqs := some (.arr [Json.ofNat cited])

/-- The second step calls `c` again, and the first step's result for `c` is
rewritten while that call is under way. -/
def reusedCallId : List SessionEvent :=
  [{ seq := 0, time := 0, data := .turnStart 1 },
    { seq := 1, time := 0, data := .stepStart 1 1 },
    callingMessage 2 1 "a" "c",
    { seq := 3, time := 0, data := .toolCall 1 1 "c" "read" "" },
    firstResult 4 .append 3 "long",
    { seq := 5, time := 0, data := .stepEnd 1 1 },
    { seq := 6, time := 0, data := .stepStart 1 2 },
    callingMessage 7 2 "b" "c",
    { seq := 8, time := 0, data := .toolCall 1 2 "c" "read" "" },
    firstResult 9 (.replace 4 4) 4 "short"]

theorem reusedCallId_accepted : AcceptedLog reusedCallId where
  surface := ⟨{ nodes := [2, 9, 7], replacements := [⟨9, 4, 4, [4]⟩] }, by rfl⟩
  trace := ⟨{ lastSeq := 9, openTurn := some 1, openStep := some 2, nextTurn := 1, nextStep := 2
              pendingCalls := {("c" : CallId)} }, by rfl⟩
  array := by decide

theorem reusedCallId_balanced :
    interruptedTurnClosers (reusedCallId ++ interruptedTurnClosers reusedCallId) = [] :=
  (interruptedTurnClosers_balance reusedCallId_accepted (prefix_refl _)).2.2

end Harness
