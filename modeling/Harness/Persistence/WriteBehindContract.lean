-- SUMMARY: A write-behind loses, repeats and reorders nothing, never overlaps two writes, and never strands an event.
import Harness.Lib.Splice
import Harness.Lib.Transitions
import Harness.Persistence.WriteBehind

namespace Harness

open List
namespace SessionWriteBehind

open WriteBehind Erase

variable {Event : Type} {w w' : SessionWriteBehind Event}

/-! ## Waiting reactions -/

/-- The write whose `finally` a reaction is. -/
def Job.write? : Job Event → Option (BatchWrite Event)
  | .settled write _ => some write
  | _ => none

/-- The barrier a reaction lets go on. -/
def Job.drain? : Job Event → Option Drain
  | .resume d _ => some d
  | _ => none

/-- The writes whose `finally` has not run. -/
def live (w : SessionWriteBehind Event) : List (BatchWrite Event) :=
  w.writes ++ w.jobs.filterMap Job.write?

/-- The barriers that await a write or whose turn to go on has come. -/
def draining (w : SessionWriteBehind Event) : List Drain :=
  w.drains ++ w.jobs.filterMap Job.drain?

/-! ## The invariant -/

/-- What holds of a controller at any time; `running` is the barrier whose `drainBarrier`
is running right now. -/
structure Inv (running : Option Nat) (w : SessionWriteBehind Event) : Prop where
  /-- The one write in progress is the active one. -/
  active : w.live.map (·.id) = w.active.toList
  timers : w.timers = w.timer.toList
  armed : w.timer.isSome → w.barrier = none ∧ w.automaticPaused = false ∧ w.deadlineExpired = false
  expired : w.deadlineExpired = true →
    w.barrier = none ∧ w.timer = none ∧ (Job.continueAutomatic ∈ w.jobs → w.active = none)
  /-- An empty queue has no deadline. -/
  empty : w.pending = [] → w.timer = none ∧ w.deadlineExpired = false
  /-- A write that no timer has started belongs to a barrier. -/
  owned : ∀ write ∈ w.live, write.background = false → w.barrier.isSome
  /-- The one suspended `drainBarrier` is that of the barrier. -/
  barrier : w.draining.map (·.barrier) ++ running.toList = w.barrier.toList
  awaited : ∀ d ∈ w.drains, ∃ write ∈ w.live, write.id = d.write ∧
    (d.point = .written → write.background = false)
  resuming : ∀ d ok, Job.resume d ok ∈ w.jobs → w.active = none
  /-- A barrier's write that failed has paused the controller. -/
  failed : ∀ write, Job.settled write false ∈ w.jobs → write.background = false →
    w.automaticPaused = true
  resumeFailed : ∀ d, Job.resume d false ∈ w.jobs → d.point = .written → w.automaticPaused = true
  conserved : w.durable ++ w.inFlight ++ w.pending = w.enqueued
  known : (∀ b ∈ w.barrier, b < w.nextId ∧ b ∉ w.resolved) ∧ ∀ b ∈ w.resolved, b < w.nextId
  flushed : ∀ call ∈ w.flushes, call.before ≤ w.enqueued.length ∧ call.barrier < w.nextId ∧
    (call.barrier ∈ w.resolved → call.before ≤ w.durable.length)

variable {running : Option Nat}

theorem Inv.create : Inv none (create : SessionWriteBehind Event) := by
  constructor <;> simp [SessionWriteBehind.create, live, draining, inFlight]

/-! ## Consequences -/

theorem Inv.idle (h : w.Inv running) (hactive : w.active = none) :
    w.writes = [] ∧ w.drains = [] ∧ w.jobs.filterMap Job.write? = [] := by
  have hlive := h.active
  rw [hactive, live] at hlive
  obtain ⟨hwrites, hjobs⟩ := append_eq_nil_iff.mp (map_eq_nil_iff.mp hlive)
  refine ⟨hwrites, eq_nil_iff_forall_not_mem.mpr fun d hd => ?_, hjobs⟩
  obtain ⟨write, hwrite, -⟩ := h.awaited d hd
  rw [live, hwrites, hjobs] at hwrite
  cases hwrite

theorem Inv.unsettled (h : w.Inv running) (hactive : w.active = none) (write : BatchWrite Event)
    (ok : Bool) : Job.settled write ok ∉ w.jobs := fun hmem => by
  have hnone := (h.idle hactive).2.2
  have hsome : write ∈ w.jobs.filterMap Job.write? := mem_filterMap.mpr ⟨_, hmem, rfl⟩
  rw [hnone] at hsome
  cases hsome

theorem Inv.not_draining (h : w.Inv running) (hbarrier : running.isSome ∨ w.barrier = none) :
    w.draining = [] := by
  have hlength := congrArg List.length h.barrier
  rw [length_append, length_map] at hlength
  refine eq_nil_of_length_eq_zero ?_
  rcases hbarrier with hrunning | hnone
  · obtain ⟨b, rfl⟩ := Option.isSome_iff_exists.mp hrunning
    have hle : w.barrier.toList.length ≤ 1 := by cases w.barrier <;> simp
    simp only [Option.toList_some, length_singleton] at hlength
    omega
  · rw [hnone] at hlength
    simp only [Option.toList_none, length_nil] at hlength
    omega

theorem not_resuming (h : w.draining = []) (d : Drain) (ok : Bool) : Job.resume d ok ∉ w.jobs := by
  intro hmem
  have hsome : d ∈ w.draining :=
    mem_append_right _ (mem_filterMap.mpr ⟨_, hmem, rfl⟩)
  rw [h] at hsome
  cases hsome

/-- At most one write is in progress. -/
theorem Inv.single (h : w.Inv running) : w.live.length ≤ 1 := by
  have hlength := congrArg List.length h.active
  rw [length_map] at hlength
  rw [hlength]
  cases w.active <;> simp

/-! ## Timers and writes -/

theorem cancelTimer_eq (h : w.timers = w.timer.toList) :
    w.cancelTimer = { w with timer := none, timers := [] } := by
  unfold cancelTimer
  obtain ⟨pending, timer, active, barrier, expired, paused, timers, writes, drains, jobs, nextId,
    durable, enqueued, flushes, resolved, rejected⟩ := w
  cases timer with
  | none =>
    obtain rfl : timers = [] := h
    rfl
  | some id =>
    obtain rfl : timers = [id] := h
    simp

/-- What `startWrite` does when the timers are as they should be. -/
theorem startWrite_eq (h : w.timers = w.timer.toList) (background : Bool) :
    w.startWrite background = { w with
      pending := []
      timer := none
      timers := []
      deadlineExpired := false
      writes := w.writes ++ [{ id := w.nextId, batch := w.pending, background }]
      active := some w.nextId
      nextId := w.nextId + 1 } := by
  unfold startWrite
  rw [cancelTimer_eq (by exact h)]

theorem Inv.known_succ (h : w.Inv running) :
    (∀ b ∈ w.barrier, b < w.nextId + 1 ∧ b ∉ w.resolved) ∧ ∀ b ∈ w.resolved, b < w.nextId + 1 :=
  ⟨fun b hb => ⟨Nat.lt_succ_of_lt (h.known.1 b hb).1, (h.known.1 b hb).2⟩,
    fun b hb => Nat.lt_succ_of_lt (h.known.2 b hb)⟩

theorem Inv.flushed_succ (h : w.Inv running) :
    ∀ call ∈ w.flushes, call.before ≤ w.enqueued.length ∧ call.barrier < w.nextId + 1 ∧
      (call.barrier ∈ w.resolved → call.before ≤ w.durable.length) :=
  fun call hcall => (h.flushed call hcall).imp_right (.imp_left Nat.lt_succ_of_lt)

theorem Inv.startWrite (h : w.Inv running) (hactive : w.active = none) (background : Bool)
    (howned : background = false → w.barrier.isSome) (hdraining : w.draining = []) :
    (w.startWrite background).Inv running := by
  obtain ⟨hwrites, hdrains, hjobs⟩ := h.idle hactive
  rw [startWrite_eq h.timers]
  constructor
  case active => simp [live, hwrites, hjobs]
  case timers => rfl
  case armed => simp
  case expired => simp
  case empty => simp
  case owned => simpa [live, hwrites, hjobs] using howned
  case barrier => exact h.barrier
  case awaited => simp [hdrains]
  case resuming => exact fun d ok hmem => absurd hmem (not_resuming hdraining d ok)
  case failed => exact fun write hmem => absurd hmem (h.unsettled hactive write false)
  case resumeFailed => exact h.resumeFailed
  case conserved =>
    have hconserved := h.conserved
    simp only [inFlight, hwrites, flatMap_nil, append_nil] at hconserved
    simpa [inFlight, hwrites] using hconserved
  case known => exact h.known_succ
  case flushed => exact h.flushed_succ

/-! ## Producers -/

theorem Inv.armTimer (h : w.Inv running) (htimer : w.timer = none) (hbarrier : w.barrier = none)
    (hpaused : w.automaticPaused = false) (hexpired : w.deadlineExpired = false)
    (hpending : w.pending ≠ []) : w.armTimer.Inv running := by
  have htimers : w.timers = [] := by rw [h.timers, htimer]; rfl
  refine { h with
    timers := ?_, armed := fun _ => ⟨hbarrier, hpaused, hexpired⟩, expired := ?_,
    empty := fun hnil => absurd hnil hpending, known := h.known_succ, flushed := h.flushed_succ }
  · simp [SessionWriteBehind.armTimer, htimers]
  · exact fun hsome => absurd (hexpired.symm.trans hsome) (by simp)

theorem Inv.push (h : w.Inv running) (event : Event) :
    Inv running { w with pending := w.pending ++ [event], enqueued := w.enqueued ++ [event] } :=
  { h with
    empty := fun hnil => by simp at hnil
    conserved := by
      show w.durable ++ w.inFlight ++ (w.pending ++ [event]) = w.enqueued ++ [event]
      rw [← append_assoc, h.conserved]
    flushed := fun call hcall => by
      obtain ⟨hbefore, hrest⟩ := h.flushed call hcall
      refine ⟨?_, hrest⟩
      rw [length_append]
      exact Nat.le_add_right_of_le hbefore }

/-- Without a barrier no failed write of a barrier waits for its reactions. -/
theorem Inv.unpause (h : w.Inv running) (hbarrier : w.barrier = none) (htimer : w.timer = none) :
    Inv running { w with automaticPaused := false, deadlineExpired := false } :=
  { h with
    armed := fun hsome => by simp [htimer] at hsome
    expired := by simp
    empty := fun hnil => ⟨htimer, rfl⟩
    failed := fun write hmem hforeground => by
      have hlive : write ∈ w.live :=
        mem_append_right _ (mem_filterMap.mpr ⟨_, hmem, rfl⟩)
      have hsome := h.owned write hlive hforeground
      simp [hbarrier] at hsome
    resumeFailed := fun d hmem => absurd hmem (not_resuming (h.not_draining (.inr hbarrier)) d false) }

theorem Inv.timer_of_paused (h : w.Inv running) (hpaused : w.automaticPaused = true) :
    w.timer = none := by
  by_contra hsome
  have hrunning := (h.armed (Option.isSome_iff_ne_none.mpr hsome)).2.1
  simp [hpaused] at hrunning

theorem Inv.enqueue (h : w.Inv running) (event : Event) : (w.enqueue event).Inv running := by
  have hpush := h.push event
  have hpending : w.pending ++ [event] ≠ [] := by simp
  unfold SessionWriteBehind.enqueue
  dsimp only
  by_cases hsome : w.barrier.isSome
  · rw [if_pos hsome]
    exact hpush
  have hbarrier : w.barrier = none := by simpa using hsome
  rw [if_neg hsome]
  by_cases hpaused : w.automaticPaused = true
  · have htimer := h.timer_of_paused hpaused
    rw [if_pos hpaused]
    exact (hpush.unpause hbarrier htimer).armTimer htimer hbarrier rfl rfl hpending
  rw [if_neg hpaused]
  by_cases hempty : w.pending.isEmpty = true
  · obtain ⟨htimer, hexpired⟩ := h.empty (List.isEmpty_iff.mp hempty)
    rw [if_pos hempty]
    exact hpush.armTimer htimer hbarrier (by simpa using hpaused) hexpired hpending
  · rw [if_neg hempty]
    exact hpush

/-! ## Deadlines -/

theorem Inv.onDeadline (h : w.Inv running) {timer : Nat} (htimer : timer ∈ w.timers)
    (hjobs : w.jobs = []) : (w.onDeadline timer).Inv running := by
  rw [h.timers] at htimer
  obtain ⟨hbarrier, hpaused, hexpired⟩ := h.armed (by
    cases hnone : w.timer with
    | none => simp [hnone] at htimer
    | some id => rfl)
  have hpending : w.pending ≠ [] := fun hnil => by
    rw [(h.empty hnil).1] at htimer
    cases htimer
  have hfired : Inv running { w with timer := none, timers := w.timers.erase timer } :=
    { h with
      timers := by
        have heq : w.timers = [timer] := by
          rw [h.timers]
          cases hsome : w.timer <;> simp_all
        simp [heq]
      armed := by simp
      expired := fun hsome => by simp [hexpired] at hsome
      empty := fun hnil => absurd hnil hpending }
  unfold SessionWriteBehind.onDeadline
  dsimp only
  by_cases hactive : w.active.isSome
  · rw [if_pos hactive]
    exact { hfired with
      armed := by simp
      expired := fun _ => ⟨hbarrier, rfl, fun hmem => by simp [hjobs] at hmem⟩
      empty := fun hnil => absurd hnil hpending }
  · rw [if_neg hactive]
    exact hfired.startWrite (by simpa using hactive) true (by simp)
      (h.not_draining (.inr hbarrier))

theorem Inv.continueAutomatic (h : w.Inv running)
    (hactive : w.deadlineExpired = true → w.active = none) : w.continueAutomatic.Inv running := by
  unfold SessionWriteBehind.continueAutomatic
  split
  · exact h
  rename_i hcondition
  split
  · rename_i hexpired
    have hbarrier := (h.expired hexpired).1
    have hpending : w.pending ≠ [] := by
      intro hnil
      simp [hnil] at hcondition
    have hreset : Inv running { w with deadlineExpired := false } :=
      { h with
        armed := fun hsome => ⟨(h.armed hsome).1, (h.armed hsome).2.1, rfl⟩
        expired := by simp
        empty := fun hnil => absurd hnil hpending }
    exact hreset.startWrite (hactive hexpired) true (by simp) (h.not_draining (.inr hbarrier))
  · exact h

theorem Inv.cancelAutomaticWait (h : w.Inv running) : w.cancelAutomaticWait.Inv running := by
  unfold SessionWriteBehind.cancelAutomaticWait
  rw [cancelTimer_eq h.timers]
  exact { h with
    timers := rfl
    armed := by simp
    expired := by simp
    empty := fun _ => ⟨rfl, rfl⟩ }

/-! ## Barriers -/

/-- What is enqueued is durable when the queue is empty and nothing is written. -/
theorem Inv.quiescent (h : w.Inv running) (hactive : w.active = none) (hpending : w.pending = []) :
    w.durable = w.enqueued := by
  have hconserved := h.conserved
  rwa [inFlight, (h.idle hactive).1, hpending, flatMap_nil, append_nil,
    append_nil] at hconserved

theorem Inv.drain {b : Nat} (h : w.Inv (some b)) (hactive : w.active = none) :
    (w.drain b).Inv none := by
  have hdraining := h.not_draining (.inl rfl)
  have hbarrier : w.barrier = some b := by
    have heq := h.barrier
    rw [hdraining] at heq
    cases hb : w.barrier <;> simp_all
  unfold SessionWriteBehind.drain
  by_cases hpending : w.pending.isEmpty = true
  · rw [if_pos hpending]
    have hnil := List.isEmpty_iff.mp hpending
    have hdurable := h.quiescent hactive hnil
    obtain ⟨htimer, hexpired⟩ := h.empty hnil
    exact { h with
      armed := fun hsome => by simp [htimer] at hsome
      expired := fun hsome => by simp [hexpired] at hsome
      owned := fun write hmem => by
        obtain ⟨hwrites, -, hjobs⟩ := h.idle hactive
        simp [live, hwrites, hjobs] at hmem
      barrier := by
        show w.draining.map _ ++ _ = _
        rw [hdraining]
        rfl
      known := by
        refine ⟨by simp, fun c hc => ?_⟩
        rcases mem_append.mp hc with hc | hc
        · exact h.known.2 c hc
        · rw [mem_singleton.mp hc]
          exact (h.known.1 b hbarrier).1
      flushed := fun call hcall => by
        obtain ⟨hbefore, hknown, -⟩ := h.flushed call hcall
        refine ⟨hbefore, hknown, fun _ => ?_⟩
        show call.before ≤ w.durable.length
        rw [hdurable]
        exact hbefore }
  · rw [if_neg hpending]
    have hstart := h.startWrite hactive false (fun _ => by rw [hbarrier]; rfl) hdraining
    obtain ⟨hwrites, hdrains, hjobs⟩ := h.idle hactive
    rw [startWrite_eq h.timers] at hstart ⊢
    exact { hstart with
      barrier := by
        have hjobs' : w.jobs.filterMap Job.drain? = [] := (append_eq_nil_iff.mp hdraining).2
        simp [draining, hdrains, hjobs', hbarrier]
      awaited := by simp [live, hwrites, hdrains, hjobs] }

theorem Inv.drainBarrier {b : Nat} (h : w.Inv (some b)) (hb : w.barrier = some b) :
    (w.drainBarrier b).Inv none := by
  have hdraining := h.not_draining (.inl rfl)
  obtain ⟨hdrains, hresumes⟩ := append_eq_nil_iff.mp hdraining
  unfold SessionWriteBehind.drainBarrier
  split
  · rename_i write hactive
    have hlive : write ∈ w.live.map (·.id) := by
      rw [h.active, hactive]
      exact mem_singleton_self write
    obtain ⟨owner, howner, hid⟩ := mem_map.mp hlive
    exact { h with
      barrier := by simp [draining, hdrains, hresumes, hb]
      awaited := by
        intro d hd
        rw [hdrains] at hd
        rw [mem_singleton.mp hd]
        exact ⟨owner, howner, hid, fun hpoint => nomatch hpoint⟩ }
  · rename_i hactive
    exact h.drain hactive

theorem Inv.called (h : w.Inv running) {b : Nat} (hb : w.barrier = some b) :
    (w.called b).Inv running :=
  { h with
    flushed := fun call hcall => by
      rcases mem_append.mp hcall with hcall | hcall
      · exact h.flushed call hcall
      · rw [mem_singleton.mp hcall]
        exact ⟨Nat.le_refl _, (h.known.1 b hb).1, fun hmem => absurd hmem (h.known.1 b hb).2⟩ }

theorem Inv.flush (h : w.Inv none) : w.flush.Inv none := by
  unfold SessionWriteBehind.flush
  split
  · rename_i b hb
    exact h.called hb
  rename_i hbarrier
  refine Inv.drainBarrier ?_ rfl
  have hcancelled := h.cancelAutomaticWait
  unfold SessionWriteBehind.cancelAutomaticWait at hcancelled
  unfold SessionWriteBehind.called
  rw [cancelTimer_eq h.timers] at hcancelled
  rw [cancelTimer_eq (by exact h.timers)]
  have hreset := hcancelled.unpause hbarrier rfl
  exact { hreset with
    armed := by simp
    expired := by simp
    owned := fun _ _ _ => rfl
    barrier := by
      have hnil : w.draining = [] := h.not_draining (.inr hbarrier)
      show w.draining.map _ ++ _ = _
      rw [hnil]
      rfl
    known := by
      refine ⟨fun b hb => ?_, h.known_succ.2⟩
      obtain rfl : w.nextId = b := by simpa using hb
      exact ⟨Nat.lt_succ_self _, fun hmem => Nat.lt_irrefl _ (h.known.2 _ hmem)⟩
    flushed := fun call hcall => by
      rcases mem_append.mp hcall with hcall | hcall
      · exact h.flushed_succ call hcall
      rw [mem_singleton.mp hcall]
      exact ⟨Nat.le_refl _, Nat.lt_succ_self _,
        fun hmem => absurd (h.known.2 _ hmem) (Nat.lt_irrefl _)⟩ }

/-! ## Writes that settle -/

variable {index : Nat} {write : BatchWrite Event}

theorem Inv.only_write (h : w.Inv running) (hwrite : w.writes[index]? = some write) :
    (w.writes = [write] ∧ w.writes.eraseIdx index = [] ∧ w.jobs.filterMap Job.write? = []) ∧
      w.active = some write.id := by
  have hone := h.single
  rw [live, length_append] at hone
  have hperm := perm_of_getElem? hwrite
  have hlength := hperm.length_eq
  rw [length_cons] at hlength
  have hrest : w.writes.eraseIdx index = [] := eq_nil_of_length_eq_zero (by omega)
  have hjobs : w.jobs.filterMap Job.write? = [] := eq_nil_of_length_eq_zero (by omega)
  rw [hrest] at hperm
  have hwrites := perm_singleton.mp hperm
  refine ⟨⟨hwrites, hrest, hjobs⟩, ?_⟩
  have hactive := h.active
  rw [live, hwrites, hjobs] at hactive
  cases hsome : w.active <;> simp_all

variable {ok : Bool}

/-- A write settles: what it held is now in `durable` or at the head of `pending`. -/
theorem Inv.settle (h : w.Inv none)
    {durable pending : List Event} (hwrite : w.writes[index]? = some write)
    (hpaused : ok = false → w.automaticPaused = true)
    (hconserved : durable ++ pending = w.enqueued) (hdurable : w.durable.length ≤ durable.length)
    (hempty : pending = [] → w.timer = none ∧ w.deadlineExpired = false) :
    Inv none { w with
      writes := w.writes.eraseIdx index
      durable
      pending
      jobs := w.jobs ++ [.settled write ok] } := by
  obtain ⟨⟨hwrites, hrest, hjobs⟩, hactive⟩ := h.only_write hwrite
  have hlive : w.live = [write] := by rw [live, hwrites, hjobs]; rfl
  rw [hrest]
  constructor
  case active => simp [live, hjobs, hactive, Job.write?]
  case timers => exact h.timers
  case armed => exact h.armed
  case expired =>
    intro hexpired
    obtain ⟨hbarrier, htimer, hcontinue⟩ := h.expired hexpired
    exact ⟨hbarrier, htimer, fun hmem => hcontinue (by simpa using hmem)⟩
  case empty => exact hempty
  case owned =>
    intro write' hmem
    refine h.owned write' ?_
    rw [hlive]
    simpa [live, hjobs, Job.write?, filterMap_cons] using hmem
  case barrier =>
    have hbarrier := h.barrier
    simpa [draining, Job.drain?, filterMap_cons] using hbarrier
  case awaited =>
    intro d hd
    have hd := h.awaited d hd
    rw [hlive] at hd
    simpa [live, hjobs, Job.write?, filterMap_cons] using hd
  case resuming =>
    intro d ok hmem
    exact h.resuming d ok (by simpa using hmem)
  case failed =>
    intro write' hmem hforeground
    rcases mem_append.mp hmem with hmem | hmem
    · exact h.failed write' hmem hforeground
    · have hok := mem_singleton.mp hmem
      exact hpaused (Job.settled.inj hok).2.symm
  case resumeFailed =>
    intro d hmem
    exact h.resumeFailed d (by simpa using hmem)
  case conserved => simpa [inFlight] using hconserved
  case known => exact h.known
  case flushed =>
    intro call hcall
    obtain ⟨hbefore, hknown, hresolved⟩ := h.flushed call hcall
    exact ⟨hbefore, hknown, fun hmem => Nat.le_trans (hresolved hmem) hdurable⟩

theorem Inv.pause (h : w.Inv running) : Inv running { w with
    timer := none, timers := [], deadlineExpired := false, automaticPaused := true } :=
  { h with
    timers := rfl
    armed := by simp
    expired := by simp
    empty := fun _ => ⟨rfl, rfl⟩
    failed := fun _ _ _ => rfl
    resumeFailed := fun _ _ _ => rfl }

theorem Inv.settle_act (h : w.Inv none)
    (hstep : w.step (.settle index ok) = some w') : w'.Inv none := by
  simp only [step, Option.map_eq_some_iff] at hstep
  obtain ⟨write, hwrite, rfl⟩ := hstep
  obtain ⟨⟨hwrites, -, -⟩, -⟩ := h.only_write hwrite
  have hconserved := h.conserved
  rw [inFlight, hwrites] at hconserved
  cases ok with
  | true =>
    refine h.settle hwrite (by simp) ?_ (by simp) h.empty
    simpa using hconserved
  | false =>
    have hretain : retain { w with writes := w.writes.eraseIdx index } write =
        { w with
          writes := w.writes.eraseIdx index
          pending := write.batch ++ w.pending
          timer := none, timers := [], deadlineExpired := false, automaticPaused := true } := by
      unfold retain
      rw [cancelTimer_eq (by exact h.timers)]
    simp only [Bool.false_eq_true, if_false, hretain]
    refine h.pause.settle hwrite (fun _ => rfl) ?_ (Nat.le_refl _) fun _ => ⟨rfl, rfl⟩
    simpa using hconserved

/-! ## Reactions -/

theorem Inv.only_settled (h : w.Inv running) (hjob : w.jobs[index]? = some (.settled write ok)) :
    w.live = [write] ∧ w.writes = [] ∧ (w.jobs.eraseIdx index).filterMap Job.write? = [] := by
  have hone := h.single
  rw [live, length_append] at hone
  obtain ⟨hjobs, hrest⟩ := filterMap_erased (f := Job.write?) hjob rfl (by omega)
  rw [hjobs, length_singleton] at hone
  have hwrites : w.writes = [] := eq_nil_of_length_eq_zero (by omega)
  exact ⟨by rw [live, hwrites, hjobs]; rfl, hwrites, hrest⟩

/-- The promise of the active write has settled, and what awaited it has its turn. -/
theorem Inv.finished (h : w.Inv none) {jobs : List (Job Event)} (hwrites : w.writes = [])
    (hsettled : jobs.filterMap Job.write? = []) (hresumes : jobs.filterMap Job.drain? = w.drains)
    (hbefore : w.jobs.filterMap Job.drain? = [])
    (hfailed : ∀ d, Job.resume d false ∈ jobs → d.point = .written → w.automaticPaused = true) :
    Inv none { w with active := none, drains := [], jobs } :=
  { h with
    active := by simp [live, hwrites, hsettled]
    expired hexpired := ⟨(h.expired hexpired).1, (h.expired hexpired).2.1, fun _ => rfl⟩
    owned := by simp [live, hwrites, hsettled]
    barrier := by
      have hbarrier := h.barrier
      rw [draining, hbefore, append_nil] at hbarrier
      simpa [draining, hresumes] using hbarrier
    awaited := by simp
    resuming _ _ _ := rfl
    failed write hmem := by
      have hwrite : write ∈ jobs.filterMap Job.write? := mem_filterMap.mpr ⟨_, hmem, rfl⟩
      rw [hsettled] at hwrite
      cases hwrite
    resumeFailed := hfailed }

theorem Inv.settled (h : w.Inv none) (hjob : w.jobs[index]? = some (.settled write ok)) :
    Inv none (settled { w with jobs := w.jobs.eraseIdx index } write ok) := by
  obtain ⟨hlive, hwrites, hrest⟩ := h.only_settled hjob
  have hmem : Job.settled write ok ∈ w.jobs := mem_of_getElem? hjob
  have hactive : w.active = some write.id := by
    have hactive := h.active
    rw [hlive] at hactive
    cases hsome : w.active <;> simp_all
  have hawaited : ∀ d ∈ w.drains, d.write = write.id ∧ (d.point = .written → write.background = false) := by
    intro d hd
    obtain ⟨write', hwrite', hid, hpoint⟩ := h.awaited d hd
    rw [hlive] at hwrite'
    obtain rfl := mem_singleton.mp hwrite'
    exact ⟨hid.symm, hpoint⟩
  have hbefore : w.jobs.filterMap Job.drain? = [] := by
    refine eq_nil_iff_forall_not_mem.mpr fun d hd => ?_
    obtain ⟨job, hjob, hdrain⟩ := mem_filterMap.mp hd
    cases job with
    | resume d' ok' =>
      have hnone := h.resuming d' ok' hjob
      rw [hactive] at hnone
      cases hnone
    | _ => cases hdrain
  have hawake : w.drains.filter (·.write == write.id) = w.drains :=
    filter_eq_self.mpr fun d hd => by simp [(hawaited d hd).1]
  have hasleep : w.drains.filter (·.write != write.id) = [] :=
    filter_eq_nil_iff.mpr fun d hd => by simp [(hawaited d hd).1]
  have hcontinues : ∀ {β : Type} (f : Job Event → Option β), f .continueAutomatic = none →
      (if write.background && ok then [Job.continueAutomatic] else []).filterMap f = [] := by
    intro β f hf
    split <;> simp [hf]
  unfold SessionWriteBehind.settled
  simp only [hawake, hasleep]
  refine h.finished hwrites ?_ ?_ hbefore ?_
  · rw [filterMap_append, filterMap_append, hrest, hcontinues _ rfl, filterMap_map]
    simp [Function.comp_def, Job.write?]
  · rw [filterMap_append, filterMap_append, filterMap_eraseIdx hjob rfl, hbefore,
      hcontinues _ rfl, filterMap_map]
    exact filterMap_some
  · intro d hresume hpoint
    rcases mem_append.mp hresume with hresume | hresume
    · rcases mem_append.mp hresume with hresume | hresume
      · exact h.resumeFailed d (mem_of_mem_eraseIdx hresume) hpoint
      · split at hresume <;> simp at hresume
    · simp only [mem_map, Job.resume.injEq] at hresume
      obtain ⟨d, hd, rfl, rfl⟩ := hresume
      exact h.failed write hmem ((hawaited d hd).2 hpoint)

theorem Inv.resume (h : w.Inv none) {d : Drain} (hjob : w.jobs[index]? = some (.resume d ok)) :
    Inv none (resume { w with jobs := w.jobs.eraseIdx index } d ok) := by
  have hmem : Job.resume d ok ∈ w.jobs := mem_of_getElem? hjob
  have hactive := h.resuming d ok hmem
  obtain ⟨hwrites, hdrains, hjobs⟩ := h.idle hactive
  have hone : (w.jobs.filterMap Job.drain?).length ≤ 1 := by
    have hlength := congrArg List.length h.barrier
    rw [draining, hdrains] at hlength
    cases hb : w.barrier <;> simp_all
  obtain ⟨hdrain, hrest⟩ := filterMap_erased (f := Job.drain?) hjob rfl hone
  have hbarrier : w.barrier = some d.barrier := by
    have heq := h.barrier
    rw [draining, hdrains, hdrain] at heq
    cases hb : w.barrier <;> simp_all
  have hjobs : (w.jobs.eraseIdx index).filterMap Job.write? = [] :=
    (filterMap_eraseIdx hjob rfl).trans hjobs
  have hsub : ∀ job ∈ w.jobs.eraseIdx index, job ∈ w.jobs := fun job => mem_of_mem_eraseIdx
  have hrunning : Inv (some d.barrier) { w with jobs := w.jobs.eraseIdx index } :=
    { h with
      active := by simp [live, hwrites, hjobs, hactive]
      expired := fun hexpired => by
        have hnone := (h.expired hexpired).1
        simp [hbarrier] at hnone
      owned := by simp [live, hwrites, hjobs]
      barrier := by simp [draining, hdrains, hrest, hbarrier]
      awaited := by simp [hdrains]
      resuming := fun d' ok' hmem' => h.resuming d' ok' (hsub _ hmem')
      failed := fun write hmem' => h.failed write (hsub _ hmem')
      resumeFailed := fun d' hmem' => h.resumeFailed d' (hsub _ hmem') }
  have hdraining := hrunning.not_draining (.inl rfl)
  have htimer : w.timer = none := by
    by_contra hsome
    have hnone := (h.armed (Option.isSome_iff_ne_none.mpr hsome)).1
    simp [hbarrier] at hnone
  unfold SessionWriteBehind.resume
  cases hpoint : d.point with
  | overlapping =>
    refine Inv.drain ?_ hactive
    exact { hrunning with
      armed := fun hsome => by simp [htimer] at hsome
      failed := fun write hmem' => absurd hmem' (hrunning.unsettled hactive write false)
      resumeFailed := fun d' hmem' => absurd hmem' (not_resuming hdraining d' false) }
  | written =>
    cases ok with
    | true => exact hrunning.drain hactive
    | false =>
      exact { hrunning with
        armed := fun hsome => by simp [htimer] at hsome
        expired := fun hexpired => by
          have hnone := (h.expired hexpired).1
          simp [hbarrier] at hnone
        owned := by simp [live, hwrites, hjobs]
        barrier := by
          have hnone : w.drains ++ (w.jobs.eraseIdx index).filterMap Job.drain? = [] := hdraining
          simp [draining, hnone]
        known := ⟨by simp, h.known.2⟩ }

theorem Inv.continued (h : w.Inv none) (hjob : w.jobs[index]? = some .continueAutomatic) :
    Inv none (SessionWriteBehind.continueAutomatic { w with jobs := w.jobs.eraseIdx index }) := by
  have hmem : Job.continueAutomatic ∈ w.jobs := mem_of_getElem? hjob
  have hsub : ∀ job ∈ w.jobs.eraseIdx index, job ∈ w.jobs := fun job => mem_of_mem_eraseIdx
  have hwrites : (w.jobs.eraseIdx index).filterMap Job.write? = w.jobs.filterMap Job.write? :=
    filterMap_eraseIdx hjob rfl
  have hdrains : (w.jobs.eraseIdx index).filterMap Job.drain? = w.jobs.filterMap Job.drain? :=
    filterMap_eraseIdx hjob rfl
  have hlive : live { w with jobs := w.jobs.eraseIdx index } = w.live := by
    simp [live, hwrites]
  refine Inv.continueAutomatic ?_ fun hexpired => (h.expired hexpired).2.2 hmem
  exact { h with
    active := by rw [hlive]; exact h.active
    expired := fun hexpired => ⟨(h.expired hexpired).1, (h.expired hexpired).2.1,
      fun hmem' => (h.expired hexpired).2.2 (hsub _ hmem')⟩
    owned := by rw [hlive]; exact h.owned
    barrier := by
      have hbarrier := h.barrier
      simpa [draining, hdrains] using hbarrier
    awaited := by rw [hlive]; exact h.awaited
    resuming := fun d ok hmem' => h.resuming d ok (hsub _ hmem')
    failed := fun write hmem' => h.failed write (hsub _ hmem')
    resumeFailed := fun d hmem' => h.resumeFailed d (hsub _ hmem') }

variable {act : Act Event}

/-- Every step keeps the invariant. -/
theorem Inv.step (h : w.Inv none) (hstep : w.step act = some w') : w'.Inv none := by
  cases act with
  | enqueue event =>
    cases hstep
    exact h.enqueue event
  | flush =>
    cases hstep
    exact h.flush
  | cancelAutomaticWait =>
    cases hstep
    exact h.cancelAutomaticWait
  | deadline timer =>
    simp only [SessionWriteBehind.step, Option.ite_none_right_eq_some, Option.some.injEq] at hstep
    obtain ⟨⟨htimer, hjobs⟩, rfl⟩ := hstep
    exact h.onDeadline htimer (List.isEmpty_iff.mp hjobs)
  | settle index ok => exact h.settle_act hstep
  | job index =>
    simp only [SessionWriteBehind.step, Option.map_eq_some_iff] at hstep
    obtain ⟨job, hjob, rfl⟩ := hstep
    cases job with
    | settled write ok => exact h.settled hjob
    | continueAutomatic => exact h.continued hjob
    | resume d ok => exact h.resume hjob

/-! ## No event is stranded -/

/-- The deadline passed during a background write, and the reaction that goes on with the
queue is still to come. -/
def Continues (w : SessionWriteBehind Event) : Prop :=
  w.deadlineExpired = true ∧
    ((∃ write ∈ w.writes, write.background = true) ∨
      (∃ write, Job.settled write true ∈ w.jobs ∧ write.background = true) ∨
      Job.continueAutomatic ∈ w.jobs)

/-- Pending events have a timer or a write that goes on with them, unless automatic writes
are paused or a barrier has taken over. -/
def Unstranded (w : SessionWriteBehind Event) : Prop :=
  w.pending ≠ [] → w.barrier = none → w.automaticPaused = false → w.timer.isSome ∨ w.Continues

theorem unstranded_of_empty (h : w.pending = []) : w.Unstranded := fun hpending => absurd h hpending

theorem unstranded_of_armed (h : w.timer.isSome) : w.Unstranded := fun _ _ _ => .inl h

theorem startWrite_pending (w : SessionWriteBehind Event) (background : Bool) :
    (w.startWrite background).pending = [] := by
  unfold startWrite cancelTimer
  dsimp only
  split <;> rfl

theorem drain_unstranded (w : SessionWriteBehind Event) (b : Nat) : (w.drain b).Unstranded := by
  refine unstranded_of_empty ?_
  unfold drain
  split
  · rename_i hpending
    exact List.isEmpty_iff.mp hpending
  · exact w.startWrite_pending false

theorem Inv.enqueue_unstranded (h : w.Unstranded) (event : Event) : (w.enqueue event).Unstranded := by
  unfold SessionWriteBehind.enqueue
  dsimp only
  split
  · rename_i hbarrier
    intro _ hnone
    rw [show w.barrier = none from hnone] at hbarrier
    cases hbarrier
  · split
    · exact unstranded_of_armed rfl
    split
    · exact unstranded_of_armed rfl
    · rename_i hpending
      exact fun _ => h (by simpa using hpending)

theorem Inv.onDeadline_unstranded (h : w.Inv none) {timer : Nat} (htimer : timer ∈ w.timers)
    (hjobs : w.jobs = []) : (w.onDeadline timer).Unstranded := by
  rw [h.timers] at htimer
  have hbarrier : w.barrier = none := by
    refine (h.armed ?_).1
    cases hnone : w.timer with
    | none => simp [hnone] at htimer
    | some id => rfl
  unfold SessionWriteBehind.onDeadline
  dsimp only
  split
  · rename_i hactive
    refine fun _ _ _ => .inr ⟨rfl, .inl ?_⟩
    -- the active write is in progress, and without a barrier a timer has started it
    obtain ⟨id, hid⟩ := Option.isSome_iff_exists.mp hactive
    have hlive : w.live = w.writes := by simp [live, hjobs]
    have hwrite : id ∈ w.writes.map (·.id) := by
      rw [← hlive, h.active, hid]
      exact mem_singleton_self id
    obtain ⟨write, hwrite, -⟩ := mem_map.mp hwrite
    refine ⟨write, hwrite, ?_⟩
    by_contra hforeground
    have howned := h.owned write (hlive ▸ hwrite) (by simpa using hforeground)
    simp [hbarrier] at howned
  · exact unstranded_of_empty (startWrite_pending _ true)

theorem Inv.settle_unstranded (h : w.Inv none) (hw : w.Unstranded)
    (hstep : w.step (.settle index ok) = some w') : w'.Unstranded := by
  simp only [SessionWriteBehind.step, Option.map_eq_some_iff] at hstep
  obtain ⟨write, hwrite, rfl⟩ := hstep
  obtain ⟨⟨hwrites, -, -⟩, -⟩ := h.only_write hwrite
  cases ok with
  | true =>
    refine fun hpending hbarrier hpaused => (hw hpending hbarrier hpaused).imp_right ?_
    rintro ⟨hexpired, hcontinues⟩
    refine ⟨hexpired, ?_⟩
    rcases hcontinues with ⟨write', hmem, hbackground⟩ | ⟨write', hmem, hbackground⟩ | hmem
    · rw [hwrites] at hmem
      obtain rfl := mem_singleton.mp hmem
      exact .inr (.inl ⟨write', mem_append_right _ (mem_singleton_self _), hbackground⟩)
    · exact .inr (.inl ⟨write', mem_append_left _ hmem, hbackground⟩)
    · exact .inr (.inr (mem_append_left _ hmem))
  | false => exact fun _ _ hpaused => nomatch hpaused

theorem Inv.settled_unstranded (h : w.Inv none) (hw : w.Unstranded)
    (hjob : w.jobs[index]? = some (.settled write ok)) :
    Unstranded (SessionWriteBehind.settled { w with jobs := w.jobs.eraseIdx index } write ok) := by
  obtain ⟨-, hwrites, hrest⟩ := h.only_settled hjob
  have hmoved : ∀ job ∈ w.jobs, job = .settled write ok ∨ job ∈ w.jobs.eraseIdx index :=
    fun job hmem => mem_cons.mp ((perm_of_getElem? hjob).subset hmem)
  refine fun hpending hbarrier hpaused => (hw hpending hbarrier hpaused).imp_right ?_
  rintro ⟨hexpired, hcontinues⟩
  refine ⟨hexpired, .inr (.inr ?_)⟩
  rcases hcontinues with ⟨write', hmem, -⟩ | ⟨write', hmem, hbackground⟩ | hmem
  · rw [hwrites] at hmem
    cases hmem
  · rcases hmoved _ hmem with heq | hother
    · obtain ⟨rfl, rfl⟩ := Job.settled.inj heq
      refine mem_append_left _ (mem_append_right _ ?_)
      simp [hbackground]
    · have hwrite : write' ∈ (w.jobs.eraseIdx index).filterMap Job.write? :=
        mem_filterMap.mpr ⟨_, hother, rfl⟩
      rw [hrest] at hwrite
      cases hwrite
  · rcases hmoved _ hmem with heq | hother
    · cases heq
    · exact mem_append_left _ (mem_append_left _ hother)

theorem Unstranded.continued (hw : w.Unstranded) :
    Unstranded (SessionWriteBehind.continueAutomatic { w with jobs := w.jobs.eraseIdx index }) := by
  unfold SessionWriteBehind.continueAutomatic
  split
  · rename_i hcondition
    intro hpending hbarrier
    simp only [Bool.or_eq_true, List.isEmpty_iff] at hcondition
    rcases hcondition with hsome | hnil
    · rw [show w.barrier = none from hbarrier] at hsome
      cases hsome
    · exact absurd hnil hpending
  · split
    · exact unstranded_of_empty (startWrite_pending _ true)
    rename_i hexpired
    refine fun hpending hbarrier hpaused => .inl ?_
    exact (hw hpending hbarrier hpaused).resolve_right fun hcontinues => hexpired hcontinues.1

theorem Inv.resume_unstranded (h : w.Inv none) {d : Drain}
    (hjob : w.jobs[index]? = some (.resume d ok)) :
    Unstranded (SessionWriteBehind.resume { w with jobs := w.jobs.eraseIdx index } d ok) := by
  unfold SessionWriteBehind.resume
  cases hpoint : d.point with
  | overlapping => exact drain_unstranded _ _
  | written =>
    cases ok with
    | true => exact drain_unstranded _ _
    | false =>
      have hpaused := h.resumeFailed d (mem_of_getElem? hjob) hpoint
      intro _ _ hrunning
      rw [show w.automaticPaused = false from hrunning] at hpaused
      cases hpaused

theorem flush_unstranded (w : SessionWriteBehind Event) : w.flush.Unstranded := by
  unfold flush
  split
  · rename_i b hb
    intro _ hnone
    rw [show w.barrier = none from hnone] at hb
    cases hb
  · dsimp only
    unfold drainBarrier
    split
    · exact fun _ hnone => nomatch hnone
    · exact drain_unstranded _ _

/-- Every step but the cancellation of the automatic wait keeps pending events from being
stranded. -/
theorem Inv.step_unstranded (h : w.Inv none) (hw : w.Unstranded)
    (hact : act ≠ .cancelAutomaticWait) (hstep : w.step act = some w') : w'.Unstranded := by
  cases act with
  | enqueue event =>
    cases hstep
    exact enqueue_unstranded hw event
  | flush =>
    cases hstep
    exact w.flush_unstranded
  | cancelAutomaticWait => exact absurd rfl hact
  | deadline timer =>
    simp only [SessionWriteBehind.step, Option.ite_none_right_eq_some, Option.some.injEq] at hstep
    obtain ⟨⟨htimer, hjobs⟩, rfl⟩ := hstep
    exact h.onDeadline_unstranded htimer (List.isEmpty_iff.mp hjobs)
  | settle index ok => exact h.settle_unstranded hw hstep
  | job index =>
    simp only [SessionWriteBehind.step, Option.map_eq_some_iff] at hstep
    obtain ⟨job, hjob, rfl⟩ := hstep
    cases job with
    | settled write ok => exact h.settled_unstranded hw hjob
    | continueAutomatic => exact hw.continued
    | resume d ok => exact h.resume_unstranded hjob

/-- What a success and the reactions that follow it are. -/
def Act.succeeds : Act Event → Bool
  | .settle _ ok => ok
  | .job _ => true
  | _ => false

/-- `w` comes to write its pending events when the write in progress succeeds. -/
def GoesOn (w : SessionWriteBehind Event) : Prop :=
  ∃ acts w', (∀ act ∈ acts, Act.succeeds act = true) ∧
    Transitions.run step w acts = some w' ∧ ∃ write ∈ w'.writes, write.batch = w.pending

theorem GoesOn.after (hact : act.succeeds = true) (hstep : w.step act = some w')
    (hpending : w'.pending = w.pending) (h : w'.GoesOn) : w.GoesOn := by
  obtain ⟨acts, w'', hacts, hrun, write, hwrite, hbatch⟩ := h
  refine ⟨act :: acts, w'', ?_, Transitions.run_cons.mpr ⟨w', hstep, hrun⟩, write, hwrite,
    hbatch.trans hpending⟩
  intro act' hmem
  rcases mem_cons.mp hmem with rfl | hmem
  · exact hact
  · exact hacts act' hmem

theorem step_job {job : Job Event} (hjob : w.jobs[index]? = some job) :
    w.step (.job index) = some (runJob { w with jobs := w.jobs.eraseIdx index } job) := by
  simp [SessionWriteBehind.step, hjob]

theorem exists_startWrite (w : SessionWriteBehind Event) (background : Bool) :
    ∃ write ∈ (w.startWrite background).writes, write.batch = w.pending :=
  ⟨_, mem_append_right _ (mem_singleton_self _), rfl⟩

theorem Inv.goesOn_of_job (h : w.Inv none) (hexpired : w.deadlineExpired = true)
    (hjob : Job.continueAutomatic ∈ w.jobs) : w.GoesOn := by
  obtain ⟨index, hindex⟩ := getElem?_of_mem hjob
  obtain ⟨hbarrier, -, -⟩ := h.expired hexpired
  have hpending : w.pending.isEmpty = false := by
    refine isEmpty_eq_false_iff.mpr fun hnil => ?_
    have hfresh := (h.empty hnil).2
    rw [hexpired] at hfresh
    cases hfresh
  refine ⟨[.job index], _, by simp [Act.succeeds],
    Transitions.run_cons.mpr ⟨_, step_job hindex, rfl⟩, ?_⟩
  have hstarts : runJob { w with jobs := w.jobs.eraseIdx index } .continueAutomatic =
      startBackground { w with jobs := w.jobs.eraseIdx index, deadlineExpired := false } := by
    simp [runJob, SessionWriteBehind.continueAutomatic, hbarrier, hpending, hexpired]
  rw [hstarts]
  exact exists_startWrite _ true

theorem Inv.goesOn_of_settled (h : w.Inv none) (hexpired : w.deadlineExpired = true)
    (hjob : Job.settled write true ∈ w.jobs)
    (hbackground : write.background = true) : w.GoesOn := by
  obtain ⟨index, hindex⟩ := getElem?_of_mem hjob
  refine .after rfl (step_job hindex) rfl ?_
  refine Inv.goesOn_of_job (h.step (step_job hindex)) hexpired ?_
  refine mem_append_left _ (mem_append_right _ ?_)
  simp [hbackground]

theorem Inv.goesOn (h : w.Inv none) (hcontinues : w.Continues) : w.GoesOn := by
  obtain ⟨hexpired, ⟨write, hmem, hbackground⟩ | ⟨write, hjob, hbackground⟩ | hjob⟩ := hcontinues
  · obtain ⟨index, hindex⟩ := getElem?_of_mem hmem
    have hstep : w.step (.settle index true) = some { w with
        writes := w.writes.eraseIdx index
        durable := w.durable ++ write.batch
        jobs := w.jobs ++ [.settled write true] } := by
      simp [SessionWriteBehind.step, hindex]
    refine .after rfl hstep rfl ?_
    exact Inv.goesOn_of_settled (h.step hstep) hexpired
      (mem_append_right _ (mem_singleton_self _)) hbackground
  · exact h.goesOn_of_settled hexpired hjob hbackground
  · exact h.goesOn_of_job hexpired hjob

/-! ## The contract -/

/-- In every run: what is durable, in flight and pending is what was enqueued, in order; no
two writes overlap; a flush that has resolved has made everything enqueued before it
durable; and, unless the automatic wait is cancelled, pending events that are neither
paused nor under a barrier have a timer that is set or a write in progress that goes on
with them. -/
theorem writeBehind_contract (acts : List (Act Event)) (w : SessionWriteBehind Event)
    (hrun : Transitions.run step create acts = some w) :
    w.durable ++ w.inFlight ++ w.pending = w.enqueued ∧
    w.writes.length ≤ 1 ∧
    (∀ call ∈ w.flushes, call.barrier ∈ w.resolved →
      w.enqueued.take call.before <+: w.durable) ∧
    ((∀ act ∈ acts, act ≠ .cancelAutomaticWait) → w.pending ≠ [] → w.automaticPaused = false →
      w.barrier = none → w.timers ≠ [] ∨ w.Continues ∧ w.GoesOn) := by
  have hinv : w.Inv none :=
    Transitions.run_invariant' (I := Inv none) (fun _ _ _ h hstep => h.step hstep) .create hrun
  refine ⟨hinv.conserved, ?_, ?_, ?_⟩
  · have hsingle := hinv.single
    rw [live, length_append] at hsingle
    omega
  · intro call hcall hresolved
    have hbefore := (hinv.flushed call hcall).2.2 hresolved
    rw [← hinv.conserved, append_assoc, take_append_of_le_length hbefore]
    exact take_prefix _ _
  · intro hacts hpending hpaused hbarrier
    have hunstranded : w.Inv none ∧ w.Unstranded :=
      Transitions.run_invariant (I := fun w => w.Inv none ∧ w.Unstranded)
        (fun w act w' hact h hstep => ⟨h.1.step hstep, h.1.step_unstranded h.2 hact hstep⟩)
        ⟨.create, unstranded_of_empty rfl⟩ hacts hrun
    rcases hunstranded.2 hpending hbarrier hpaused with htimer | hcontinues
    · refine .inl fun hnil => ?_
      rw [hinv.timers] at hnil
      cases hsome : w.timer <;> simp_all
    · exact .inr ⟨hcontinues, hinv.goesOn hcontinues⟩

/-- The deadline passes while the first event is written, after the second was enqueued. -/
def overBudget : List (Act Nat) :=
  [.enqueue 1, .deadline 0, .enqueue 2, .deadline 2]

theorem overBudget_contract :
    ∃ w, Transitions.run step create overBudget = some w ∧ w.durable ++ w.inFlight ++ w.pending = [1, 2] ∧
      w.writes.length ≤ 1 ∧ (w.timers ≠ [] ∨ w.Continues ∧ w.GoesOn) :=
  ⟨_, rfl, (writeBehind_contract overBudget _ rfl).1, (writeBehind_contract overBudget _ rfl).2.1,
    (writeBehind_contract overBudget _ rfl).2.2.2 (by simp [overBudget]) (by decide) rfl rfl⟩

end SessionWriteBehind
end Harness
