-- SUMMARY: Who claims a job's report before it settles, and the invariant that ties records, waits and log together.
import Harness.Jobs.Moves
import Harness.Lib.Chronicle

/-!
# Claims on a report

The log alone says who has claimed a job. The registry says it with a flag and a counter. The
invariant is that they agree, and with it every settlement reports what the log says.
-/

namespace Harness

open List

namespace Jobs

/-! ## What the log says -/

/-- The wait has been called and has neither returned nor been aborted. -/
structure PendingIn (log : List Happening) (w ref : Nat) : Prop where
  called : .waitCalled w ref ∈ log
  unaborted : .waitAborted w ∉ log
  unreturned : .waitReturned w ∉ log

/-- A kill, a teardown or a still-pending wait claims the job's report. -/
def Claimed (log : List Happening) (ref : Nat) : Prop :=
  .killRequested ref ∈ log ∨ .teardown ref ∈ log ∨ ∃ w, PendingIn log w ref

/-- What an entry of the log promises about the entries before it. -/
def Fits : Happening → List Happening → Prop
  | .settled ref snapshot, before =>
    snapshot.status.isTerminal = true ∧ (snapshot.reported = true ↔ Claimed before ref) ∧
      ∀ earlier, .settled ref earlier ∉ before
  | .delivered listener ref snapshot, before =>
    .settled ref snapshot ∈ before ∧ ∀ earlier, .delivered listener ref earlier ∉ before
  | _, _ => True

/-- Which job a wait counts on, and whether it still does. -/
def Wait.tally (wait : Wait) : Nat × Bool := (wait.job, wait.counted)

@[simp] theorem Wait.tally_resolve (wait : Wait) : wait.resolve.tally = wait.tally := rfl

namespace Registry

/-! ## The invariant -/

/-- A record agrees with the waits and the log. -/
structure Kept (r : Registry) (ref : Nat) (job : TrackedTask) : Prop where
  claimed : job.status.isTerminal = false →
    (job.reported = true ↔ .killRequested ref ∈ r.log ∨ .teardown ref ∈ r.log)
  settled : job.status.isTerminal = true ↔ ∃ snapshot, .settled ref snapshot ∈ r.log
  flag : job.settled = job.status.isTerminal
  resolvers : ∀ w, w ∈ job.waitResolvers ↔
    ∃ wait, r.waits[w]? = some wait ∧ wait.job = ref ∧ wait.phase = .suspended
  waiters : job.waiters = (r.waits.map Wait.tally).count (ref, true)
  released : job.status.isTerminal = true → job.waitResolvers = []

/-- A wait agrees with the log. -/
structure WaitKept (r : Registry) (w : Nat) (wait : Wait) : Prop where
  job : wait.job < r.tasks.length
  counted : wait.counted = true ↔ wait.phase = .suspended ∨ wait.phase = .resolved
  called : ∀ ref, .waitCalled w ref ∈ r.log ↔ wait.job = ref
  aborted : .waitAborted w ∈ r.log ↔ wait.phase = .rejected ∨ wait.phase = .threw
  returned : .waitReturned w ∈ r.log ↔ ∃ snapshot, wait.phase = .returned snapshot

/-- The log speaks of jobs and waits that exist. -/
structure Known (r : Registry) : Prop where
  killRequested : ∀ ref, .killRequested ref ∈ r.log → ref < r.tasks.length
  teardown : ∀ ref, .teardown ref ∈ r.log → ref < r.tasks.length
  settled : ∀ ref snapshot, .settled ref snapshot ∈ r.log → ref < r.tasks.length
  called : ∀ w ref, .waitCalled w ref ∈ r.log → w < r.waits.length
  aborted : ∀ w, .waitAborted w ∈ r.log → w < r.waits.length
  returned : ∀ w, .waitReturned w ∈ r.log → w < r.waits.length

structure Inv (r : Registry) : Prop where
  lawful : Chronicle.Lawful Fits r.log
  tasks : ∀ (ref : Nat) (job : TrackedTask), r.tasks[ref]? = some job → Kept r ref job
  waits : ∀ (w : Nat) (wait : Wait), r.waits[w]? = some wait → WaitKept r w wait
  known : Known r
  /-- A settlement whose listeners are still to run is in the log, and nothing came of it yet. -/
  completions : ∀ ref snapshot, (ref, snapshot) ∈ r.completions →
    .settled ref snapshot ∈ r.log ∧ ∀ listener earlier, .delivered listener ref earlier ∉ r.log
  once : (r.completions.map Prod.fst).Nodup

variable {limit : Nat} {r r' : Registry}

theorem inv_init : Inv init where
  lawful := trivial
  tasks := fun ref job hjob => by simp [init] at hjob
  waits := fun w wait hwait => by simp [init] at hwait
  known := by constructor <;> simp [init]
  completions := by simp [init]
  once := nodup_nil

theorem Inv.pendingIn_iff (h : Inv r) {w ref : Nat} : PendingIn r.log w ref ↔
    ∃ wait, r.waits[w]? = some wait ∧ wait.tally = (ref, true) := by
  constructor
  · intro hpending
    have hlt := h.known.called w ref hpending.called
    obtain ⟨wait, hwait⟩ : ∃ wait, r.waits[w]? = some wait :=
      ⟨r.waits[w], getElem?_eq_getElem hlt⟩
    have hkept := h.waits w wait hwait
    refine ⟨wait, hwait, Prod.ext ((hkept.called ref).mp hpending.called) ?_⟩
    have haborted := fun hphase => hpending.unaborted (hkept.aborted.mpr hphase)
    have hreturned := fun hphase => hpending.unreturned (hkept.returned.mpr hphase)
    refine hkept.counted.mpr ?_
    cases hphase : wait.phase with
    | suspended => exact .inl rfl
    | resolved => exact .inr rfl
    | rejected => exact absurd (.inl hphase) haborted
    | returned snapshot => exact absurd ⟨snapshot, hphase⟩ hreturned
    | threw => exact absurd (.inr hphase) haborted
  · rintro ⟨wait, hwait, htally⟩
    have hkept := h.waits w wait hwait
    obtain ⟨hjob, hcounted⟩ := Prod.mk.inj htally
    refine ⟨(hkept.called ref).mpr hjob, fun haborted => ?_, fun hreturned => ?_⟩
    · rcases hkept.counted.mp hcounted with hphase | hphase <;>
        rcases hkept.aborted.mp haborted with hphase' | hphase' <;>
        · rw [hphase] at hphase'
          cases hphase'
    · obtain ⟨snapshot, hphase'⟩ := hkept.returned.mp hreturned
      rcases hkept.counted.mp hcounted with hphase | hphase <;>
        · rw [hphase] at hphase'
          cases hphase'

variable {job : TrackedTask} {ref : Nat}

/-- The counter says whether a wait is still pending. -/
theorem Inv.waiters_pos_iff (h : Inv r)
    (hjob : r.tasks[ref]? = some job) : 0 < job.waiters ↔ ∃ w, PendingIn r.log w ref := by
  rw [(h.tasks ref job hjob).waiters, count_pos_iff, mem_map]
  simp only [h.pendingIn_iff, mem_iff_getElem?]
  constructor
  · rintro ⟨wait, ⟨w, hwait⟩, htally⟩
    exact ⟨w, wait, hwait, htally⟩
  · rintro ⟨w, wait, hwait, htally⟩
    exact ⟨wait, ⟨w, hwait⟩, htally⟩

/-- No listener has been told of a live job. -/
theorem Inv.undelivered (h : Inv r)
    (hjob : r.tasks[ref]? = some job) (hlive : job.status.isTerminal = false)
    (listener : Nat) (snapshot : JobSnapshot) : .delivered listener ref snapshot ∉ r.log := by
  intro hmem
  obtain ⟨after, before, hlog, hfits⟩ := h.lawful.fits hmem
  have hsettled : .settled ref snapshot ∈ r.log := by
    rw [hlog]
    exact mem_append_right _ (mem_cons_of_mem _ hfits.1)
  have hterminal := (h.tasks ref job hjob).settled.mpr ⟨snapshot, hsettled⟩
  rw [hlive] at hterminal
  cases hterminal

/-! ## Moves that leave the waits alone -/

theorem Inv.of_core (h : Inv r) (htasks : r'.tasks = r.tasks) (hwaits : r'.waits = r.waits)
    (hcompletions : r'.completions = r.completions) (hlog : r'.log = r.log) : Inv r' := by
  cases r
  cases r'
  cases htasks
  cases hwaits
  cases hcompletions
  cases hlog
  refine ⟨h.lawful, fun ref job hjob => ?_, fun w wait hwait => ?_, ?_, h.completions, h.once⟩
  · have hkept := h.tasks ref job hjob
    exact { hkept with }
  · have hkept := h.waits w wait hwait
    exact { hkept with }
  · have hknown := h.known
    exact { hknown with }

theorem Inv.register (h : Inv r) (spec : JobStart) (streams : Bool) (now : Nat) :
    Inv (r.register spec streams now).2 := by
  have hjob : ∀ wait ∈ r.waits, wait.job < r.tasks.length := by
    intro wait hmem
    obtain ⟨w, hwait⟩ := mem_iff_getElem?.mp hmem
    exact (h.waits w wait hwait).job
  have hlength : (r.register spec streams now).2.tasks.length = r.tasks.length + 1 := by
    simp [Registry.register]
  refine ⟨h.lawful, fun ref job hget => ?_, fun w wait hwait => ?_, ?_, h.completions, h.once⟩
  · rcases Nat.lt_trichotomy ref r.tasks.length with hlt | rfl | hgt
    · have hold : r.tasks[ref]? = some job := by
        rw [← hget]
        exact (getElem?_append_left hlt).symm
      have hkept := h.tasks ref job hold
      exact { hkept with }
    · -- nothing is known of the new record yet
      simp only [Registry.register, getElem?_concat_length, Option.some.injEq] at hget
      subst hget
      refine ⟨fun _ => ?_, ?_, rfl, fun w => ?_, ?_, by simp⟩
      · refine ⟨by simp, fun hclaimed => ?_⟩
        rcases hclaimed with hkill | hteardown
        · exact absurd (h.known.killRequested _ hkill) (Nat.lt_irrefl _)
        · exact absurd (h.known.teardown _ hteardown) (Nat.lt_irrefl _)
      · refine ⟨fun h => (by cases h), fun hsettled => ?_⟩
        obtain ⟨snapshot, hsettled⟩ := hsettled
        exact absurd (h.known.settled _ _ hsettled) (Nat.lt_irrefl _)
      · refine ⟨by simp, fun hwait => ?_⟩
        obtain ⟨wait, hwait, hsame, -⟩ := hwait
        exact absurd hsame (Nat.ne_of_lt (hjob wait (mem_of_getElem? hwait)))
      · refine (List.count_eq_zero.mpr fun hmem => ?_).symm
        obtain ⟨wait, hwait, htally⟩ := mem_map.mp hmem
        exact absurd (Prod.mk.inj htally).1 (Nat.ne_of_lt (hjob wait hwait))
    · rw [getElem?_eq_none (by omega)] at hget
      cases hget
  · have hkept := h.waits w wait hwait
    refine { hkept with job := ?_ }
    rw [hlength]
    exact Nat.lt_succ_of_lt hkept.job
  · have hknown := h.known
    refine ⟨?_, ?_, ?_, hknown.called, hknown.aborted, hknown.returned⟩
    · intro ref hmem
      rw [hlength]
      exact Nat.lt_succ_of_lt (hknown.killRequested ref hmem)
    · intro ref hmem
      rw [hlength]
      exact Nat.lt_succ_of_lt (hknown.teardown ref hmem)
    · intro ref snapshot hmem
      rw [hlength]
      exact Nat.lt_succ_of_lt (hknown.settled ref snapshot hmem)

/-- One record changes, and the log may say that it was claimed. -/
theorem Inv.of_task (h : Inv r) {job job' : TrackedTask} (entries : List Happening)
    (hjob : r.tasks[ref]? = some job) (htasks : r'.tasks = r.tasks.set ref job')
    (hwaits : r'.waits = r.waits) (hcompletions : r'.completions = r.completions)
    (hlog : r'.log = entries ++ r.log)
    (hentries : entries = [] ∨ entries = [.killRequested ref] ∨ entries = [.teardown ref])
    (hkept : Kept r' ref job') : Inv r' := by
  have hlength : r'.tasks.length = r.tasks.length := by rw [htasks, length_set]
  have hlt : ref < r.tasks.length := (List.getElem?_eq_some_iff.mp hjob).1
  have hmem : ∀ {e : Happening}, e ∈ r'.log ↔ e ∈ entries ∨ e ∈ r.log := by
    intro e
    rw [hlog, mem_append]
  refine ⟨?_, fun i job₁ hget => ?_, fun w wait hwait => ?_, ?_, fun i snapshot hcompletion => ?_, ?_⟩
  · rw [hlog]
    rcases hentries with rfl | rfl | rfl
    · exact h.lawful
    · exact ⟨trivial, h.lawful⟩
    · exact ⟨trivial, h.lawful⟩
  · rw [htasks] at hget
    rcases Heap.set_cases hget with ⟨rfl, rfl⟩ | ⟨hne, hold⟩
    · exact hkept
    have hold := h.tasks i job₁ hold
    have hkill : .killRequested i ∈ r'.log ↔ .killRequested i ∈ r.log := by
      rcases hentries with rfl | rfl | rfl <;> simp [hmem, hne]
    have hteardown : .teardown i ∈ r'.log ↔ .teardown i ∈ r.log := by
      rcases hentries with rfl | rfl | rfl <;> simp [hmem, hne]
    have hsettled : ∀ snapshot, .settled i snapshot ∈ r'.log ↔ .settled i snapshot ∈ r.log := by
      intro snapshot
      rcases hentries with rfl | rfl | rfl <;> simp [hmem]
    refine ⟨?_, ?_, hold.flag, ?_, ?_, hold.released⟩
    · rw [hkill, hteardown]
      exact hold.claimed
    · simp only [hsettled]
      exact hold.settled
    · rw [hwaits]
      exact hold.resolvers
    · rw [hwaits]
      exact hold.waiters
  · rw [hwaits] at hwait
    have hold := h.waits w wait hwait
    refine ⟨hlength ▸ hold.job, hold.counted, fun i => ?_, ?_, ?_⟩
    · rw [← hold.called i]
      rcases hentries with rfl | rfl | rfl <;> simp [hmem]
    · rw [← hold.aborted]
      rcases hentries with rfl | rfl | rfl <;> simp [hmem]
    · rw [← hold.returned]
      rcases hentries with rfl | rfl | rfl <;> simp [hmem]
  · have hknown := h.known
    refine ⟨fun i hi => ?_, fun i hi => ?_, fun i snapshot hi => ?_, fun w i hi => ?_,
      fun w hi => ?_, fun w hi => ?_⟩
    · rw [hlength]
      rcases hmem.mp hi with hnew | hold
      · rcases hentries with rfl | rfl | rfl <;> simp_all
      · exact hknown.killRequested i hold
    · rw [hlength]
      rcases hmem.mp hi with hnew | hold
      · rcases hentries with rfl | rfl | rfl <;> simp_all
      · exact hknown.teardown i hold
    · rw [hlength]
      refine hknown.settled i snapshot ?_
      rcases hentries with rfl | rfl | rfl <;> simpa [hmem] using hi
    · rw [hwaits]
      refine hknown.called w i ?_
      rcases hentries with rfl | rfl | rfl <;> simpa [hmem] using hi
    · rw [hwaits]
      refine hknown.aborted w ?_
      rcases hentries with rfl | rfl | rfl <;> simpa [hmem] using hi
    · rw [hwaits]
      refine hknown.returned w ?_
      rcases hentries with rfl | rfl | rfl <;> simpa [hmem] using hi
  · rw [hcompletions] at hcompletion
    obtain ⟨hsettled, hundelivered⟩ := h.completions i snapshot hcompletion
    refine ⟨hmem.mpr (.inr hsettled), fun listener earlier => ?_⟩
    rcases hentries with rfl | rfl | rfl <;> simpa [hmem] using hundelivered listener earlier
  · rw [hcompletions]
    exact h.once

/-- A record of a settled job may be marked reported. -/
theorem Inv.report (h : Inv r) (hjob : r.tasks[ref]? = some job)
    (hterminal : job.status.isTerminal = true) : Inv (r.report ref) := by
  have hkept := h.tasks ref job hjob
  refine h.of_task [] hjob (Heap.modify_eq_set hjob) rfl rfl rfl (.inl rfl) ?_
  refine { hkept with claimed := fun hlive => ?_ }
  rw [hterminal] at hlive
  cases hlive

theorem Inv.claim (h : Inv r) {entry : Happening} (hjob : r.tasks[ref]? = some job)
    (hentry : entry = .killRequested ref ∨ entry = .teardown ref) :
    Inv ((r.report ref).happen entry) := by
  have hkept := h.tasks ref job hjob
  have hentries : [entry] = [] ∨ [entry] = [.killRequested ref] ∨ [entry] = [.teardown ref] :=
    .inr (hentry.imp (congrArg (fun e => [e])) (congrArg (fun e => [e])))
  refine h.of_task [entry] hjob (Heap.modify_eq_set hjob) rfl rfl rfl hentries ?_
  refine ⟨fun _ => ⟨fun _ => ?_, fun _ => rfl⟩, ?_, hkept.flag, hkept.resolvers, hkept.waiters,
    hkept.released⟩
  · rcases hentry with rfl | rfl
    · exact .inl mem_cons_self
    · exact .inr mem_cons_self
  · rw [hkept.settled]
    show (∃ snapshot, .settled ref snapshot ∈ r.log) ↔
      ∃ snapshot, .settled ref snapshot ∈ entry :: r.log
    rcases hentry with rfl | rfl <;> simp

theorem Inv.stop (h : Inv r) (hjob : r.tasks[ref]? = some job)
    (hlive : job.status.isTerminal = false) : Inv (r.stop ref) := by
  have hkept := h.tasks ref job hjob
  refine h.of_task [] hjob (Heap.modify_eq_set hjob) rfl rfl rfl (.inl rfl) ?_
  refine ⟨fun _ => hkept.claimed hlive, ?_, ?_, hkept.resolvers, hkept.waiters, nofun⟩
  · have hunsettled := hkept.settled
    rw [hlive] at hunsettled
    exact hunsettled
  · show job.settled = JobStatus.stopping.isTerminal
    rw [hkept.flag, hlive]
    rfl

end Registry

end Jobs

end Harness
