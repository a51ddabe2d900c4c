-- SUMMARY: Waits, settlements and listeners keep the invariant of the job registry, so every step does.
import Harness.Jobs.Claims

/-!
# Waits, settlements, listeners
-/

namespace Harness

open List

namespace Jobs

namespace Registry

variable {limit : Nat} {r r' : Registry}

/-! ## Waits -/

theorem Inv.job_of_wait (h : Inv r) {w : Nat} {wait : Wait} (hwait : r.waits[w]? = some wait) :
    ∃ job, r.tasks[wait.job]? = some job :=
  ⟨_, getElem?_eq_getElem (h.waits w wait hwait).job⟩

theorem suspend_log (r : Registry) (ref : Nat) :
    (r.suspend ref).log = .waitCalled r.waits.length ref :: r.log := rfl

theorem Inv.suspend (h : Inv r) {ref : Nat} {job : TrackedTask} (hjob : r.tasks[ref]? = some job)
    (hlive : job.status.isTerminal = false) : Inv (r.suspend ref) := by
  have hlt : ref < r.tasks.length := (List.getElem?_eq_some_iff.mp hjob).1
  have hlength : (r.suspend ref).tasks.length = r.tasks.length := length_modify ..
  have hnew : ∀ wait, (r.waits ++ [⟨ref, true, .suspended⟩])[r.waits.length]? = some wait →
      wait = ⟨ref, true, .suspended⟩ := by
    intro wait hwait
    simpa using hwait.symm
  have hold : ∀ {w wait}, w ≠ r.waits.length →
      ((r.waits ++ [⟨ref, true, .suspended⟩])[w]? = some wait ↔ r.waits[w]? = some wait) := by
    intro w wait hne
    rcases Nat.lt_or_gt_of_ne hne with hbelow | habove
    · rw [getElem?_append_left hbelow]
    · rw [getElem?_eq_none (by simp; omega), getElem?_eq_none (by omega)]
  have hsuspended : ∀ i w, (∃ wait, (r.suspend ref).waits[w]? = some wait ∧ wait.job = i ∧
      wait.phase = .suspended) ↔ (w = r.waits.length ∧ i = ref) ∨
        ∃ wait, r.waits[w]? = some wait ∧ wait.job = i ∧ wait.phase = .suspended := by
    intro i w
    by_cases heq : w = r.waits.length
    · subst heq
      refine ⟨fun hwait => ?_, fun hcase => ?_⟩
      · obtain ⟨wait, hwait, hsame, -⟩ := hwait
        obtain rfl := hnew wait hwait
        exact .inl ⟨rfl, hsame.symm⟩
      · rcases hcase with ⟨-, rfl⟩ | ⟨wait, hwait, -⟩
        · exact ⟨⟨i, true, .suspended⟩, getElem?_concat_length, rfl, rfl⟩
        · rw [getElem?_eq_none le_rfl] at hwait
          cases hwait
    · simp only [heq, false_and, false_or]
      exact exists_congr fun wait => and_congr_left fun _ => hold heq
  have hcount : ∀ i, ((r.suspend ref).waits.map Wait.tally).count (i, true) =
      (r.waits.map Wait.tally).count (i, true) + if i = ref then 1 else 0 := by
    intro i
    show ((r.waits ++ [_]).map Wait.tally).count (i, true) = _
    rw [map_append, count_append]
    congr 1
    by_cases heq : i = ref
    · subst heq
      simp [Wait.tally]
    · have hne : (ref, true) ≠ (i, true) := fun hpair => heq (Prod.mk.inj hpair).1.symm
      simp [Wait.tally, heq, hne]
  refine ⟨⟨trivial, h.lawful⟩, fun i job₁ hget => ?_, fun w wait hwait => ?_, ?_,
    fun i snapshot hcompletion => ?_, h.once⟩
  · rcases Heap.modify_cases hget with ⟨rfl, old, hsome, rfl⟩ | ⟨hne, hget⟩
    · obtain rfl : job = old := Option.some.inj (hjob.symm.trans hsome)
      have hkept := h.tasks i job hjob
      refine ⟨?_, ?_, hkept.flag, fun w => ?_, ?_, fun hterminal => ?_⟩
      · simpa [suspend_log] using hkept.claimed
      · simpa [suspend_log] using hkept.settled
      · rw [hsuspended, ← hkept.resolvers]
        simp [or_comm]
      · rw [hcount, if_pos rfl, ← hkept.waiters]
      · rw [hlive] at hterminal
        cases hterminal
    · have hkept := h.tasks i job₁ hget
      refine ⟨?_, ?_, hkept.flag, fun w => ?_, ?_, hkept.released⟩
      · simpa [suspend_log] using hkept.claimed
      · simpa [suspend_log] using hkept.settled
      · rw [hsuspended, ← hkept.resolvers]
        simp [hne]
      · rw [hcount, if_neg hne]
        exact hkept.waiters
  · by_cases heq : w = r.waits.length
    · subst heq
      obtain rfl := hnew wait hwait
      have hknown := h.known
      refine ⟨hlength ▸ hlt, by simp, fun i => ?_, ?_, ?_⟩
      · have hfresh : .waitCalled r.waits.length i ∉ r.log :=
          fun hmem => absurd (hknown.called _ _ hmem) (Nat.lt_irrefl _)
        simp [suspend_log, hfresh, eq_comm]
      · have hfresh : .waitAborted r.waits.length ∉ r.log :=
          fun hmem => absurd (hknown.aborted _ hmem) (Nat.lt_irrefl _)
        simp [suspend_log, hfresh]
      · have hfresh : .waitReturned r.waits.length ∉ r.log :=
          fun hmem => absurd (hknown.returned _ hmem) (Nat.lt_irrefl _)
        simp [suspend_log, hfresh]
    · have hkept := h.waits w wait ((hold heq).mp hwait)
      refine ⟨hlength ▸ hkept.job, hkept.counted, fun i => ?_, ?_, ?_⟩
      · simpa [suspend_log, heq] using hkept.called i
      · simpa [suspend_log] using hkept.aborted
      · simpa [suspend_log] using hkept.returned
  · have hknown := h.known
    have hmore : (r.suspend ref).waits.length = r.waits.length + 1 := length_append ..
    refine ⟨fun i hi => ?_, fun i hi => ?_, fun i snapshot hi => ?_, fun w i hi => ?_,
      fun w hi => ?_, fun w hi => ?_⟩
    · rw [hlength]
      exact hknown.killRequested i (by simpa [suspend_log] using hi)
    · rw [hlength]
      exact hknown.teardown i (by simpa [suspend_log] using hi)
    · rw [hlength]
      exact hknown.settled i snapshot (by simpa [suspend_log] using hi)
    · rw [hmore]
      rcases mem_cons.mp hi with hfirst | hrest
      · cases hfirst
        exact Nat.lt_succ_self _
      · exact Nat.lt_succ_of_lt (hknown.called w i hrest)
    · rw [hmore]
      exact Nat.lt_succ_of_lt (hknown.aborted w (by simpa [suspend_log] using hi))
    · rw [hmore]
      exact Nat.lt_succ_of_lt (hknown.returned w (by simpa [suspend_log] using hi))
  · obtain ⟨hsettled, hundelivered⟩ := h.completions i snapshot hcompletion
    refine ⟨mem_cons_of_mem _ hsettled, fun listener earlier => ?_⟩
    simpa [suspend_log] using hundelivered listener earlier

/-- A wait leaves its suspension or ends, and its job's record with it. -/
theorem Inv.of_wait (h : Inv r) {w : Nat} {wait wait' : Wait} {job job' : TrackedTask}
    (entries : List Happening)
    (hwait : r.waits[w]? = some wait) (hjob : r.tasks[wait.job]? = some job)
    (htasks : r'.tasks = r.tasks.set wait.job job') (hwaits : r'.waits = r.waits.set w wait')
    (hcompletions : r'.completions = r.completions) (hlog : r'.log = entries ++ r.log)
    (hentries : entries = [] ∨ entries = [.waitAborted w] ∨ entries = [.waitReturned w])
    (hsame : wait'.job = wait.job) (hphase : wait'.phase ≠ .suspended)
    (hcounted : wait'.counted = true ↔ wait'.phase = .suspended ∨ wait'.phase = .resolved)
    (haborted : .waitAborted w ∈ entries ++ r.log ↔ wait'.phase = .rejected ∨ wait'.phase = .threw)
    (hreturned : .waitReturned w ∈ entries ++ r.log ↔ ∃ snapshot, wait'.phase = .returned snapshot)
    (hstatus : job'.status = job.status) (hflag : job'.settled = job.settled)
    (hreported : job.status.isTerminal = false → job'.reported = job.reported)
    (hresolvers : ∀ w', w' ∈ job'.waitResolvers ↔ w' ∈ job.waitResolvers ∧ w' ≠ w)
    (hwaiters : job'.waiters =
      job.waiters - (if wait.counted then 1 else 0) + if wait'.counted then 1 else 0) :
    Inv r' := by
  have hlt : w < r.waits.length := (List.getElem?_eq_some_iff.mp hwait).1
  have hlength : r'.tasks.length = r.tasks.length := by rw [htasks, length_set]
  have hmore : r'.waits.length = r.waits.length := by rw [hwaits, length_set]
  have hmem : ∀ {e : Happening}, e ∈ r'.log ↔ e ∈ entries ∨ e ∈ r.log := by
    intro e
    rw [hlog, mem_append]
  have hold : ∀ i w', w' ≠ w → ((∃ wait, r'.waits[w']? = some wait ∧ wait.job = i ∧
      wait.phase = .suspended) ↔
        ∃ wait, r.waits[w']? = some wait ∧ wait.job = i ∧ wait.phase = .suspended) := by
    intro i w' hne
    rw [hwaits, getElem?_set_ne (fun heq => hne heq.symm)]
  have hgone : ∀ i, ¬ ∃ wait, r'.waits[w]? = some wait ∧ wait.job = i ∧
      wait.phase = .suspended := by
    rintro i ⟨wait₁, hwait₁, -, hsuspended⟩
    rw [hwaits, getElem?_set_self hlt] at hwait₁
    cases hwait₁
    exact hphase hsuspended
  have hget : r.waits[w] = wait := (List.getElem?_eq_some_iff.mp hwait).2
  have hcount : ∀ i, (r'.waits.map Wait.tally).count (i, true) =
      (r.waits.map Wait.tally).count (i, true) - (if (wait.job, wait.counted) = (i, true) then 1 else 0)
        + if (wait.job, wait'.counted) = (i, true) then 1 else 0 := by
    intro i
    rw [hwaits, map_set, count_set (by rw [length_map]; exact hlt), getElem_map,
      hget]
    simp [Wait.tally, hsame]
  refine ⟨?_, fun i job₁ hget => ?_, fun w' wait₁ hget => ?_, ?_, fun i snapshot hcompletion => ?_, ?_⟩
  · rw [hlog]
    rcases hentries with rfl | rfl | rfl
    · exact h.lawful
    · exact ⟨trivial, h.lawful⟩
    · exact ⟨trivial, h.lawful⟩
  · have hkill : .killRequested i ∈ r'.log ↔ .killRequested i ∈ r.log := by
      rcases hentries with rfl | rfl | rfl <;> simp [hmem]
    have hteardown : .teardown i ∈ r'.log ↔ .teardown i ∈ r.log := by
      rcases hentries with rfl | rfl | rfl <;> simp [hmem]
    have hsettled : ∀ snapshot, .settled i snapshot ∈ r'.log ↔ .settled i snapshot ∈ r.log := by
      intro snapshot
      rcases hentries with rfl | rfl | rfl <;> simp [hmem]
    rw [htasks] at hget
    rcases Heap.set_cases hget with ⟨rfl, rfl⟩ | ⟨hne, hget⟩
    · have hkept := h.tasks _ job hjob
      refine ⟨fun hlive => ?_, ?_, ?_, fun w' => ?_, ?_, fun hterminal => ?_⟩
      · rw [hstatus] at hlive
        rw [hreported hlive, hkill, hteardown]
        exact hkept.claimed hlive
      · simp only [hsettled, hstatus]
        exact hkept.settled
      · rw [hflag, hstatus]
        exact hkept.flag
      · rw [hresolvers]
        by_cases heq : w' = w
        · subst heq
          simp [hgone]
        · rw [hold _ _ heq, ← hkept.resolvers]
          simp [heq]
      · rw [hwaiters, hcount, hkept.waiters]
        simp
      · rw [hstatus] at hterminal
        have hnone := hkept.released hterminal
        refine eq_nil_iff_forall_not_mem.mpr fun w' hw' => ?_
        rw [hresolvers, hnone] at hw'
        exact absurd hw'.1 not_mem_nil
    · have hkept := h.tasks i job₁ hget
      have hother : ∀ counted, (wait.job, counted) ≠ (i, true) :=
        fun counted hpair => hne (Prod.mk.inj hpair).1.symm
      refine ⟨?_, ?_, hkept.flag, fun w' => ?_, ?_, hkept.released⟩
      · rw [hkill, hteardown]
        exact hkept.claimed
      · simp only [hsettled]
        exact hkept.settled
      · rw [hkept.resolvers]
        by_cases heq : w' = w
        · subst heq
          simp only [hgone, iff_false]
          rintro ⟨wait₁, hwait₁, hsame₁, -⟩
          rw [hwait] at hwait₁
          cases hwait₁
          exact hne hsame₁.symm
        · rw [hold i w' heq]
      · rw [hcount, if_neg (hother _), if_neg (hother _)]
        exact hkept.waiters
  · rw [hwaits] at hget
    rcases Heap.set_cases hget with ⟨rfl, rfl⟩ | ⟨hne, hget⟩
    · have hkept := h.waits w' wait hwait
      refine ⟨?_, hcounted, fun i => ?_, ?_, ?_⟩
      · rw [hlength, hsame]
        exact hkept.job
      · rw [hsame, ← hkept.called i]
        rcases hentries with rfl | rfl | rfl <;> simp [hmem]
      · rw [hlog]
        exact haborted
      · rw [hlog]
        exact hreturned
    · have hkept := h.waits w' wait₁ hget
      refine ⟨hlength ▸ hkept.job, hkept.counted, fun i => ?_, ?_, ?_⟩
      · rw [← hkept.called i]
        rcases hentries with rfl | rfl | rfl <;> simp [hmem]
      · rw [← hkept.aborted]
        rcases hentries with rfl | rfl | rfl <;> simp [hmem, hne]
      · rw [← hkept.returned]
        rcases hentries with rfl | rfl | rfl <;> simp [hmem, hne]
  · have hknown := h.known
    refine ⟨fun i hi => ?_, fun i hi => ?_, fun i snapshot hi => ?_, fun w' i hi => ?_,
      fun w' hi => ?_, fun w' hi => ?_⟩
    · rw [hlength]
      refine hknown.killRequested i ?_
      rcases hentries with rfl | rfl | rfl <;> simpa [hmem] using hi
    · rw [hlength]
      refine hknown.teardown i ?_
      rcases hentries with rfl | rfl | rfl <;> simpa [hmem] using hi
    · rw [hlength]
      refine hknown.settled i snapshot ?_
      rcases hentries with rfl | rfl | rfl <;> simpa [hmem] using hi
    · rw [hmore]
      refine hknown.called w' i ?_
      rcases hentries with rfl | rfl | rfl <;> simpa [hmem] using hi
    · rw [hmore]
      rcases hmem.mp hi with hnew | hi
      · rcases hentries with rfl | rfl | rfl <;> simp_all
      · exact hknown.aborted w' hi
    · rw [hmore]
      rcases hmem.mp hi with hnew | hi
      · rcases hentries with rfl | rfl | rfl <;> simp_all
      · exact hknown.returned w' hi
  · rw [hcompletions] at hcompletion
    obtain ⟨hsettled, hundelivered⟩ := h.completions i snapshot hcompletion
    refine ⟨hmem.mpr (.inr hsettled), fun listener earlier => ?_⟩
    rcases hentries with rfl | rfl | rfl <;> simpa [hmem] using hundelivered listener earlier
  · rw [hcompletions]
    exact h.once

theorem Inv.fire (h : Inv r) (w : Nat) (timedOut : Bool) : Inv (r.fire w timedOut) := by
  cases hwait : r.waits[w]? with
  | none =>
    unfold Registry.fire
    rw [hwait]
    exact h
  | some wait =>
    by_cases hphase : wait.phase = .suspended
    · have hkept := h.waits w wait hwait
      obtain ⟨job, hjob⟩ := h.job_of_wait hwait
      have hcounted : wait.counted = true := hkept.counted.mpr (.inl hphase)
      have hlt : wait.job < r.tasks.length := hkept.job
      cases timedOut with
      | true =>
        have hunaborted : .waitAborted w ∉ r.log := fun hmem => by
          rcases hkept.aborted.mp hmem with hphase' | hphase' <;> simp [hphase] at hphase'
        have hunreturned : .waitReturned w ∉ r.log := fun hmem => by
          obtain ⟨snapshot, hphase'⟩ := hkept.returned.mp hmem
          simp [hphase] at hphase'
        have hfire : r.fire w true =
            { r with
              tasks := r.tasks.set wait.job
                { job with waitResolvers := job.waitResolvers.filter (· ≠ w) }
              waits := r.waits.set w wait.resolve } := by
          simp only [Registry.fire, hwait, hphase, ne_eq, not_true_eq_false, if_false, if_true, update,
            Heap.modify_eq_set hjob, Heap.modify_eq_set hwait]
        rw [hfire]
        refine h.of_wait [] hwait hjob rfl rfl rfl rfl (.inl rfl) rfl (fun h => by cases h)
          ⟨fun _ => .inr rfl, fun _ => hcounted⟩ ?_ ?_ rfl rfl (fun _ => rfl) ?_ ?_
        · simp [hunaborted, Wait.resolve]
        · simp [hunreturned, Wait.resolve]
        · intro w'
          simp [mem_filter]
        · have hpos := (h.waiters_pos_iff hjob).mpr ⟨w, h.pendingIn_iff.mpr ⟨wait, hwait,
            Prod.ext rfl hcounted⟩⟩
          simp only [Wait.resolve, hcounted, if_true]
          omega
      | false =>
        have hunreturned : .waitReturned w ∉ r.log := fun hmem => by
          obtain ⟨snapshot, hphase'⟩ := hkept.returned.mp hmem
          simp [hphase] at hphase'
        have hfire : r.fire w false =
            { r with
              tasks := r.tasks.set wait.job
                { job with
                  waitResolvers := job.waitResolvers.filter (· ≠ w)
                  waiters := job.waiters - 1 }
              waits := r.waits.set w { wait with counted := false, phase := .rejected }
              log := .waitAborted w :: r.log } := by
          have htwice : (r.tasks.set wait.job
              { job with waitResolvers := job.waitResolvers.filter (· ≠ w) })[wait.job]? =
                some { job with waitResolvers := job.waitResolvers.filter (· ≠ w) } :=
            getElem?_set_self hlt
          simp only [Registry.fire, hwait, hphase, ne_eq, not_true_eq_false, if_false, update,
            Heap.modify_eq_set hjob, Heap.modify_eq_set htwice, set_set, Bool.false_eq_true]
        rw [hfire]
        refine h.of_wait [.waitAborted w] hwait hjob rfl rfl rfl rfl (.inr (.inl rfl))
          rfl (by simp) ⟨by simp, ?_⟩ ?_ ?_ rfl rfl (fun _ => rfl) ?_ ?_
        · intro hcase
          rcases hcase with hcase | hcase <;> cases hcase
        · simp
        · simp [hunreturned]
        · intro w'
          simp [mem_filter]
        · simp [hcounted]
    · unfold Registry.fire
      rw [hwait]
      simp only [ne_eq, hphase, not_false_eq_true, if_true]
      exact h

theorem Inv.resume (h : Inv r) {w : Nat} (hresume : r.resume w = some r') : Inv r' := by
  unfold Registry.resume at hresume
  cases hwait : r.waits[w]? with
  | none =>
    rw [hwait] at hresume
    cases hresume
  | some wait =>
    have hkept := h.waits w wait hwait
    obtain ⟨job, hjob⟩ := h.job_of_wait hwait
    have hresolvers : wait.phase ≠ .suspended → w ∉ job.waitResolvers := by
      intro hphase hmem
      obtain ⟨wait₁, hwait₁, -, hsuspended⟩ := ((h.tasks _ job hjob).resolvers w).mp hmem
      rw [hwait] at hwait₁
      cases hwait₁
      exact hphase hsuspended
    rw [hwait] at hresume
    dsimp only at hresume
    cases hphase : wait.phase with
    | suspended =>
      rw [hphase] at hresume
      cases hresume
    | returned snapshot =>
      rw [hphase] at hresume
      cases hresume
    | threw =>
      rw [hphase] at hresume
      cases hresume
    | rejected =>
      rw [hphase] at hresume
      cases hresume
      have haborted : .waitAborted w ∈ r.log := hkept.aborted.mpr (.inl hphase)
      have hunreturned : .waitReturned w ∉ r.log := fun hmem => by
        obtain ⟨snapshot, hphase'⟩ := hkept.returned.mp hmem
        simp [hphase] at hphase'
      have huncounted : wait.counted = false := by
        refine Bool.eq_false_iff.mpr fun hcounted => ?_
        rcases hkept.counted.mp hcounted with hphase' | hphase' <;> simp [hphase] at hphase'
      refine h.of_wait [] hwait hjob (Heap.set_same hjob).symm rfl rfl rfl
        (.inl rfl) rfl nofun ⟨fun hcounted => ?_, ?_⟩ ?_ ?_ rfl rfl (fun _ => rfl) ?_ ?_
      · exact absurd (huncounted.symm.trans hcounted) Bool.false_ne_true
      · intro hcase
        rcases hcase with hcase | hcase <;> cases hcase
      · simp [haborted]
      · simp [hunreturned]
      · intro w'
        have hnot := hresolvers (by simp [hphase])
        exact ⟨fun hmem => ⟨hmem, fun heq => hnot (heq ▸ hmem)⟩, And.left⟩
      · simp [huncounted]
    | resolved =>
      rw [hphase] at hresume
      simp only [hjob] at hresume
      cases hresume
      have hcounted : wait.counted = true := hkept.counted.mpr (.inr hphase)
      have hunaborted : .waitAborted w ∉ r.log := fun hmem => by
        rcases hkept.aborted.mp hmem with hphase' | hphase' <;> simp [hphase] at hphase'
      refine h.of_wait [.waitReturned w] hwait hjob rfl rfl rfl rfl (.inr (.inr rfl))
        rfl nofun ⟨nofun, ?_⟩ ?_ ?_ rfl rfl (fun hlive => ?_) ?_ ?_
      · intro hcase
        rcases hcase with hcase | hcase <;> cases hcase
      · simp [hunaborted]
      · simp
      · simp [hlive]
      · intro w'
        have hnot := hresolvers (by simp [hphase])
        exact ⟨fun hmem => ⟨hmem, fun heq => hnot (heq ▸ hmem)⟩, And.left⟩
      · simp [hcounted]

/-! ## Settlements -/

theorem Inv.settle (h : Inv r) (ref : Nat) (outcome : JobOutcome) (now : Nat) :
    Inv (r.settle ref outcome now) := by
  unfold Registry.settle
  cases hjob : r.tasks[ref]? with
  | none => exact h
  | some job =>
    dsimp only
    split
    · exact h
    rename_i hlive
    have hlive : job.status.isTerminal = false := Bool.eq_false_iff.mpr hlive
    have hkept := h.tasks ref job hjob
    have hlt : ref < r.tasks.length := (List.getElem?_eq_some_iff.mp hjob).1
    have hunsettled : ∀ snapshot, .settled ref snapshot ∉ r.log := by
      intro snapshot hmem
      have hterminal := hkept.settled.mpr ⟨snapshot, hmem⟩
      rw [hlive] at hterminal
      cases hterminal
    -- every resolver belongs to a suspended wait on this job, and these are all of them
    have hresolved : ∀ (w : Nat) (wait : Wait), (r.waits.mapIdx fun w wait =>
        if w ∈ job.waitResolvers then wait.resolve else wait)[w]? = some wait →
        ∃ old, r.waits[w]? = some old ∧
          wait = if w ∈ job.waitResolvers then old.resolve else old := by
      intro w wait hget
      rw [getElem?_mapIdx] at hget
      obtain ⟨old, hold, rfl⟩ := Option.map_eq_some_iff.mp hget
      exact ⟨old, hold, rfl⟩
    have hphase : ∀ {w : Nat} {old : Wait}, r.waits[w]? = some old → w ∈ job.waitResolvers →
        old.job = ref ∧ old.phase = .suspended := by
      intro w old hold hmem
      obtain ⟨old', hold', hsame, hsuspended⟩ := (hkept.resolvers w).mp hmem
      obtain rfl : old = old' := Option.some.inj (hold.symm.trans hold')
      exact ⟨hsame, hsuspended⟩
    have htally : (r.waits.mapIdx fun w wait =>
        if w ∈ job.waitResolvers then wait.resolve else wait).map Wait.tally =
          r.waits.map Wait.tally := by
      apply ext_getElem?
      intro w
      rw [getElem?_map, getElem?_map, getElem?_mapIdx]
      cases r.waits[w]? with
      | none => rfl
      | some wait =>
        simp only [Option.map_some]
        split <;> rfl
    refine ⟨⟨⟨outcome.status.isTerminal_toStatus, ?_, hunsettled⟩, h.lawful⟩,
      fun i job₁ hget => ?_, fun w wait hget => ?_, ?_, fun i snapshot hcompletion => ?_, ?_⟩
    · show (job.reported || decide (0 < job.waiters)) = true ↔ Claimed r.log ref
      rw [Bool.or_eq_true, decide_eq_true_eq, hkept.claimed hlive, h.waiters_pos_iff hjob, or_assoc]
      exact Iff.rfl
    · rcases Heap.set_cases hget with ⟨rfl, rfl⟩ | ⟨hne, hget⟩
      · have hterminal := outcome.status.isTerminal_toStatus
        refine ⟨fun hlive => ?_, ⟨fun _ => ⟨_, mem_cons_self⟩, fun _ => hterminal⟩,
          hterminal.symm, fun w => ⟨nofun, ?_⟩, ?_, fun _ => rfl⟩
        · exact absurd (hlive.symm.trans hterminal) Bool.false_ne_true
        · rintro ⟨wait, hwait, hsame, hsuspended⟩
          obtain ⟨old, hold, rfl⟩ := hresolved w wait hwait
          by_cases hmem : w ∈ job.waitResolvers
          · simp [hmem, Wait.resolve] at hsuspended
          · simp only [hmem, if_false] at hsame hsuspended
            exact absurd ((hkept.resolvers w).mpr ⟨old, hold, hsame, hsuspended⟩) hmem
        · show job.waiters = _
          rw [hkept.waiters]
          exact congrArg (List.count _) htally.symm
      · have hother := h.tasks i job₁ hget
        refine ⟨?_, ?_, hother.flag, fun w => ?_, ?_, hother.released⟩
        · simpa using hother.claimed
        · simpa [hne] using hother.settled
        · rw [hother.resolvers]
          constructor
          · rintro ⟨wait, hwait, hsame, hsuspended⟩
            have hmem : w ∉ job.waitResolvers := fun hmem =>
              hne (hsame.symm.trans (hphase hwait hmem).1)
            exact ⟨wait, by simp [hwait, hmem], hsame, hsuspended⟩
          · rintro ⟨wait, hwait, hsame, hsuspended⟩
            obtain ⟨old, hold, rfl⟩ := hresolved w wait hwait
            by_cases hmem : w ∈ job.waitResolvers
            · simp [hmem, Wait.resolve] at hsuspended
            · simp only [hmem, if_false] at hsame hsuspended
              exact ⟨old, hold, hsame, hsuspended⟩
        · rw [hother.waiters]
          exact congrArg (List.count _) htally.symm
    · obtain ⟨old, hold, rfl⟩ := hresolved w wait hget
      have hwait := h.waits w old hold
      by_cases hmem : w ∈ job.waitResolvers
      · obtain ⟨hsame, hsuspended⟩ := hphase hold hmem
        have hunaborted := mt hwait.aborted.mp (by simp [hsuspended])
        have hunreturned := mt hwait.returned.mp (by simp [hsuspended])
        simp only [hmem, if_true]
        refine ⟨?_, ⟨fun _ => .inr rfl, fun _ => hwait.counted.mpr (.inl hsuspended)⟩,
          fun i => ?_, ?_, ?_⟩
        · simpa [Wait.resolve] using hwait.job
        · simpa [Wait.resolve] using hwait.called i
        · simpa [Wait.resolve] using hunaborted
        · simpa [Wait.resolve] using hunreturned
      · simp only [hmem, if_false]
        refine ⟨by simpa using hwait.job, hwait.counted, fun i => ?_, ?_, ?_⟩
        · simpa using hwait.called i
        · simpa using hwait.aborted
        · simpa using hwait.returned
    · have hknown := h.known
      refine ⟨fun i hi => ?_, fun i hi => ?_, fun i snapshot hi => ?_, fun w i hi => ?_,
        fun w hi => ?_, fun w hi => ?_⟩
      · simpa using hknown.killRequested i (by simpa using hi)
      · simpa using hknown.teardown i (by simpa using hi)
      · rcases mem_cons.mp hi with hfirst | hrest
        · cases hfirst
          simpa using hlt
        · simpa using hknown.settled i snapshot hrest
      · simpa using hknown.called w i (by simpa using hi)
      · simpa using hknown.aborted w (by simpa using hi)
      · simpa using hknown.returned w (by simpa using hi)
    · rcases mem_append.mp hcompletion with hold | hnew
      · obtain ⟨hsettled, hundelivered⟩ := h.completions i snapshot hold
        refine ⟨mem_cons_of_mem _ hsettled, fun listener earlier => ?_⟩
        simpa using hundelivered listener earlier
      · obtain ⟨rfl, rfl⟩ := Prod.mk.inj (mem_singleton.mp hnew)
        refine ⟨mem_cons_self, fun listener earlier => ?_⟩
        simpa using h.undelivered hjob hlive listener earlier
    · rw [map_append]
      refine List.Nodup.append h.once (nodup_singleton _) ?_
      intro i hold hnew
      obtain ⟨completion, hcompletion, rfl⟩ := mem_map.mp hold
      have hsame : completion.1 = ref := by simpa using hnew
      exact hunsettled completion.2 (hsame ▸ (h.completions _ _ hcompletion).1)

/-! ## Listeners -/

/-- Listeners that have not heard of the job yet hear of it, each once. -/
theorem lawful_deliver {log : List Happening} {ref : Nat} {snapshot : JobSnapshot}
    {listeners : List Nat} (hnodup : listeners.Nodup) (hsettled : .settled ref snapshot ∈ log)
    (hfresh : ∀ listener ∈ listeners, ∀ earlier, .delivered listener ref earlier ∉ log)
    (h : Chronicle.Lawful Fits log) :
    Chronicle.Lawful Fits
      ((listeners.map fun listener => .delivered listener ref snapshot).reverse ++ log) := by
  induction listeners generalizing log with
  | nil => exact h
  | cons listener listeners ih =>
    obtain ⟨hnot, hnodup⟩ := nodup_cons.mp hnodup
    rw [map_cons, reverse_cons, append_assoc]
    refine ih hnodup (mem_cons_of_mem _ hsettled) ?_ ⟨⟨hsettled, ?_⟩, h⟩
    · intro other hother earlier hmem
      rcases mem_cons.mp hmem with hfirst | hrest
      · cases hfirst
        exact hnot hother
      · exact hfresh other (mem_cons_of_mem _ hother) earlier hrest
    · exact hfresh listener mem_cons_self

theorem Inv.complete (h : Inv r) {index ref : Nat} {snapshot : JobSnapshot}
    (hfound : r.completions[index]? = some (ref, snapshot)) :
    Inv (r.complete ref snapshot (r.completions.eraseIdx index)) := by
  have hmem : (ref, snapshot) ∈ r.completions := mem_of_getElem? hfound
  have hsub : (r.completions.eraseIdx index).Sublist r.completions := eraseIdx_sublist ..
  have honce : ((r.completions.eraseIdx index).map Prod.fst).Nodup :=
    h.once.sublist (hsub.map Prod.fst)
  obtain ⟨hsettled, hundelivered⟩ := h.completions ref snapshot hmem
  unfold Registry.complete
  dsimp only
  split
  · refine ⟨h.lawful, fun i job hjob => ?_, fun w wait hwait => ?_, ?_,
      fun i earlier hcompletion => h.completions i earlier (hsub.subset hcompletion), honce⟩
    · have hkept := h.tasks i job hjob
      exact { hkept with }
    · have hkept := h.waits w wait hwait
      exact { hkept with }
    · have hknown := h.known
      exact { hknown with }
  -- the job whose listeners run is no longer among those still to be announced
  have hgone : ref ∉ (r.completions.eraseIdx index).map Prod.fst := by
    intro hother
    rw [← eraseIdx_map, mem_eraseIdx_iff_getElem?] at hother
    obtain ⟨j, hne, hj⟩ := hother
    have hat : (r.completions.map Prod.fst)[index]? = some ref := by
      rw [getElem?_map, hfound]
      rfl
    obtain ⟨hlt, -⟩ := List.getElem?_eq_some_iff.mp hat
    exact hne ((getElem?_inj hlt h.once).mp (hat.trans hj.symm)).symm
  refine ⟨lawful_deliver (ScopedEntries.visible_nodup _ _) hsettled
    (fun listener _ => hundelivered listener) h.lawful, fun i job hjob => ?_,
    fun w wait hwait => ?_, ?_, fun i earlier hcompletion => ?_, honce⟩
  · have hkept := h.tasks i job hjob
    refine ⟨?_, ?_, hkept.flag, hkept.resolvers, hkept.waiters, hkept.released⟩
    · simpa using hkept.claimed
    · simpa using hkept.settled
  · have hkept := h.waits w wait hwait
    refine ⟨hkept.job, hkept.counted, fun i => ?_, ?_, ?_⟩
    · simpa using hkept.called i
    · simpa using hkept.aborted
    · simpa using hkept.returned
  · have hknown := h.known
    refine ⟨fun i hi => ?_, fun i hi => ?_, fun i snapshot hi => ?_, fun w i hi => ?_,
      fun w hi => ?_, fun w hi => ?_⟩
    · exact hknown.killRequested i (by simpa using hi)
    · exact hknown.teardown i (by simpa using hi)
    · exact hknown.settled i snapshot (by simpa using hi)
    · exact hknown.called w i (by simpa using hi)
    · exact hknown.aborted w (by simpa using hi)
    · exact hknown.returned w (by simpa using hi)
  · obtain ⟨hsettled', hundelivered'⟩ := h.completions i earlier (hsub.subset hcompletion)
    refine ⟨mem_append_right _ hsettled', fun listener other hdelivered => ?_⟩
    rcases mem_append.mp hdelivered with hnew | hold
    · rw [mem_reverse, mem_map] at hnew
      obtain ⟨_, -, heq⟩ := hnew
      cases heq
      exact hgone (mem_map_of_mem hcompletion)
    · exact hundelivered' listener other hold

/-! ## Steps -/

theorem Move.inv (h : Inv r) (hmove : Move limit r r') : Inv r' := by
  cases hmove with
  | aside tasks waits completions log => exact h.of_core tasks waits completions log
  | register spec streams now admitted => exact h.register spec streams now
  | report found terminal => exact h.report found terminal
  | requestKill found live =>
    have hstopped := h.stop found live
    have hlt := (List.getElem?_eq_some_iff.mp found).1
    refine hstopped.claim (getElem?_eq_getElem ?_) (.inl rfl)
    show _ < (r.tasks.modify _ _).length
    rw [length_modify]
    exact hlt
  | claim found live => exact h.claim found (.inr rfl)
  | stop found live => exact h.stop found live
  | settle ref outcome now => exact h.settle ref outcome now
  | suspend found live => exact h.suspend found live
  | fire w timedOut => exact h.fire w timedOut
  | resume resumed => exact h.resume resumed
  | complete found => exact h.complete found
  | drop settled => exact h.of_core rfl rfl rfl rfl
  | empty =>
    refine ⟨⟨trivial, h.lawful⟩, fun i job hjob => ?_, fun w wait hwait => ?_, ?_,
      fun i snapshot hcompletion => ?_, h.once⟩
    · have hkept := h.tasks i job hjob
      refine ⟨?_, ?_, hkept.flag, hkept.resolvers, hkept.waiters, hkept.released⟩
      · simpa [happen] using hkept.claimed
      · simpa [happen] using hkept.settled
    · have hkept := h.waits w wait hwait
      refine ⟨hkept.job, hkept.counted, fun i => ?_, ?_, ?_⟩
      · simpa [happen] using hkept.called i
      · simpa [happen] using hkept.aborted
      · simpa [happen] using hkept.returned
    · have hknown := h.known
      refine ⟨fun i hi => ?_, fun i hi => ?_, fun i snapshot hi => ?_, fun w i hi => ?_,
        fun w hi => ?_, fun w hi => ?_⟩
      · exact hknown.killRequested i (by simpa [happen] using hi)
      · exact hknown.teardown i (by simpa [happen] using hi)
      · exact hknown.settled i snapshot (by simpa [happen] using hi)
      · exact hknown.called w i (by simpa [happen] using hi)
      · exact hknown.aborted w (by simpa [happen] using hi)
      · exact hknown.returned w (by simpa [happen] using hi)
    · obtain ⟨hsettled, hundelivered⟩ := h.completions i snapshot hcompletion
      refine ⟨mem_cons_of_mem _ hsettled, fun listener earlier => ?_⟩
      simpa [happen] using hundelivered listener earlier

/-- Every state that the registry can get into satisfies the invariant. -/
theorem reachable_inv {acts : List Action}
    (hrun : Transitions.run (step limit) init acts = some r) : Inv r :=
  Transitions.run_invariant' (fun _ _ _ hI hstep => step_keeps (fun _ _ hI hmove => hmove.inv hI) hI
    hstep) inv_init hrun

end Registry

end Jobs

end Harness
