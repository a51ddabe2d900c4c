-- SUMMARY: The contract of the job registry over every interleaving: lifecycles, waits, notices, reports and the limit.
import Harness.Jobs.Invariant

/-!
# The contract of the job registry
-/

namespace Harness

open List

namespace Jobs

namespace Registry

variable {limit : Nat} {r r' : Registry}

/-! ## The limit -/

/-- Live records of an owner among all that were ever made, whether still stored or not. -/
def liveCount (r : Registry) (owner : Option Agent) : Nat := r.tasks.countP (isActiveFor owner)

/-- No more live jobs of an owner become stored than there were. -/
theorem activeTaskCount_le (hstore : r'.store.Sublist r.store) (hevolves : Evolves r r')
    (hlength : r'.tasks.length = r.tasks.length) (owner : Option Agent) :
    r'.activeTaskCount owner ≤ r.activeTaskCount owner := by
  refine (hstore.countP_le).trans (countP_mono_left fun entry _ hactive => ?_)
  obtain ⟨job', hjob', hactive⟩ := Option.any_eq_true _ _ |>.mp hactive
  have hlt : entry.2 < r.tasks.length := hlength ▸ (List.getElem?_eq_some_iff.mp hjob').1
  obtain ⟨job, hjob⟩ : ∃ job, r.tasks[entry.2]? = some job := ⟨_, getElem?_eq_getElem hlt⟩
  obtain ⟨job'', hjob'', hages⟩ := hevolves entry.2 job hjob
  obtain rfl : job' = job'' := Option.some.inj (hjob'.symm.trans hjob'')
  rw [hjob]
  simp only [isActiveFor, Bool.and_eq_true, decide_eq_true_eq, Bool.not_eq_true'] at hactive
  have hlive : job.status.isTerminal = false := by
    refine Bool.eq_false_iff.mpr fun hterminal => ?_
    rw [hages.terminal hterminal] at hactive
    cases hactive.2
  simp [isActiveFor, hlive, ← hages.owner, hactive.1]

/-- Each counter is past the ids it has given out, and the store holds what is live. -/
structure Bounded (limit : Nat) (r : Registry) : Prop where
  active : ∀ owner, r.activeTaskCount owner ≤ limit
  refs : ∀ entry ∈ r.store, entry.2 < r.tasks.length
  counters : ∀ entry ∈ r.store, entry.1.count ≤ (r.counters.get? entry.1.kind).getD 0
  stored : .emptied ∉ r.log → ∀ (ref : Nat) (job : TrackedTask), r.tasks[ref]? = some job →
    job.status.isTerminal = false → ref ∈ r.store.map Prod.snd

theorem bounded_init (limit : Nat) : Bounded limit init where
  active := fun _ => Nat.zero_le _
  refs := by simp [init]
  counters := by simp [init]
  stored := fun _ ref job hjob => by simp [init] at hjob

/-- A move that makes no record and leaves the store alone. -/
structure SameStore (r r' : Registry) : Prop where
  store : r'.store = r.store
  counters : r'.counters = r.counters
  length : r'.tasks.length = r.tasks.length
  emptied : .emptied ∈ r'.log ↔ .emptied ∈ r.log

theorem Bounded.of_sameStore (h : Bounded limit r) (hsame : SameStore r r')
    (hevolves : Evolves r r') : Bounded limit r' where
  active := fun owner => (activeTaskCount_le (by rw [hsame.store]) hevolves hsame.length owner).trans
    (h.active owner)
  refs := by
    rw [hsame.store, hsame.length]
    exact h.refs
  counters := by
    rw [hsame.store, hsame.counters]
    exact h.counters
  stored := by
    intro hnot ref job' hjob' hlive
    have hlt : ref < r.tasks.length := hsame.length ▸ (List.getElem?_eq_some_iff.mp hjob').1
    obtain ⟨job'', hjob'', hages⟩ := hevolves ref _ (getElem?_eq_getElem hlt)
    obtain rfl : job' = job'' := Option.some.inj (hjob'.symm.trans hjob'')
    rw [hsame.store]
    refine h.stored (mt hsame.emptied.mpr hnot) ref _ (getElem?_eq_getElem hlt) ?_
    refine Bool.eq_false_iff.mpr fun hterminal => ?_
    rw [hages.terminal hterminal] at hlive
    cases hlive

theorem settle_sameStore (r : Registry) (ref : Nat) (outcome : JobOutcome) (now : Nat) :
    SameStore r (r.settle ref outcome now) := by
  unfold settle
  split
  · exact ⟨rfl, rfl, rfl, Iff.rfl⟩
  split
  · exact ⟨rfl, rfl, rfl, Iff.rfl⟩
  · exact ⟨rfl, rfl, length_set, by simp⟩

theorem fire_sameStore (r : Registry) (w : Nat) (timedOut : Bool) :
    SameStore r (r.fire w timedOut) := by
  unfold fire
  split
  · exact ⟨rfl, rfl, rfl, Iff.rfl⟩
  split
  · exact ⟨rfl, rfl, rfl, Iff.rfl⟩
  dsimp only
  split
  · exact ⟨rfl, rfl, by simp [update], by simp [update]⟩
  · exact ⟨rfl, rfl, by simp [update], by simp [update]⟩

theorem resume_sameStore {w : Nat} (h : r.resume w = some r') : SameStore r r' := by
  unfold resume at h
  split at h
  · cases h
  split at h
  · cases h
  · cases h
  · cases h
  · cases h
    exact ⟨rfl, rfl, rfl, Iff.rfl⟩
  · split at h
    · cases h
    · cases h
      exact ⟨rfl, rfl, length_set, by simp⟩

theorem complete_sameStore (r : Registry) (ref : Nat) (snapshot : JobSnapshot)
    (rest : List (Nat × JobSnapshot)) : SameStore r (r.complete ref snapshot rest) := by
  unfold complete
  dsimp only
  split
  · exact ⟨rfl, rfl, rfl, Iff.rfl⟩
  · exact ⟨rfl, rfl, rfl, by simp⟩

/-- A fresh id is filed behind the others. -/
theorem Bounded.register (h : Bounded limit r) (spec : JobStart) (streams : Bool) (now : Nat)
    (hadmitted : r.activeTaskCount spec.owner < limit) :
    Bounded limit (r.register spec streams now).2 := by
  have hfresh : (⟨spec.kind, (r.counters.get? spec.kind).getD 0 + 1⟩ : JobId) ∉
      OrderedMap.keys r.store := by
    intro hmem
    obtain ⟨entry, hentry, hid⟩ := mem_map.mp hmem
    have hcount := h.counters entry hentry
    rw [hid] at hcount
    exact absurd hcount (Nat.not_succ_le_self _)
  have hstore : (r.register spec streams now).2.store =
      r.store ++ [(⟨spec.kind, (r.counters.get? spec.kind).getD 0 + 1⟩, r.tasks.length)] :=
    if_neg hfresh
  have hlength : (r.register spec streams now).2.tasks.length = r.tasks.length + 1 :=
    length_append ..
  have hold : ∀ ref < r.tasks.length,
      (r.register spec streams now).2.tasks[ref]? = r.tasks[ref]? :=
    fun ref hlt => getElem?_append_left hlt
  refine ⟨fun owner => ?_, fun entry hentry => ?_, fun entry hentry => ?_,
    fun hnot ref job hjob hlive => ?_⟩
  · have hbefore : (r.store.countP fun entry =>
        (r.register spec streams now).2.tasks[entry.2]?.any (isActiveFor owner)) =
          r.activeTaskCount owner := by
      refine countP_congr fun entry hentry => ?_
      rw [hold entry.2 (h.refs entry hentry)]
    have hnew : (r.register spec streams now).2.tasks[r.tasks.length]?.any (isActiveFor owner) =
        decide (spec.owner = owner) := by
      simp [Registry.register, isActiveFor, JobStatus.isTerminal]
    unfold activeTaskCount
    rw [hstore, countP_append, hbefore, countP_singleton, hnew]
    split
    · rename_i howner
      obtain rfl : spec.owner = owner := of_decide_eq_true howner
      exact hadmitted
    · exact h.active owner
  · rw [hlength]
    rw [hstore] at hentry
    rcases mem_append.mp hentry with hentry | hentry
    · exact Nat.lt_succ_of_lt (h.refs entry hentry)
    · rw [mem_singleton.mp hentry]
      exact Nat.lt_succ_self _
  · show entry.1.count ≤ ((r.counters.set spec.kind _).get? entry.1.kind).getD 0
    rw [OrderedMap.get?_set]
    rw [hstore] at hentry
    rcases mem_append.mp hentry with hentry | hentry
    · have hcount := h.counters entry hentry
      split
      · rename_i hkind
        rw [hkind] at hcount
        exact Nat.le_succ_of_le hcount
      · exact hcount
    · rw [mem_singleton.mp hentry]
      simp
  · rw [hstore, map_append]
    rcases Nat.lt_or_ge ref r.tasks.length with hlt | hge
    · rw [hold ref hlt] at hjob
      exact mem_append_left _ (h.stored hnot ref job hjob hlive)
    have hlt := (List.getElem?_eq_some_iff.mp hjob).1
    rw [hlength] at hlt
    obtain rfl : ref = r.tasks.length := by omega
    exact mem_append_right _ mem_cons_self

/-- Only settled jobs are dropped. -/
theorem Bounded.drop (h : Bounded limit r) (hinv : Inv r) {jobs : List Nat}
    (hsettled : r.allSettled jobs = true) :
    Bounded limit { r with store := r.store.filter fun entry => entry.2 ∉ jobs } where
  active := fun owner => le_trans
    (@activeTaskCount_le r { r with store := r.store.filter fun entry => entry.2 ∉ jobs }
      List.filter_sublist (.of_tasks rfl) rfl owner) (h.active owner)
  refs := fun entry hentry => h.refs entry (mem_of_mem_filter hentry)
  counters := fun entry hentry => h.counters entry (mem_of_mem_filter hentry)
  stored := by
    intro hnot ref job hjob hlive
    obtain ⟨entry, hentry, rfl⟩ := mem_map.mp (h.stored hnot ref job hjob hlive)
    refine mem_map_of_mem (mem_filter.mpr ⟨hentry, decide_eq_true fun hdropped => ?_⟩)
    have hflag := all_eq_true.mp hsettled entry.2 hdropped
    have hjob' : r.tasks[entry.2]? = some job := hjob
    rw [hjob', Option.all_some, (hinv.tasks _ job hjob').flag, hlive] at hflag
    cases hflag

theorem Move.bounded (h : Bounded limit r) (hinv : Inv r) (hmove : Move limit r r') :
    Bounded limit r' := by
  have hevolves := hmove.evolves
  cases hmove with
  | aside tasks waits completions log store counters =>
    exact h.of_sameStore ⟨store, counters, congrArg List.length tasks, by rw [log]⟩ hevolves
  | register spec streams now admitted => exact h.register spec streams now admitted
  | report found terminal =>
    exact h.of_sameStore ⟨rfl, rfl, length_modify .., Iff.rfl⟩ hevolves
  | requestKill found live =>
    refine h.of_sameStore ⟨rfl, rfl, ?_, ?_⟩ hevolves
    · exact (length_modify ..).trans (length_modify ..)
    · show .emptied ∈ Happening.killRequested _ :: r.log ↔ _
      simp
  | claim found live =>
    refine h.of_sameStore ⟨rfl, rfl, length_modify .., ?_⟩ hevolves
    show .emptied ∈ Happening.teardown _ :: r.log ↔ _
    simp
  | stop found live =>
    exact h.of_sameStore ⟨rfl, rfl, length_modify .., Iff.rfl⟩ hevolves
  | settle ref outcome now => exact h.of_sameStore (settle_sameStore r ref outcome now) hevolves
  | suspend found live =>
    exact h.of_sameStore ⟨rfl, rfl, length_modify .., by simp [suspend_log]⟩ hevolves
  | fire w timedOut => exact h.of_sameStore (fire_sameStore r w timedOut) hevolves
  | resume resumed => exact h.of_sameStore (resume_sameStore resumed) hevolves
  | complete found => exact h.of_sameStore (complete_sameStore r _ _ _) hevolves
  | drop settled => exact h.drop hinv settled
  | empty => exact ⟨fun _ => Nat.zero_le _, nofun, nofun, fun hnot => absurd mem_cons_self hnot⟩

theorem reachable_bounded {acts : List Action}
    (hrun : Transitions.run (step limit) init acts = some r) : Bounded limit r := by
  have hboth : Inv r ∧ Bounded limit r := by
    refine Transitions.run_invariant' (I := fun r => Inv r ∧ Bounded limit r) ?_
      ⟨inv_init, bounded_init limit⟩ hrun
    intro r act r' hI hstep
    refine step_keeps (I := fun r => Inv r ∧ Bounded limit r) ?_ hI hstep
    exact fun r r' hI hmove => ⟨hmove.inv hI.1, hmove.bounded hI.2 hI.1⟩
  exact hboth.2

theorem countP_eq_range {α : Type} (p : α → Bool) (l : List α) :
    l.countP p = (List.range l.length).countP fun i => l[i]?.any p := by
  have hmap : l.map p = (List.range l.length).map fun i => l[i]?.any p := by
    apply ext_getElem
    · simp
    intro i hl hr
    rw [length_map] at hl
    simp [hl]
  have hcount := congrArg (List.countP id) hmap
  simpa [countP_map, Function.comp_def] using hcount

/-- Until service disposal empties the store, every live job counts. -/
theorem Bounded.liveCount_le (h : Bounded limit r) (hnot : .emptied ∉ r.log)
    (owner : Option Agent) : r.liveCount owner ≤ limit := by
  refine le_trans ?_ (h.active owner)
  unfold liveCount activeTaskCount
  have hrefs : (r.store.countP fun entry => r.tasks[entry.2]?.any (isActiveFor owner)) =
      ((r.store.map Prod.snd).filter fun ref => r.tasks[ref]?.any (isActiveFor owner)).length := by
    rw [← countP_eq_length_filter, countP_map]
    rfl
  rw [countP_eq_range, hrefs, countP_eq_length_filter]
  refine (subperm_of_subset (nodup_range.filter _) ?_).length_le
  intro ref hmem
  obtain ⟨-, hactive⟩ := mem_filter.mp hmem
  obtain ⟨job, hjob, hlive⟩ := Option.any_eq_true _ _ |>.mp hactive
  refine mem_filter.mpr ⟨h.stored hnot ref job hjob ?_, hactive⟩
  have hparts := (Bool.and_eq_true _ _).mp hlive
  simpa using hparts.2

end Registry

/-! ## Waits and notices -/

/-- The call has returned or thrown. -/
def Wait.Ended (wait : Wait) : Prop :=
  wait.phase = .threw ∨ ∃ snapshot, wait.phase = .returned snapshot

def Happening.notice : Happening → Option (Nat × Nat)
  | .delivered listener job _ => some (listener, job)
  | _ => none

namespace Registry

variable {limit : Nat} {r r' : Registry}

/-- Once its job has settled, a wait has ended or its queued continuation ends it. -/
def WaitsEnd (limit : Nat) (r : Registry) : Prop :=
  ∀ (w : Nat) (wait : Wait) (job : TrackedTask), r.waits[w]? = some wait →
    r.tasks[wait.job]? = some job → job.status.isTerminal = true →
      wait.Ended ∨ ∃ r' wait', step limit r (.resume w) = some r' ∧ r'.waits[w]? = some wait' ∧
        wait'.Ended

/-- A wait whose promise has settled goes on to its end. -/
theorem resume_ends {w : Nat} {wait : Wait} {job : TrackedTask} (hwait : r.waits[w]? = some wait)
    (hjob : r.tasks[wait.job]? = some job)
    (hphase : wait.phase = .resolved ∨ wait.phase = .rejected) :
    ∃ r' wait', r.resume w = some r' ∧ r'.waits[w]? = some wait' ∧ wait'.Ended := by
  have hlt : w < r.waits.length := (List.getElem?_eq_some_iff.mp hwait).1
  cases hresume : r.resume w with
  | none => rcases hphase with hphase | hphase <;> simp [resume, hwait, hphase, hjob] at hresume
  | some r' =>
    rcases hphase with hphase | hphase
    · simp only [resume, hwait, hphase, hjob, Option.some.injEq] at hresume
      subst hresume
      exact ⟨_, _, rfl, getElem?_set_self hlt, .inr ⟨_, rfl⟩⟩
    · simp only [resume, hwait, hphase, Option.some.injEq] at hresume
      subst hresume
      exact ⟨_, _, rfl, getElem?_set_self hlt, .inl rfl⟩

theorem Inv.waitsEnd (h : Inv r) : WaitsEnd limit r := by
  intro w wait job hwait hjob hterminal
  have hkept := h.tasks _ job hjob
  cases hphase : wait.phase with
  | suspended =>
    -- a settled job has released its waits
    have hmem := (hkept.resolvers w).mpr ⟨wait, hwait, rfl, hphase⟩
    rw [hkept.released hterminal] at hmem
    cases hmem
  | resolved => exact .inr (resume_ends hwait hjob (.inl hphase))
  | rejected => exact .inr (resume_ends hwait hjob (.inr hphase))
  | returned snapshot => exact .inl (.inr ⟨snapshot, hphase⟩)
  | threw => exact .inl (.inl hphase)

theorem Inv.notices_nodup (h : Inv r) : (r.log.filterMap Happening.notice).Nodup := by
  refine h.lawful.nodup_filterMap fun entry before key hfits hkey earlier hearlier hsame => ?_
  cases entry with
  | delivered listener ref snapshot =>
    cases hkey
    cases earlier with
    | delivered listener' ref' snapshot' =>
      cases hsame
      exact hfits.2 snapshot' hearlier
    | _ => cases hsame
  | _ => cases hkey

/-- What a listener is told is the job's settlement, reported when the job was claimed. -/
theorem Inv.notice_reported (h : Inv r) {after before : List Happening} {listener ref : Nat}
    {snapshot : JobSnapshot} (hlog : r.log = after ++ .delivered listener ref snapshot :: before) :
    ∃ later earlier, before = later ++ .settled ref snapshot :: earlier ∧
      snapshot.status.isTerminal = true ∧ (snapshot.reported = false ↔ ¬ Claimed earlier ref) := by
  have hlawful := h.lawful
  rw [hlog] at hlawful
  have hrest := hlawful.of_append
  obtain ⟨later, earlier, hbefore, hterminal, hreported, -⟩ := hrest.2.fits hrest.1.1
  refine ⟨later, earlier, hbefore, hterminal, ?_⟩
  rw [← hreported, Bool.not_eq_true]

def reports (r : Registry) : List Bool := r.tasks.map TrackedTask.reported

/-- Aborting a wait changes no report. -/
theorem fire_reports (r : Registry) (w : Nat) (timedOut : Bool) :
    (r.fire w timedOut).reports = r.reports := by
  have hupdate : ∀ (r : Registry) (ref : Nat) (f : TrackedTask → TrackedTask),
      (∀ job, (f job).reported = job.reported) →
        (r.update ref f).tasks.map TrackedTask.reported = r.tasks.map TrackedTask.reported :=
    fun _ _ _ hf => Heap.map_modify hf
  unfold fire reports
  split
  · rfl
  split
  · rfl
  dsimp only
  split
  · dsimp only
    rw [hupdate]
    exact fun _ => rfl
  · dsimp only
    rw [hupdate, hupdate]
    · exact fun _ => rfl
    · exact fun _ => rfl

/-- Nor does the continuation of a wait that was aborted. -/
theorem Inv.resume_aborted (h : Inv r) {w : Nat} (haborted : .waitAborted w ∈ r.log)
    (hresume : r.resume w = some r') : r'.tasks = r.tasks := by
  unfold Registry.resume at hresume
  split at hresume
  · cases hresume
  rename_i wait hwait
  have hphase := (h.waits w wait hwait).aborted.mp haborted
  split at hresume
  · cases hresume
  · cases hresume
  · cases hresume
  · cases hresume
    rfl
  · rename_i hresolved
    rw [hresolved] at hphase
    rcases hphase with hphase | hphase <;> cases hphase

/-! ## The contract -/

/-- A wait is aborted and the job then completes, so that the notice is unreported. -/
def abortedWait : List Action :=
  [.attachController none, .onJobDone none,
    .start { kind := "bash", label := "sleep 1" } (.ok ()) (.ok false) 0,
    .wait ⟨"bash", 1⟩ none (.finite (.int 5)) false,
    .fire 0 false, .done 0 (.ok { status := .completed }) 1, .resume 0, .complete 0]

end Registry

end Jobs

end Harness
