-- SUMMARY: What one step of the job registry can do, and what no step does to a job's record.
import Harness.Jobs.Registry
import Harness.Lib.Heap

/-!
# Moves of the registry

Every step is a sequence of moves. Each invariant is proved once for every move.
-/

namespace Harness

namespace Jobs

namespace Registry

variable {limit : Nat} {r r' : Registry}

/-! ## Moves -/

/-- One move. `limit` is the configured number of live jobs of an owner. -/
inductive Move (limit : Nat) : Registry → Registry → Prop where
  /-- Nothing that concerns jobs, waits, the store or the log. -/
  | aside {r r' : Registry} (tasks : r'.tasks = r.tasks) (waits : r'.waits = r.waits)
      (completions : r'.completions = r.completions) (log : r'.log = r.log)
      (store : r'.store = r.store) (counters : r'.counters = r.counters) : Move limit r r'
  | register {r : Registry} (spec : JobStart) (streams : Bool) (now : Nat)
      (admitted : r.activeTaskCount spec.owner < limit) :
      Move limit r (r.register spec streams now).2
  | report {r : Registry} {ref : Nat} {job : TrackedTask} (found : r.tasks[ref]? = some job)
      (terminal : job.status.isTerminal = true) : Move limit r (r.report ref)
  | requestKill {r : Registry} {ref : Nat} {job : TrackedTask} (found : r.tasks[ref]? = some job)
      (live : job.status.isTerminal = false) : Move limit r (r.requestKill ref)
  | claim {r : Registry} {ref : Nat} {job : TrackedTask} (found : r.tasks[ref]? = some job)
      (live : job.status.isTerminal = false) :
      Move limit r ((r.report ref).happen (.teardown ref))
  | stop {r : Registry} {ref : Nat} {job : TrackedTask} (found : r.tasks[ref]? = some job)
      (live : job.status.isTerminal = false) : Move limit r (r.stop ref)
  | settle (r : Registry) (ref : Nat) (outcome : JobOutcome) (now : Nat) :
      Move limit r (r.settle ref outcome now)
  | suspend {r : Registry} {ref : Nat} {job : TrackedTask} (found : r.tasks[ref]? = some job)
      (live : job.status.isTerminal = false) : Move limit r (r.suspend ref)
  | fire (r : Registry) (w : Nat) (timedOut : Bool) : Move limit r (r.fire w timedOut)
  | resume {r r' : Registry} {w : Nat} (resumed : r.resume w = some r') : Move limit r r'
  | complete {r : Registry} {index ref : Nat} {snapshot : JobSnapshot}
      (found : r.completions[index]? = some (ref, snapshot)) :
      Move limit r (r.complete ref snapshot (r.completions.eraseIdx index))
  | drop {r : Registry} {jobs : List Nat} (settled : r.allSettled jobs = true) :
      Move limit r { r with store := r.store.filter fun entry => entry.2 ∉ jobs }
  | empty (r : Registry) :
      Move limit r (({ r with store := [], ownerCleanups := [] } : Registry).happen .emptied)

def Moves (limit : Nat) : Registry → Registry → Prop := Relation.ReflTransGen (Move limit)

theorem Moves.refl (r : Registry) : Moves limit r r := Relation.ReflTransGen.refl

theorem Moves.single (h : Move limit r r') : Moves limit r r' := Relation.ReflTransGen.single h

/-! ## What each operation does -/

theorem reach_task {id : JobId} {caller : Option Agent} {ref : Nat} {job : TrackedTask}
    (h : r.reach id caller = .ok (ref, job)) : r.tasks[ref]? = some job := by
  unfold reach at h
  split at h
  · cases h
  rename_i ref' job' hexpect
  split at h
  · cases h
  cases h
  unfold expect at hexpect
  split at hexpect
  · cases hexpect
  split at hexpect
  · cases hexpect
  rename_i hjob
  cases hexpect
  exact hjob

theorem ensureOwnerCleanup_aside {owner : Agent} {attach : Except JsString Unit}
    (h : r.ensureOwnerCleanup owner attach = .ok r') :
    ∃ cleanups, r' = { r with ownerCleanups := cleanups } := by
  unfold ensureOwnerCleanup at h
  split at h
  · cases h
  split at h
  · cases h
  split at h
  · cases h
    exact ⟨r.ownerCleanups, rfl⟩
  split at h
  · cases h
  · cases h
    exact ⟨_, rfl⟩

theorem start_moves (r : Registry) (spec : JobStart) (attach : Except JsString Unit)
    (run : Except JsString Bool) (now : Nat) :
    Moves limit r (r.start limit spec attach run now).2 := by
  unfold start
  split
  · exact .refl r
  split
  · exact .refl r
  split
  · exact .refl r
  split
  · exact .refl r
  cases hcleanup : spec.owner.elim (.ok r) fun owner => r.ensureOwnerCleanup owner attach with
  | error e => exact .refl r
  | ok r₁ =>
    have haside : ∃ cleanups, r₁ = { r with ownerCleanups := cleanups } := by
      cases howner : spec.owner with
      | none =>
        rw [howner] at hcleanup
        cases hcleanup
        exact ⟨r.ownerCleanups, rfl⟩
      | some owner =>
        rw [howner] at hcleanup
        exact ensureOwnerCleanup_aside hcleanup
    obtain ⟨cleanups, rfl⟩ := haside
    have hmove : Moves limit r { r with ownerCleanups := cleanups } :=
      .single (.aside rfl rfl rfl rfl rfl rfl)
    dsimp only
    split
    · exact hmove
    rename_i hadmitted
    cases run with
    | error e => exact hmove
    | ok streams =>
      exact hmove.tail (.register spec streams now (Nat.lt_of_not_le hadmitted))

theorem read_moves (r : Registry) (id : JobId) (caller : Option Agent)
    (readOutput : Except JsString JsString) : Moves limit r (r.read id caller readOutput).2 := by
  unfold read
  cases hreach : r.reach id caller with
  | error e => exact .refl r
  | ok found =>
    obtain ⟨ref, job⟩ := found
    dsimp only
    split
    · exact .refl r
    split
    · rename_i hterminal
      exact .single (.report (reach_task hreach) hterminal)
    · exact .refl r

theorem kill_moves (r : Registry) (id : JobId) (caller : Option Agent)
    (cancel : Except JsString Unit) : Moves limit r (r.kill id caller cancel).2 := by
  unfold kill
  cases hreach : r.reach id caller with
  | error e => exact .refl r
  | ok found =>
    obtain ⟨ref, job⟩ := found
    dsimp only
    split
    · rename_i hterminal
      exact .single (.report (reach_task hreach) hterminal)
    rename_i hlive
    cases cancel with
    | error e => exact .refl r
    | ok _ => exact .single (.requestKill (reach_task hreach) (Bool.eq_false_iff.mpr hlive))

theorem wait_moves (r : Registry) (id : JobId) (caller : Option Agent) (timeoutMs : JsNumber)
    (aborted : Bool) : Moves limit r (r.wait id caller timeoutMs aborted).2 := by
  unfold wait
  cases hreach : r.reach id caller with
  | error e => exact .refl r
  | ok found =>
    obtain ⟨ref, job⟩ := found
    dsimp only
    split
    · exact .refl r
    split
    · rename_i hterminal
      exact .single (.report (reach_task hreach) hterminal)
    rename_i hlive
    split
    · exact .refl r
    split
    · exact .refl r
    · exact .single (.suspend (reach_task hreach) (Bool.eq_false_iff.mpr hlive))

theorem cancelForTeardown_moves (r : Registry) (ref : Nat) (cancel : Except JsString Unit)
    (now : Nat) : Moves limit r (r.cancelForTeardown ref cancel now) := by
  unfold cancelForTeardown
  cases hjob : r.tasks[ref]? with
  | none => exact .refl r
  | some job =>
    dsimp only
    split
    · exact .refl r
    rename_i hlive
    have hlive : job.status.isTerminal = false := Bool.eq_false_iff.mpr hlive
    have hclaim : Moves limit r ((r.report ref).happen (.teardown ref)) :=
      .single (.claim hjob hlive)
    cases cancel with
    | error e => exact hclaim.tail (.settle _ ref _ now)
    | ok _ =>
      -- the claim has not touched the status
      have hfound : ((r.report ref).happen (.teardown ref)).tasks[ref]? =
          some { job with reported := true } := by
        simp [report, update, happen, hjob]
      exact hclaim.tail (.stop hfound hlive)

theorem beginOwned_aside (r : Registry) (agent : Agent) : Move limit r (r.beginOwned agent) :=
  .aside rfl rfl rfl rfl rfl rfl

theorem finish_moves (r : Registry) (teardown : Teardown)
    (hsettled : r.allSettled teardown.jobs = true) : Moves limit r (r.finish teardown) := by
  unfold finish
  cases teardown.scope with
  | owner agent => exact .single (.drop hsettled)
  | service =>
    have hempty : Moves limit r _ := .single (.empty r)
    generalize ({ r with store := [], ownerCleanups := [] } : Registry).happen .emptied = r₁ at *
    show Moves limit r (r.ownerCleanups.foldl beginOwned r₁)
    generalize r.ownerCleanups = cleanups
    induction cleanups generalizing r₁ with
    | nil => exact hempty
    | cons agent cleanups ih =>
      exact ih (r₁.beginOwned agent) (hempty.tail (beginOwned_aside r₁ agent))

theorem step_moves {act : Action} (h : step limit r act = some r') : Moves limit r r' := by
  cases act with
  | setAgents agents =>
    cases h
    exact .single (.aside rfl rfl rfl rfl rfl rfl)
  | attachController scope =>
    cases h
    exact .single (.aside rfl rfl rfl rfl rfl rfl)
  | detachController symbol =>
    cases h
    exact .single (.aside rfl rfl rfl rfl rfl rfl)
  | onJobDone scope =>
    cases h
    exact .single (.aside rfl rfl rfl rfl rfl rfl)
  | offJobDone symbol =>
    cases h
    exact .single (.aside rfl rfl rfl rfl rfl rfl)
  | start spec attach run now =>
    cases h
    exact start_moves r spec attach run now
  | read id caller readOutput =>
    cases h
    exact read_moves r id caller readOutput
  | kill id caller cancel =>
    cases h
    exact kill_moves r id caller cancel
  | wait id caller timeoutMs aborted =>
    cases h
    exact wait_moves r id caller timeoutMs aborted
  | fire w timedOut =>
    cases h
    exact .single (.fire r w timedOut)
  | resume w => exact .single (.resume h)
  | done ref outcome now =>
    cases h
    exact .single (.settle r ref _ now)
  | complete index =>
    dsimp only [step] at h
    split at h
    · cases h
    rename_i ref snapshot hfound
    cases h
    exact .single (.complete hfound)
  | disposeOwner agent =>
    dsimp only [step] at h
    split at h
    · cases h
      exact .single (beginOwned_aside r agent)
    · cases h
  | disposeService =>
    cases h
    exact .single (.aside rfl rfl rfl rfl rfl rfl)
  | cancelNext index cancel now =>
    dsimp only [step] at h
    split at h
    · cases h
      refine Relation.ReflTransGen.head ?_ (cancelForTeardown_moves _ _ cancel now)
      exact .aside rfl rfl rfl rfl rfl rfl
    · cases h
  | finish index =>
    dsimp only [step] at h
    split at h
    · cases h
    rename_i teardown _
    split at h
    · rename_i hready
      cases h
      refine Relation.ReflTransGen.head ?_ (finish_moves _ teardown hready.2)
      exact .aside rfl rfl rfl rfl rfl rfl
    · cases h

theorem step_keeps {I : Registry → Prop} (hmove : ∀ r r', I r → Move limit r r' → I r')
    {act : Action} (hI : I r) (h : step limit r act = some r') : I r' := by
  have hmoves : Relation.ReflTransGen (Move limit) r r' := step_moves h
  clear h
  induction hmoves with
  | refl => exact hI
  | tail _ hlast ih => exact hmove _ _ ih hlast

/-! ## A record's life -/

/-- How a record may change: its status only moves forward, its first terminal outcome stays. -/
structure Ages (job job' : TrackedTask) : Prop where
  forward : job'.status = job.status ∨ (job.status = .running ∧ job'.status = .stopping) ∨
    (job.status.isTerminal = false ∧ job'.status.isTerminal = true)
  outcome : job.status.isTerminal = true →
    job'.status = job.status ∧ job'.detail = job.detail ∧ job'.output = job.output ∧
      job'.finishedAt = job.finishedAt
  owner : job'.owner = job.owner
  sameId : job'.id = job.id
  /-- Nothing takes a report back. -/
  reported : job.reported = true → job'.reported = true

theorem Ages.refl (job : TrackedTask) : Ages job job :=
  ⟨.inl rfl, fun _ => ⟨rfl, rfl, rfl, rfl⟩, rfl, rfl, id⟩

theorem Ages.terminal {job job' : TrackedTask} (h : Ages job job')
    (hterminal : job.status.isTerminal = true) : job'.status.isTerminal = true := by
  rw [(h.outcome hterminal).1]
  exact hterminal

theorem Ages.trans {job job' job'' : TrackedTask} (h : Ages job job') (h' : Ages job' job'') :
    Ages job job'' where
  forward := by
    rcases h.forward with hsame | ⟨hrunning, hstopping⟩ | ⟨hlive, hterminal⟩
    · rw [← hsame]
      exact h'.forward
    · rcases h'.forward with hsame | ⟨hrunning', -⟩ | ⟨-, hterminal'⟩
      · exact .inr (.inl ⟨hrunning, hsame.trans hstopping⟩)
      · rw [hstopping] at hrunning'
        cases hrunning'
      · refine .inr (.inr ⟨?_, hterminal'⟩)
        rw [hrunning]
        rfl
    · exact .inr (.inr ⟨hlive, h'.terminal hterminal⟩)
  outcome := by
    intro hterminal
    obtain ⟨hstatus, hdetail, houtput, hfinished⟩ := h.outcome hterminal
    obtain ⟨hstatus', hdetail', houtput', hfinished'⟩ := h'.outcome (h.terminal hterminal)
    exact ⟨hstatus'.trans hstatus, hdetail'.trans hdetail, houtput'.trans houtput,
      hfinished'.trans hfinished⟩
  owner := h'.owner.trans h.owner
  sameId := h'.sameId.trans h.sameId
  reported := h'.reported ∘ h.reported

/-- Every record is still there and has aged. -/
def Evolves (r r' : Registry) : Prop :=
  ∀ (ref : Nat) (job : TrackedTask), r.tasks[ref]? = some job →
    ∃ job', r'.tasks[ref]? = some job' ∧ Ages job job'

theorem Evolves.refl (r : Registry) : Evolves r r := fun _ job hjob => ⟨job, hjob, .refl job⟩

theorem Evolves.trans {r r' r'' : Registry} (h : Evolves r r') (h' : Evolves r' r'') :
    Evolves r r'' := by
  intro ref job hjob
  obtain ⟨job', hjob', hages⟩ := h ref job hjob
  obtain ⟨job'', hjob'', hages'⟩ := h' ref job' hjob'
  exact ⟨job'', hjob'', hages.trans hages'⟩

theorem Evolves.of_tasks (h : r'.tasks = r.tasks) : Evolves r r' := by
  intro ref job hjob
  exact ⟨job, h ▸ hjob, .refl job⟩

/-- Records are changed in place, one at a time. -/
theorem Evolves.of_modify {ref : Nat} {f : TrackedTask → TrackedTask}
    (htasks : r'.tasks = r.tasks.modify ref f)
    (hf : ∀ job, r.tasks[ref]? = some job → Ages job (f job)) : Evolves r r' := by
  intro ref' job hjob
  rw [htasks, List.getElem?_modify, hjob]
  by_cases heq : ref = ref'
  · subst heq
    exact ⟨f job, by simp, hf job hjob⟩
  · exact ⟨job, by simp [heq], .refl job⟩

theorem Evolves.of_set {ref : Nat} {job job' : TrackedTask} (hjob : r.tasks[ref]? = some job)
    (htasks : r'.tasks = r.tasks.set ref job') (hages : Ages job job') : Evolves r r' := by
  intro ref' old hold
  have hlt : ref < r.tasks.length := (List.getElem?_eq_some_iff.mp hjob).1
  rw [htasks, List.getElem?_set]
  by_cases heq : ref = ref'
  · subst heq
    obtain rfl : job = old := Option.some.inj (hjob.symm.trans hold)
    exact ⟨job', by simp [hlt], hages⟩
  · exact ⟨old, by simp [heq, hold], .refl old⟩

theorem Ages.of_status {job job' : TrackedTask} (hstatus : job'.status = job.status)
    (hdetail : job'.detail = job.detail) (houtput : job'.output = job.output)
    (hfinished : job'.finishedAt = job.finishedAt) (howner : job'.owner = job.owner)
    (hid : job'.id = job.id) (hreported : job.reported = true → job'.reported = true) :
    Ages job job' :=
  ⟨.inl hstatus, fun _ => ⟨hstatus, hdetail, houtput, hfinished⟩, howner, hid, hreported⟩

theorem Ages.report (job : TrackedTask) : Ages job { job with reported := true } :=
  .of_status rfl rfl rfl rfl rfl rfl fun _ => rfl

theorem Ages.stop {job : TrackedTask} (hlive : job.status.isTerminal = false) :
    Ages job { job with status := .stopping } where
  forward := by
    show JobStatus.stopping = job.status ∨ job.status = .running ∧ JobStatus.stopping = .stopping ∨
      job.status.isTerminal = false ∧ JobStatus.stopping.isTerminal = true
    cases hstatus : job.status with
    | running => exact .inr (.inl ⟨rfl, rfl⟩)
    | stopping => exact .inl rfl
    | completed | killed | failed =>
      rw [hstatus] at hlive
      cases hlive
  outcome := by
    intro hterminal
    rw [hlive] at hterminal
    cases hterminal
  owner := rfl
  sameId := rfl
  reported := id

theorem report_evolves (r : Registry) (ref : Nat) : Evolves r (r.report ref) :=
  .of_modify rfl fun job _ => .report job

theorem stop_evolves {ref : Nat} {job : TrackedTask} (hjob : r.tasks[ref]? = some job)
    (hlive : job.status.isTerminal = false) : Evolves r (r.stop ref) := by
  refine .of_modify rfl fun job' hjob' => ?_
  obtain rfl : job = job' := Option.some.inj (hjob.symm.trans hjob')
  exact .stop hlive

theorem settle_evolves (r : Registry) (ref : Nat) (outcome : JobOutcome) (now : Nat) :
    Evolves r (r.settle ref outcome now) := by
  unfold settle
  cases hjob : r.tasks[ref]? with
  | none => exact .refl r
  | some job =>
    dsimp only
    split
    · exact .refl r
    rename_i hlive
    refine .of_set hjob rfl ⟨?_, fun h => absurd h hlive, rfl, rfl, ?_⟩
    · exact .inr (.inr ⟨Bool.eq_false_iff.mpr hlive, outcome.status.isTerminal_toStatus⟩)
    · intro hreported
      simp [hreported]

theorem fire_evolves (r : Registry) (w : Nat) (timedOut : Bool) :
    Evolves r (r.fire w timedOut) := by
  unfold fire
  split
  · exact .refl r
  split
  · exact .refl r
  rename_i wait _ _
  have hresolver : Evolves r (r.update wait.job fun job =>
      { job with waitResolvers := job.waitResolvers.filter (· ≠ w) }) :=
    .of_modify rfl fun job _ => .of_status rfl rfl rfl rfl rfl rfl id
  dsimp only
  split
  · exact hresolver.trans (.of_tasks rfl)
  · refine hresolver.trans (.of_modify rfl fun job _ => ?_)
    exact .of_status rfl rfl rfl rfl rfl rfl id

theorem resume_evolves {w : Nat} (h : r.resume w = some r') : Evolves r r' := by
  unfold resume at h
  split at h
  · cases h
  split at h
  · cases h
  · cases h
  · cases h
  · cases h
    exact .of_tasks rfl
  · split at h
    · cases h
    rename_i job hjob
    cases h
    refine .of_set hjob rfl (.of_status rfl rfl rfl rfl rfl rfl fun hreported => ?_)
    simp [hreported]

theorem complete_tasks (r : Registry) (ref : Nat) (snapshot : JobSnapshot)
    (rest : List (Nat × JobSnapshot)) : (r.complete ref snapshot rest).tasks = r.tasks := by
  unfold complete
  dsimp only
  split <;> rfl

theorem Move.evolves (h : Move limit r r') : Evolves r r' := by
  cases h with
  | aside tasks => exact .of_tasks tasks
  | register spec streams now admitted =>
    intro ref job hjob
    have hlt : ref < r.tasks.length := (List.getElem?_eq_some_iff.mp hjob).1
    refine ⟨job, ?_, .refl job⟩
    show (r.tasks ++ _)[ref]? = some job
    rw [List.getElem?_append_left hlt]
    exact hjob
  | report found terminal => exact report_evolves r _
  | requestKill found live =>
    exact ((stop_evolves found live).trans (report_evolves _ _)).trans (.of_tasks rfl)
  | claim found live => exact (report_evolves r _).trans (.of_tasks rfl)
  | stop found live => exact stop_evolves found live
  | settle ref outcome now => exact settle_evolves r ref outcome now
  | suspend found live =>
    exact .of_modify rfl fun job _ => .of_status rfl rfl rfl rfl rfl rfl id
  | fire w timedOut => exact fire_evolves r w timedOut
  | resume resumed => exact resume_evolves resumed
  | complete found => exact .of_tasks (complete_tasks _ _ _ _)
  | drop settled => exact .of_tasks rfl
  | empty => exact .of_tasks rfl

theorem step_evolves {act : Action} (h : step limit r act = some r') : Evolves r r' :=
  step_keeps (I := Evolves r) (fun _ _ hI hmove => hI.trans hmove.evolves) (.refl r) h

end Registry

end Jobs

end Harness
