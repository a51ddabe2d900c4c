-- SUMMARY: The in-memory job registry and its callers, producers and teardowns as one transition system (`jobs/jobs-local/src/index.ts`).
import Harness.Jobs.Types

/-!
# The job registry

The synchronous methods are functions of the registry and of what the hooks they call do. What
is left waiting is kept beside them: waits whose promise is pending or whose continuation is
queued, settlements whose listeners have yet to run, teardowns that cancel and await.

Starters and cancel hooks do not call the registry back. Listeners may: their calls are steps of
their own.
-/

namespace Harness

namespace Jobs

/-- How far a wait has come that found its job live. -/
inductive WaitPhase where
  /-- The promise is pending, its resolver and its abort listener are in place. -/
  | suspended
  /-- The promise has resolved and the continuation is queued. -/
  | resolved
  /-- The promise has rejected and the continuation is queued. -/
  | rejected
  | returned (snapshot : JobSnapshot)
  | threw
  deriving DecidableEq

structure Wait where
  job : Nat
  counted : Bool
  phase : WaitPhase
  deriving DecidableEq

def Wait.resolve (wait : Wait) : Wait := { wait with phase := .resolved }

/-- What callers, producers and listeners get to see of a run. -/
inductive Happening where
  /-- A kill was requested from the live job's producer. -/
  | killRequested (job : Nat)
  /-- A teardown claimed the live job. -/
  | teardown (job : Nat)
  | waitCalled (wait job : Nat)
  | waitAborted (wait : Nat)
  | waitReturned (wait : Nat)
  | settled (job : Nat) (snapshot : JobSnapshot)
  | delivered (listener job : Nat) (snapshot : JobSnapshot)
  /-- Service disposal cleared the store. -/
  | emptied
  deriving DecidableEq

inductive TeardownScope where
  | owner (agent : Agent)
  | service
  deriving DecidableEq

/-- A running `disposeOwned` or `disposeAll`. -/
structure Teardown where
  scope : TeardownScope
  jobs : List Nat
  /-- The jobs that `cancelForTeardown` has yet to come to. -/
  remaining : List Nat
  deriving DecidableEq

structure Registry where
  /-- Every record ever made, by reference. -/
  tasks : List TrackedTask
  store : OrderedMap JobId Nat
  counters : OrderedMap JsString Nat
  controllers : ScopedEntries
  listeners : ScopedEntries
  listenersClosed : Bool
  ownerCleanups : List Agent
  /-- The agent registry, where one is mounted. -/
  agents : Option (List Agent)
  waits : List Wait
  /-- Settlements whose completion listeners have yet to run. -/
  completions : List (Nat × JobSnapshot)
  teardowns : List Teardown
  /-- What has happened, newest first. -/
  log : List Happening

namespace Registry

def init : Registry where
  tasks := []
  store := []
  counters := []
  controllers := .empty
  listeners := .empty
  listenersClosed := false
  ownerCleanups := []
  agents := none
  waits := []
  completions := []
  teardowns := []
  log := []

/-! ## Helpers -/

variable (r : Registry)

variable (ref : Nat)

/-- Change one record in place. -/
def update (f : TrackedTask → TrackedTask) : Registry :=
  { r with tasks := r.tasks.modify ref f }

def happen (happening : Happening) : Registry :=
  { r with log := happening :: r.log }

/-- `job.reported = true`. -/
def report : Registry :=
  r.update ref fun job => { job with reported := true }

def chainOf : Option Agent → ScopeChain
  | none => .empty
  | some agent => agent.scopes

/-- Whether an attached job controller serves the owner. -/
def servesOwner (owner : Option Agent) : Bool :=
  !(r.controllers.layer none).isEmpty ||
    (chainOf owner).keys.any fun key => !(r.controllers.layer (some key)).isEmpty

/-- The completion listeners that own `owner`'s notices. -/
def listenersFor (owner : Option Agent) : List Nat :=
  r.listeners.visible (chainOf owner)

/-- A live record of one exact owner or of the shared unowned bucket. -/
def isActiveFor (owner : Option Agent) (job : TrackedTask) : Bool :=
  decide (job.owner = owner) && !job.status.isTerminal

/-- Count the stored live records of one exact owner or of the unowned bucket. -/
def activeTaskCount (owner : Option Agent) : Nat :=
  r.store.countP fun entry => r.tasks[entry.2]?.any (isActiveFor owner)

def unknownJob (id : JobId) : JsString := JsString.ofString "unknown job " ++ id.text

def foreignJob (id : JobId) : JsString :=
  JsString.ofString "job " ++ id.text ++ JsString.ofString " belongs to another session"

/-- Look up a job or fail loud. -/
def expect (id : JobId) : Except JsString (Nat × TrackedTask) :=
  match r.store.get? id with
  | none => .error (unknownJob id)
  | some ref =>
    match r.tasks[ref]? with
    | none => .error (unknownJob id)
    | some job => .ok (ref, job)

/-- A job with an owner is reachable only by callers whose session id matches. -/
def assertAccess (job : TrackedTask) (caller : Option Agent) : Except JsString Unit :=
  match job.owner with
  | none => .ok ()
  | some owner =>
    if caller.map Agent.id = some owner.id then .ok () else .error (foreignJob job.id)

/-- `expect` and `assertAccess`. -/
def reach (id : JobId) (caller : Option Agent) : Except JsString (Nat × TrackedTask) :=
  match r.expect id with
  | .error e => .error e
  | .ok (ref, job) =>
    match assertAccess job caller with
    | .error e => .error e
    | .ok () => .ok (ref, job)

/-! ## Settlement -/

/-- Record the first terminal outcome and release the waiters. The listeners run later. -/
def settle (outcome : JobOutcome) (now : Nat) : Registry :=
  match r.tasks[ref]? with
  | none => r
  | some job =>
    if job.status.isTerminal then r
    else
      let settled : TrackedTask :=
        { job with
          status := outcome.status.toStatus
          detail := outcome.detail
          output := outcome.output
          finishedAt := some now
          reported := job.reported || decide (0 < job.waiters)
          waitResolvers := []
          settled := true }
      { r with
        tasks := r.tasks.set ref settled
        waits := r.waits.mapIdx fun w wait => if w ∈ job.waitResolvers then wait.resolve else wait
        completions := r.completions ++ [(ref, settled.snapshot)]
        log := .settled ref settled.snapshot :: r.log }

/-- The rest of a settlement: unless the service is being disposed, the listeners run. -/
def complete (snapshot : JobSnapshot) (rest : List (Nat × JobSnapshot)) : Registry :=
  let r := { r with completions := rest }
  if r.listenersClosed then r
  else
    let owner := r.tasks[ref]?.bind TrackedTask.owner
    { r with
      log := ((r.listenersFor owner).map fun listener => .delivered listener ref snapshot).reverse
        ++ r.log }

/-! ## Starting -/

def unserved : JsString := "background jobs unavailable: no job controller serves this agent (load @deepseek-ai/dsh-tool-jobs in its composition)"

def invalidOutputLimit (bytes : JsNumber) : JsString :=
  JsString.ofString "invalid outputLimitBytes: expected a positive safe integer, got " ++
    stringifyNumber bytes

def limitReached (limit : Nat) : JsString :=
  JsString.ofString "background job limit reached for this owner (limit: " ++ ⟨natText limit⟩ ++
    JsString.ofString "); use job_kill to stop an unneeded job, wait for it to finish, then retry"

def notRegistered (id : JsString) : JsString :=
  JsString.ofString "agent \"" ++ id ++
    JsString.ofString "\" is not the registered agent instance (background job owner must be live)"

/-- Attach one awaited cleanup through the exact owner's scope. `attach` is what the owner's
context answers. -/
def ensureOwnerCleanup (owner : Agent) (attach : Except JsString Unit) : Except JsString Registry :=
  match r.agents with
  | none => .error "background job ownership requires the agent registry (load @deepseek-ai/dsh-agent)"
  | some agents =>
    if agents.find? (·.id = owner.id) ≠ some owner then .error (notRegistered owner.id)
    else if owner ∈ r.ownerCleanups then .ok r
    else
      match attach with
      | .error e => .error e
      | .ok () => .ok { r with ownerCleanups := r.ownerCleanups ++ [owner] }

/-- Registration, once the starter has returned its hooks. -/
def register (spec : JobStart) (streams : Bool) (now : Nat) : JobId × Registry :=
  let count := (r.counters.get? spec.kind).getD 0 + 1
  let id : JobId := ⟨spec.kind, count⟩
  let job : TrackedTask :=
    { id
      kind := spec.kind
      label := spec.label
      outputLimitBytes := spec.outputLimitBytes
      owner := spec.owner
      streams
      status := .running
      detail := none
      output := none
      startedAt := now
      finishedAt := none
      reported := false
      settled := false
      waiters := 0
      waitResolvers := [] }
  (id,
    { r with
      counters := r.counters.set spec.kind count
      tasks := r.tasks ++ [job]
      store := r.store.set id r.tasks.length })

/-- `start`. `run` is what the starter does: throw, or return hooks that stream or do not. -/
def start (limit : Nat) (r : Registry) (spec : JobStart) (attach : Except JsString Unit)
    (run : Except JsString Bool) (now : Nat) : Except JsString JobId × Registry :=
  if !r.servesOwner spec.owner then (.error unserved, r)
  else if spec.kind.units.isEmpty then
    (.error "invalid job kind: expected a non-empty string", r)
  else if spec.label.units.isEmpty then
    (.error "invalid job label: expected a non-empty string", r)
  else
    match spec.outputLimitBytes.filter fun bytes => !isPositiveSafeInteger bytes with
    | some bytes => (.error (invalidOutputLimit bytes), r)
    | none =>
      match spec.owner.elim (.ok r) fun owner => r.ensureOwnerCleanup owner attach with
      | .error e => (.error e, r)
      | .ok r =>
        if limit ≤ r.activeTaskCount spec.owner then (.error (limitReached limit), r)
        else
          match run with
          | .error e => (.error e, r)
          | .ok streams =>
            let (id, r) := r.register spec streams now
            (.ok id, r)

/-! ## Reading, killing, waiting -/

/-- `read`. `readOutput` is what the producer's hook does when there is one. -/
def read (id : JobId) (caller : Option Agent) (readOutput : Except JsString JsString) :
    Except JsString (JsString × Option JobSnapshot) × Registry :=
  match r.reach id caller with
  | .error e => (.error e, r)
  | .ok (ref, job) =>
    let text : Except JsString JsString :=
      if job.streams then readOutput
      else if job.status.isTerminal then .ok (job.output.getD "") else .ok ""
    match text with
    | .error e => (.error e, r)
    | .ok text =>
      let r := if job.status.isTerminal then r.report ref else r
      (.ok (text, r.tasks[ref]?.map TrackedTask.snapshot), r)

inductive KillAnswer where
  | requested
  | alreadyFinished
  deriving DecidableEq

/-- `job.status = 'stopping'`. -/
def stop : Registry :=
  r.update ref fun job => { job with status := .stopping }

/-- What a kill writes once the producer's cancel has returned. -/
def requestKill : Registry :=
  ((r.stop ref).report ref).happen (.killRequested ref)

/-- `kill`. `cancel` is what the producer's hook does. -/
def kill (id : JobId) (caller : Option Agent) (cancel : Except JsString Unit) :
    Except JsString KillAnswer × Registry :=
  match r.reach id caller with
  | .error e => (.error e, r)
  | .ok (ref, job) =>
    if job.status.isTerminal then (.ok .alreadyFinished, r.report ref)
    else
      -- cancel comes first, so that a throw leaves the record as it was
      match cancel with
      | .error e => (.error e, r)
      | .ok () =>
        (.ok .requested, r.requestKill ref)

/-- How a call of `wait` goes on. -/
inductive WaitAnswer where
  | returned (snapshot : JobSnapshot)
  | suspended (wait : Nat)
  deriving DecidableEq

def invalidTimeout (timeoutMs : JsNumber) : JsString :=
  JsString.ofString "invalid wait timeout: expected a positive number of milliseconds, got " ++
    stringifyNumber timeoutMs

/-- A wait on a live job counts itself and registers its resolver. -/
def suspend : Registry :=
  let w := r.waits.length
  let r := r.update ref fun job =>
    { job with waiters := job.waiters + 1, waitResolvers := job.waitResolvers ++ [w] }
  { r with
    waits := r.waits ++ [⟨ref, true, .suspended⟩]
    log := .waitCalled w ref :: r.log }

/-- `wait` up to its first suspension. `aborted` says whether the caller's signal is already. -/
def wait (r : Registry) (id : JobId) (caller : Option Agent) (timeoutMs : JsNumber)
    (aborted : Bool) : Except JsString WaitAnswer × Registry :=
  match r.reach id caller with
  | .error e => (.error e, r)
  | .ok (ref, job) =>
    if !isPositiveFinite timeoutMs then (.error (invalidTimeout timeoutMs), r)
    else if job.status.isTerminal then
      (.ok (.returned { job with reported := true }.snapshot), r.report ref)
    else if aborted then (.error "wait aborted", r)
    else if exceedsTimerDelay timeoutMs then
      -- the deadline refuses the delay, and the wait that it was to end is uncounted again
      (.error "deadline timeoutMs must be a positive finite number no greater than 2147483647", r)
    else
      (.ok (.suspended r.waits.length), r.suspend ref)

/-- The wait's own deadline or its caller's abort fires on the fused signal. A wait whose promise
has settled no longer listens. -/
def fire (w : Nat) (timedOut : Bool) : Registry :=
  match r.waits[w]? with
  | none => r
  | some wait =>
    if wait.phase ≠ .suspended then r
    else
      let r := r.update wait.job fun job =>
        { job with waitResolvers := job.waitResolvers.filter (· ≠ w) }
      if timedOut then { r with waits := r.waits.modify w Wait.resolve }
      else
        let r := r.update wait.job fun job => { job with waiters := job.waiters - 1 }
        { r with
          waits := r.waits.set w { wait with counted := false, phase := .rejected }
          log := .waitAborted w :: r.log }

/-- The continuation of a wait whose promise has settled. -/
def resume (w : Nat) : Option Registry :=
  match r.waits[w]? with
  | none => none
  | some wait =>
    match wait.phase with
    | .suspended | .returned _ | .threw => none
    | .rejected => some { r with waits := r.waits.set w { wait with phase := .threw } }
    | .resolved =>
      match r.tasks[wait.job]? with
      | none => none
      | some job =>
        let job : TrackedTask :=
          { job with
            waiters := job.waiters - 1
            reported := job.reported || job.status.isTerminal }
        some
          { r with
            tasks := r.tasks.set wait.job job
            waits := r.waits.set w { wait with counted := false, phase := .returned job.snapshot }
            log := .waitReturned w :: r.log }

/-! ## Teardown -/

/-- The jobs that the store holds and `p` picks. -/
def stored (p : TrackedTask → Bool) : List Nat :=
  (r.store.map Prod.snd).filter fun ref => r.tasks[ref]?.any p

/-- Start tearing down the jobs of one owner. -/
def beginOwned (agent : Agent) : Registry :=
  let owned := r.stored fun job => job.owner = some agent
  { r with
    ownerCleanups := r.ownerCleanups.filter (· ≠ agent)
    teardowns := r.teardowns ++ [⟨.owner agent, owned, owned⟩] }

/-- Close the listeners and start tearing down every job. -/
def beginAll : Registry :=
  let all := r.stored fun _ => true
  { r with
    listenersClosed := true
    teardowns := r.teardowns ++ [⟨.service, all, all⟩] }

def orphaned (error : JsString) : JsString :=
  JsString.ofString "cancel threw during teardown; work may be orphaned: " ++ error

/-- One turn of `cancelForTeardown`. -/
def cancelForTeardown (cancel : Except JsString Unit) (now : Nat) : Registry :=
  match r.tasks[ref]? with
  | none => r
  | some job =>
    if job.status.isTerminal then r
    else
      let r := (r.report ref).happen (.teardown ref)
      match cancel with
      | .ok () => r.stop ref
      | .error e => r.settle ref { status := .failed, detail := some (orphaned e) } now

/-- Whether all of these jobs have settled. -/
def allSettled (refs : List Nat) : Bool :=
  refs.all fun ref => r.tasks[ref]?.all TrackedTask.settled

/-- Drop what the teardown has awaited. Service teardown then detaches the owner cleanups, each of
which disposes of its owner's jobs. -/
def finish (teardown : Teardown) : Registry :=
  match teardown.scope with
  | .owner _ => { r with store := r.store.filter fun entry => entry.2 ∉ teardown.jobs }
  | .service =>
    let cleanups := r.ownerCleanups
    let r := ({ r with store := [], ownerCleanups := [] } : Registry).happen .emptied
    cleanups.foldl beginOwned r

/-! ## Steps -/

inductive Action where
  | setAgents (agents : Option (List Agent))
  | attachController (scope : Option ScopeKey)
  | detachController (symbol : Nat)
  | onJobDone (scope : Option ScopeKey)
  | offJobDone (symbol : Nat)
  | start (spec : JobStart) (attach : Except JsString Unit) (run : Except JsString Bool)
      (now : Nat)
  | read (id : JobId) (caller : Option Agent) (readOutput : Except JsString JsString)
  | kill (id : JobId) (caller : Option Agent) (cancel : Except JsString Unit)
  | wait (id : JobId) (caller : Option Agent) (timeoutMs : JsNumber) (aborted : Bool)
  | fire (wait : Nat) (timedOut : Bool)
  | resume (wait : Nat)
  /-- The producer's `done` resolves, or rejects with an error of this text. -/
  | done (ref : Nat) (outcome : Except JsString JobOutcome) (now : Nat)
  /-- The listeners of the settlement at this place run. -/
  | complete (index : Nat)
  | disposeOwner (agent : Agent)
  | disposeService
  /-- The teardown at this place comes to its next job. -/
  | cancelNext (index : Nat) (cancel : Except JsString Unit) (now : Nat)
  /-- The teardown at this place has awaited all its jobs. -/
  | finish (index : Nat)

/-- What a producer's `done` settles its job with. -/
def outcomeOf : Except JsString JobOutcome → JobOutcome
  | .ok outcome => outcome
  | .error error => { status := .failed, detail := some error }

/-- One step. A call that throws leaves what it has already written. -/
def step (limit : Nat) (r : Registry) : Action → Option Registry
  | .setAgents agents => some { r with agents }
  | .attachController scope => some { r with controllers := r.controllers.append scope }
  | .detachController symbol => some { r with controllers := r.controllers.remove symbol }
  | .onJobDone scope => some { r with listeners := r.listeners.append scope }
  | .offJobDone symbol => some { r with listeners := r.listeners.remove symbol }
  | .start spec attach run now => some (r.start limit spec attach run now).2
  | .read id caller readOutput => some (r.read id caller readOutput).2
  | .kill id caller cancel => some (r.kill id caller cancel).2
  | .wait id caller timeoutMs aborted => some (r.wait id caller timeoutMs aborted).2
  | .fire w timedOut => some (r.fire w timedOut)
  | .resume w => r.resume w
  | .done ref outcome now => some (r.settle ref (outcomeOf outcome) now)
  | .complete index =>
    match r.completions[index]? with
    | none => none
    | some (ref, snapshot) => some (r.complete ref snapshot (r.completions.eraseIdx index))
  | .disposeOwner agent => if agent ∈ r.ownerCleanups then some (r.beginOwned agent) else none
  | .disposeService => some r.beginAll
  | .cancelNext index cancel now =>
    match r.teardowns[index]? with
    | some ⟨scope, jobs, ref :: remaining⟩ =>
      let r := { r with teardowns := r.teardowns.set index ⟨scope, jobs, remaining⟩ }
      some (r.cancelForTeardown ref cancel now)
    | _ => none
  | .finish index =>
    match r.teardowns[index]? with
    | none => none
    | some teardown =>
      if teardown.remaining = [] ∧ r.allSettled teardown.jobs then
        some (({ r with teardowns := r.teardowns.eraseIdx index } : Registry).finish teardown)
      else none

end Registry

end Jobs

end Harness
