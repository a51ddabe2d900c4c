-- SUMMARY: Processes that share one settings document: `withFileLock` and `writeFileAtomic` of `util/atomic-write/src/index.ts`, and the operations of `settings/settings-file/src/index.ts`, one file operation at a time.
import Harness.SettingsFile.Document
import Harness.Lib.Transitions

/-!
# File settings providers

Every process has one provider, whose operations run one at a time in queue order. A writer holds
the lock file of the document from its exclusive create to its removal. A file operation is one
step; between two steps of one process any other process may run, or stop for good.
-/

namespace Harness

/-! ## Providers -/

/-- An operation in the queue of a provider. -/
inductive FileJob where
  | persist (ns : JsString) (value : { j : Json // j.Proper })
  | prepareDocument
  | refresh

/-- The next file operation of a running job. -/
inductive FileStage where
  | mkdir
  /-- The exclusive create of the lock file, as often as it takes. -/
  | lock
  /-- Under the lock: the read of `persistSection`, or the create of `prepareDocument`. -/
  | held
  /-- The write of the temp file. -/
  | write (output : JsString)
  | rename (output : JsString)
  /-- The removal of the lock file, after an operation that succeeded or threw. -/
  | unlock (ok : Bool)
  /-- The read of a reload, which takes no lock. -/
  | read

/-- A running job. Ghost: whether its rename has replaced the document. -/
structure FileRun where
  job : FileJob
  stage : FileStage
  committed : Bool

structure FileProvider where
  /-- The process lives, and has loaded the document. -/
  alive : Bool
  /-- `this.text`. -/
  text : Option JsString
  closed : Bool
  queue : List FileJob
  running : Option FileRun
  /-- Ghost: every text that the provider has read or committed; none is an absent document. -/
  known : List (Option JsString)

/-- A replacement of the document: by whom, over what, and which section. The create of an empty
document writes none. -/
structure FileCommit (ι : Type) where
  by_ : ι
  before : Option JsString
  text : JsString
  section_ : Option (JsString × Json)

/-- A job that has settled. -/
structure FileOutcome (ι : Type) where
  by_ : ι
  job : FileJob
  ok : Bool
  committed : Bool

structure FileWorld (ι : Type) where
  doc : Option JsString
  /-- The lock file exists. -/
  lock : Bool
  providers : ι → FileProvider
  /-- Ghost: newest first. -/
  commits : List (FileCommit ι)
  /-- Ghost. -/
  outcomes : List (FileOutcome ι)
  /-- Ghost: a process has stopped while it held the lock. -/
  crashed : Bool

namespace FileProvider

/-- A process that has not begun. -/
def down : FileProvider where
  alive := false
  text := none
  closed := false
  queue := []
  running := none
  known := []

end FileProvider

/-- The stages between taking and releasing the lock. -/
def FileStage.holds : FileStage → Bool
  | .held | .write _ | .rename _ | .unlock _ => true
  | .mkdir | .lock | .read => false

def FileProvider.holds (provider : FileProvider) : Bool :=
  provider.running.any (·.stage.holds)

/-- How the create and write of an absent lock file ends: done, failed, or failed after the file
exists. -/
inductive CreateOutcome where
  | done
  | failed
  | failedAfter
  deriving DecidableEq

namespace FileWorld

variable {ι : Type} [DecidableEq ι]

def start (doc : Option JsString) : FileWorld ι where
  doc := doc
  lock := false
  providers := fun _ => .down
  commits := []
  outcomes := []
  crashed := false

variable (spec : FileSpec) (s : FileWorld ι)

/-! ## Parts of the operations -/

def set (p : ι) (provider : FileProvider) : FileWorld ι :=
  { s with providers := Function.update s.providers p provider }

/-- The running job goes on to its next file operation. -/
def goOn (p : ι) (run : FileRun) (stage : FileStage) : FileWorld ι :=
  s.set p { s.providers p with running := some { run with stage } }

/-- The job settles, and the queue is free for the next one. -/
def settle (p : ι) (run : FileRun) (ok : Bool) : FileWorld ι :=
  { s.set p { s.providers p with running := none } with
    outcomes := { by_ := p, job := run.job, ok, committed := run.committed } :: s.outcomes }

/-- `reconcileFromDisk` once the document is read: its provider after it, and whether it threw. The
cache takes the new text before the publication, which may throw. -/
def reconcile (provider : FileProvider) (doc : Option JsString) (published : Bool) :
    FileProvider × Bool :=
  let seen := { provider with known := doc :: provider.known }
  if doc = provider.text || provider.closed then (seen, true)
  else
    match doc with
    | none => ({ seen with text := none }, published)
    | some text =>
      match spec.parse text with
      | none => (seen, false)
      | some _ => ({ seen with text := some text }, published)

/-- The document is replaced by what `p` wrote, which it caches. -/
def commit (p : ι) (text : JsString) (section_ : Option (JsString × Json)) : FileWorld ι :=
  { s.set p { s.providers p with text := some text, known := some text :: (s.providers p).known } with
    doc := some text
    commits := { by_ := p, before := s.doc, text, section_ } :: s.commits }

/-! ## Steps -/

inductive Act (ι : Type) where
  /-- The process begins and loads the document, which its read may refuse. -/
  | load (p : ι) (readable : Bool)
  | enqueue (p : ι) (job : FileJob)
  /-- The next job of the queue begins. -/
  | begin_ (p : ι)
  | mkdir (p : ι) (ok : Bool)
  | lock (p : ι) (outcome : CreateOutcome)
  /-- The deadline for the lock has passed. -/
  | giveUp (p : ι)
  | read (p : ι) (readable published : Bool)
  | create (p : ι) (ok published : Bool)
  | write (p : ι) (ok : Bool)
  | rename (p : ι) (ok : Bool)
  | unlock (p : ι) (ok : Bool)
  /-- The provider is disposed. -/
  | close (p : ι)
  /-- The process stops. -/
  | crash (p : ι)

/-- The exclusive create of the lock file. -/
def stepLock (p : ι) (run : FileRun) (outcome : CreateOutcome) : FileWorld ι :=
  match outcome with
  | .failed => s.settle p run false
  | .done => if s.lock then s else { s.goOn p run .held with lock := true }
  -- Any failure but EEXIST is thrown at once; what was created stays.
  | .failedAfter => if s.lock then s else { s.settle p run false with lock := true }

/-- The read of `persistSection` and of a reload, with what follows in the same turn. -/
def stepRead (p : ι) (run : FileRun) (readable published : Bool) : Option (FileWorld ι) :=
  match run.job, run.stage with
  | .persist ns value, .held =>
    if !readable then some (s.goOn p run (.unlock false))
    else
      let (provider, ok) := reconcile spec (s.providers p) s.doc published
      let s' := s.set p provider
      if !ok then some (s'.goOn p run (.unlock false))
      else
        match spec.render provider.text ns value.1 with
        | none => some (s'.goOn p run (.unlock false))
        | some output => some (s'.goOn p run (.write output))
  | .refresh, .read =>
    if !readable then some (s.settle p run true)
    else
      let (provider, _) := reconcile spec (s.providers p) s.doc published
      some ((s.set p provider).settle p run true)
  | _, _ => none

/-- The exclusive create of an empty document. One that exists already is left alone. -/
def stepCreate (p : ι) (run : FileRun) (ok published : Bool) : FileWorld ι :=
  if !ok then s.goOn p run (.unlock false)
  else
    match s.doc with
    | some _ => s.goOn p run (.unlock true)
    | none => (s.commit p "" none).goOn p run (.unlock ((s.providers p).closed || published))

def step (s : FileWorld ι) : Act ι → Option (FileWorld ι)
  | .load p readable =>
    if (s.providers p).alive then none
    else
      match readable, s.doc with
      | false, _ => some s
      | true, none => some (s.set p { FileProvider.down with alive := true, known := [none] })
      | true, some text =>
        match spec.parse text with
        | none => some s
        | some _ =>
          some (s.set p
            { FileProvider.down with alive := true, text := some text, known := [some text] })
  | .enqueue p job =>
    if (s.providers p).alive then
      some (s.set p { s.providers p with queue := (s.providers p).queue ++ [job] })
    else none
  | .begin_ p =>
    match (s.providers p).alive, (s.providers p).running, (s.providers p).queue with
    | true, none, job :: queue =>
      let s' := s.set p { s.providers p with queue }
      match job with
      | .refresh =>
        let run : FileRun := { job, stage := .read, committed := false }
        some (if (s.providers p).closed then s'.settle p run true else s'.goOn p run .read)
      | _ => some (s'.goOn p { job, stage := .mkdir, committed := false } .mkdir)
    | _, _, _ => none
  | .mkdir p ok =>
    match (s.providers p).running with
    | some ⟨job, .mkdir, committed⟩ =>
      let run : FileRun := ⟨job, .mkdir, committed⟩
      some (if ok then s.goOn p run .lock else s.settle p run false)
    | _ => none
  | .lock p outcome =>
    match (s.providers p).running with
    | some ⟨job, .lock, committed⟩ => some (s.stepLock p ⟨job, .lock, committed⟩ outcome)
    | _ => none
  | .giveUp p =>
    match (s.providers p).running with
    | some ⟨job, .lock, committed⟩ => some (s.settle p ⟨job, .lock, committed⟩ false)
    | _ => none
  | .read p readable published =>
    match (s.providers p).running with
    | some run => s.stepRead spec p run readable published
    | none => none
  | .create p ok published =>
    match (s.providers p).running with
    | some ⟨.prepareDocument, .held, committed⟩ =>
      some (s.stepCreate p ⟨.prepareDocument, .held, committed⟩ ok published)
    | _ => none
  | .write p ok =>
    match (s.providers p).running with
    | some ⟨job, .write output, committed⟩ =>
      some (s.goOn p ⟨job, .write output, committed⟩ (if ok then .rename output else .unlock false))
    | _ => none
  | .rename p ok =>
    match (s.providers p).running with
    | some ⟨.persist ns value, .rename output, committed⟩ =>
      if ok then
        some ((s.commit p output (some (ns, value.1))).goOn p
          ⟨.persist ns value, .rename output, true⟩ (.unlock true))
      else some (s.goOn p ⟨.persist ns value, .rename output, committed⟩ (.unlock false))
    | _ => none
  | .unlock p ok =>
    match (s.providers p).running with
    | some ⟨job, .unlock succeeded, committed⟩ =>
      let run : FileRun := ⟨job, .unlock succeeded, committed⟩
      some (if ok then { s.settle p run succeeded with lock := false } else s.settle p run false)
    | _ => none
  | .close p =>
    if (s.providers p).alive then some (s.set p { s.providers p with closed := true }) else none
  | .crash p =>
    some { s.set p .down with crashed := s.crashed || (s.providers p).holds }

end FileWorld

end Harness
