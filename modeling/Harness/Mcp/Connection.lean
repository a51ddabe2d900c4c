-- SUMMARY: The connection supervisor of one MCP server, from `mcp/mcp-client/src/connection.ts` and `syncTools` of `tools.ts`, between its await points.
import Mathlib.Algebra.Order.Field.Rat
import Mathlib.Data.List.Nodup
import Harness.Json.Value
import Harness.Lib.Transitions

/-!
# The connection supervisor

A generation is one client with one transport. An attempt connects a generation and lists its
tools; what fails is closed before another attempt may begin. All tool synchronisations, of
whatever generation, run one after the other.
-/

namespace Harness

/-! ## Policy -/

structure ReconnectPolicy where
  enabled : Bool
  initialDelayMs : ℚ
  maxDelayMs : ℚ
  maxAttempts : ℕ
  initial_pos : 0 < initialDelayMs
  initial_le : initialDelayMs ≤ maxDelayMs
  attempts_pos : 0 < maxAttempts

/-- A raw `reconnect` config: the keys that are no option, and the options. -/
structure ReconnectConfig where
  unknown : List String
  enabled : Option Bool
  initialDelayMs : Option ℚ
  maxDelayMs : Option ℚ
  maxAttempts : Option ℚ

def RECONNECT_DEFAULTS : ReconnectPolicy where
  enabled := true
  initialDelayMs := 500
  maxDelayMs := 30000
  maxAttempts := 10
  initial_pos := by decide +kernel
  initial_le := by decide +kernel
  attempts_pos := by decide

def MAX_TIMER_DELAY_MS : ℚ := 2147483647

/-- The one explicit resolve step from raw reconnect config to the policy the supervisor runs. -/
def resolveReconnectPolicy (config : Option ReconnectConfig) (path : String) :
    Except String ReconnectPolicy :=
  match config.bind (·.unknown.head?) with
  | some key => .error s!"{path}.{key} is not a reconnect option"
  | none =>
    let enabled := (config.bind (·.enabled)).getD RECONNECT_DEFAULTS.enabled
    let initialDelayMs := (config.bind (·.initialDelayMs)).getD RECONNECT_DEFAULTS.initialDelayMs
    let maxDelayMs := (config.bind (·.maxDelayMs)).getD RECONNECT_DEFAULTS.maxDelayMs
    let maxAttempts := (config.bind (·.maxAttempts)).getD RECONNECT_DEFAULTS.maxAttempts
    if hinitial : initialDelayMs ≤ 0 ∨ MAX_TIMER_DELAY_MS < initialDelayMs then
      .error s!"{path}.initialDelayMs must be a positive finite number no greater than 2147483647"
    else if maxDelayMs ≤ 0 ∨ MAX_TIMER_DELAY_MS < maxDelayMs then
      .error s!"{path}.maxDelayMs must be a positive finite number no greater than 2147483647"
    else if hle : maxDelayMs < initialDelayMs then
      .error s!"{path}.initialDelayMs must be less than or equal to maxDelayMs"
    else if hattempts : maxAttempts.den ≠ 1 ∨ maxAttempts.num < 1 then
      .error s!"{path}.maxAttempts must be a positive integer"
    else
      .ok {
        enabled, initialDelayMs, maxDelayMs, maxAttempts := maxAttempts.num.toNat
        initial_pos := not_le.mp fun h => hinitial (.inl h)
        initial_le := not_lt.mp hle
        attempts_pos := by omega }

/-! ## Public names -/

def MAX_PUBLIC_NAME_LENGTH : ℕ := 64

def HASH_LENGTH : ℕ := 12

/-- One of `[A-Za-z0-9_-]`. -/
def isNameUnit (u : UInt16) : Bool :=
  (65 ≤ u && u ≤ 90) || (97 ≤ u && u ≤ 122) || (48 ≤ u && u ≤ 57) || u = 95 || u = 45

/-- The model-facing public name of one tool. `sha256` digests to hex. -/
def publicToolName (sha256 : JsString → JsString) (serverName rawName : JsString) : JsString :=
  let joined := (JsString.ofString "mcp__").units ++ serverName.units ++
    (JsString.ofString "__").units ++ rawName.units
  let normalized := joined.map fun u => if isNameUnit u then u else 95
  if normalized = joined && normalized.length ≤ MAX_PUBLIC_NAME_LENGTH then ⟨normalized⟩
  else
    let hash := (sha256 ⟨serverName.units ++ [0] ++ rawName.units⟩).units.take HASH_LENGTH
    ⟨normalized.take (MAX_PUBLIC_NAME_LENGTH - HASH_LENGTH - 1) ++ [95] ++ hash⟩

/-! ## State -/

/-- Where the attempt of a generation stands. -/
inductive AttemptPhase where
  | connecting
  /-- Its own tool sync is queued or under way. -/
  | syncing
  | synced (ok : Bool)
  /-- It has failed, and closes the generation. -/
  | closing
  /-- It waits for the close signal. -/
  | waiting
  | settled
  deriving DecidableEq

structure Generation where
  startup : Bool
  /-- A transport was created; without one there is nothing that could signal its close. -/
  transport : Bool
  closed : Bool
  phase : AttemptPhase

/-- A link of the sync chain. `own` is the initial sync of an attempt. -/
inductive SyncTask where
  | sync (gen : ℕ) (strict own : Bool)
  | giveUp

structure ToolRegistration where
  id : ℕ
  name : JsString
  deriving DecidableEq

/-- What follows a loss or failure. -/
inductive Decision where
  | retry (attempt : ℕ) (delayMs : ℚ)
  | gaveUp
  | disabled

/-- The decision about a generation; whether the outage before it had ended. -/
structure Down where
  gen : ℕ
  decision : Decision
  fresh : Bool

inductive Disposal where
  | idle
  | closing (gen : ℕ)
  | waiting (gen : ℕ)
  | settling
  | draining
  | done
  deriving DecidableEq

structure Supervisor where
  policy : ReconnectPolicy
  failOnStartupError : Bool
  now : ℚ
  /-- The generations so far are those below. -/
  count : ℕ
  gens : ℕ → Generation
  /-- `client`. -/
  current : Option ℕ
  reconnectTimer : Option ℚ
  failedAttempts : ℕ
  connectedAt : Option ℚ
  syncChain : List SyncTask
  /-- The sync under way, and the public names its pages have listed. -/
  fetching : Option (SyncTask × List JsString)
  registry : List ToolRegistration
  nextId : ℕ
  disposers : List ToolRegistration
  disposal : Disposal
  /-- Ghost: newest first. -/
  downs : List Down
  /-- Ghost: every complete listing received, and of which generation. -/
  listings : List (ℕ × List JsString)

namespace Supervisor

variable (publicName : JsString → JsString) (s : Supervisor)

/-! ## Parts of the supervisor -/

variable (gen : ℕ)

/-- A generation may act only while it is the current one on a live plugin. -/
def isCurrent : Bool := s.disposal = .idle && s.current = some gen

def setGen (generation : Generation) : Supervisor :=
  { s with gens := Function.update s.gens gen generation }

def setPhase (phase : AttemptPhase) : Supervisor :=
  s.setGen gen { s.gens gen with phase }

def enqueueSync (strict own : Bool) : Supervisor :=
  { s with syncChain := s.syncChain ++ [.sync gen strict own] }

/-- The delay before a retry. -/
def delayMs (policy : ReconnectPolicy) (failedAttempts : ℕ) : ℚ :=
  min policy.maxDelayMs (policy.initialDelayMs * 2 ^ (failedAttempts - 1))

/-- A connection that stayed up past the stability window ended the previous outage. -/
def isStable : Bool :=
  s.connectedAt.any fun connectedAt => s.now - connectedAt ≥ s.policy.maxDelayMs

def scheduleReconnect : Supervisor :=
  if !s.policy.enabled then
    { s with downs := { gen, decision := .disabled, fresh := false } :: s.downs }
  else
    let failedAttempts := (if s.isStable then 0 else s.failedAttempts) + 1
    if failedAttempts > s.policy.maxAttempts then
      { s with
        connectedAt := none, failedAttempts, syncChain := s.syncChain ++ [.giveUp]
        downs := { gen, decision := .gaveUp, fresh := s.isStable } :: s.downs }
    else
      let delay := delayMs s.policy failedAttempts
      { s with
        connectedAt := none, failedAttempts, reconnectTimer := some delay
        downs := { gen, decision := .retry failedAttempts delay, fresh := s.isStable } :: s.downs }

/-- One disconnect decision per generation. -/
def generationDown : Supervisor :=
  if s.isCurrent gen then { s with current := none }.scheduleReconnect gen else s

/-- The beginning of an attempt, up to its first await: a transport that cannot be created takes it
to the close of the generation at once. -/
def connectGeneration (startup transport : Bool) : Supervisor :=
  { s with
    count := s.count + 1
    gens := Function.update s.gens s.count
      { startup, transport, closed := false, phase := if transport then .connecting else .closing }
    current := some s.count }

/-- The end of a failed attempt, whose generation has closed or not. -/
def endFailed (quiesced : Bool) : Supervisor :=
  let settled := s.setPhase gen .settled
  if !s.isCurrent gen then settled
  else if quiesced then settled.generationDown gen
  else { settled with current := none }

/-- The attempt that awaits a sync learns how it ended. -/
def settleTask (task : SyncTask) (ok : Bool) : Supervisor :=
  match task with
  | .sync gen _ true =>
    if (s.gens gen).phase = .syncing then s.setPhase gen (.synced ok) else s
  | _ => s

/-- `dispose` of every registration in the map. -/
def unregister (owned registry : List ToolRegistration) : List ToolRegistration :=
  registry.filter (· ∉ owned)

/-- Register a whole generation of tools, or none when one name is refused. -/
def registerAll (refused : JsString → Bool) : ℕ → List JsString → Option (List ToolRegistration)
  | _, [] => some []
  | id, name :: names =>
    if refused name then none
    else (registerAll refused (id + 1) names).map fun rest => { id, name } :: rest

/-- The swap phase of `syncTools`, and the assignment of its disposers: the map of a sync that
throws stays the previous one. -/
def swap (task : SyncTask) (names : List JsString) (refused : JsString → Bool) : Supervisor :=
  let kept := unregister s.disposers s.registry
  let freed := { s with registry := kept, fetching := none, nextId := s.nextId + names.length }
  match task, registerAll refused s.nextId names with
  | .sync gen _ _, some registered =>
    { freed with
      registry := kept ++ registered, disposers := registered
      listings := (gen, names) :: s.listings }.settleTask task true
  | .sync _ true _, none => freed.settleTask task false
  | _, none => { freed with disposers := [] }.settleTask task true
  | .giveUp, some _ => s

/-! ## Steps -/

inductive Act where
  /-- The `connect` of an attempt settles. -/
  | connects (gen : ℕ) (ok : Bool)
  /-- An attempt goes on after its own sync. -/
  | resumes (gen : ℕ)
  /-- The close of a failed generation returns. -/
  | closeReturns (gen : ℕ)
  /-- The wait for the close signal of a failed generation ends. -/
  | quiesces (gen : ℕ)
  /-- The transport of a generation signals its close, its server being gone. -/
  | closeSignal (gen : ℕ)
  /-- The server of a generation says that its tools have changed. -/
  | listChanged (gen : ℕ)
  /-- The next link of the sync chain begins. -/
  | syncs
  /-- A page of the listing under way arrives; the registry refuses some names. -/
  | page (tools : List JsString) (more : Bool) (refused : JsString → Bool)
  | pageFails
  /-- The reconnect timer fires; a transport can be created or not. -/
  | fires (transport : Bool)
  | clock (now : ℚ)
  | dispose
  | disposeCloses
  | disposeQuiesces
  | disposeSettles
  | disposeEnds

/-- The wait for a close signal is over: it has come, or it cannot come and the timeout has
passed. Every other signal comes within the timeout. -/
def isOver : Bool := (s.gens gen).closed || !(s.gens gen).transport

def step (s : Supervisor) : Act → Option Supervisor
  | .connects gen ok =>
    if gen < s.count && (s.gens gen).phase = .connecting then
      if !ok then some (s.setPhase gen .closing)
      else if (s.gens gen).closed then some ((s.setPhase gen .settled).generationDown gen)
      else
        some ((s.setPhase gen .syncing).enqueueSync gen
          ((s.gens gen).startup && s.failOnStartupError) true)
    else none
  | .resumes gen =>
    if gen < s.count then
      match (s.gens gen).phase with
      | .synced true =>
        let settled := s.setPhase gen .settled
        if (s.gens gen).closed then some (settled.generationDown gen)
        else if s.isCurrent gen then some { settled with connectedAt := some s.now }
        else some settled
      | .synced false => some (s.setPhase gen .closing)
      | _ => none
    else none
  | .closeReturns gen =>
    if gen < s.count && (s.gens gen).phase = .closing then
      some (if (s.gens gen).closed then s.endFailed gen true else s.setPhase gen .waiting)
    else none
  | .quiesces gen =>
    if gen < s.count && (s.gens gen).phase = .waiting && s.isOver gen then
      some (s.endFailed gen (s.gens gen).closed)
    else none
  | .closeSignal gen =>
    if gen < s.count && (s.gens gen).transport && !(s.gens gen).closed then
      let closed := s.setGen gen { s.gens gen with closed := true }
      some (if (s.gens gen).phase = .settled then closed.generationDown gen else closed)
    else none
  | .listChanged gen =>
    if gen < s.count && (s.gens gen).transport then
      some (if s.isCurrent gen then s.enqueueSync gen false false else s)
    else none
  | .syncs =>
    match s.fetching, s.syncChain with
    | none, .giveUp :: rest =>
      some { s with
        syncChain := rest, registry := unregister s.disposers s.registry, disposers := [] }
    | none, .sync gen strict own :: rest =>
      let next := { s with syncChain := rest }
      if s.isCurrent gen then some { next with fetching := some (.sync gen strict own, []) }
      else some (next.settleTask (.sync gen strict own) true)
    | _, _ => none
  | .page tools more refused =>
    match s.fetching with
    | none => none
    | some (task, names) =>
      let names := names ++ tools.map publicName
      -- A server that lists a tool more than once is refused.
      if ¬ names.Nodup then some ({ s with fetching := none }.settleTask task false)
      else if more then some { s with fetching := some (task, names) }
      else some (s.swap task names refused)
  | .pageFails =>
    match s.fetching with
    | none => none
    | some (task, _) => some ({ s with fetching := none }.settleTask task false)
  | .fires transport =>
    match s.reconnectTimer with
    | none => none
    | some _ => some ({ s with reconnectTimer := none }.connectGeneration false transport)
  | .clock now => some { s with now }
  | .dispose =>
    if s.disposal = .idle then
      some { s with
        reconnectTimer := none, current := none
        disposal := match s.current with
          | some gen => .closing gen
          | none => .settling }
    else none
  | .disposeCloses =>
    match s.disposal with
    | .closing gen =>
      some { s with disposal := if (s.gens gen).closed then .settling else .waiting gen }
    | _ => none
  | .disposeQuiesces =>
    match s.disposal with
    | .waiting gen => if s.isOver gen then some { s with disposal := .settling } else none
    | _ => none
  | .disposeSettles =>
    -- The last attempt is the one that disposal awaits.
    if s.disposal = .settling && (s.gens (s.count - 1)).phase = .settled then
      some { s with disposal := .draining }
    else none
  | .disposeEnds =>
    if s.disposal = .draining && s.syncChain.isEmpty && s.fetching.isNone then
      some { s with
        disposal := .done, registry := unregister s.disposers s.registry, disposers := [] }
    else none

/-- A supervisor that has begun its first attempt. -/
def start (policy : ReconnectPolicy) (failOnStartupError transport : Bool) : Supervisor :=
  connectGeneration
    { policy, failOnStartupError, now := 0, count := 0
      gens := fun _ => { startup := false, transport := false, closed := false, phase := .settled }
      current := none, reconnectTimer := none, failedAttempts := 0, connectedAt := none
      syncChain := [], fetching := none, registry := [], nextId := 0, disposers := []
      disposal := .idle, downs := [], listings := [] }
    true transport

end Supervisor

end Harness
