-- SUMMARY: The turn and step loops of `core/agent-loop/src/agent.ts`.
import Harness.AgentLoop.ToolCalls

/-!
# The driver

A turn opens, takes one step after the other and closes with a reason. A step is one model
call with the tool calls of its answer. Whatever the model, the tools and the interceptors
answer is a choice of the surroundings.
-/

namespace Harness

structure AgentOptions where
  id : JsString
  provider : Option JsString
  model : Option JsString
  maxTokens : Option Num

/-- How a step ended: its answer was cut off, called no tools, or its calls were executed. -/
inductive StepOutcome where
  | maxTokens
  | noCalls
  | calls (concluded : Bool)
  deriving DecidableEq

/-- What `step` returns: the reason to end the turn, if any. -/
def StepOutcome.ends : StepOutcome → Option TurnEndReason
  | .maxTokens => some .maxTokens
  | .noCalls => some .completed
  | .calls concluded => if concluded then some .completed else none

inductive PreparedStep where
  | reject
  | enter (messages : List Draft) (assembly : PromptAssembly)

/-- A closed turn: the answer `turn` gives, the reason it closed with, and how each of its
steps ended. -/
structure TurnReport where
  continues : Bool
  reason : TurnEndReason
  steps : List StepOutcome

/-- How the loop of a turn was left: by its `return false` or by a `break`. -/
structure TurnExit where
  returned : Bool
  reason : TurnEndReason
  steps : List StepOutcome

namespace Driver

open LoopCode

/-! ## Failures -/

/-- `errorChain` of a thrown value; a cancel cause is a plain object. -/
def Thrown.chain : Thrown → JsString
  | .llm failure => failure.message
  | .cause _ => "[object Object]"
  | .error chain => chain

/-- What `turn/end` says of a failure. -/
def Thrown.failure : Thrown → LlmFailure
  | .llm failure => failure
  | error =>
    { message := Thrown.chain error, code := "UNKNOWN", status := none
      providerRetryAfterMs := none, requestId := none }

/-- `throwError`: report a failure, then throw it. -/
def throwError_ {α : Type} (error : Thrown) : LoopCode α := do
  write (.reportError error)
  throw error

/-- An append whose failure is reported. -/
def logReporting (data : EventData) : LoopCode Unit :=
  Program.settle (log data) fun
    | .ok _ => pure ()
    | .error error => throwError_ error

/-! ## Requests -/

/-- Remove adapter-derived values before plugins propose the next request config. -/
def requestProposal (header : EpochHeader) : LlmCallConfig :=
  match header.adapterDefaults with
  | none => header.config
  | some defaults =>
    { header.config with
      reasoningEffort := if defaults.reasoningEffort then none else header.config.reasoningEffort
      maxTokens := if defaults.maxTokens then none else header.config.maxTokens }

variable (options : AgentOptions)

/-- The config a loop instance starts from: its declared route, with an explicit effort
owned by that exact model. -/
def declaredConfig (persisted : Option EpochHeader) : LlmCallConfig :=
  let provider := options.provider.getD ⟨[]⟩
  let model := options.model.getD ⟨[]⟩
  let owned := persisted.filter fun header =>
    header.config.provider = provider && header.config.model = model
      && !header.adapterDefaults.any (·.reasoningEffort)
  { provider, model, reasoningEffort := owned.bind (·.config.reasoningEffort)
    maxTokens := options.maxTokens }

/-- Bind a proposed config to its adapter registration; middleware may serve a route that
has none. -/
def prepareCall (proposed : LlmCallConfig) : LoopCode (LlmCallConfig × Option PreparedLlmCall) := do
  match ← ask (.prepareCall proposed) with
  | .ok call => pure (call.config, some call)
  | .error (.llm failure) =>
    if failure.code = "NO_ADAPTER" then pure (proposed, none) else throw (.llm failure)
  | .error error => throw error

/-- Log the request header that is to be used when it differs from the folded one. -/
def logHeader (header : EpochHeader) : LoopCode Unit := do
  let baseline ← session .requestHeader
  if ← read .requestHeaderLogged then
    match baseline with
    | some baseline =>
      if headerEquals baseline header then pure () else log (.requestHeader header .change)
    | none => log (.requestHeader header .change)
  else
    log (.requestHeader header (if baseline.isNone then .initial else .resume))
    write .setRequestHeaderLogged

/-- Log the resolved route metadata when they differ from the last ones. -/
def logContext (context : RequestContext) : LoopCode Unit := do
  let previous ← session .requestContext
  if previous = some context then pure () else log (.requestContext context)

/-- The config that plugins are shown: a later request of the instance starts from the
logged header. -/
def seedConfig : LoopCode LlmCallConfig := do
  let persisted ← session .requestHeader
  if ← read .requestHeaderLogged then
    match persisted with
    | some header => pure (requestProposal header)
    | none => missing
  else pure (declaredConfig options persisted)

def requireRoute (proposed : LlmCallConfig) : LoopCode Unit :=
  if proposed.provider.units.length = 0 || proposed.model.units.length = 0 then
    throw (.error (s!"agent \"{options.id}\" has no provider/model: set AgentOptions.provider and " ++
      "AgentOptions.model or supply both via the agent/request waterfall"))
  else pure ()

variable (at_ : StepPosition)

/-- Compose one frozen request and bind it to the adapter registration that resolved its
exact-model defaults. -/
def buildRequest (assembly : PromptAssembly)
    (messages : List Message) : LoopCode (GenerateOptions × Option PreparedLlmCall) := do
  let seed ← seedConfig options
  let proposed ← ask (.request at_.turn at_.step seed) >>= orThrow
  throwIfAborted
  requireRoute options proposed
  let (config, preparedCall) ← prepareCall proposed
  throwIfAborted
  let header := canonicalHeader
    { config, adapterDefaults := preparedCall.map (·.adapterDefaults)
      system := some assembly.system, tools := some assembly.tools }
  logHeader header
  logContext
    { provider := config.provider, model := config.model
      contextWindow := preparedCall.bind (·.contextWindow) }
  throwIfAborted
  pure ({ config := header.config, messages, system := header.system, tools := header.tools },
    preparedCall)

/-! ## Steps -/

/-- Claim the inbox, assemble the prompt and let interceptors decide on the step. -/
def preStep (target : InboxTarget) (at_ : StepPosition) : LoopCode PreparedStep := do
  let claimed ← perform (.claim target at_.turn) >>= orThrowText
  let assembly ← ask .assemble >>= orThrow
  throwIfAborted
  let context ← ask .project
  let decision ← ask (.preStep claimed context at_.turn at_.step) >>= orThrow
  throwIfAborted
  match decision with
  | .reject => pure .reject
  | .enter messages => pure (.enter messages assembly)

def appendMessages : List Draft → LoopCode Unit
  | [] => pure ()
  | draft :: rest => do
    let payload : Payload :=
      if draft.lossless then .lossless (.userMessage draft.message) else .lossy "user/message"
    let _ ← append payload (some { sourceEventSeqs := none })
    appendMessages rest

/-- Log and assemble the chunks of one stream. -/
def receive (at_ : StepPosition) : Nat → List Int → BlockAssembler →
    LoopCode (List Int × BlockAssembler)
  | 0, _, _ => outOfFuel
  | fuel + 1, chunkSeqs, assembler => do
    match ← ask .nextChunk >>= orThrow with
    | none => pure (chunkSeqs, assembler)
    | some draft =>
      throwIfAborted
      let payload : Payload :=
        if draft.lossless then .lossless (.assistantChunk at_.turn at_.step draft.chunk)
        else .lossy "assistant/chunk"
      let event ← append payload none
      receive at_ fuel (chunkSeqs ++ [(event.seq : Int)]) (assembler.push draft.chunk)

/-- Log the model's answer and execute its tool calls. -/
def finishStep (request : GenerateOptions) (chunkSeqs : List Int)
    (assembler : BlockAssembler) : LoopCode StepOutcome := do
  let content ← orThrowText assembler.blocks
  let id ← ask .messageId
  let message : AssistantMessage :=
    { id, content
      source :=
        { provider := request.config.provider, model := request.config.model
          replayState := assembler.replayState } }
  let _ ← append (.lossless (.assistantMessage at_.turn at_.step message assembler.usage))
    (some { sourceEventSeqs := some chunkSeqs })
  if assembler.finish = .maxTokens then pure .maxTokens
  else
    let toolCalls := content.filterMap (·.toolCall?)
    if toolCalls.isEmpty then pure .noCalls
    else
      let concluded ← ToolCalls.executeToolCalls at_ toolCalls
      pure (.calls concluded)

/-- Ask interceptors about a failed request, which is retried or thrown. -/
def retryRequest (provider : JsString) (failure : LlmFailure) : LoopCode Unit := do
  let retry ← ask (.requestError at_.turn at_.step provider failure) >>= orThrow
  throwIfAborted
  if retry then pure () else throw failure.thrown

/-- One step: model calls until one is not retried, then its answer. -/
def step (options : AgentOptions) (at_ : StepPosition) (assembly : PromptAssembly) :
    Nat → LoopCode StepOutcome
  | 0 => outOfFuel
  | fuel + 1 => do
    let messages ← session .deriveMessages >>= orThrowText
    let (request, preparedCall) ← buildRequest options at_ assembly messages
    ask (.stream request preparedCall) >>= orThrow
    throwIfAborted
    let (chunkSeqs, assembler) ← receive at_ fuel [] {}
    throwIfAborted
    match assembler.finish with
    | .error failure | .aborted failure =>
      retryRequest at_ request.config.provider failure
      step options at_ assembly fuel
    | _ => finishStep at_ request chunkSeqs assembler

/-! ## Turns -/

/-- The body of a step between its start and its end, which is logged in any case. -/
def stepWithin (assembly : PromptAssembly)
    (messages : List Draft) (fuel : Nat) : LoopCode StepOutcome :=
  Program.settle
    (do
      throwIfAborted
      appendMessages messages
      throwIfAborted
      step options at_ assembly fuel)
    fun result => do
      log (.stepEnd at_.turn at_.step)
      orThrow result

/-- Start a step, enter with its messages and take it. -/
def takeStep (assembly : PromptAssembly)
    (messages : List Draft) (fuel : Nat) : LoopCode StepOutcome := do
  throwIfAborted
  log (.stepStart at_.turn at_.step)
  write (.setStep at_.step)
  stepWithin options at_ assembly messages fuel

/-- `max-tokens` is sticky: a later step does not downgrade the turn outcome. -/
def carry (turnEnds : Option TurnEndReason) (stepEnd : Option TurnEndReason) : Option TurnEndReason :=
  if turnEnds = some .maxTokens then turnEnds else stepEnd

/-- Whether the turn is over: it has a reason to end and no input waits for a next step. -/
def isOver (turnEnds : Option TurnEndReason) : LoopCode Bool := do
  let nextStep ← read .nextStep
  pure (turnEnds.isSome && nextStep.isEmpty)

/-- Let interceptors act before the turn stops; they may send input for a next step. -/
def stopping (turn : Nat) (turnEnds : Option TurnEndReason) : LoopCode Unit := do
  if ← isOver turnEnds then
    ask (.turnStopping turn) >>= orThrow
    throwIfAborted
  else pure ()

def turnLoop (options : AgentOptions) :
    Nat → Option TurnEndReason → InboxTarget → List StepOutcome → LoopCode TurnExit
  | 0, _, _, _ => outOfFuel
  | fuel + 1, turnEnds, target, steps => do
    throwIfAborted
    match ← read .position with
    | none => missing
    | some (turn, last) =>
      let at_ : StepPosition := { turn, step := last + 1 }
      match ← preStep target at_ with
      | .reject => pure { returned := true, reason := .blocked, steps }
      | .enter messages assembly =>
        match turnEnds, messages with
        | some reason, [] => pure { returned := false, reason, steps }
        | _, _ =>
          if last = 0 && messages.isEmpty then
            pure { returned := true, reason := .completed, steps }
          else
            let outcome ← takeStep options at_ assembly messages fuel
            let turnEnds := carry turnEnds outcome.ends
            let steps := steps ++ [outcome]
            throwIfAborted
            stopping turn turnEnds
            match turnEnds, ← isOver turnEnds with
            | some reason, true => pure { returned := false, reason, steps }
            | _, _ => turnLoop options fuel turnEnds .nextStep steps

/-- The `catch` of a turn: the reason a thrown error closes it with. -/
def failedReason (error : Thrown) : LoopCode TurnEndReason := do
  match ← read .reason with
  | some cause => pure (.aborted cause)
  | none =>
    write (.reportError error)
    pure (.error (Thrown.failure error))

/-- Open one turn, run its steps and close it. -/
def turn (options : AgentOptions) (fuel : Nat) : LoopCode TurnReport := do
  match ← read .position with
  | none => throwError_ (.error s!"agent \"{options.id}\": turn without driver reservation")
  | some (lastTurn, _) =>
    throwIfAborted
    let turn := lastTurn + 1
    logReporting (.turnStart turn)
    write (.setTurn turn)
    Program.settle (turnLoop options fuel none .nextTurn []) fun
      | .error error => do
        let reason ← failedReason error
        logReporting (.turnEnd turn reason)
        throw error
      | .ok exit => do
        logReporting (.turnEnd turn exit.reason)
        if exit.returned then
          pure { continues := false, reason := exit.reason, steps := exit.steps }
        else if ← read .hasPending then
          write .renewAbort
          pure { continues := true, reason := exit.reason, steps := exit.steps }
        else pure { continues := false, reason := exit.reason, steps := exit.steps }

end Driver

end Harness
