-- SUMMARY: What a step of the driver asks for: it neither closes its turn nor moves its position.
import Harness.AgentLoop.Driver
import Harness.AgentLoop.ToolCallsOrder

namespace Harness

open Program hiding ask

def Payload.closesTurn : Payload → Bool
  | .lossless (.turnEnd ..) => true
  | _ => false

/-- An operation that neither closes a turn nor moves the driver's position. -/
def LoopOp.inTurn : LoopOp → Bool
  | .append payload _ => !payload.closesTurn
  | .write (.setTurn _) | .write (.setStep _) | .write .renewAbort => false
  | _ => true

namespace LoopCode

variable {α β : Type}

/-- Code within one step of a turn. -/
abbrev InTurn (p : LoopCode α) : Prop := Throwing.Within (fun op => op.inTurn = true) p

theorem inTurn_pure (a : α) : InTurn (pure a) := within_pure a

theorem inTurn_throw (e : Thrown) : InTurn (throw e : LoopCode α) := within_throw e

theorem inTurn_bind {p : LoopCode α} {f : α → LoopCode β} (hp : InTurn p) (hf : ∀ a, InTurn (f a)) :
    InTurn (p >>= f) := within_bind hp hf

theorem inTurn_perform {op : LoopOp} (h : op.inTurn = true) : InTurn (perform op) := within_ask h

theorem inTurn_read (r : LoopRead) : InTurn (read r) := inTurn_perform rfl

theorem inTurn_session (r : SessionRead) : InTurn (session r) := inTurn_perform rfl

theorem inTurn_query (q : LoopQuery) : InTurn (ask q) := inTurn_perform rfl

theorem inTurn_orThrow (x : Except Thrown α) : InTurn (orThrow x) := by
  cases x with
  | ok a => exact inTurn_pure a
  | error e => exact inTurn_throw e

theorem inTurn_orThrowText (x : Except String α) : InTurn (orThrowText x) := by
  cases x with
  | ok a => exact inTurn_pure a
  | error e => exact inTurn_throw _

theorem inTurn_throwIfAborted : InTurn throwIfAborted := by
  refine inTurn_bind (inTurn_read _) fun reason => ?_
  cases reason with
  | none => exact inTurn_pure _
  | some cause => exact inTurn_throw _

theorem inTurn_append {payload : Payload} (surfaced : Option Surfaced)
    (h : payload.closesTurn = false) : InTurn (append payload surfaced) :=
  inTurn_bind (inTurn_perform (by simp [LoopOp.inTurn, h])) inTurn_orThrowText

theorem inTurn_log {data : EventData} (h : (Payload.lossless data).closesTurn = false) :
    InTurn (log data) :=
  inTurn_bind (inTurn_append none h) fun _ => inTurn_pure _

theorem inTurn_missing : InTurn (missing : LoopCode α) :=
  inTurn_bind (inTurn_perform rfl) fun x => nomatch x

theorem inTurn_outOfFuel : InTurn (outOfFuel : LoopCode α) :=
  inTurn_bind (inTurn_perform rfl) fun x => nomatch x

end LoopCode

/-! ## The scheduler -/

namespace ToolCalls

open LoopCode

variable (at_ : StepPosition)

theorem inTurn_appendToolCall (block : ToolCallBlock) : InTurn (appendToolCall at_ block) :=
  inTurn_bind (inTurn_append none rfl) fun _ => inTurn_pure _

theorem inTurn_appendToolResult (block : ToolCallBlock) (result : ToolExecutionResult)
    (callSeq : Int) : InTurn (appendToolResult at_ block result callSeq) := by
  refine inTurn_bind (inTurn_query _) fun id => inTurn_bind (inTurn_append _ ?_) fun _ => inTurn_pure _
  unfold toolResultPayload
  split <;> rfl

theorem inTurn_appendSkippedToolCalls (calls : List PlannedCall) :
    InTurn (appendSkippedToolCalls at_ calls) := by
  induction calls with
  | nil => exact inTurn_pure _
  | cons call calls ih =>
    refine inTurn_bind ?_ fun _ => ih
    exact inTurn_bind (inTurn_appendToolCall at_ _) fun _ => inTurn_appendToolResult at_ _ _ _

theorem inTurn_throwSchedulerFailure : InTurn throwSchedulerFailure := by
  refine inTurn_bind (inTurn_read _) fun failure => ?_
  cases failure with
  | none => exact inTurn_pure _
  | some error => exact inTurn_throw _

theorem inTurn_acceptContexts (contexts : List Draft) : InTurn (acceptContexts contexts) := by
  induction contexts with
  | nil => exact inTurn_pure _
  | cons context contexts ih =>
    exact inTurn_bind (inTurn_bind (inTurn_perform rfl) inTurn_orThrowText) fun _ => ih

theorem inTurn_finalized (slot : Slot) : InTurn (finalized slot) := by
  unfold finalized
  split
  · exact inTurn_bind (inTurn_query _) inTurn_orThrow
  · exact inTurn_bind (inTurn_query _) inTurn_orThrow

theorem inTurn_commitReady (calls : List PlannedCall) (st : GroupState) :
    InTurn (commitReady at_ calls st) := by
  induction calls generalizing st with
  | nil => exact inTurn_pure _
  | cons call calls ih =>
    refine inTurn_bind (inTurn_read _) fun slot => ?_
    cases slot with
    | none => exact inTurn_pure _
    | some slot =>
      refine inTurn_bind (inTurn_finalized _) fun result => ?_
      refine inTurn_bind (inTurn_appendToolResult at_ _ _ _) fun _ => ?_
      exact inTurn_bind (inTurn_acceptContexts _) fun _ => ih _

theorem inTurn_startCall (mode : ToolExecutionMode) (index : Nat) (call : PlannedCall)
    (st : GroupState) : InTurn (startCall at_ mode index call st) := by
  refine inTurn_bind (inTurn_appendToolCall at_ _) fun callSeq => ?_
  refine inTurn_bind (inTurn_bind (inTurn_query _) inTurn_orThrow) fun preparation => ?_
  refine inTurn_bind inTurn_throwSchedulerFailure fun _ => ?_
  cases preparation with
  | dispatch => exact inTurn_bind (inTurn_perform rfl) fun _ => inTurn_pure _
  | postResult result => exact inTurn_bind (inTurn_perform rfl) fun _ => inTurn_pure _
  | finalResult result => exact inTurn_bind (inTurn_perform rfl) fun _ => inTurn_pure _

theorem inTurn_formsBarrier (mode : ToolExecutionMode) (call : PlannedCall) (st : GroupState) :
    InTurn (formsBarrier mode call st) := by
  unfold formsBarrier
  split
  · exact inTurn_bind (inTurn_query _) fun _ => inTurn_pure _
  · exact inTurn_pure _

theorem inTurn_fillPool (mode : ToolExecutionMode) (limit : Nat) (group calls : List PlannedCall)
    (st : GroupState) : InTurn (fillPool at_ mode limit group calls st) := by
  induction calls generalizing st with
  | nil => exact inTurn_pure _
  | cons call calls ih =>
    unfold fillPool
    split
    · exact inTurn_pure _
    refine inTurn_bind (inTurn_read _) fun size => ?_
    split
    · refine inTurn_bind (inTurn_formsBarrier _ _ _) fun barrier => ?_
      split
      · exact inTurn_pure _
      refine inTurn_bind (inTurn_startCall at_ _ _ _ _) fun st => ?_
      refine inTurn_bind inTurn_throwSchedulerFailure fun _ => ?_
      refine inTurn_bind (inTurn_commitReady at_ _ _) fun st => ?_
      refine inTurn_bind inTurn_throwSchedulerFailure fun _ => ?_
      exact inTurn_bind (inTurn_read _) fun reason => ih _
    · exact inTurn_pure _

theorem inTurn_drain (mode : ToolExecutionMode) (limit : Nat) (group : List PlannedCall)
    (fuel : Nat) (st : GroupState) : InTurn (drain at_ mode limit group fuel st) := by
  induction fuel generalizing st with
  | zero => exact inTurn_outOfFuel
  | succ fuel ih =>
    refine inTurn_bind (inTurn_read _) fun size => ?_
    split
    · refine inTurn_bind (inTurn_query _) fun settledIndex => ?_
      refine inTurn_bind (inTurn_perform rfl) fun _ => ?_
      refine inTurn_bind inTurn_throwSchedulerFailure fun _ => ?_
      refine inTurn_bind (inTurn_commitReady at_ _ _) fun st => ?_
      refine inTurn_bind inTurn_throwSchedulerFailure fun _ => ?_
      refine inTurn_bind (inTurn_read _) fun reason => ?_
      exact inTurn_bind (inTurn_fillPool at_ _ _ _ _ _) fun st => ih _
    · exact inTurn_pure _

theorem inTurn_runGroup (group : List PlannedCall) (mode : ToolExecutionMode) :
    InTurn (runGroup at_ group mode) := by
  refine inTurn_bind (inTurn_query _) fun limit => ?_
  refine inTurn_bind (inTurn_perform rfl) fun _ => ?_
  refine inTurn_bind (inTurn_read _) fun reason => ?_
  refine inTurn_bind (within_settle ?_ fun result => ?_) fun st => ?_
  · exact inTurn_bind (inTurn_fillPool at_ _ _ _ _ _) fun st => inTurn_drain at_ _ _ _ _ _
  · cases result with
    | ok st => exact inTurn_pure _
    | error error =>
      refine inTurn_bind (inTurn_perform rfl) fun _ => ?_
      refine inTurn_bind (inTurn_query _) fun _ => ?_
      refine inTurn_bind (inTurn_read _) fun failure => ?_
      cases failure with
      | none => exact inTurn_missing
      | some error => exact inTurn_throw _
  · split
    · exact inTurn_bind (inTurn_appendSkippedToolCalls at_ _) fun _ => inTurn_pure _
    split
    · exact inTurn_throw _
    · exact inTurn_pure _

theorem inTurn_runGroups (fuel : Nat) (calls : List PlannedCall) (concluded : Bool) :
    InTurn (runGroups at_ fuel calls concluded) := by
  induction fuel generalizing calls concluded with
  | zero =>
    cases calls with
    | nil => exact inTurn_pure _
    | cons first others => exact inTurn_outOfFuel
  | succ fuel ih =>
    cases calls with
    | nil => exact inTurn_pure _
    | cons first others =>
      refine inTurn_bind (inTurn_query _) fun mode => ?_
      refine inTurn_bind (inTurn_runGroup at_ _ _) fun outcome => ?_
      split
      · exact inTurn_bind (inTurn_appendSkippedToolCalls at_ _) fun _ => inTurn_pure _
      · exact ih _ _

theorem inTurn_executeToolCalls (toolCalls : List ToolCallBlock) :
    InTurn (executeToolCalls at_ toolCalls) := inTurn_runGroups at_ _ _ _

end ToolCalls

/-! ## The driver -/

namespace Driver

open LoopCode

variable {options : AgentOptions} {at_ : StepPosition} {assembly : PromptAssembly}

theorem inTurn_preStep (target : InboxTarget) : InTurn (preStep target at_) := by
  refine inTurn_bind (inTurn_bind (inTurn_perform rfl) inTurn_orThrowText) fun claimed => ?_
  refine inTurn_bind (inTurn_bind (inTurn_query _) inTurn_orThrow) fun assembly => ?_
  refine inTurn_bind inTurn_throwIfAborted fun _ => ?_
  refine inTurn_bind (inTurn_query _) fun context => ?_
  refine inTurn_bind (inTurn_bind (inTurn_query _) inTurn_orThrow) fun decision => ?_
  refine inTurn_bind inTurn_throwIfAborted fun _ => ?_
  cases decision with
  | reject => exact inTurn_pure _
  | enter messages => exact inTurn_pure _

theorem inTurn_prepareCall (proposed : LlmCallConfig) : InTurn (prepareCall proposed) := by
  refine inTurn_bind (inTurn_query _) fun result => ?_
  match result with
  | .ok prepared => exact inTurn_pure _
  | .error (.llm failure) =>
    simp only
    split
    · exact inTurn_pure _
    · exact inTurn_throw _
  | .error (.cause _) => exact inTurn_throw _
  | .error (.error _) => exact inTurn_throw _

theorem inTurn_logHeader (header : EpochHeader) : InTurn (logHeader header) := by
  refine inTurn_bind (inTurn_session _) fun baseline => ?_
  refine inTurn_bind (inTurn_read _) fun logged => ?_
  split
  · cases baseline with
    | none => exact inTurn_log rfl
    | some baseline =>
      simp only
      split
      · exact inTurn_pure _
      · exact inTurn_log rfl
  · exact inTurn_bind (inTurn_log rfl) fun _ => inTurn_perform rfl

theorem inTurn_logContext (context : RequestContext) : InTurn (logContext context) := by
  refine inTurn_bind (inTurn_session _) fun previous => ?_
  split
  · exact inTurn_pure _
  · exact inTurn_log rfl

theorem inTurn_seedConfig : InTurn (seedConfig options) := by
  refine inTurn_bind (inTurn_session _) fun persisted => ?_
  refine inTurn_bind (inTurn_read _) fun logged => ?_
  split
  · cases persisted with
    | none => exact inTurn_missing
    | some header => exact inTurn_pure _
  · exact inTurn_pure _

theorem inTurn_requireRoute (proposed : LlmCallConfig) : InTurn (requireRoute options proposed) := by
  unfold requireRoute
  split
  · exact inTurn_throw _
  · exact inTurn_pure _

theorem inTurn_buildRequest (messages : List Message) :
    InTurn (buildRequest options at_ assembly messages) := by
  refine inTurn_bind inTurn_seedConfig fun seed => ?_
  refine inTurn_bind (inTurn_bind (inTurn_query _) inTurn_orThrow) fun proposed => ?_
  refine inTurn_bind inTurn_throwIfAborted fun _ => ?_
  refine inTurn_bind (inTurn_requireRoute proposed) fun _ => ?_
  refine inTurn_bind (inTurn_prepareCall proposed) fun bound => ?_
  refine inTurn_bind inTurn_throwIfAborted fun _ => ?_
  refine inTurn_bind (inTurn_logHeader _) fun _ => ?_
  refine inTurn_bind (inTurn_logContext _) fun _ => ?_
  exact inTurn_bind inTurn_throwIfAborted fun _ => inTurn_pure _

theorem inTurn_appendMessages (messages : List Draft) : InTurn (appendMessages messages) := by
  induction messages with
  | nil => exact inTurn_pure _
  | cons draft rest ih =>
    refine inTurn_bind (inTurn_append _ ?_) fun _ => ih
    split <;> rfl

theorem inTurn_receive (fuel : Nat) (chunkSeqs : List Int) (assembler : BlockAssembler) :
    InTurn (receive at_ fuel chunkSeqs assembler) := by
  induction fuel generalizing chunkSeqs assembler with
  | zero => exact inTurn_outOfFuel
  | succ fuel ih =>
    refine inTurn_bind (inTurn_bind (inTurn_query _) inTurn_orThrow) fun chunk => ?_
    cases chunk with
    | none => exact inTurn_pure _
    | some draft =>
      refine inTurn_bind inTurn_throwIfAborted fun _ => ?_
      refine inTurn_bind (inTurn_append _ ?_) fun event => ih _ _
      split <;> rfl

theorem inTurn_finishStep (request : GenerateOptions) (chunkSeqs : List Int)
    (assembler : BlockAssembler) : InTurn (finishStep at_ request chunkSeqs assembler) := by
  refine inTurn_bind (inTurn_orThrowText _) fun content => ?_
  refine inTurn_bind (inTurn_query _) fun id => ?_
  refine inTurn_bind (inTurn_append _ rfl) fun _ => ?_
  split
  · exact inTurn_pure _
  simp only
  split
  · exact inTurn_pure _
  · exact inTurn_bind (ToolCalls.inTurn_executeToolCalls at_ _) fun _ => inTurn_pure _

theorem inTurn_retryRequest (provider : JsString) (failure : LlmFailure) :
    InTurn (retryRequest at_ provider failure) := by
  refine inTurn_bind (inTurn_bind (inTurn_query _) inTurn_orThrow) fun retry => ?_
  refine inTurn_bind inTurn_throwIfAborted fun _ => ?_
  split
  · exact inTurn_pure _
  · exact inTurn_throw _

theorem inTurn_step (fuel : Nat) : InTurn (step options at_ assembly fuel) := by
  induction fuel with
  | zero => exact inTurn_outOfFuel
  | succ fuel ih =>
    refine inTurn_bind (inTurn_bind (inTurn_session _) inTurn_orThrowText) fun messages => ?_
    refine inTurn_bind (inTurn_buildRequest _) fun built => ?_
    obtain ⟨sent, prepared⟩ := built
    refine inTurn_bind (inTurn_bind (inTurn_query _) inTurn_orThrow) fun _ => ?_
    refine inTurn_bind inTurn_throwIfAborted fun _ => ?_
    refine inTurn_bind (inTurn_receive _ _ _) fun received => ?_
    refine inTurn_bind inTurn_throwIfAborted fun _ => ?_
    split
    · exact inTurn_bind (inTurn_retryRequest _ _) fun _ => ih
    · exact inTurn_bind (inTurn_retryRequest _ _) fun _ => ih
    · exact inTurn_finishStep _ _ _

theorem inTurn_stepBody (messages : List Draft) (fuel : Nat) :
    InTurn (do
      throwIfAborted
      appendMessages messages
      throwIfAborted
      step options at_ assembly fuel) := by
  refine inTurn_bind inTurn_throwIfAborted fun _ => ?_
  refine inTurn_bind (inTurn_appendMessages _) fun _ => ?_
  exact inTurn_bind inTurn_throwIfAborted fun _ => inTurn_step _

theorem inTurn_stepWithin (messages : List Draft) (fuel : Nat) :
    InTurn (stepWithin options at_ assembly messages fuel) := by
  refine within_settle (inTurn_stepBody messages fuel) fun result => ?_
  exact inTurn_bind (inTurn_log rfl) fun _ => inTurn_orThrow _

theorem inTurn_isOver (turnEnds : Option TurnEndReason) : InTurn (isOver turnEnds) :=
  inTurn_bind (inTurn_read _) fun _ => inTurn_pure _

theorem inTurn_stopping (turn : Nat) (turnEnds : Option TurnEndReason) :
    InTurn (stopping turn turnEnds) := by
  refine inTurn_bind (inTurn_isOver _) fun stops => ?_
  split
  · exact inTurn_bind (inTurn_bind (inTurn_query _) inTurn_orThrow) fun _ => inTurn_throwIfAborted
  · exact inTurn_pure _

end Driver

end Harness
