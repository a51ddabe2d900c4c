-- SUMMARY: The replay of the token meter over a session log (`llm/token-meter/src/index.ts`), with the price fold of `surface-fold.ts`.
import Harness.Compaction.CompactionTrace
import Harness.Llm.Assembler
import Harness.TokenMeter.Estimate

namespace Harness

structure TokenSurfaceNode where
  seq : Nat
  tokens : Nat
  deriving DecidableEq

/-- A number that can be a sequence number. -/
def Json.asNat : Json → Option Nat
  | .num (.int z) => if 0 ≤ z then some z.toNat else none
  | _ => none

/-- `op.start` and `op.end` of a logged placement. -/
def replaceBounds (op : Json) : Option Nat × Option Nat :=
  ((op.property "start").bind Json.asNat, (op.property "end").bind Json.asNat)

/-! ## The positional fold -/

/-- One surface event's placement and cost against the surface preceding it. -/
structure SurfaceTokenFold where
  tokens : Nat
  nodes : List TokenSurfaceNode
  deltaTokens : Int

def totalTokens (nodes : List TokenSurfaceNode) : Nat := (nodes.map (·.tokens)).sum

/-- `nodes.findIndex(node => node.seq === bound)`. -/
def findNode (nodes : List TokenSurfaceNode) (bound : Option Nat) : Option Nat :=
  bound.bind fun seq => nodes.findIdx? (·.seq == seq)

/-- Fold one surface event, placed by `op`, onto a priced surface. -/
def foldSurfaceTokens (nodes : List TokenSurfaceNode) (event : SessionEvent) (op : Json) :
    Except String SurfaceTokenFold :=
  let tokens := estimateEvent event
  let node : TokenSurfaceNode := { seq := event.seq, tokens }
  if op.isAppendMarker then .ok { tokens, nodes := nodes ++ [node], deltaTokens := tokens }
  else
    let bounds := replaceBounds op
    let invalid := s!"token surface: replace at seq {event.seq} has invalid current range {bounds.1}-{bounds.2}"
    match findNode nodes bounds.1, findNode nodes bounds.2 with
    | some startIdx, some endIdx =>
      if startIdx > endIdx then .error invalid
      else
        let removed := totalTokens (nodes.slice startIdx (endIdx + 1 - startIdx))
        .ok { tokens
              nodes := nodes.splice startIdx (endIdx - startIdx + 1) [node]
              deltaTokens := tokens - removed }
    | _, _ => .error invalid

/-!
# The token meter

One fold over the log: the request header, the priced surface, and the open step. The
anchor, which `measure` adds provider usage from, is left out.
-/

structure StepStart where
  turn : Nat
  step : Nat
  surfaceTokens : Int
  deriving DecidableEq

structure ReplayState where
  consumedEvents : Nat
  header : Option EpochHeader
  surface : List TokenSurfaceNode
  surfaceTokens : Int
  stepStart : Option StepStart

namespace ReplayState

def init : ReplayState :=
  { consumedEvents := 0, header := none, surface := [], surfaceTokens := 0, stepStart := none }

variable (events : List SessionEvent)

/-- Check one cited chunk of a message of `turn` and `step` and feed it to the assembler. -/
def pushSource (event : SessionEvent) (turn step : Nat)
    (seen : List Nat) (assembler : BlockAssembler) (seq : Nat) : Except String BlockAssembler :=
  let subject := s!"token meter: assistant/message at seq {event.seq}"
  if event.seq ≤ seq then .error s!"{subject} source seq {seq} is not earlier"
  else if seen.contains seq then .error s!"{subject} repeats source seq {seq}"
  else
    match (events[seq]?).map SessionEvent.data with
    | some (.assistantChunk chunkTurn chunkStep chunk) =>
      if chunkTurn ≠ turn ∨ chunkStep ≠ step then
        .error s!"{subject} source seq {seq} belongs to another step"
      else .ok (assembler.push chunk)
    | _ => .error s!"{subject} source seq {seq} is not assistant/chunk"

def pushSources (events : List SessionEvent) (event : SessionEvent) (turn step : Nat) :
    (seen : List Nat) → BlockAssembler → List Nat → Except String BlockAssembler
  | _, assembler, [] => .ok assembler
  | seen, assembler, seq :: seqs =>
    match pushSource events event turn step seen assembler seq with
    | .error e => .error e
    | .ok assembler => pushSources events event turn step (seq :: seen) assembler seqs

/-- Reassemble provider output from the cited chunks and price it. -/
def estimateProviderAssistant (event : SessionEvent)
    (turn step durableEventTokens : Nat) : Except String Nat :=
  match event.sourceEventSeqs with
  | none => .ok durableEventTokens
  | some _ => do
    let assembler ← pushSources events event turn step [] {} (citedSources event)
    let providerContent ← assembler.blocks
    .ok (if providerContent.length == 0 then 0 else estimateContent providerContent + ROLE_OVERHEAD)

/-- The open step after an event. -/
def nextStepStart (state : ReplayState) (event : SessionEvent) :
    Except String (Option StepStart) :=
  match event.data with
  | .stepStart turn step =>
    match state.stepStart with
    | some open_ =>
      .error s!"token meter: step/start at seq {event.seq} arrived before turn {open_.turn}/step {open_.step} ended"
    | none => .ok (some { turn, step, surfaceTokens := state.surfaceTokens })
  | .stepEnd turn step =>
    if state.stepStart.any fun open_ => open_.turn == turn && open_.step == step then .ok none
    else .error s!"token meter: step/end at seq {event.seq} has no matching step/start event"
  | _ => .ok state.stepStart

/-- The tokens an assistant message anchors the next measurement to. -/
def anchorSurfaceTokens (state : ReplayState)
    (header : Option EpochHeader) (event : SessionEvent) (eventTokens : Nat) :
    Except String (Option Int) :=
  match event.data with
  | .assistantMessage turn step _ usage =>
    match state.stepStart with
    | none => .error s!"token meter: assistant/message at seq {event.seq} has no matching step/start event"
    | some stepStart =>
      if stepStart.turn ≠ turn ∨ stepStart.step ≠ step then
        .error s!"token meter: assistant/message at seq {event.seq} has no matching step/start event"
      else if usage.isSome && header.isSome then
        (estimateProviderAssistant events event turn step eventTokens).map fun tokens =>
          some (stepStart.surfaceTokens + tokens)
      else .ok (some (stepStart.surfaceTokens + eventTokens))
  | _ => .ok none

/-- The surface after an event, and the change of its total. -/
def foldSurface (state : ReplayState) (event : SessionEvent) :
    Except String (Option SurfaceTokenFold) :=
  match event.surfaceOp with
  | some op =>
    if isSurfaceEvent event then (foldSurfaceTokens state.surface event op).map some else .ok none
  | none => .ok none

/-- Validate and prepare every fallible part before changing the state. `events` is the log
of the session. -/
def foldEvent (state : ReplayState) (event : SessionEvent) : Except String ReplayState := do
  let header := foldHeaderEvent state.header event
  let stepStart ← state.nextStepStart event
  let surface ← state.foldSurface event
  let _ ← anchorSurfaceTokens events state header event ((surface.map (·.tokens)).getD 0)
  .ok
    { consumedEvents := state.consumedEvents + 1
      header
      surface := (surface.map (·.nodes)).getD state.surface
      surfaceTokens := state.surfaceTokens + (surface.map (·.deltaTokens)).getD 0
      stepStart }

def replay (events : List SessionEvent) : ReplayState → List SessionEvent →
    Except String ReplayState
  | state, [] => .ok state
  | state, event :: rest =>
    match foldEvent events state event with
    | .error e => .error e
    | .ok state => replay events state rest

/-- Catch a fresh fold up to the tail of a log. A fold that stopped in an error, which a
later one repeats, never advances past it. -/
def sync : Except String ReplayState := replay events init events

end ReplayState

/-- What compaction reads off a measurement. -/
structure TokenMeasurement where
  logRevision : Nat
  surfaceTokens : Int
  nodes : List TokenSurfaceNode
  deriving DecidableEq

/-- Measure the surface of a log through its tail. -/
def measure (events : List SessionEvent) : Except String TokenMeasurement :=
  (ReplayState.sync events).map fun state =>
    { logRevision := state.consumedEvents
      surfaceTokens := state.surfaceTokens
      nodes := state.surface }

end Harness
