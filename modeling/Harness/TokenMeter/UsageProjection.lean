-- SUMMARY: The durable token-usage fold of `llm/token-meter/src/usage-projection.ts`.
import Harness.Lib.Doubles
import Harness.Compaction.CompactionTrace

namespace Harness

/-! ## Usage reports -/

/-- One call's usage. The buckets are disjoint; `costUsd` is absent where the provider bills
no cost of its own. -/
structure TokenUsage where
  inputTokens : Int
  outputTokens : Int
  cacheReadTokens : Option Int
  cacheWriteTokens : Option Int
  costUsd : Option ℚ
  deriving DecidableEq

/-- The double that a number denotes. -/
def Num.toDouble : Num → ℚ
  | .int z => z
  | .frac m s _ => Doubles.round (m / 10 ^ (s + 1))

/-- A token count. Counts are integers, and stay within the exact ones. -/
def Json.asCount : Json → Int
  | .num (.int z) => z
  | _ => 0

def Json.asCost : Json → ℚ
  | .num n => n.toDouble
  | _ => 0

/-- The usage a logged payload holds. -/
def TokenUsage.ofJson (usage : Json) : TokenUsage :=
  { inputTokens := ((usage.property "inputTokens").map Json.asCount).getD 0
    outputTokens := ((usage.property "outputTokens").map Json.asCount).getD 0
    cacheReadTokens := (usage.property "cacheReadTokens").map Json.asCount
    cacheWriteTokens := (usage.property "cacheWriteTokens").map Json.asCount
    costUsd := (usage.property "costUsd").map Json.asCost }

@[ext] structure TokenUsageBuckets where
  uncachedInputTokens : Int
  outputTokens : Int
  cacheReadTokens : Int
  cacheWriteTokens : Int
  deriving DecidableEq

def zeroBuckets : TokenUsageBuckets :=
  { uncachedInputTokens := 0, outputTokens := 0, cacheReadTokens := 0, cacheWriteTokens := 0 }

def bucketsFrom (usage : TokenUsage) : TokenUsageBuckets :=
  { uncachedInputTokens := usage.inputTokens
    outputTokens := usage.outputTokens
    cacheReadTokens := usage.cacheReadTokens.getD 0
    cacheWriteTokens := usage.cacheWriteTokens.getD 0 }

def bucketsEqual (left right : TokenUsageBuckets) : Bool :=
  left.uncachedInputTokens == right.uncachedInputTokens
    && left.outputTokens == right.outputTokens
    && left.cacheReadTokens == right.cacheReadTokens
    && left.cacheWriteTokens == right.cacheWriteTokens

def addReplacing (totals : TokenUsageBuckets) (previous : Option TokenUsageBuckets)
    (next : TokenUsageBuckets) : TokenUsageBuckets :=
  { uncachedInputTokens := totals.uncachedInputTokens
      - ((previous.map (·.uncachedInputTokens)).getD 0) + next.uncachedInputTokens
    outputTokens := totals.outputTokens
      - ((previous.map (·.outputTokens)).getD 0) + next.outputTokens
    cacheReadTokens := totals.cacheReadTokens
      - ((previous.map (·.cacheReadTokens)).getD 0) + next.cacheReadTokens
    cacheWriteTokens := totals.cacheWriteTokens
      - ((previous.map (·.cacheWriteTokens)).getD 0) + next.cacheWriteTokens }

/-- What a call contributes to the set a rate table still has to price. -/
def unratedFrom (usage : TokenUsage) : TokenUsageBuckets :=
  if usage.costUsd.isNone then bucketsFrom usage else zeroBuckets

def isTokenUsage (usage : Json) : Bool :=
  match usage.property "inputTokens", usage.property "outputTokens" with
  | some (.num _), some (.num _) => true
  | _, _ => false

/-- The usage a memory-formation call reports on its terminal progress flush. -/
def memoryUsageOf (event : SessionEvent) : Option TokenUsage :=
  match event.data with
  | .other type data _ =>
    if type ≠ "autobio/memory-progress" then none
    else
      match data.property "done", data.property "usage" with
      | some (.bool true), some usage => if isTokenUsage usage then some (.ofJson usage) else none
      | _, _ => none
  | _ => none

/-- The turn and step of a usage chunk or a finalized message, and the usage it reports. -/
def stepUsageOf (event : SessionEvent) : Option ((Nat × Nat) × TokenUsage) :=
  match event.data with
  | .assistantChunk turn step (.usage usage) => some ((turn, step), .ofJson usage)
  | .assistantMessage turn step _ (some usage) => some ((turn, step), .ofJson usage)
  | _ => none

/-! ## The fold -/

structure UsageSample where
  turn : Nat
  step : Nat
  buckets : TokenUsageBuckets
  /-- `buckets` or all zeros: what the sample contributes to the unrated set. -/
  unrated : TokenUsageBuckets
  /-- The billed cost, or 0 where none was reported. -/
  costUsd : ℚ
  deriving DecidableEq

structure TokenUsageState where
  totals : TokenUsageBuckets
  unratedTotals : TokenUsageBuckets
  reportedCostUsd : ℚ
  /-- Whether any sample has reported a billed cost. -/
  hasCostedSample : Bool
  last : Option UsageSample
  deriving DecidableEq

/-- The projected value. -/
structure TokenUsageProjection extends TokenUsageBuckets where
  reportedCostUsd : Option ℚ
  unratedTokens : Option TokenUsageBuckets
  deriving DecidableEq

namespace TokenUsageState

def init : TokenUsageState :=
  { totals := zeroBuckets
    unratedTotals := zeroBuckets
    reportedCostUsd := 0
    hasCostedSample := false
    last := none }

variable (state : TokenUsageState)

/-- A memory-formation call belongs to no step, so it adds without replacing. -/
def applyMemory (usage : TokenUsage) : TokenUsageState :=
  { state with
    totals := addReplacing state.totals none (bucketsFrom usage)
    unratedTotals := addReplacing state.unratedTotals none (unratedFrom usage)
    reportedCostUsd := Doubles.round (state.reportedCostUsd + usage.costUsd.getD 0)
    hasCostedSample := state.hasCostedSample || usage.costUsd.isSome }

/-- The sample that a report of `turn` and `step` replaces. -/
def previous (turn step : Nat) : Option UsageSample :=
  state.last.filter fun last => last.turn == turn && last.step == step

/-- Whether a sample already says what a report says. -/
def sameSample (previous : UsageSample) (usage : TokenUsage) : Bool :=
  bucketsEqual previous.buckets (bucketsFrom usage)
    && bucketsEqual previous.unrated (unratedFrom usage)
    && previous.costUsd == usage.costUsd.getD 0

def applyStep (turn step : Nat) (usage : TokenUsage) : TokenUsageState :=
  let previous := state.previous turn step
  if previous.any (sameSample · usage) then state
  else
    { totals := addReplacing state.totals (previous.map (·.buckets)) (bucketsFrom usage)
      unratedTotals :=
        addReplacing state.unratedTotals (previous.map (·.unrated)) (unratedFrom usage)
      reportedCostUsd := Doubles.round
        (Doubles.round (state.reportedCostUsd - (previous.map (·.costUsd)).getD 0)
          + usage.costUsd.getD 0)
      hasCostedSample := state.hasCostedSample || usage.costUsd.isSome
      last := some
        { turn, step, buckets := bucketsFrom usage, unrated := unratedFrom usage
          costUsd := usage.costUsd.getD 0 } }

def apply (event : SessionEvent) : TokenUsageState :=
  match memoryUsageOf event with
  | some usage => state.applyMemory usage
  | none =>
    match stepUsageOf event with
    | some ((turn, step), usage) => state.applyStep turn step usage
    | none => state

def view : TokenUsageProjection :=
  { toTokenUsageBuckets := state.totals
    reportedCostUsd := if state.hasCostedSample then some state.reportedCostUsd else none
    unratedTokens := if state.hasCostedSample then some state.unratedTotals else none }

end TokenUsageState

/-- The projection of a log. -/
def tokenUsage (log : List SessionEvent) : TokenUsageProjection :=
  (log.foldl TokenUsageState.apply .init).view

/-! ## Buckets add up -/

instance : Zero TokenUsageBuckets := ⟨zeroBuckets⟩

instance : Add TokenUsageBuckets where
  add a b :=
    { uncachedInputTokens := a.uncachedInputTokens + b.uncachedInputTokens
      outputTokens := a.outputTokens + b.outputTokens
      cacheReadTokens := a.cacheReadTokens + b.cacheReadTokens
      cacheWriteTokens := a.cacheWriteTokens + b.cacheWriteTokens }

instance : Neg TokenUsageBuckets where
  neg a :=
    { uncachedInputTokens := -a.uncachedInputTokens
      outputTokens := -a.outputTokens
      cacheReadTokens := -a.cacheReadTokens
      cacheWriteTokens := -a.cacheWriteTokens }

namespace TokenUsageBuckets

instance : AddCommGroup TokenUsageBuckets where
  add_assoc a b c := by ext <;> exact add_assoc _ _ _
  zero_add a := by ext <;> exact zero_add _
  add_zero a := by ext <;> exact add_zero _
  add_comm a b := by ext <;> exact add_comm _ _
  neg_add_cancel a := by ext <;> exact neg_add_cancel _
  nsmul := nsmulRec
  zsmul := zsmulRec

end TokenUsageBuckets

@[simp] theorem bucketsEqual_iff {left right : TokenUsageBuckets} :
    bucketsEqual left right = true ↔ left = right := by
  simp [bucketsEqual, TokenUsageBuckets.ext_iff, and_assoc]

theorem addReplacing_eq (totals : TokenUsageBuckets) (previous : Option TokenUsageBuckets)
    (next : TokenUsageBuckets) :
    addReplacing totals previous next = totals - previous.getD 0 + next := by
  cases previous with
  | none =>
    rw [Option.getD_none, sub_zero]
    ext <;> exact congrArg (· + _) (sub_zero _)
  | some previous =>
    rw [Option.getD_some, sub_eq_add_neg]
    ext <;> exact congrArg (· + _) (sub_eq_add_neg _ _)

end Harness
