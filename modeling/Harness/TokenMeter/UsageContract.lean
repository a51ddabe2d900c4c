-- SUMMARY: The token-usage projection against the sum over distinct steps, and when a billed cost is noticed.
import Harness.Lib.LatestSum
import Harness.TokenMeter.UsageProjection

/-!
# Token usage

A log's step reports carry a turn and a step, and the last report of a step counts. The
fold holds one replaceable sample, which suffices where the reports of a step are adjacent.
It returns early on a report that its sample already says, and then misses that the report
bills a cost of zero.
-/

namespace Harness

open List

/-! ## The reference sums -/

def stepReports (log : List SessionEvent) : List ((Nat × Nat) × TokenUsage) :=
  log.filterMap stepUsageOf

/-- The terminal reports of memory-formation calls. -/
def memoryReports (log : List SessionEvent) : List TokenUsage := log.filterMap memoryUsageOf

/-- What the last report of each step and every memory-formation report are worth. -/
def usageSum (worth : TokenUsage → TokenUsageBuckets) (log : List SessionEvent) :
    TokenUsageBuckets :=
  LatestSum.total worth (stepReports log) + ((memoryReports log).map worth).sum

/-- Some sample reports a billed cost. -/
def SomeCosted (log : List SessionEvent) : Prop :=
  (∃ usage ∈ memoryReports log, usage.costUsd.isSome)
    ∨ ∃ report ∈ stepReports log, report.2.costUsd.isSome

theorem unratedFrom_of_costed {usage : TokenUsage} (h : usage.costUsd.isSome) :
    unratedFrom usage = 0 := by
  rw [unratedFrom, Option.isNone_eq_false_iff.2 h]
  rfl

theorem unratedFrom_of_uncosted {usage : TokenUsage} (h : ¬ usage.costUsd.isSome) :
    unratedFrom usage = bucketsFrom usage := by
  rw [unratedFrom, if_pos]
  simpa using h

/-! ## Billed costs that are noticed -/

/-- A report of no tokens and of no cost, billed or not. -/
def IsIdle (usage : TokenUsage) : Prop := bucketsFrom usage = 0 ∧ usage.costUsd.getD 0 = 0

/-- An idle report right after an idle report of the same step. -/
def Absorbed (before : List ((Nat × Nat) × TokenUsage)) (report : (Nat × Nat) × TokenUsage) :
    Prop :=
  IsIdle report.2 ∧ ∃ former ∈ before.getLast?, former.1 = report.1 ∧ IsIdle former.2

/-- Some step report bills a cost and is not absorbed. -/
def StepBillNoticed (reports : List ((Nat × Nat) × TokenUsage)) : Prop :=
  ∃ before report after, reports = before ++ report :: after
    ∧ report.2.costUsd.isSome ∧ ¬ Absorbed before report

/-- Some sample bills a cost and is not absorbed. -/
def BillNoticed (log : List SessionEvent) : Prop :=
  (∃ usage ∈ memoryReports log, usage.costUsd.isSome) ∨ StepBillNoticed (stepReports log)

theorem stepBillNoticed_concat (reports : List ((Nat × Nat) × TokenUsage))
    (report : (Nat × Nat) × TokenUsage) :
    StepBillNoticed (reports ++ [report])
      ↔ StepBillNoticed reports ∨ (report.2.costUsd.isSome ∧ ¬ Absorbed reports report) := by
  constructor
  · rintro ⟨before, found, after, heq, hbill⟩
    rcases eq_nil_or_concat after with rfl | ⟨after, last, rfl⟩
    · obtain ⟨rfl, hfound⟩ := append_inj' heq rfl
      obtain rfl := singleton_inj.1 hfound
      exact .inr hbill
    · left
      refine ⟨before, found, after, ?_, hbill⟩
      have hsplit : reports ++ [report] = (before ++ found :: after) ++ [last] := by simpa using heq
      exact (append_inj' hsplit rfl).1
  · rintro (⟨before, found, after, rfl, hbill⟩ | hbill)
    · exact ⟨before, found, after ++ [report], by simp, hbill⟩
    · exact ⟨reports, report, [], rfl, hbill⟩

theorem BillNoticed.someCosted {log : List SessionEvent} (h : BillNoticed log) :
    SomeCosted log := by
  rcases h with hmemory | ⟨before, report, after, hreports, hcosted, -⟩
  · exact .inl hmemory
  · exact .inr ⟨report, by simp [hreports], hcosted⟩

/-- Where no billed cost is noticed, the whole usage is unrated. -/
theorem unratedFrom_of_unnoticed {reports : List ((Nat × Nat) × TokenUsage)}
    (h : ¬ StepBillNoticed reports) : ∀ report ∈ reports,
      unratedFrom report.2 = bucketsFrom report.2 := by
  intro report hreport
  obtain ⟨before, after, hsplit⟩ := append_of_mem hreport
  by_cases hcosted : report.2.costUsd.isSome
  · have habsorbed : Absorbed before report := by
      by_contra hnot
      exact h ⟨before, report, after, hsplit, hcosted, hnot⟩
    rw [habsorbed.1.1, unratedFrom_of_costed hcosted]
  · exact unratedFrom_of_uncosted hcosted

/-! ## What one event adds -/

theorem stepUsageOf_of_memory {event : SessionEvent} {usage : TokenUsage}
    (h : memoryUsageOf event = some usage) : stepUsageOf event = none := by
  cases hdata : event.data <;> simp_all [memoryUsageOf, stepUsageOf]

section
variable (log : List SessionEvent) {event : SessionEvent}

theorem stepReports_concat {report : (Nat × Nat) × TokenUsage}
    (h : stepUsageOf event = some report) :
    stepReports (log ++ [event]) = stepReports log ++ [report] := by
  simp [stepReports, h]

theorem stepReports_concat_none (h : stepUsageOf event = none) :
    stepReports (log ++ [event]) = stepReports log := by
  simp [stepReports, h]

theorem memoryReports_concat {usage : TokenUsage} (h : memoryUsageOf event = some usage) :
    memoryReports (log ++ [event]) = memoryReports log ++ [usage] := by
  simp [memoryReports, h]

theorem memoryReports_concat_none (h : memoryUsageOf event = none) :
    memoryReports (log ++ [event]) = memoryReports log := by
  simp [memoryReports, h]

end

/-! ## The invariant -/

def UsageSample.ofReport (report : (Nat × Nat) × TokenUsage) : UsageSample :=
  { turn := report.1.1
    step := report.1.2
    buckets := bucketsFrom report.2
    unrated := unratedFrom report.2
    costUsd := report.2.costUsd.getD 0 }

/-- A state is what the fold holds after a log. -/
structure Meters (log : List SessionEvent) (state : TokenUsageState) : Prop where
  totals : state.totals = usageSum bucketsFrom log
  unrated : state.unratedTotals = usageSum unratedFrom log
  last : state.last = (stepReports log).getLast?.map .ofReport
  costed : state.hasCostedSample = true ↔ BillNoticed log

theorem Meters.init : Meters [] .init where
  totals := rfl
  unrated := rfl
  last := rfl
  costed := by simp [TokenUsageState.init, BillNoticed, StepBillNoticed, memoryReports, stepReports]

namespace Meters

variable {log : List SessionEvent} {state : TokenUsageState} {event : SessionEvent}

theorem applyMemory (h : Meters log state) {usage : TokenUsage}
    (husage : memoryUsageOf event = some usage) :
    Meters (log ++ [event]) (state.applyMemory usage) := by
  have hsteps := stepReports_concat_none log (stepUsageOf_of_memory husage)
  have hmemory := memoryReports_concat log husage
  have hsum (worth : TokenUsage → TokenUsageBuckets) :
      usageSum worth (log ++ [event]) = usageSum worth log + worth usage := by
    simp [usageSum, hsteps, hmemory, add_assoc]
  constructor
  case totals => simp [TokenUsageState.applyMemory, addReplacing_eq, h.totals, hsum]
  case unrated => simp [TokenUsageState.applyMemory, addReplacing_eq, h.unrated, hsum]
  case last => rw [hsteps]; exact h.last
  case costed =>
    simp only [TokenUsageState.applyMemory, Bool.or_eq_true, h.costed, BillNoticed, hsteps, hmemory]
    simpa using or_right_comm

/-- The sample to replace is the one of the step's former report. -/
theorem previous_eq (h : Meters log state) (key : Nat × Nat) :
    state.previous key.1 key.2
      = ((stepReports log).getLast?.filter (·.1 = key)).map .ofReport := by
  rw [TokenUsageState.previous, h.last]
  cases (stepReports log).getLast? with
  | none => rfl
  | some former =>
    by_cases hkey : former.1 = key
    · simp [Option.filter, UsageSample.ofReport, hkey]
    · have hne : ¬ (former.1.1 = key.1 ∧ former.1.2 = key.2) := by rwa [← Prod.ext_iff]
      simp [Option.filter, UsageSample.ofReport, hkey, hne]

end Meters

/-- A report that the sample already says is worth what the step's former report is. -/
theorem sameSample_iff {former : (Nat × Nat) × TokenUsage} {usage : TokenUsage} :
    TokenUsageState.sameSample (.ofReport former) usage = true
      ↔ bucketsFrom former.2 = bucketsFrom usage ∧ unratedFrom former.2 = unratedFrom usage
        ∧ former.2.costUsd.getD 0 = usage.costUsd.getD 0 := by
  simp [TokenUsageState.sameSample, UsageSample.ofReport, and_assoc]

/-- An absorbed report is one that the sample already says. -/
theorem sameSample_of_absorbed {former report : (Nat × Nat) × TokenUsage}
    (hformer : IsIdle former.2) (hreport : IsIdle report.2) :
    TokenUsageState.sameSample (.ofReport former) report.2 = true := by
  have hunrated {usage : TokenUsage} (h : IsIdle usage) : unratedFrom usage = 0 := by
    by_cases hcosted : usage.costUsd.isSome
    · exact unratedFrom_of_costed hcosted
    · rw [unratedFrom_of_uncosted hcosted, h.1]
  rw [sameSample_iff, hformer.1, hreport.1, hunrated hformer, hunrated hreport, hformer.2, hreport.2]
  simp

/-- A billed report that the sample already says is absorbed, or its former report was billed
and is not idle. -/
theorem absorbed_or_costed {former report : (Nat × Nat) × TokenUsage}
    (hsame : TokenUsageState.sameSample (.ofReport former) report.2 = true)
    (hcosted : report.2.costUsd.isSome) :
    (IsIdle former.2 ∧ IsIdle report.2) ∨ (former.2.costUsd.isSome ∧ ¬ IsIdle former.2) := by
  obtain ⟨hbuckets, hunrated, hcost⟩ := sameSample_iff.1 hsame
  have hidle : IsIdle former.2 ↔ IsIdle report.2 := by rw [IsIdle, IsIdle, hbuckets, hcost]
  by_cases hformer : IsIdle former.2
  · exact .inl ⟨hformer, hidle.1 hformer⟩
  refine .inr ⟨?_, hformer⟩
  by_contra huncosted
  -- An unbilled former report has the buckets of its unrated part, which are none here.
  apply hformer
  rw [unratedFrom_of_uncosted huncosted, unratedFrom_of_costed hcosted] at hunrated
  refine ⟨hunrated, ?_⟩
  rw [Option.not_isSome_iff_eq_none.1 huncosted]
  rfl

namespace Meters

variable {log : List SessionEvent} {state : TokenUsageState} {event : SessionEvent}
  {report : (Nat × Nat) × TokenUsage}

/-- What a step report replaces in a reference sum. -/
theorem usageSum_step (worth : TokenUsage → TokenUsageBuckets)
    (hadj : LatestSum.Adjacent (stepReports (log ++ [event])))
    (hmemory : memoryUsageOf event = none) (hstep : stepUsageOf event = some report) :
    usageSum worth (log ++ [event]) = usageSum worth log
      - (((stepReports log).getLast?.filter (·.1 = report.1)).map (worth ·.2)).getD 0
      + worth report.2 := by
  rw [stepReports_concat log hstep] at hadj
  rw [usageSum, usageSum, stepReports_concat log hstep, memoryReports_concat_none log hmemory,
    LatestSum.total_concat, hadj.latest_eq]
  generalize (stepReports log).getLast?.filter (·.1 = report.1) = former
  have hworth : (former.map (·.2)).elim 0 worth = (former.map (worth ·.2)).getD 0 := by
    cases former <;> rfl
  rw [hworth]
  abel

theorem billNoticed_step (hmemory : memoryUsageOf event = none)
    (hstep : stepUsageOf event = some report) :
    BillNoticed (log ++ [event])
      ↔ BillNoticed log ∨ (report.2.costUsd.isSome ∧ ¬ Absorbed (stepReports log) report) := by
  rw [BillNoticed, BillNoticed, memoryReports_concat_none log hmemory,
    stepReports_concat log hstep, stepBillNoticed_concat, or_assoc]

/-- A report that the sample already says. -/
theorem skip (h : Meters log state) (hadj : LatestSum.Adjacent (stepReports (log ++ [event])))
    (hmemory : memoryUsageOf event = none) (hstep : stepUsageOf event = some report)
    {former : (Nat × Nat) × TokenUsage} (hlast : (stepReports log).getLast? = some former)
    (hkey : former.1 = report.1)
    (hsame : TokenUsageState.sameSample (.ofReport former) report.2 = true) :
    Meters (log ++ [event]) state := by
  obtain ⟨hbuckets, hunrated, hcost⟩ := sameSample_iff.1 hsame
  have hfilter : (stepReports log).getLast?.filter (·.1 = report.1) = some former := by
    rw [hlast]
    simp [hkey]
  constructor
  case totals =>
    rw [h.totals, usageSum_step bucketsFrom hadj hmemory hstep, hfilter]
    simp [hbuckets]
  case unrated =>
    rw [h.unrated, usageSum_step unratedFrom hadj hmemory hstep, hfilter]
    simp [hunrated]
  case last =>
    rw [h.last, stepReports_concat log hstep, hlast]
    simp [UsageSample.ofReport, hkey, hbuckets, hunrated, hcost]
  case costed =>
    rw [h.costed, billNoticed_step hmemory hstep]
    refine ⟨.inl, ?_⟩
    rintro (hnoticed | ⟨hcosted, hnot⟩)
    · exact hnoticed
    rcases absorbed_or_costed hsame hcosted with ⟨hformer, hreport⟩ | ⟨hformer, hbusy⟩
    · exact absurd ⟨hreport, former, hlast, hkey, hformer⟩ hnot
    -- The former report was billed and busy, so it was noticed when it came.
    obtain ⟨before, hbefore⟩ := getLast?_eq_some_iff.1 hlast
    right
    rw [hbefore, stepBillNoticed_concat]
    exact .inr ⟨hformer, fun habsorbed => hbusy habsorbed.1⟩

/-- A report that replaces the step's former one, or is its first. -/
theorem applyStep (h : Meters log state)
    (hadj : LatestSum.Adjacent (stepReports (log ++ [event])))
    (hmemory : memoryUsageOf event = none) (hstep : stepUsageOf event = some report) :
    Meters (log ++ [event]) (state.applyStep report.1.1 report.1.2 report.2) := by
  have hprevious := h.previous_eq report.1
  rw [TokenUsageState.applyStep, hprevious]
  cases hfilter : (stepReports log).getLast?.filter (·.1 = report.1) with
  | some former =>
    obtain ⟨hlast, hkey⟩ := Option.filter_eq_some_iff.1 hfilter
    have hkey : former.1 = report.1 := by simpa using hkey
    by_cases hsame : TokenUsageState.sameSample (.ofReport former) report.2 = true
    · simp only [Option.map_some, Option.any_some, hsame, if_true]
      exact h.skip hadj hmemory hstep hlast hkey hsame
    simp only [Option.map_some, Option.any_some, hsame]
    constructor
    case totals =>
      rw [usageSum_step bucketsFrom hadj hmemory hstep, hfilter, ← h.totals]
      simp [addReplacing_eq, UsageSample.ofReport]
    case unrated =>
      rw [usageSum_step unratedFrom hadj hmemory hstep, hfilter, ← h.unrated]
      simp [addReplacing_eq, UsageSample.ofReport]
    case last =>
      rw [stepReports_concat log hstep]
      simp [UsageSample.ofReport]
    case costed =>
      have hnot : ¬ Absorbed (stepReports log) report := by
        rintro ⟨hidle, found, hfound, -, hformer⟩
        obtain rfl := Option.some.inj (hlast.symm.trans hfound)
        exact hsame (sameSample_of_absorbed hformer hidle)
      rw [billNoticed_step hmemory hstep]
      simp [h.costed, hnot]
  | none =>
    simp only [Option.map_none, Option.any_none]
    constructor
    case totals =>
      rw [usageSum_step bucketsFrom hadj hmemory hstep, hfilter, ← h.totals]
      simp [addReplacing_eq]
    case unrated =>
      rw [usageSum_step unratedFrom hadj hmemory hstep, hfilter, ← h.unrated]
      simp [addReplacing_eq]
    case last =>
      rw [stepReports_concat log hstep]
      simp [UsageSample.ofReport]
    case costed =>
      have hnot : ¬ Absorbed (stepReports log) report := by
        rintro ⟨-, found, hfound, hkey, -⟩
        simp [Option.mem_def.1 hfound, hkey] at hfilter
      rw [billNoticed_step hmemory hstep]
      simp [h.costed, hnot]

/-- Every event keeps the state what the fold holds. -/
theorem apply (h : Meters log state) (hadj : LatestSum.Adjacent (stepReports (log ++ [event]))) :
    Meters (log ++ [event]) (state.apply event) := by
  rw [TokenUsageState.apply]
  cases hmemory : memoryUsageOf event with
  | some usage => exact h.applyMemory hmemory
  | none =>
    cases hstep : stepUsageOf event with
    | some report => exact h.applyStep hadj hmemory hstep
    | none =>
      have hsteps := stepReports_concat_none log hstep
      have hmemories := memoryReports_concat_none log hmemory
      constructor
      case totals => simpa [usageSum, hsteps, hmemories] using h.totals
      case unrated => simpa [usageSum, hsteps, hmemories] using h.unrated
      case last => rw [hsteps]; exact h.last
      case costed => rw [h.costed, BillNoticed, BillNoticed, hsteps, hmemories]

/-- The fold of a whole log. -/
theorem fold (log : List SessionEvent) (hadj : LatestSum.Adjacent (stepReports log)) :
    Meters log (log.foldl TokenUsageState.apply .init) := by
  induction log using List.reverseRecOn with
  | nil => exact .init
  | append_singleton log event ih =>
    rw [foldl_concat]
    apply Meters.apply _ hadj
    apply ih
    cases hstep : stepUsageOf event with
    | some report =>
      rw [stepReports_concat log hstep] at hadj
      exact hadj.of_concat
    | none =>
      rwa [stepReports_concat_none log hstep] at hadj

end Meters

/-! ## The projection -/

/-- Without a noticed bill the whole sum is unrated. -/
theorem usageSum_unnoticed {log : List SessionEvent} (h : ¬ BillNoticed log) :
    usageSum unratedFrom log = usageSum bucketsFrom log := by
  have hmemory : (memoryReports log).map unratedFrom = (memoryReports log).map bucketsFrom := by
    apply map_congr_left
    intro usage husage
    apply unratedFrom_of_uncosted
    intro hcosted
    exact h (.inl ⟨usage, husage, hcosted⟩)
  rw [usageSum, usageSum, hmemory,
    LatestSum.total_congr (unratedFrom_of_unnoticed fun hstep => h (.inr hstep))]

/-- The totals are the sum over the last reports of the steps and over the memory-formation
reports, and the unrated tokens the same sum without the billed ones (an absent field stands
for the totals). A billed cost is present exactly when one was reported, unless every billed
report is an idle one right after an idle report of its step. -/
theorem tokenUsage_sums (log : List SessionEvent)
    (hadj : LatestSum.Adjacent (stepReports log)) :
    (tokenUsage log).toTokenUsageBuckets = usageSum bucketsFrom log
      ∧ (tokenUsage log).unratedTokens.getD (tokenUsage log).toTokenUsageBuckets
        = usageSum unratedFrom log
      ∧ (((tokenUsage log).reportedCostUsd.isSome ↔ SomeCosted log)
        ↔ (SomeCosted log → BillNoticed log)) := by
  have hmeters := Meters.fold log hadj
  set state := log.foldl TokenUsageState.apply .init with hstate
  have hview : tokenUsage log = state.view := rfl
  refine ⟨hmeters.totals, ?_, ?_⟩
  · cases hflag : state.hasCostedSample with
    | true => simp [hview, TokenUsageState.view, hflag, hmeters.unrated]
    | false =>
      have hnot : ¬ BillNoticed log := by simp [← hmeters.costed, hflag]
      simp [hview, TokenUsageState.view, hflag, hmeters.totals, usageSum_unnoticed hnot]
  · have hpresent : (tokenUsage log).reportedCostUsd.isSome ↔ BillNoticed log := by
      rw [hview, ← hmeters.costed]
      cases hflag : state.hasCostedSample <;> simp [TokenUsageState.view, hflag]
    rw [hpresent]
    exact ⟨fun h hsome => h.2 hsome, fun h => ⟨BillNoticed.someCosted, h⟩⟩

/-! ## Two short logs -/

/-- A usage chunk of the first step, with a cost or without. -/
def usageChunk (seq : Nat) (input output : Int) (cost : List (JsString × Json)) : SessionEvent :=
  { seq
    time := 0
    data := .assistantChunk 0 0 (.usage (.obj
      (("inputTokens", .num (.int input)) :: ("outputTokens", .num (.int output)) :: cost))) }

/-- A report without a cost and then one that bills a cost of zero. -/
def thenZeroBill (input output : Int) : List SessionEvent :=
  [usageChunk 0 input output [], usageChunk 1 input output [("costUsd", .num (.int 0))]]

/-- Two reports are adjacent. -/
theorem adjacent_thenZeroBill (input output : Int) :
    LatestSum.Adjacent (stepReports (thenZeroBill input output)) := by
  intro a b c hsub
  have hlength := hsub.length_le
  simp [thenZeroBill, stepReports, usageChunk, stepUsageOf] at hlength

/-- A bill of zero for a step that used tokens is noticed, and takes them out of the unrated
set. -/
theorem tokenUsage_sums_billed :
    ((tokenUsage (thenZeroBill 10 2)).reportedCostUsd.isSome ↔ SomeCosted (thenZeroBill 10 2))
      ∧ (tokenUsage (thenZeroBill 10 2)).reportedCostUsd = some 0
      ∧ (tokenUsage (thenZeroBill 10 2)).unratedTokens = some zeroBuckets := by
  have hnoticed : (tokenUsage (thenZeroBill 10 2)).reportedCostUsd = some 0 := by decide +kernel
  have hsums := tokenUsage_sums (thenZeroBill 10 2) (adjacent_thenZeroBill 10 2)
  refine ⟨hsums.2.2.2 fun _ => ?_, hnoticed, by decide +kernel⟩
  right
  rw [show stepReports (thenZeroBill 10 2) = [((0, 0), _)] ++ [((0, 0), _)] from rfl,
    stepBillNoticed_concat]
  refine .inr ⟨by decide +kernel, ?_⟩
  rintro ⟨⟨hidle, -⟩, -⟩
  exact absurd hidle (by decide +kernel)

/-- A bill of zero for a step that used no token is missed where the step first reported
without a cost. -/
theorem zero_bill_missed :
    ¬ ∀ log, LatestSum.Adjacent (stepReports log) →
      ((tokenUsage log).reportedCostUsd.isSome ↔ SomeCosted log) := by
  intro hall
  have hpresent := hall (thenZeroBill 0 0) (adjacent_thenZeroBill 0 0)
  have hcosted : SomeCosted (thenZeroBill 0 0) := by
    right
    rw [show stepReports (thenZeroBill 0 0) = [((0, 0), _)] ++ [((0, 0), _)] from rfl]
    exact ⟨_, mem_append_right _ (mem_singleton_self _), by decide +kernel⟩
  have habsent : (tokenUsage (thenZeroBill 0 0)).reportedCostUsd = none := by decide +kernel
  rw [habsent] at hpresent
  exact absurd (hpresent.2 hcosted) (by simp)

end Harness
