-- SUMMARY: What the connection supervisor keeps at every await point, its contract over whole runs, and the two ways in which the code leaves it.
import Harness.Mcp.Connection
import Mathlib.Algebra.Order.Ring.Pow

/-!
# The invariant of the supervisor

Four parts. `Life` is about the generations, the timer and the decisions; `Budget` about the
attempts of an outage; `Owned` about the registry and the disposer map; `Drained` about the end of
disposal.
-/

namespace Harness

open List

namespace Supervisor

open Transitions

variable {publicName : JsString → JsString} {s s' : Supervisor} {gen : ℕ}

/-! ## Generations and decisions -/

/-- The attempt of a generation is over, and the generation is closed. -/
def IsDown (s : Supervisor) (gen : ℕ) : Prop :=
  (s.gens gen).phase = .settled ∧ (s.gens gen).closed = true

def Decided (s : Supervisor) (gen : ℕ) : Prop := ∃ down ∈ s.downs, down.gen = gen

/-- What a decision has led to: a retry is armed, or its attempt has begun, or disposal has
cancelled it; the other decisions are the last. -/
def Followed (s : Supervisor) (down : Down) : Prop :=
  match down.decision with
  | .retry _ delay => s.policy.enabled = true ∧ (down.gen + 1 < s.count ∨
      down.gen + 1 = s.count ∧ (s.reconnectTimer = some delay ∨ s.disposal ≠ .idle))
  | .gaveUp => s.policy.enabled = true ∧ down.gen + 1 = s.count
  | .disabled => s.policy.enabled = false

structure Life (s : Supervisor) : Prop where
  current : ∀ gen, s.current = some gen → gen + 1 = s.count ∧ s.disposal = .idle ∧
    s.reconnectTimer = none ∧ ¬ s.IsDown gen
  past : ∀ gen, gen + 1 < s.count → s.IsDown gen ∧ s.Decided gen
  timer : ∀ delay, s.reconnectTimer = some delay → s.disposal = .idle ∧ s.current = none ∧
    ∃ down ∈ s.downs, down.gen + 1 = s.count ∧ ∃ attempt, down.decision = .retry attempt delay
  resting : s.disposal = .idle → s.current = none → ∃ gen, gen + 1 = s.count ∧
    (s.gens gen).phase = .settled ∧ ((s.gens gen).closed = true ∧ s.Decided gen ∨
      (s.gens gen).transport = false ∧ s.policy.enabled = false)
  transport : ∀ gen, gen < s.count → (s.gens gen).transport = true ∨ s.policy.enabled = false
  decided : ∀ down ∈ s.downs, down.gen < s.count ∧ s.IsDown down.gen ∧ s.current ≠ some down.gen
  nodup : (s.downs.map Down.gen).Nodup
  followed : ∀ down ∈ s.downs, s.Followed down

/-- A generation moves on without being lost. -/
theorem Life.setGen (h : Life s) (gen : ℕ) (next : Generation)
    (hsettled : (s.gens gen).phase = .settled → next.phase = .settled)
    (hclosed : (s.gens gen).closed = true → next.closed = true)
    (htransport : next.transport = (s.gens gen).transport)
    (hlive : s.current = some gen → ¬ (next.phase = .settled ∧ next.closed = true)) :
    Life (s.setGen gen next) := by
  have hother : ∀ other, other ≠ gen → (s.setGen gen next).gens other = s.gens other :=
    fun other hne => Function.update_of_ne hne _ _
  have hself : (s.setGen gen next).gens gen = next := Function.update_self ..
  have hdown : ∀ other, s.IsDown other → (s.setGen gen next).IsDown other := fun other hother' => by
    by_cases heq : other = gen
    · subst heq
      rw [IsDown, hself]
      exact ⟨hsettled hother'.1, hclosed hother'.2⟩
    · rw [IsDown, hother other heq]
      exact hother'
  exact {
    current := fun other hcurrent => by
      obtain ⟨hlast, hidle, htimer, hnot⟩ := h.current other hcurrent
      refine ⟨hlast, hidle, htimer, ?_⟩
      by_cases heq : other = gen
      · subst heq
        rw [IsDown, hself]
        exact hlive hcurrent
      · rw [IsDown, hother other heq]
        exact hnot
    past := fun other hpast => ⟨hdown other (h.past other hpast).1, (h.past other hpast).2⟩
    timer := h.timer
    resting := fun hidle hnone => by
      obtain ⟨last, hlast, hphase, hend⟩ := h.resting hidle hnone
      refine ⟨last, hlast, ?_⟩
      by_cases heq : last = gen
      · subst heq
        rw [hself]
        refine ⟨hsettled hphase, hend.imp (fun hclose => ⟨hclosed hclose.1, hclose.2⟩) ?_⟩
        exact fun hbare => ⟨htransport.trans hbare.1, hbare.2⟩
      · rw [hother last heq]
        exact ⟨hphase, hend⟩
    transport := fun other hlt => by
      by_cases heq : other = gen
      · subst heq
        rw [hself, htransport]
        exact h.transport other hlt
      · rw [hother other heq]
        exact h.transport other hlt
    decided := fun down hmem => by
      obtain ⟨hlt, hlost, hne⟩ := h.decided down hmem
      exact ⟨hlt, hdown _ hlost, hne⟩
    nodup := h.nodup
    followed := h.followed }

/-- The one decision about the current generation. -/
theorem scheduleReconnect_cases (s : Supervisor) (gen : ℕ) :
    ∃ down : Down, down.gen = gen ∧ (s.scheduleReconnect gen).downs = down :: s.downs ∧
      (s.scheduleReconnect gen).gens = s.gens ∧ (s.scheduleReconnect gen).count = s.count ∧
      (s.scheduleReconnect gen).current = s.current ∧
      (s.scheduleReconnect gen).disposal = s.disposal ∧
      (s.scheduleReconnect gen).policy = s.policy ∧
      ((s.policy.enabled = false ∧ down.decision = .disabled ∧
        (s.scheduleReconnect gen).reconnectTimer = s.reconnectTimer) ∨
      (s.policy.enabled = true ∧ down.decision = .gaveUp ∧
        (s.scheduleReconnect gen).reconnectTimer = s.reconnectTimer) ∨
      (s.policy.enabled = true ∧ ∃ attempt delay, down.decision = .retry attempt delay ∧
        (s.scheduleReconnect gen).reconnectTimer = some delay)) := by
  cases henabled : s.policy.enabled with
  | false =>
    refine ⟨{ gen, decision := .disabled, fresh := false }, rfl, ?_⟩
    simp [scheduleReconnect, henabled]
  | true =>
    by_cases hmore : (if s.isStable then 0 else s.failedAttempts) + 1 > s.policy.maxAttempts
    · refine ⟨{ gen, decision := .gaveUp, fresh := s.isStable }, rfl, ?_⟩
      simp [scheduleReconnect, henabled, hmore]
    let attempt := (if s.isStable then 0 else s.failedAttempts) + 1
    refine ⟨{
      gen, decision := .retry attempt (delayMs s.policy attempt), fresh := s.isStable }, rfl, ?_⟩
    simp [scheduleReconnect, henabled, hmore, attempt]

/-- The loss of the current generation. -/
theorem Life.goesDown (h : Life s) (hcurrent : s.current = some gen) {next : Generation}
    (hsettled : next.phase = .settled) (hclosed : next.closed = true)
    (htransport : next.transport = (s.gens gen).transport) :
    Life ((s.setGen gen next).generationDown gen) := by
  obtain ⟨hlast, hidle, htimer, -⟩ := h.current gen hcurrent
  have hacts : (s.setGen gen next).isCurrent gen = true := by
    have hidle' : (s.setGen gen next).disposal = .idle := hidle
    have hcurrent' : (s.setGen gen next).current = some gen := hcurrent
    simp [isCurrent, hidle', hcurrent']
  rw [generationDown, if_pos hacts]
  obtain ⟨down, hgen, hdowns, hgens, hcount, hnone, hdisposal, hpolicy, hdecision⟩ :=
    scheduleReconnect_cases { s.setGen gen next with current := none } gen
  generalize ({ s.setGen gen next with current := none } : Supervisor).scheduleReconnect gen = s'
    at hdowns hgens hcount hnone hdisposal hpolicy hdecision ⊢
  have hother : ∀ other, other ≠ gen → s'.gens other = s.gens other := fun other hne => by
    rw [hgens]
    exact Function.update_of_ne hne _ _
  have hself : s'.gens gen = next := by
    rw [hgens]
    exact Function.update_self ..
  have hnow : s'.IsDown gen := by
    rw [IsDown, hself]
    exact ⟨hsettled, hclosed⟩
  have hkeeps : ∀ other, s.IsDown other → s'.IsDown other := fun other hlost => by
    by_cases heq : other = gen
    · rw [heq]
      exact hnow
    · rw [IsDown, hother other heq]
      exact hlost
  have hfresh : ∀ old ∈ s.downs, old.gen ≠ gen := fun old hmem heq =>
    (h.decided old hmem).2.2 (heq ▸ hcurrent)
  have hdecides : ∀ other, s.Decided other → s'.Decided other := fun other ⟨old, hmem, heq⟩ =>
    ⟨old, by rw [hdowns]; exact mem_cons_of_mem _ hmem, heq⟩
  have hdecided : s'.Decided gen := ⟨down, by rw [hdowns]; exact mem_cons_self, hgen⟩
  have hcount' : s'.count = s.count := hcount
  have hdisposal' : s'.disposal = .idle := hdisposal.trans hidle
  exact {
    current := fun other hsome => by
      rw [hnone] at hsome
      cases hsome
    past := fun other hpast => by
      rw [hcount'] at hpast
      exact ⟨hkeeps other (h.past other hpast).1, hdecides other (h.past other hpast).2⟩
    timer := fun delay hdelay => by
      refine ⟨hdisposal', hnone, down, by rw [hdowns]; exact mem_cons_self, ?_, ?_⟩
      · rw [hgen, hcount', hlast]
      rcases hdecision with ⟨-, -, hsame⟩ | ⟨-, -, hsame⟩ | ⟨-, attempt, delay', hretry, hset⟩
      · cases (hdelay.symm.trans hsame).trans htimer
      · cases (hdelay.symm.trans hsame).trans htimer
      · cases hdelay.symm.trans hset
        exact ⟨attempt, hretry⟩
    resting := fun _ _ => ⟨gen, by rw [hcount', hlast], hnow.1, .inl ⟨hnow.2, hdecided⟩⟩
    transport := fun other hlt => by
      rw [hcount'] at hlt
      rw [hpolicy]
      by_cases heq : other = gen
      · subst heq
        rw [hself, htransport]
        exact h.transport other hlt
      · rw [hother other heq]
        exact h.transport other hlt
    decided := fun old hmem => by
      rw [hdowns] at hmem
      rw [hcount', hnone]
      rcases mem_cons.mp hmem with rfl | hmem
      · rw [hgen]
        exact ⟨by omega, hnow, by simp⟩
      · exact ⟨(h.decided old hmem).1, hkeeps _ (h.decided old hmem).2.1, by simp⟩
    nodup := by
      rw [hdowns, map_cons, nodup_cons, hgen]
      refine ⟨fun hmem => ?_, h.nodup⟩
      obtain ⟨old, hold, heq⟩ := mem_map.mp hmem
      exact hfresh old hold heq
    followed := fun old hmem => by
      rw [hdowns] at hmem
      rcases mem_cons.mp hmem with rfl | hmem
      · rcases hdecision with ⟨hoff, hdec, -⟩ | ⟨hon, hdec, -⟩ | ⟨hon, attempt, delay, hdec, hset⟩
        · simp only [Followed, hdec]
          rw [hpolicy]
          exact hoff
        · simp only [Followed, hdec]
          rw [hpolicy, hcount', hgen]
          exact ⟨hon, hlast⟩
        · simp only [Followed, hdec]
          rw [hpolicy, hcount', hgen]
          exact ⟨hon, .inr ⟨hlast, .inl hset⟩⟩
      · -- An earlier decision is about a generation before the current one.
        have hne := hfresh old hmem
        have hold := h.followed old hmem
        have hpolicy' : s'.policy = s.policy := hpolicy
        cases hdec : old.decision with
        | retry attempt delay =>
          simp only [Followed, hdec] at hold ⊢
          rw [hpolicy', hcount']
          exact ⟨hold.1, .inl (hold.2.elim id fun heq => by omega)⟩
        | gaveUp =>
          simp only [Followed, hdec] at hold
          omega
        | disabled =>
          simp only [Followed, hdec] at hold ⊢
          rw [hpolicy']
          exact hold }

/-- The end of a generation that is closed and whose attempt is over, current or not. -/
theorem Life.loses (h : Life s) {next : Generation} (hsettled : next.phase = .settled)
    (hclosed : next.closed = true) (htransport : next.transport = (s.gens gen).transport) :
    Life ((s.setGen gen next).generationDown gen) := by
  by_cases hcurrent : s.current = some gen
  · exact h.goesDown hcurrent hsettled hclosed htransport
  have hacts : ¬ (s.setGen gen next).isCurrent gen = true := by
    have hcurrent' : (s.setGen gen next).current ≠ some gen := hcurrent
    simp [isCurrent, hcurrent']
  rw [generationDown, if_neg hacts]
  exact h.setGen gen next (fun _ => hsettled) (fun _ => hclosed) htransport
    fun hsome => absurd hsome hcurrent

/-- A generation without a transport cannot close: its supervisor stops. -/
theorem Life.stops (h : Life s) (hcurrent : s.current = some gen) {next : Generation}
    (hsettled : next.phase = .settled) (hopen : next.closed = false)
    (hclosed : (s.gens gen).closed = false)
    (htransport : next.transport = (s.gens gen).transport) (hbare : next.transport = false) :
    Life { s.setGen gen next with current := none } := by
  obtain ⟨hlast, -, htimer, -⟩ := h.current gen hcurrent
  have hoff : s.policy.enabled = false := by
    have htr := h.transport gen (by omega)
    rw [← htransport, hbare] at htr
    exact htr.resolve_left (by simp)
  have hlife : Life (s.setGen gen next) := h.setGen gen next (fun _ => hsettled)
    (fun htrue => by rw [hclosed] at htrue; cases htrue) htransport
    fun _ hboth => by rw [hopen] at hboth; cases hboth.2
  have hself : (s.setGen gen next).gens gen = next := Function.update_self ..
  exact { hlife with
    current := fun other hsome => by cases hsome
    timer := fun delay hdelay => by
      cases hdelay.symm.trans htimer
    resting := fun _ _ => ⟨gen, hlast, (congrArg Generation.phase hself).trans hsettled,
      .inr ⟨(congrArg Generation.transport hself).trans hbare, hoff⟩⟩
    decided := fun down hmem =>
      ⟨(hlife.decided down hmem).1, (hlife.decided down hmem).2.1, by simp⟩ }

theorem Life.endFailed (h : Life s) (hover : s.isOver gen = true) :
    Life (s.endFailed gen (s.gens gen).closed) := by
  rw [Supervisor.endFailed]
  split
  · rename_i hnot
    refine h.setGen gen _ (fun _ => rfl) id rfl fun hsome => ?_
    have hidle := (h.current gen hsome).2.1
    simp [isCurrent, hidle, hsome] at hnot
  rename_i hacts
  have hcurrent : s.current = some gen := by
    have hboth : s.disposal = .idle ∧ s.current = some gen := by simpa [isCurrent] using hacts
    exact hboth.2
  split
  · rename_i hclosed
    exact h.loses rfl hclosed rfl
  rename_i hopen
  have hopen : (s.gens gen).closed = false := by simpa using hopen
  refine h.stops hcurrent rfl hopen hopen rfl ?_
  simpa [isOver, hopen] using hover

/-- The armed retry begins. -/
theorem Life.fires (h : Life s) {delay : ℚ} (htimer : s.reconnectTimer = some delay)
    {transport : Bool} (htransport : transport = true ∨ s.policy.enabled = false) :
    Life ({ s with reconnectTimer := none }.connectGeneration false transport) := by
  obtain ⟨hidle, hnone, armed, harmed, hgen, attempt, hretry⟩ := h.timer delay htimer
  have hon : s.policy.enabled = true := by
    have hfollowed := h.followed armed harmed
    simp only [Followed, hretry] at hfollowed
    exact hfollowed.1
  have hold : ∀ gen, gen < s.count →
      ({ s with reconnectTimer := none }.connectGeneration false transport).gens gen = s.gens gen :=
    fun gen hlt => Function.update_of_ne (Nat.ne_of_lt hlt) _ _
  have hdown : ∀ gen, gen < s.count → s.IsDown gen →
      ({ s with reconnectTimer := none }.connectGeneration false transport).IsDown gen :=
    fun gen hlt hlost => by
      rw [IsDown, hold gen hlt]
      exact hlost
  obtain ⟨last, hlast, hphase, hend⟩ := h.resting hidle hnone
  have hend' := hend.resolve_right fun hoff => by
    rw [hon] at hoff
    cases hoff.2
  exact {
    current := fun gen hsome => by
      cases hsome
      refine ⟨rfl, hidle, rfl, fun hlost => ?_⟩
      have hnew := hlost.1
      simp only [connectGeneration, Function.update_self] at hnew
      split at hnew <;> cases hnew
    past := fun gen hpast => by
      have hlt : gen < s.count := Nat.lt_of_succ_lt_succ hpast
      rcases Nat.lt_or_ge (gen + 1) s.count with hbefore | hge
      · exact ⟨hdown gen hlt (h.past gen hbefore).1, (h.past gen hbefore).2⟩
      have heq : gen = last := by omega
      subst heq
      exact ⟨hdown gen hlt ⟨hphase, hend'.1⟩, hend'.2⟩
    timer := fun delay hdelay => by cases hdelay
    resting := fun _ hnone' => by cases hnone'
    transport := fun gen hlt => by
      rcases Nat.lt_or_ge gen s.count with hbefore | hge
      · rw [hold gen hbefore]
        exact h.transport gen hbefore
      have heq : gen = s.count := Nat.le_antisymm (Nat.le_of_lt_succ hlt) hge
      subst heq
      simpa [connectGeneration] using htransport
    decided := fun down hmem => by
      obtain ⟨hlt, hlost, -⟩ := h.decided down hmem
      refine ⟨Nat.lt_succ_of_lt hlt, hdown _ hlt hlost, fun heq => ?_⟩
      have hcount : s.count = down.gen := Option.some.inj heq
      omega
    nodup := h.nodup
    followed := fun down hmem => by
      have hfollowed := h.followed down hmem
      cases hdec : down.decision with
      | retry attempt delay =>
        simp only [Followed, hdec] at hfollowed ⊢
        refine ⟨hfollowed.1, .inl (Nat.lt_succ_of_le ?_)⟩
        exact hfollowed.2.elim Nat.le_of_lt fun heq => heq.1.le
      | gaveUp =>
        -- A generation has one decision, and the last one's is the retry that fires.
        simp only [Followed, hdec] at hfollowed
        have hsame : down = armed := inj_on_of_nodup_map h.nodup hmem harmed (by omega)
        rw [hsame, hretry] at hdec
        cases hdec
      | disabled =>
        simp only [Followed, hdec] at hfollowed
        rw [hon] at hfollowed
        cases hfollowed }

/-- Disposal takes the current generation and the timer. -/
theorem Life.disposes (h : Life s) {disposal : Disposal} (hbusy : disposal ≠ .idle) :
    Life { s with reconnectTimer := none, current := none, disposal } :=
  { h with
    current gen hsome := by cases hsome
    timer delay hdelay := by cases hdelay
    resting hidle := absurd hidle hbusy
    decided down hmem := ⟨(h.decided down hmem).1, (h.decided down hmem).2.1, by simp⟩
    followed down hmem := by
      have hfollowed := h.followed down hmem
      cases hdec : down.decision with
      | retry attempt delay =>
        simp only [Followed, hdec] at hfollowed ⊢
        exact ⟨hfollowed.1, hfollowed.2.imp id fun heq => ⟨heq.1, .inr hbusy⟩⟩
      | gaveUp =>
        simp only [Followed, hdec] at hfollowed ⊢
        exact hfollowed
      | disabled =>
        simp only [Followed, hdec] at hfollowed ⊢
        exact hfollowed }

/-- Under disposal no generation is current and no retry armed. -/
theorem Life.quiet (h : Life s) (hbusy : s.disposal ≠ .idle) :
    s.reconnectTimer = none ∧ s.current = none := by
  refine ⟨?_, ?_⟩
  · cases htimer : s.reconnectTimer with
    | none => rfl
    | some delay => exact absurd (h.timer delay htimer).1 hbusy
  · cases hcurrent : s.current with
    | none => rfl
    | some gen => exact absurd (h.current gen hcurrent).2.1 hbusy

theorem Life.disposal (h : Life s) (hbusy : s.disposal ≠ .idle) {disposal : Disposal}
    (hbusy' : disposal ≠ .idle) : Life { s with disposal } := by
  obtain ⟨htimer, hcurrent⟩ := h.quiet hbusy
  have hlife := h.disposes hbusy'
  rwa [← htimer, ← hcurrent] at hlife

theorem life_start (policy : ReconnectPolicy) (failOnStartupError : Bool) {transport : Bool}
    (htransport : transport = true ∨ policy.enabled = false) :
    Life (start policy failOnStartupError transport) where
  current gen hsome := by
    cases hsome
    refine ⟨rfl, rfl, rfl, fun hlost => ?_⟩
    have hnew := hlost.1
    simp only [start, connectGeneration, Function.update_self] at hnew
    split at hnew <;> cases hnew
  past gen hpast := absurd hpast (by simp [start, connectGeneration])
  timer delay hdelay := by cases hdelay
  resting _ hnone := by cases hnone
  transport gen hlt := by
    have heq : gen = 0 := Nat.lt_one_iff.mp hlt
    subst heq
    simpa [start, connectGeneration] using htransport
  decided down hmem := by cases hmem
  nodup := nodup_nil
  followed down hmem := by cases hmem

/-! ## Attempts of an outage -/

/-- The decisions since the last outage ended. -/
def outage : List Down → ℕ
  | [] => 0
  | down :: older => if down.fresh then 1 else outage older + 1

structure Budget (s : Supervisor) : Prop where
  attempts : s.policy.enabled = true → s.failedAttempts = outage s.downs
  bounded : ∀ down older, down :: older <:+ s.downs → ∀ attempt delay,
    down.decision = .retry attempt delay → attempt = outage (down :: older) ∧
      attempt ≤ s.policy.maxAttempts ∧ 0 ≤ delay ∧ delay ≤ s.policy.maxDelayMs

theorem delayMs_bounds (policy : ReconnectPolicy) (failedAttempts : ℕ) :
    0 ≤ delayMs policy failedAttempts ∧ delayMs policy failedAttempts ≤ policy.maxDelayMs := by
  have hmax : 0 ≤ policy.maxDelayMs := policy.initial_pos.le.trans policy.initial_le
  have hpow : 0 ≤ policy.initialDelayMs * 2 ^ (failedAttempts - 1) :=
    mul_nonneg policy.initial_pos.le (pow_nonneg (by decide) _)
  exact ⟨le_min hmax hpow, min_le_left _ _⟩

theorem Budget.schedules (h : Budget s) (gen : ℕ) : Budget (s.scheduleReconnect gen) := by
  have hsplit : ∀ {down : Down}, (∀ attempt delay, down.decision = .retry attempt delay →
      attempt = outage (down :: s.downs) ∧ attempt ≤ s.policy.maxAttempts ∧ 0 ≤ delay ∧
        delay ≤ s.policy.maxDelayMs) →
      ∀ head older, head :: older <:+ down :: s.downs → ∀ attempt delay,
        head.decision = .retry attempt delay → attempt = outage (head :: older) ∧
          attempt ≤ s.policy.maxAttempts ∧ 0 ≤ delay ∧ delay ≤ s.policy.maxDelayMs := by
    intro down hnew head older hsuffix attempt delay hdec
    rcases suffix_cons_iff.mp hsuffix with heq | hold
    · cases heq
      exact hnew attempt delay hdec
    · exact h.bounded head older hold attempt delay hdec
  cases henabled : s.policy.enabled with
  | false =>
    simp only [scheduleReconnect, henabled, Bool.not_false, if_true]
    exact { attempts := fun hon => by rw [henabled] at hon; cases hon
            bounded := hsplit fun attempt delay hdec => by cases hdec }
  | true =>
    have hcount : (if s.isStable then 0 else s.failedAttempts) + 1 =
        if s.isStable then 1 else outage s.downs + 1 := by
      rw [h.attempts henabled]
      split <;> rfl
    by_cases hmore : (if s.isStable then 0 else s.failedAttempts) + 1 > s.policy.maxAttempts
    · simp only [scheduleReconnect, henabled, Bool.not_true, Bool.false_eq_true, if_false, hmore,
        if_true]
      exact { attempts := fun _ => hcount
              bounded := hsplit fun attempt delay hdec => by cases hdec }
    · simp only [scheduleReconnect, henabled, Bool.not_true, Bool.false_eq_true, if_false, hmore]
      exact { attempts := fun _ => hcount
              bounded := hsplit fun attempt delay hdec => by
                cases hdec
                exact ⟨hcount, not_lt.mp hmore, delayMs_bounds s.policy _⟩ }

theorem Budget.down (h : Budget s) (gen : ℕ) : Budget (s.generationDown gen) := by
  rw [generationDown]
  split
  · have hfreed : Budget { s with current := none } := { h with }
    exact hfreed.schedules gen
  · exact h

/-! ## Registrations -/

/-- The registry has exactly the registrations of the disposer map: none, or a whole listing. -/
structure Owned (s : Supervisor) : Prop where
  same : s.registry = s.disposers
  whole : s.registry = [] ∨
    ∃ listing ∈ s.listings, s.registry.map ToolRegistration.name = listing.2

theorem unregister_self (owned : List ToolRegistration) : unregister owned owned = [] := by
  simp [unregister]

theorem registerAll_names {refused : JsString → Bool} {names : List JsString} {id : ℕ}
    {registered : List ToolRegistration} (h : registerAll refused id names = some registered) :
    registered.map ToolRegistration.name = names := by
  induction names generalizing id registered with
  | nil =>
    cases h
    rfl
  | cons name names ih =>
    rw [registerAll] at h
    split at h
    · cases h
    · obtain ⟨rest, hrest, rfl⟩ := Option.map_eq_some_iff.mp h
      rw [map_cons, ih hrest]

/-- What no decision touches. -/
theorem generationDown_frame (s : Supervisor) (gen : ℕ) :
    (s.generationDown gen).registry = s.registry ∧
      (s.generationDown gen).disposers = s.disposers ∧
      (s.generationDown gen).listings = s.listings ∧
      (s.generationDown gen).disposal = s.disposal := by
  rw [generationDown]
  split
  · rw [scheduleReconnect]
    split
    · exact ⟨rfl, rfl, rfl, rfl⟩
    · by_cases hmore : (if ({ s with current := none } : Supervisor).isStable then 0
          else s.failedAttempts) + 1 > s.policy.maxAttempts <;> simp [hmore]
  · exact ⟨rfl, rfl, rfl, rfl⟩

theorem Owned.down (h : Owned s) (gen : ℕ) : Owned (s.generationDown gen) := by
  obtain ⟨hregistry, hdisposers, hlistings, -⟩ := generationDown_frame s gen
  exact { same := by rw [hregistry, hdisposers, h.same]
          whole := by rw [hregistry, hlistings]; exact h.whole }

/-! ## The end of disposal -/

/-- Once disposal drains the chain no attempt is left that could queue a sync, and after it nothing
is. -/
structure Drained (s : Supervisor) : Prop where
  settled : s.disposal = .draining ∨ s.disposal = .done →
    ∀ gen, gen < s.count → (s.gens gen).phase = .settled
  ended : s.disposal = .done →
    s.syncChain = [] ∧ s.fetching = none ∧ s.registry = [] ∧ s.disposers = []

/-- A live supervisor has not drained. -/
theorem drained_of_idle (hidle : s.disposal = .idle) : Drained s where
  settled hend := by
    rw [hidle] at hend
    rcases hend with hend | hend <;> cases hend
  ended hend := by
    rw [hidle] at hend
    cases hend

theorem generationDown_of_busy (hbusy : s.disposal ≠ .idle) : s.generationDown gen = s := by
  simp [generationDown, isCurrent, hbusy]

theorem Drained.down (h : Drained s) (gen : ℕ) : Drained (s.generationDown gen) := by
  by_cases hidle : s.disposal = .idle
  · exact drained_of_idle ((generationDown_frame s gen).2.2.2.trans hidle)
  · rwa [generationDown_of_busy hidle]

theorem Drained.setGen (h : Drained s) {next : Generation}
    (hsettled : (s.gens gen).phase = .settled → next.phase = .settled) :
    Drained (s.setGen gen next) where
  settled hend other hlt := by
    have hphase := h.settled hend other hlt
    by_cases heq : other = gen
    · subst heq
      rw [show (s.setGen other next).gens other = next from Function.update_self ..]
      exact hsettled hphase
    · rw [show (s.setGen gen next).gens other = s.gens other from Function.update_of_ne heq _ _]
      exact hphase
  ended := h.ended

/-! ## The whole -/

structure Inv (s : Supervisor) : Prop where
  life : Life s
  budget : Budget s
  owned : Owned s
  drained : Drained s

theorem Inv.setGen (h : Inv s) (gen : ℕ) (next : Generation)
    (hsettled : (s.gens gen).phase = .settled → next.phase = .settled)
    (hclosed : (s.gens gen).closed = true → next.closed = true)
    (htransport : next.transport = (s.gens gen).transport)
    (hlive : s.current = some gen → ¬ (next.phase = .settled ∧ next.closed = true)) :
    Inv (s.setGen gen next) where
  life := h.life.setGen gen next hsettled hclosed htransport hlive
  budget := { h.budget with }
  owned := { h.owned with }
  drained := h.drained.setGen hsettled

theorem Inv.loses (h : Inv s) {next : Generation} (hsettled : next.phase = .settled)
    (hclosed : next.closed = true) (htransport : next.transport = (s.gens gen).transport) :
    Inv ((s.setGen gen next).generationDown gen) := by
  have hbudget : Budget (s.setGen gen next) := { h.budget with }
  have howned : Owned (s.setGen gen next) := { h.owned with }
  have hdrained : Drained (s.setGen gen next) := h.drained.setGen fun _ => hsettled
  exact {
    life := h.life.loses hsettled hclosed htransport
    budget := hbudget.down gen
    owned := howned.down gen
    drained := hdrained.down gen }

/-- An attempt goes on to a phase that is not its last. -/
theorem Inv.setPhase (h : Inv s) (gen : ℕ) {phase : AttemptPhase}
    (hold : (s.gens gen).phase ≠ .settled) (hnew : phase ≠ .settled) :
    Inv (s.setPhase gen phase) :=
  h.setGen gen _ (fun hsettled => absurd hsettled hold) id rfl fun _ hlost => hnew hlost.1

theorem Inv.endFailed (h : Inv s) (hover : s.isOver gen = true) :
    Inv (s.endFailed gen (s.gens gen).closed) := by
  have hlife := h.life.endFailed hover
  rw [Supervisor.endFailed] at hlife ⊢
  have hsettles : Drained (s.setPhase gen .settled) := h.drained.setGen fun _ => rfl
  have hbudget : Budget (s.setPhase gen .settled) := { h.budget with }
  have howned : Owned (s.setPhase gen .settled) := { h.owned with }
  split at hlife
  · rename_i hnot
    rw [if_pos hnot]
    exact ⟨hlife, hbudget, howned, hsettles⟩
  rename_i hacts
  rw [if_neg hacts]
  split at hlife
  · rename_i hclosed
    rw [if_pos hclosed]
    exact ⟨hlife, hbudget.down gen, howned.down gen, hsettles.down gen⟩
  · rename_i hopen
    rw [if_neg hopen]
    exact ⟨hlife, { hbudget with }, { howned with }, { hsettles with }⟩

theorem Inv.settleTask (h : Inv s) (task : SyncTask) (ok : Bool) : Inv (s.settleTask task ok) := by
  unfold Supervisor.settleTask
  split
  · split
    · rename_i hphase
      exact h.setPhase _ (by rw [hphase]; simp) (by simp)
    · exact h
  · exact h

/-- The chain grows on a live supervisor only. -/
theorem Inv.enqueueSync (h : Inv s) (gen : ℕ) (strict own : Bool)
    (hlive : s.disposal ≠ .done) : Inv (s.enqueueSync gen strict own) where
  life := { h.life with }
  budget := { h.budget with }
  owned := { h.owned with }
  drained := { settled := h.drained.settled, ended := fun hdone => absurd hdone hlive }

/-- The tools of this server leave the registry. -/
theorem Inv.unregisters (h : Inv s) {chain : List SyncTask} {disposal : Disposal}
    (hchain : disposal = .done → chain = [] ∧ s.fetching = none)
    (hsettled : disposal = .draining ∨ disposal = .done →
      ∀ gen, gen < s.count → (s.gens gen).phase = .settled)
    (hlife : Life { s with disposal }) :
    Inv { s with
      disposal, syncChain := chain, registry := unregister s.disposers s.registry
      disposers := [] } := by
  have hgone : unregister s.disposers s.registry = [] := by
    rw [h.owned.same]
    exact unregister_self _
  exact {
    life := { hlife with }
    budget := { h.budget with }
    owned := { same := hgone, whole := .inl hgone }
    drained := {
      settled := hsettled
      ended := fun hdone => ⟨(hchain hdone).1, (hchain hdone).2, hgone, rfl⟩ } }

/-- The sync under way goes on, or another begins. -/
theorem Inv.fetches (h : Inv s) {chain : List SyncTask}
    {fetching : Option (SyncTask × List JsString)} (hlive : s.disposal ≠ .done) :
    Inv { s with syncChain := chain, fetching } where
  life := { h.life with }
  budget := { h.budget with }
  owned := { h.owned with }
  drained := { settled := h.drained.settled, ended := fun hdone => absurd hdone hlive }

theorem Inv.live_of_fetching (h : Inv s) {under : SyncTask × List JsString}
    (hfetching : s.fetching = some under) : s.disposal ≠ .done := fun hdone => by
  cases hfetching.symm.trans (h.drained.ended hdone).2.1

theorem Inv.live_of_chain (h : Inv s) {task : SyncTask} {rest : List SyncTask}
    (hchain : s.syncChain = task :: rest) : s.disposal ≠ .done := fun hdone => by
  cases hchain.symm.trans (h.drained.ended hdone).1

/-- While an attempt is under way disposal has not ended. -/
theorem Inv.live_of_phase (h : Inv s) (hlt : gen < s.count)
    (hphase : (s.gens gen).phase ≠ .settled) : s.disposal ≠ .done := fun hdone =>
  hphase (h.drained.settled (.inr hdone) gen hlt)

/-! ## Steps -/

/-- The condition under which one step keeps the contract: a retry's transport can be created, and
no strict sync meets a refused name while tools are registered. -/
def Sound (publicName : JsString → JsString) (s : Supervisor) : Act → Prop
  | .fires transport => transport = true ∨ s.policy.enabled = false
  | .page tools _ refused => ∀ gen own names, s.fetching = some (.sync gen true own, names) →
      registerAll refused s.nextId (names ++ tools.map publicName) = none → s.disposers = []
  | _ => True

/-- The registry after a swap is what the new disposer map owns. -/
theorem Inv.swap (h : Inv s) {task : SyncTask} {names : List JsString}
    {refused : JsString → Bool} (hlive : s.disposal ≠ .done)
    (hstrict : ∀ gen own, task = .sync gen true own →
      registerAll refused s.nextId names = none → s.disposers = []) :
    Inv (s.swap task names refused) := by
  have hkept : unregister s.disposers s.registry = [] := by
    rw [h.owned.same]
    exact unregister_self _
  have hdrained : ∀ {registry disposers : List ToolRegistration} {listings} {nextId : ℕ},
      Drained { s with fetching := none, registry, disposers, listings, nextId } :=
    { settled := h.drained.settled, ended := fun hdone => absurd hdone hlive }
  cases task with
  | giveUp =>
    cases hall : registerAll refused s.nextId names with
    | some registered =>
      simp only [Supervisor.swap, hall]
      exact h
    | none =>
      simp only [Supervisor.swap, hall, hkept]
      refine Inv.settleTask ?_ _ true
      exact ⟨{ h.life with }, { h.budget with }, ⟨rfl, .inl rfl⟩, hdrained⟩
  | sync gen strict own =>
    cases hall : registerAll refused s.nextId names with
    | some registered =>
      simp only [Supervisor.swap, hall, hkept, nil_append]
      refine Inv.settleTask ?_ _ true
      exact {
        life := { h.life with }
        budget := { h.budget with }
        owned := {
          same := rfl
          whole := .inr ⟨(gen, names), mem_cons_self, registerAll_names hall⟩ }
        drained := hdrained }
    | none =>
      cases strict with
      | true =>
        simp only [Supervisor.swap, hall, hkept]
        refine Inv.settleTask ?_ _ false
        have hempty := hstrict gen own rfl hall
        exact ⟨{ h.life with }, { h.budget with }, ⟨hempty.symm, .inl rfl⟩, hdrained⟩
      | false =>
        simp only [Supervisor.swap, hall, hkept]
        refine Inv.settleTask ?_ _ true
        exact ⟨{ h.life with }, { h.budget with }, ⟨rfl, .inl rfl⟩, hdrained⟩

theorem Inv.connects (h : Inv s) {ok : Bool}
    (hstep : step publicName s (.connects gen ok) = some s') : Inv s' := by
  simp only [step] at hstep
  split at hstep
  · rename_i hguard
    obtain ⟨hlt, hphase⟩ : gen < s.count ∧ (s.gens gen).phase = .connecting := by
      simpa using hguard
    have hunsettled : (s.gens gen).phase ≠ .settled := by rw [hphase]; simp
    split at hstep
    · cases hstep
      exact h.setPhase gen hunsettled (by simp)
    split at hstep
    · rename_i hclosed
      cases hstep
      exact h.loses rfl hclosed rfl
    · cases hstep
      exact (h.setPhase gen hunsettled (by simp)).enqueueSync gen _ true
        (h.live_of_phase hlt hunsettled)
  · cases hstep

theorem Inv.resumes (h : Inv s) (hstep : step publicName s (.resumes gen) = some s') :
    Inv s' := by
  simp only [step] at hstep
  split at hstep
  · split at hstep
    · rename_i hphase
      split at hstep
      · rename_i hclosed
        cases hstep
        exact h.loses rfl hclosed rfl
      rename_i hopen
      have hsettles : Inv (s.setPhase gen .settled) :=
        h.setGen gen _ (fun _ => rfl) id rfl fun _ hlost => hopen hlost.2
      split at hstep
      · cases hstep
        exact ⟨{ hsettles.life with }, { hsettles.budget with }, { hsettles.owned with },
          { hsettles.drained with }⟩
      · cases hstep
        exact hsettles
    · rename_i hphase
      cases hstep
      exact h.setPhase gen (by rw [hphase]; simp) (by simp)
    · cases hstep
  · cases hstep

theorem Inv.closeReturns (h : Inv s)
    (hstep : step publicName s (.closeReturns gen) = some s') : Inv s' := by
  simp only [step] at hstep
  split at hstep
  · rename_i hguard
    obtain ⟨-, hphase⟩ : gen < s.count ∧ (s.gens gen).phase = .closing := by simpa using hguard
    cases hstep
    split
    · rename_i hclosed
      have hend : Inv (s.endFailed gen (s.gens gen).closed) :=
        h.endFailed (by simp [isOver, hclosed])
      rwa [hclosed] at hend
    · exact h.setPhase gen (by rw [hphase]; simp) (by simp)
  · cases hstep

theorem Inv.closeSignal (h : Inv s)
    (hstep : step publicName s (.closeSignal gen) = some s') : Inv s' := by
  simp only [step] at hstep
  split at hstep
  · cases hstep
    split
    · rename_i hphase
      exact h.loses hphase rfl rfl
    · rename_i hphase
      exact h.setGen gen _ id (fun _ => rfl) rfl fun _ hlost => hphase hlost.1
  · cases hstep

theorem Inv.fires (h : Inv s) {transport : Bool}
    (hsound : transport = true ∨ s.policy.enabled = false)
    (hstep : step publicName s (.fires transport) = some s') : Inv s' := by
  simp only [step] at hstep
  split at hstep
  · cases hstep
  rename_i delay htimer
  cases hstep
  exact ⟨h.life.fires htimer hsound, { h.budget with }, { h.owned with },
    drained_of_idle (h.life.timer delay htimer).1⟩

theorem Inv.syncs (h : Inv s) (hstep : step publicName s .syncs = some s') : Inv s' := by
  simp only [step] at hstep
  split at hstep
  · rename_i rest _ hchain
    cases hstep
    have hlive := h.live_of_chain hchain
    exact h.unregisters (fun hdone => absurd hdone hlive) h.drained.settled h.life
  · rename_i gen strict own rest _ hchain
    have hlive := h.live_of_chain hchain
    split at hstep
    · cases hstep
      exact h.fetches hlive
    cases hstep
    have hnext : Inv { s with syncChain := rest, fetching := s.fetching } := h.fetches hlive
    exact Inv.settleTask hnext _ true
  · cases hstep

theorem Inv.page (h : Inv s) {tools : List JsString} {more : Bool} {refused : JsString → Bool}
    (hsound : Sound publicName s (.page tools more refused))
    (hstep : step publicName s (.page tools more refused) = some s') : Inv s' := by
  simp only [step] at hstep
  split at hstep
  · cases hstep
  rename_i task names hfetching
  have hlive := h.live_of_fetching hfetching
  split at hstep
  · cases hstep
    have hnext : Inv { s with syncChain := s.syncChain, fetching := none } := h.fetches hlive
    exact Inv.settleTask hnext _ false
  split at hstep
  · cases hstep
    exact h.fetches hlive
  cases hstep
  refine h.swap hlive fun gen own htask hall => hsound gen own names ?_ hall
  rw [hfetching, htask]

theorem Inv.pageFails (h : Inv s) (hstep : step publicName s .pageFails = some s') :
    Inv s' := by
  simp only [step] at hstep
  split at hstep
  · cases hstep
  rename_i task names hfetching
  cases hstep
  have hnext : Inv { s with syncChain := s.syncChain, fetching := none } :=
    h.fetches (h.live_of_fetching hfetching)
  exact Inv.settleTask hnext _ false

/-- Disposal moves on, short of the end of its waits. -/
theorem Inv.disposal (h : Inv s) (hbusy : s.disposal ≠ .idle) {disposal : Disposal}
    (hbusy' : disposal ≠ .idle) (hlive : disposal ≠ .done)
    (hsettled : disposal = .draining → ∀ gen, gen < s.count → (s.gens gen).phase = .settled) :
    Inv { s with disposal } where
  life := h.life.disposal hbusy hbusy'
  budget := { h.budget with }
  owned := { h.owned with }
  drained := {
    settled := fun hend => hsettled (hend.resolve_right hlive)
    ended := fun hdone => absurd hdone hlive }

theorem Inv.dispose (h : Inv s) (hstep : step publicName s .dispose = some s') : Inv s' := by
  simp only [step] at hstep
  split at hstep
  · cases hstep
    -- With a session it is closed first; without one only the settling is left.
    cases s.current
    all_goals exact {
      life := h.life.disposes (by simp)
      budget := { h.budget with }
      owned := { h.owned with }
      drained := {
        settled := by simp
        ended := by simp } }
  · cases hstep

theorem Inv.disposeSettles (h : Inv s)
    (hstep : step publicName s .disposeSettles = some s') : Inv s' := by
  simp only [step] at hstep
  split at hstep
  · rename_i hguard
    obtain ⟨hsettling, hlast⟩ :
        s.disposal = .settling ∧ (s.gens (s.count - 1)).phase = .settled := by simpa using hguard
    cases hstep
    refine h.disposal (by rw [hsettling]; simp) (by simp) (by simp) fun _ gen hlt => ?_
    rcases Nat.lt_or_ge (gen + 1) s.count with hpast | hge
    · exact (h.life.past gen hpast).1.1
    have heq : gen = s.count - 1 := by omega
    rw [heq]
    exact hlast
  · cases hstep

theorem Inv.disposeEnds (h : Inv s)
    (hstep : step publicName s .disposeEnds = some s') : Inv s' := by
  simp only [step] at hstep
  split at hstep
  · rename_i hguard
    obtain ⟨⟨hdraining, hchain⟩, hfetching⟩ :
        (s.disposal = .draining ∧ s.syncChain = []) ∧ s.fetching = none := by simpa using hguard
    cases hstep
    exact h.unregisters (fun _ => ⟨hchain, hfetching⟩)
      (fun _ => h.drained.settled (.inl hdraining))
      (h.life.disposal (by rw [hdraining]; simp) (by simp))
  · cases hstep

theorem Inv.step (h : Inv s) {act : Act} (hsound : Sound publicName s act)
    (hstep : step publicName s act = some s') : Inv s' := by
  cases act with
  | connects gen ok => exact h.connects hstep
  | resumes gen => exact h.resumes hstep
  | closeReturns gen => exact h.closeReturns hstep
  | quiesces gen =>
    simp only [Supervisor.step] at hstep
    split at hstep
    · rename_i hguard
      cases hstep
      exact h.endFailed (by simp_all)
    · cases hstep
  | closeSignal gen => exact h.closeSignal hstep
  | listChanged gen =>
    simp only [Supervisor.step] at hstep
    split at hstep
    · cases hstep
      split
      · rename_i hcurrent
        have hidle : s.disposal = .idle ∧ s.current = some gen := by
          simpa [isCurrent] using hcurrent
        exact h.enqueueSync gen false false (by rw [hidle.1]; simp)
      · exact h
    · cases hstep
  | syncs => exact h.syncs hstep
  | page tools more refused => exact h.page hsound hstep
  | pageFails => exact h.pageFails hstep
  | fires transport => exact h.fires hsound hstep
  | clock now =>
    cases hstep
    exact ⟨{ h.life with }, { h.budget with }, { h.owned with }, { h.drained with }⟩
  | dispose => exact h.dispose hstep
  | disposeCloses =>
    simp only [Supervisor.step] at hstep
    split at hstep
    · rename_i gen hclosing
      cases hstep
      split
      · exact h.disposal (by rw [hclosing]; simp) (by simp) (by simp) (by simp)
      · exact h.disposal (by rw [hclosing]; simp) (by simp) (by simp) (by simp)
    · cases hstep
  | disposeQuiesces =>
    simp only [Supervisor.step] at hstep
    split at hstep
    · rename_i gen hwaiting
      split at hstep
      · cases hstep
        exact h.disposal (by rw [hwaiting]; simp) (by simp) (by simp) (by simp)
      · cases hstep
    · cases hstep
  | disposeSettles => exact h.disposeSettles hstep
  | disposeEnds => exact h.disposeEnds hstep

theorem inv_start (policy : ReconnectPolicy) (failOnStartupError : Bool) {transport : Bool}
    (htransport : transport = true ∨ policy.enabled = false) :
    Inv (start policy failOnStartupError transport) where
  life := life_start policy failOnStartupError htransport
  budget := {
    attempts := fun _ => rfl
    bounded := fun down older hsuffix => by cases suffix_nil.mp hsuffix }
  owned := { same := rfl, whole := .inl rfl }
  drained := drained_of_idle rfl

/-!
## The contract of the supervisor

Two failures are not followed as the others: a transport that cannot be created has no close
signal to wait for, and a strict startup sync that meets a refused name throws after it has
disposed the registrations that the map still holds.
-/

open Transitions

variable {publicName : JsString → JsString}

/-- The supervisor of a plugin instance after some steps. -/
def runs (publicName : JsString → JsString) (policy : ReconnectPolicy)
    (failOnStartupError transport : Bool) (acts : List Act) : Option Supervisor :=
  run (step publicName) (start policy failOnStartupError transport) acts

/-- As long as transports can be created, or reconnect is disabled, and no strict startup sync meets
a refused name while tools are registered: no attempt begins before all earlier generations are
closed; every lost or failed generation has exactly one decision, a retry that is armed until its
attempt begins or disposal cancels it, the giving up of the last generation, or nothing when
reconnect is disabled; a retry is numbered within its outage, up to `maxAttempts`, and its delay is
within the policy; the registry has none or one complete listing, exactly what the disposer map
owns; and after disposal nothing is left. -/
theorem supervisor_keeps_contract (sha256 : JsString → JsString) (serverName : JsString)
    (policy : ReconnectPolicy) (failOnStartupError transport : Bool) (acts : List Act)
    (s : Supervisor) (htransport : transport = true ∨ policy.enabled = false)
    (hsound : ∀ pre act s₁, pre ++ [act] <+: acts →
      runs (publicToolName sha256 serverName) policy failOnStartupError transport pre = some s₁ →
      Sound (publicToolName sha256 serverName) s₁ act)
    (hrun : runs (publicToolName sha256 serverName) policy failOnStartupError transport acts =
      some s) :
    (∀ gen, gen + 1 < s.count → s.IsDown gen ∧ s.Decided gen) ∧
    (s.disposal = .idle → s.current = none → ∃ gen, gen + 1 = s.count ∧
      (s.IsDown gen ∧ s.Decided gen ∨
        (s.gens gen).transport = false ∧ s.policy.enabled = false)) ∧
    (s.downs.map Down.gen).Nodup ∧
    (∀ down ∈ s.downs, s.IsDown down.gen ∧ s.Followed down) ∧
    (∀ delay, s.reconnectTimer = some delay → s.current = none ∧ s.disposal = .idle ∧
      ∃ down ∈ s.downs, down.gen + 1 = s.count ∧
        ∃ attempt, down.decision = .retry attempt delay) ∧
    (∀ down older, down :: older <:+ s.downs → ∀ attempt delay,
      down.decision = .retry attempt delay → attempt = outage (down :: older) ∧
        attempt ≤ s.policy.maxAttempts ∧ 0 ≤ delay ∧ delay ≤ s.policy.maxDelayMs) ∧
    s.registry = s.disposers ∧
    (s.registry = [] ∨ ∃ listing ∈ s.listings, s.registry.map ToolRegistration.name = listing.2) ∧
    (s.disposal = .done → s.reconnectTimer = none ∧ s.current = none ∧ s.syncChain = [] ∧
      s.fetching = none ∧ s.registry = [] ∧ s.disposers = [] ∧
      ∀ gen, gen < s.count → (s.gens gen).phase = .settled) := by
  have h : Inv s := run_along (fun _ _ _ hI hact hstep => Inv.step hI hact hstep)
    (inv_start policy failOnStartupError htransport) hsound hrun
  refine ⟨h.life.past, fun hidle hnone => ?_, h.life.nodup,
    fun down hmem => ⟨(h.life.decided down hmem).2.1, h.life.followed down hmem⟩,
    fun delay hdelay => ?_, h.budget.bounded, h.owned.same, h.owned.whole, fun hdone => ?_⟩
  · obtain ⟨gen, hlast, hphase, hend⟩ := h.life.resting hidle hnone
    exact ⟨gen, hlast, hend.imp_left fun hclosed => ⟨⟨hphase, hclosed.1⟩, hclosed.2⟩⟩
  · obtain ⟨hidle, hnone, hdown⟩ := h.life.timer delay hdelay
    exact ⟨hnone, hidle, hdown⟩
  · have hbusy : s.disposal ≠ .idle := by simp [hdone]
    obtain ⟨htimer, hcurrent⟩ := h.life.quiet hbusy
    obtain ⟨hchain, hfetching, hregistry, hdisposers⟩ := h.drained.ended hdone
    exact ⟨htimer, hcurrent, hchain, hfetching, hregistry, hdisposers,
      h.drained.settled (.inr hdone)⟩

theorem registerAll_isSome (names : List JsString) (id : ℕ) :
    registerAll (fun _ => false) id names ≠ none := by
  induction names generalizing id with
  | nil => simp [registerAll]
  | cons name names ih => simp [registerAll, ih]

/-- A server connects, lists a tool and is lost. -/
def crash : List Act :=
  [.connects 0 true, .syncs, .page [⟨[97]⟩] false fun _ => false, .resumes 0, .closeSignal 0]

theorem supervisor_keeps_contract_crash :
    ∃ s, runs (publicToolName id ⟨[102]⟩) RECONNECT_DEFAULTS true true crash = some s ∧
      s.registry.length = 1 ∧ s.reconnectTimer = some 500 ∧ s.registry = s.disposers ∧
      (s.downs.map Down.gen).Nodup := by
  obtain ⟨s, hrun, hlisted, htimer⟩ :
      ∃ s, runs (publicToolName id ⟨[102]⟩) RECONNECT_DEFAULTS true true crash = some s ∧
        s.registry.length = 1 ∧ s.reconnectTimer = some 500 :=
    ⟨_, rfl, by decide +kernel, by decide +kernel⟩
  have hsound : ∀ pre act s₁, pre ++ [act] <+: crash →
      runs (publicToolName id ⟨[102]⟩) RECONNECT_DEFAULTS true true pre = some s₁ →
      Sound (publicToolName id ⟨[102]⟩) s₁ act := by
    intro pre act s₁ hpre _
    have hmem : act ∈ crash := hpre.subset (by simp)
    simp only [crash, mem_cons, not_mem_nil, or_false] at hmem
    rcases hmem with rfl | rfl | rfl | rfl | rfl
    case inr.inr.inl => exact fun _ _ _ _ hnone => absurd hnone (registerAll_isSome _ _)
    all_goals exact trivial
  have h := supervisor_keeps_contract id ⟨[102]⟩ RECONNECT_DEFAULTS true true crash s (.inl rfl) hsound hrun
  exact ⟨s, hrun, hlisted, htimer, h.2.2.2.2.2.2.1, h.2.2.1⟩

/-- A transport that cannot be created leaves a live supervisor without a generation, a retry or a
decision; and a strict startup sync that meets a refused name, after an earlier sync has registered
the tools, leaves a map that owns what is no longer registered. -/
theorem lost_without_decision_and_stale_owner :
    (∃ s, runs (publicToolName id ⟨[102]⟩) RECONNECT_DEFAULTS false false [.closeReturns 0, .quiesces 0] =
        some s ∧ s.policy.enabled = true ∧ s.disposal = .idle ∧ s.current = none ∧
        s.reconnectTimer = none ∧ s.downs = [] ∧ s.syncChain = []) ∧
    (∃ s, runs (publicToolName id ⟨[102]⟩) RECONNECT_DEFAULTS true true
        [.listChanged 0, .syncs, .connects 0 true, .page [⟨[97]⟩] false fun _ => false,
          .syncs, .page [⟨[97]⟩] false fun _ => true] = some s ∧
        s.disposal = .idle ∧ s.registry = [] ∧ s.disposers.length = 1) :=
  ⟨⟨_, rfl, rfl, rfl, rfl, rfl, rfl, rfl⟩, ⟨_, rfl, rfl, by decide +kernel, by decide +kernel⟩⟩

end Supervisor

end Harness
