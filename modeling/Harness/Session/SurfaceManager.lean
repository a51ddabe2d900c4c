-- SUMMARY: The incremental surface manager holds the fold of a prefix of the log, whatever it has pending.
import Harness.Session.SurfaceFold

namespace Harness

open List

/-- The events of a log, without the identities of the objects that hold them. -/
abbrev LogEntry.events (log : List LogEntry) : List SessionEvent := log.map LogEntry.event

/-! ## Growing a fold -/

theorem SurfaceAccepts.snoc_inv {log : List SessionEvent} {event : SessionEvent}
    {state : SurfaceFoldState} {replacements : List SurfaceFoldReplacement}
    (h : SurfaceAccepts (log ++ [event]) state replacements) :
    ∃ before replacements' plan, SurfaceAccepts log before replacements' ∧
      planSurfaceEvent before event log.length log 0 = .ok plan ∧
      state = (applySurfacePlan before plan).1 := by
  generalize hwhole : log ++ [event] = whole at h
  cases h with
  | nil => simp at hwhole
  | @snoc log' before replacements' event' plan haccepts hplan =>
    obtain ⟨rfl, hevent⟩ := append_inj' hwhole rfl
    cases hevent
    exact ⟨before, replacements', plan, haccepts, hplan, rfl⟩

/-- A later fold has at least as many replacements, and as long as it has no more
it only adds nodes at the end. -/
theorem SurfaceAccepts.grows {log more : List SessionEvent} {before state : SurfaceFoldState}
    {replacements replacements' : List SurfaceFoldReplacement}
    (hbefore : SurfaceAccepts log before replacements)
    (h : SurfaceAccepts (log ++ more) state replacements') :
    before.replaceGeneration ≤ state.replaceGeneration ∧
      (before.replaceGeneration = state.replaceGeneration → before.nodes <+: state.nodes) := by
  induction more using List.reverseRecOn generalizing state replacements' with
  | nil =>
    rw [append_nil] at h
    obtain ⟨rfl, -⟩ := hbefore.unique h
    exact ⟨Nat.le_refl _, fun _ => prefix_refl _⟩
  | append_singleton more event ih =>
    rw [← append_assoc] at h
    obtain ⟨middle, _, plan, hmiddle, -, rfl⟩ := h.snoc_inv
    obtain ⟨hle, hpre⟩ := ih hmiddle
    cases plan with
    | none => exact ⟨hle, hpre⟩
    | some plan =>
      cases plan with
      | append seq => exact ⟨hle, fun heq => (hpre heq).trans (prefix_append _ _)⟩
      | replace plan =>
        refine ⟨Nat.le_succ_of_le hle, fun heq => ?_⟩
        have : before.replaceGeneration = middle.replaceGeneration + 1 := heq
        omega

namespace SurfaceManager

/-! ## What a manager tracks -/

/-- `m` has folded the first `k` entries of `log`, and whatever it has pending is a
plan for the entry that comes next. -/
structure Tracks (m : SurfaceManager) (log : List LogEntry) (k : Nat) : Prop where
  base : m.baseSeq = 0
  last : m.lastProcessedSeq = (k : Int) - 1
  le : k ≤ log.length
  folded : ∃ replacements, SurfaceAccepts (LogEntry.events (log.take k)) m.state replacements
  pendingNext : ∀ p, m.pendingPlan = some p → p.expectedSeq = k
  pendingPlanned : ∀ p, m.pendingPlan = some p →
    planSurfaceEvent m.state p.event.event k (LogEntry.events (log.take k)) 0 = .ok p.plan
  pendingIdentity : ∀ p, m.pendingPlan = some p → ∀ entry ∈ log,
    entry.identity = p.event.identity → entry = p.event

theorem Tracks.create : Tracks (create 0) [] 0 where
  base := rfl
  last := rfl
  le := Nat.le_refl _
  folded := ⟨[], .nil⟩
  pendingNext := by simp [SurfaceManager.create]
  pendingPlanned := by simp [SurfaceManager.create]
  pendingIdentity := by simp [SurfaceManager.create]

variable {entry : LogEntry} {k : Nat} {log : List LogEntry} {m : SurfaceManager}

/-- The folded prefix does not see an entry pushed behind it. -/
theorem Tracks.push (h : m.Tracks log k)
    (hidentity : ∀ p, m.pendingPlan = some p → entry.identity = p.event.identity → entry = p.event) :
    m.Tracks (log ++ [entry]) k where
  base := h.base
  last := h.last
  le := by simpa using Nat.le_succ_of_le h.le
  folded := by simpa [take_append_of_le_length h.le] using h.folded
  pendingNext := h.pendingNext
  pendingPlanned := by simpa [take_append_of_le_length h.le] using h.pendingPlanned
  pendingIdentity := by
    intro p hp entry' hentry hid
    rcases mem_append.mp hentry with hentry | hentry
    · exact h.pendingIdentity p hp entry' hentry hid
    · rw [mem_singleton.mp hentry] at hid ⊢
      exact hidentity p hp hid

/-! ## Draining -/

variable {replacements : List SurfaceFoldReplacement} {state : SurfaceFoldState}

/-- The plan the drain applies for the next entry, pending or fresh, is its plan. -/
theorem Tracks.next (h : m.Tracks log k) (hentry : log[k]? = some entry)
    (haccepts : SurfaceAccepts (LogEntry.events log) state replacements) :
    ∃ plan replacements', planSurfaceEvent m.state entry.event k
        (LogEntry.events (log.take k)) 0 = .ok plan ∧
      SurfaceAccepts (LogEntry.events (log.take (k + 1))) (applySurfacePlan m.state plan).1
        replacements' := by
  obtain ⟨hlt, hget⟩ := List.getElem?_eq_some_iff.mp hentry
  have htake : LogEntry.events (log.take (k + 1)) =
      LogEntry.events (log.take k) ++ [entry.event] := by
    rw [take_succ_eq_append_getElem hlt, hget]
    simp
  have hsplit : LogEntry.events log =
      LogEntry.events (log.take (k + 1)) ++ LogEntry.events (log.drop (k + 1)) := by
    rw [← map_append, take_append_drop]
  rw [hsplit] at haccepts
  obtain ⟨state', replacements', hprefix⟩ := haccepts.of_append
  rw [htake] at hprefix ⊢
  obtain ⟨before, _, plan, hbefore, hplan, rfl⟩ := hprefix.snoc_inv
  obtain ⟨_, hfolded⟩ := h.folded
  obtain ⟨rfl, -⟩ := hbefore.unique hfolded
  have hlen : (LogEntry.events (log.take k)).length = k := by
    rw [length_map, length_take_of_le h.le]
  rw [hlen] at hplan
  exact ⟨plan, replacements', hplan, hprefix⟩

theorem Tracks.applyEntry (h : m.Tracks log k) (hentry : entry ∈ log) {plan : Option SurfacePlan}
    (hplan : planSurfaceEvent m.state entry.event k (LogEntry.events (log.take k)) 0 = .ok plan) :
    m.applyEntry log entry k = .ok (applySurfacePlan m.state plan).1 := by
  have hfresh : applySurfaceEvent m.state entry.event k (log.map LogEntry.event) m.baseSeq =
      .ok (applySurfacePlan m.state plan) := by
    have hcongr : planSurfaceEvent m.state entry.event k (log.map LogEntry.event) 0 = .ok plan := by
      rw [← hplan]
      apply planSurfaceEvent_congr
      intro x hx
      obtain ⟨_, hfolded⟩ := h.folded
      have hx : x < k := Nat.lt_of_lt_of_le (hfolded.nodes_lt x hx) (by
        rw [length_map, length_take]
        exact Nat.min_le_left ..)
      simp [hx]
    rw [applySurfaceEvent, h.base, hcongr]
  rw [SurfaceManager.applyEntry, hfresh]
  cases hp : m.pendingPlan with
  | none => rfl
  | some p =>
    by_cases hid : p.event.identity = entry.identity
    · -- the pending candidate is this very entry, so its plan is the fresh one
      have hevent := h.pendingIdentity p hp entry hentry hid.symm
      have hplanned := h.pendingPlanned p hp
      rw [← hevent, hplan] at hplanned
      cases hplanned
      simp [hid, h.pendingNext p hp]
    · simp [hid, Except.map]

theorem processEntries_tracks
    (haccepts : SurfaceAccepts (LogEntry.events log) state replacements) (rest : List LogEntry)
    (h : m.Tracks log k) (hrest : log.drop k = rest) :
    (processEntries log rest m).1 = .ok () ∧
      (processEntries log rest m).2.Tracks log log.length := by
  induction rest generalizing m k with
  | nil =>
    have hk : k = log.length := Nat.le_antisymm h.le (by simpa using hrest)
    exact ⟨rfl, hk ▸ h⟩
  | cons entry rest ih =>
    have hentry : log[k]? = some entry := by
      rw [← head?_drop, hrest]
      rfl
    have hseq : (m.lastProcessedSeq + 1).toNat = k := by
      rw [h.last]
      omega
    obtain ⟨plan, replacements', hplan, hnext⟩ := h.next hentry haccepts
    have hnone : (m.pendingPlan.filter fun pending => !decide (pending.expectedSeq ≤ k)) = none := by
      cases hp : m.pendingPlan with
      | none => rfl
      | some p => simp [h.pendingNext p hp]
    have htracks : Tracks
        { m with
          state := (applySurfacePlan m.state plan).1
          pendingPlan := m.pendingPlan.filter fun pending => !decide (pending.expectedSeq ≤ k)
          lastProcessedSeq := k } log (k + 1) := by
      refine ⟨h.base, by simp, ?_, ⟨replacements', hnext⟩, ?_, ?_, ?_⟩
      · exact (List.getElem?_eq_some_iff.mp hentry).1
      · simp [hnone]
      · simp [hnone]
      · simp [hnone]
    have hrest' : log.drop (k + 1) = rest := by
      rw [← drop_drop, hrest]
      rfl
    simp only [processEntries, hseq, h.applyEntry (mem_of_getElem? hentry) hplan]
    exact ih htracks hrest'

/-- The guarded drain brings a manager up to an accepted log. -/
theorem Tracks.drain (h : m.Tracks log k)
    (haccepts : SurfaceAccepts (LogEntry.events log) state replacements) :
    (m.drain log).1 = .ok () ∧ (m.drain log).2.Tracks log log.length ∧
      (m.drain log).2.state = state := by
  have hdrained : (m.drain log).1 = .ok () ∧ (m.drain log).2.Tracks log log.length := by
    unfold SurfaceManager.drain
    split
    · have hdrop : (m.lastProcessedSeq + 1 - m.baseSeq).toNat = k := by
        rw [h.last, h.base]
        omega
      rw [processDelta, hdrop]
      exact processEntries_tracks haccepts _ h rfl
    · rename_i hcaughtUp
      rw [h.last, h.base] at hcaughtUp
      have hk : k = log.length := by
        have := h.le
        omega
      exact ⟨rfl, hk ▸ h⟩
  refine ⟨hdrained.1, hdrained.2, ?_⟩
  obtain ⟨_, hfolded⟩ := hdrained.2.folded
  rw [take_length] at hfolded
  exact (hfolded.unique haccepts).1

/-- A manager that has caught up drains nothing. -/
theorem Tracks.drain_self (h : m.Tracks log log.length) : m.drain log = (.ok (), m) := by
  unfold SurfaceManager.drain
  rw [h.last, h.base, if_neg (by omega)]

/-! ## Candidates -/

/-- The next candidate is judged against the full fold. A planned candidate is left
pending; a rejected one leaves nothing behind. -/
theorem Tracks.validateNext (h : m.Tracks log k)
    (haccepts : SurfaceAccepts (LogEntry.events log) state replacements) {candidate : LogEntry}
    (hfresh : ∀ entry ∈ log, entry.identity ≠ candidate.identity) :
    (m.validateNext log candidate).2.Tracks log log.length ∧
      match planSurfaceEvent state candidate.event log.length (LogEntry.events log) 0 with
      | .error e => (m.validateNext log candidate).1 = .error e ∧
          (m.validateNext log candidate).2 = (m.drain log).2
      | .ok plan => (m.validateNext log candidate).1 = .ok () ∧
          (m.validateNext log candidate).2.pendingPlan =
            some { event := candidate, expectedSeq := log.length, plan } := by
  obtain ⟨hok, htracks, rfl⟩ := h.drain haccepts
  unfold SurfaceManager.validateNext
  generalize m.drain log = drained at hok htracks haccepts ⊢
  obtain ⟨result, m'⟩ := drained
  simp only at hok htracks
  subst hok
  have hbase : m'.baseSeq = 0 := htracks.base
  simp only [hbase, Nat.zero_add]
  cases hplan : planSurfaceEvent m'.state candidate.event log.length (LogEntry.events log) 0 with
  | error e => exact ⟨htracks, rfl, rfl⟩
  | ok plan =>
    refine ⟨?_, rfl, rfl⟩
    obtain ⟨-, hlast, hle, hfolded, -, -, -⟩ := htracks
    refine ⟨rfl, hlast, hle, hfolded, ?_, ?_, ?_⟩
    · rintro p ⟨rfl⟩
      rfl
    · rintro p ⟨rfl⟩
      simpa using hplan
    · rintro p ⟨rfl⟩ entry hentry hid
      exact absurd hid (hfresh entry hentry)

end SurfaceManager

end Harness
