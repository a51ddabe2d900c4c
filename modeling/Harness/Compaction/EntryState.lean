-- SUMMARY: The entry state a region call reads off the log is the one the compaction validator holds.
import Harness.Compaction.Brackets

namespace Harness

open List

@[simp] theorem latest_nil {α : Type} (read : SessionEvent → Option α) : latest read [] = none := rfl

theorem latest_snoc {α : Type} (read : SessionEvent → Option α) (log : List SessionEvent)
    (event : SessionEvent) : latest read (log ++ [event]) = (read event).or (latest read log) := by
  unfold latest
  rw [reverse_append, reverse_singleton, singleton_append, findSome?_cons]
  cases read event <;> rfl

namespace CompactionSessionTrace

/-! ## One step of a seed -/

theorem applyTurnBoundary_openTurn (c : CompactionSessionTrace) (event : SessionEvent) :
    (c.applyTurnBoundary event).openTurn = (turnBoundary event).getD c.openTurn := by
  unfold applyTurnBoundary turnBoundary
  cases event.data <;> rfl

theorem applyTurnBoundary_compaction (c : CompactionSessionTrace) (event : SessionEvent) :
    (c.applyTurnBoundary event).compaction = c.compaction := by
  unfold applyTurnBoundary
  cases event.data <;> rfl

/-- What an accepted event makes of the bracket that was open. -/
def Moves (before : Option CompactionTrace) (event : SessionEvent)
    (after : Option CompactionTrace) : Prop :=
  ∀ opened, after = some opened →
    bracketMarker event = some (some event.seq) ∧ opened.startSeq = event.seq ∨
      bracketMarker event = none ∧ endSeedMarker event = none ∧
        ∃ opened', before = some opened' ∧ opened.startSeq = opened'.startSeq

theorem validateMember_opened {c : CompactionSessionTrace} {eventType : String} {data : Json}
    {opened : CompactionTrace} (h : c.validateMember eventType data = .ok opened) :
    c.compaction = some opened := by
  unfold validateMember at h
  simp only [bind, Except.bind] at h
  split at h
  · cases h
  split at h
  · cases h
  split at h
  · cases h
  rename_i opened' hopen
  split at h
  · cases h
  split at h
  · cases h
  · rw [hopen, Except.ok.inj h]

variable {event : SessionEvent}

/-- The bracket after an event of its own. -/
theorem validateCompactionEvent_moves {c : CompactionSessionTrace}
    {transition : Option CompactionTransition}
    (h : c.validateCompactionEvent event = .ok transition) :
    Moves c.compaction event
      (transition.elim c.compaction CompactionSessionTrace.applyCompactionTransition) := by
  intro opened hafter
  unfold validateCompactionEvent at h
  cases hdata : event.data <;> simp only [hdata] at h
  case sessionEndSeed =>
    cases h
    cases hafter
  case userMessage message =>
    have hnone : transition = none := by
      split at h
      · obtain ⟨u, hcheck, h⟩ := Except.bind_eq_ok.mp h
        exact (Except.ok.inj h).symm
      · exact (Except.ok.inj h).symm
    subst hnone
    refine .inr ⟨?_, ?_, opened, hafter, rfl⟩
    · simp only [bracketMarker, hdata]
    · simp only [endSeedMarker, hdata]
  case other type data merged =>
    have hseed : endSeedMarker event = none := by simp only [endSeedMarker, hdata]
    split at h
    · rename_i hstart
      obtain ⟨t, hvalid, h⟩ := Except.bind_eq_ok.mp h
      cases h
      refine .inl ⟨by simp only [bracketMarker, hdata, hstart, if_true], ?_⟩
      unfold validateStart at hvalid
      simp only [bind, Except.bind] at hvalid
      split at hvalid
      · cases hvalid
      split at hvalid
      · cases hvalid
      split at hvalid
      · cases hvalid
      split at hvalid
      · cases hvalid
      cases hvalid
      cases hafter
      rfl
    · rename_i hstart
      split at h
      · rename_i hsummary
        have hend : (type == "compaction/end") = false := by
          rw [eq_of_beq hsummary]
          rfl
        obtain ⟨t, hvalid, h⟩ := Except.bind_eq_ok.mp h
        cases h
        refine .inr ⟨by simp [bracketMarker, hdata, hstart, hend], hseed, ?_⟩
        unfold validateSummary at hvalid
        simp only [bind, Except.bind] at hvalid
        obtain ⟨member, hmember, hvalid⟩ := Except.bind_eq_ok.mp hvalid
        split at hvalid
        · cases hvalid
        split at hvalid
        · cases hvalid
        split at hvalid
        · cases hvalid
        cases hvalid
        cases hafter
        exact ⟨member, validateMember_opened hmember, rfl⟩
      · split at h
        · obtain ⟨t, hvalid, h⟩ := Except.bind_eq_ok.mp h
          cases h
          unfold validateEnd at hvalid
          simp only [bind, Except.bind] at hvalid
          split at hvalid
          · cases hvalid
          split at hvalid
          · cases hvalid
          split at hvalid
          · cases hvalid
          split at hvalid
          · cases hvalid
          · cases hvalid
            cases hafter
        · rename_i hsummary hend
          cases h
          exact .inr ⟨by simp [bracketMarker, hdata, hstart, hend], hseed, opened, hafter, rfl⟩
  all_goals
    cases h
    refine .inr ⟨?_, ?_, opened, hafter, rfl⟩
    · simp only [bracketMarker, hdata]
    · simp only [endSeedMarker, hdata]

variable {c c' : CompactionSessionTrace} {stale : List Nat}

theorem seedStep_ok (h : c.seedStep stale event = .ok c') :
    c'.openTurn = (turnBoundary event).getD c.openTurn ∧
      Moves c.compaction event c'.compaction := by
  unfold seedStep at h
  simp only [bind, Except.bind] at h
  cases hvalid : c.validateCompactionEvent event with
  | error e =>
    rw [hvalid] at h
    split at h
    · split at h <;> cases h
    · cases h
  | ok transition =>
    have hmoves := validateCompactionEvent_moves hvalid
    rw [hvalid] at h
    cases hboundary : c.validateTurnBoundary event with
    | error e =>
      rw [hboundary] at h
      split at h
      · cases h
      cases h
      rw [applyTurnBoundary_openTurn, applyTurnBoundary_compaction]
      cases transition <;> exact ⟨rfl, hmoves⟩
    | ok u =>
      rw [hboundary] at h
      simp only [ite_self, Except.ok.injEq] at h
      subst h
      rw [applyTurnBoundary_openTurn, applyTurnBoundary_compaction]
      cases transition <;> exact ⟨rfl, hmoves⟩

/-! ## A whole seed -/

/-- What the trace of a log says about its markers. -/
structure Scans (log : List SessionEvent) (c : CompactionSessionTrace) : Prop where
  openTurn : c.openTurn = (latest turnBoundary log).join
  opened : ∀ opened, c.compaction = some opened →
    latest bracketMarker log = some (some opened.startSeq) ∧
      ∀ seed, latest endSeedMarker log = some seed → seed < opened.startSeq

variable {log : List SessionEvent}

theorem Scans.snoc (h : Scans log c) (hstep : c.seedStep stale event = .ok c')
    (hlater : ∀ seed, latest endSeedMarker log = some seed → seed < event.seq) :
    Scans (log ++ [event]) c' := by
  obtain ⟨hturn, hmoves⟩ := seedStep_ok hstep
  constructor
  · rw [hturn, latest_snoc, h.openTurn]
    cases turnBoundary event <;> rfl
  intro opened hopened
  rw [latest_snoc, latest_snoc]
  rcases hmoves opened hopened with ⟨hmarker, hseq⟩ | ⟨hmarker, hseed, opened', hbefore, hseq⟩
  · have hnoseed : endSeedMarker event = none := by
      unfold bracketMarker at hmarker
      unfold endSeedMarker
      cases hdata : event.data <;> simp only [hdata] at hmarker ⊢
      cases hmarker
    rw [hmarker, hseq, hnoseed]
    exact ⟨rfl, hlater⟩
  · obtain ⟨hlatest, hearlier⟩ := h.opened opened' hbefore
    rw [hmarker, hseed, hseq]
    exact ⟨hlatest, hearlier⟩

theorem seedFrom_append {xs ys : List SessionEvent} : seedFrom stale c (xs ++ ys) = .ok c' ↔
      ∃ middle, seedFrom stale c xs = .ok middle ∧ seedFrom stale middle ys = .ok c' := by
  induction xs generalizing c with
  | nil => simp [seedFrom]
  | cons x xs ih =>
    rw [cons_append]
    simp only [seedFrom]
    cases c.seedStep stale x with
    | error e => simp
    | ok c₁ => exact ih

theorem latest_endSeed_lt {state : SurfaceFoldState}
    {replacements : List SurfaceFoldReplacement} (h : SurfaceAccepts log state replacements)
    {seed : Nat} (hseed : latest endSeedMarker log = some seed) : seed < log.length := by
  induction h with
  | nil => cases hseed
  | @snoc log state replacements event plan _ hplan ih =>
    rw [latest_snoc] at hseed
    rw [length_append, length_singleton]
    cases hmarker : endSeedMarker event with
    | none =>
      rw [hmarker] at hseed
      exact Nat.lt_succ_of_lt (ih hseed)
    | some n =>
      rw [hmarker] at hseed
      have hn : n = event.seq := by
        unfold endSeedMarker at hmarker
        cases hdata : event.data <;> simp only [hdata] at hmarker <;> cases hmarker
        rfl
      cases hseed
      rw [hn, (planSurfaceEvent_ok hplan).1]
      exact Nat.lt_succ_self _

/-- The trace a log seeds says what its markers say. -/
theorem scans_of_seedFrom {state : SurfaceFoldState}
    {replacements : List SurfaceFoldReplacement} (haccepts : SurfaceAccepts log state replacements)
    {c : CompactionSessionTrace} (h : seedFrom stale fresh log = .ok c) : Scans log c := by
  induction haccepts generalizing c with
  | nil =>
    cases h
    exact ⟨rfl, fun opened hopened => nomatch hopened⟩
  | @snoc log state replacements event plan haccepts hplan ih =>
    obtain ⟨middle, hlog, hlast⟩ := seedFrom_append.mp h
    simp only [seedFrom] at hlast
    cases hstep : middle.seedStep stale event with
    | error e =>
      rw [hstep] at hlast
      cases hlast
    | ok c' =>
      rw [hstep] at hlast
      cases hlast
      refine (ih hlog).snoc hstep fun seed hseed => ?_
      rw [(planSurfaceEvent_ok hplan).1]
      exact latest_endSeed_lt haccepts hseed

end CompactionSessionTrace

end Harness
