-- SUMMARY: A local value resolves to the earliest instant that shows it, and is rejected exactly in a gap.
import Harness.Schedule.LocalInstant
import Mathlib.Data.List.Sort

namespace Harness

open List

namespace Schedule

/-! ## Offsets around a local value -/

namespace Zone

variable (zone : Zone)

/-- Without a transition between them two instants have one offset. -/
theorem exists_transition {a b : Int} (hle : a ≤ b) (hne : zone.offset a ≠ zone.offset b) :
    ∃ t, a < t ∧ t ≤ b ∧ zone.offset t ≠ zone.offset (t - 1) := by
  induction b, hle using Int.leInduction with
  | base => exact absurd rfl hne
  | succ b hle ih =>
    by_cases hlast : zone.offset (b + 1) = zone.offset b
    · obtain ⟨t, hfrom, hto, htransition⟩ := ih (by rwa [hlast] at hne)
      exact ⟨t, hfrom, by omega, htransition⟩
    · exact ⟨b + 1, by omega, le_refl _, by rwa [add_sub_cancel_right]⟩

/-- Within 96 hours every offset is the one at the start or the one at the end. -/
theorem offset_mem_ends {a b t : Int} (hwindow : b ≤ a + hours 96) (hfrom : a ≤ t) (hto : t ≤ b) :
    zone.offset t = zone.offset a ∨ zone.offset t = zone.offset b := by
  by_contra hneither
  obtain ⟨hstart, hend⟩ := not_or.1 hneither
  obtain ⟨s, has, hst, hs⟩ := zone.exists_transition hfrom (Ne.symm hstart)
  obtain ⟨s', hts', hs'b, hs'⟩ := zone.exists_transition hto hend
  -- There would be a transition on either side of `t`.
  have hsame := zone.sparse a s s' has (by omega) (by omega) (by omega) hs hs'
  omega

end Zone

/-! ## The loops -/

section
variable {zone : Zone} {formatter : Formatter}

theorem sampleAt_range (localEpoch delta : Int) :
    MIN_FOUR_DIGIT_YEAR_MS ≤ sampleAt localEpoch delta
      ∧ sampleAt localEpoch delta ≤ MAX_FOUR_DIGIT_YEAR_MS := by
  rw [sampleAt, MIN_FOUR_DIGIT_YEAR_MS_eq, MAX_FOUR_DIGIT_YEAR_MS_eq]
  omega

theorem mem_addOffset {offsets : List Int} {offset x : Int} :
    x ∈ addOffset offsets offset ↔ x ∈ offsets ∨ x = offset := by
  rw [addOffset]
  split
  case isTrue hmem =>
    refine ⟨.inl, ?_⟩
    rintro (hx | rfl)
    · exact hx
    · exact hmem
  case isFalse => simp

theorem sampleOffsets_spec (hformats : zone.Formats formatter) (localEpoch : Int)
    (deltas offsets : List Int) :
    ∃ sampled, sampleOffsets formatter localEpoch deltas offsets = .ok sampled
      ∧ offsets ⊆ sampled
      ∧ (∀ delta ∈ deltas, zone.offset (sampleAt localEpoch delta) ∈ sampled)
      ∧ ∀ offset ∈ sampled, offset ∈ offsets ∨ ∃ t, zone.offset t = offset := by
  induction deltas generalizing offsets with
  | nil => exact ⟨offsets, rfl, List.Subset.refl _, by simp, fun offset => .inl⟩
  | cons delta deltas ih =>
    obtain ⟨hmin, hmax⟩ := sampleAt_range localEpoch delta
    obtain ⟨sampled, hsampled, hold, hnew, honly⟩ :=
      ih (addOffset offsets (zone.offset (sampleAt localEpoch delta)))
    refine ⟨sampled, ?_, fun x hx => hold (mem_addOffset.2 (.inl hx)), ?_, ?_⟩
    · rw [sampleOffsets, hformats _ hmin hmax]
      exact hsampled
    · intro other hother
      rcases mem_cons.1 hother with rfl | hother
      · exact hold (mem_addOffset.2 (.inr rfl))
      · exact hnew other hother
    · intro offset hoffset
      rcases honly offset hoffset with hadded | hzone
      · exact (mem_addOffset.1 hadded).imp_right fun heq => ⟨_, heq.symm⟩
      · exact .inr hzone

/-- The confirmed candidates are the representable ones that show the local value. -/
theorem collectCandidates_spec (hformats : zone.Formats formatter) (parts : CalendarParts)
    (localEpoch : Int) (offsets : List Int) (candidates : Candidates) :
    ∃ collected, collectCandidates formatter parts localEpoch offsets candidates = .ok collected
      ∧ (∀ t, t ∈ collected.found ↔ t ∈ candidates.found
        ∨ ((localEpoch - t) ∈ offsets ∧ MIN_FOUR_DIGIT_YEAR_MS ≤ t ∧ t ≤ MAX_FOUR_DIGIT_YEAR_MS
          ∧ zone.wallClock t = parts))
      ∧ (collected.outOfRange = true ↔ candidates.outOfRange = true
        ∨ ∃ offset ∈ offsets, localEpoch - offset < MIN_FOUR_DIGIT_YEAR_MS
          ∨ MAX_FOUR_DIGIT_YEAR_MS < localEpoch - offset) := by
  induction offsets generalizing candidates with
  | nil => exact ⟨candidates, rfl, by simp, by simp⟩
  | cons offset offsets ih =>
    have hsolve (t : Int) : localEpoch - t = offset ↔ t = localEpoch - offset := by omega
    rw [collectCandidates]
    by_cases hrange : localEpoch - offset < MIN_FOUR_DIGIT_YEAR_MS
        ∨ MAX_FOUR_DIGIT_YEAR_MS < localEpoch - offset
    · rw [if_pos hrange]
      obtain ⟨collected, hcollected, hfound, hout⟩ := ih { candidates with outOfRange := true }
      refine ⟨collected, hcollected, fun t => ?_, ?_⟩
      · rw [hfound, mem_cons, hsolve]
        constructor
        · rintro (hold | ⟨hmem, hrest⟩)
          · exact .inl hold
          · exact .inr ⟨.inr hmem, hrest⟩
        · rintro (hold | ⟨rfl | hmem, hrest⟩)
          · exact .inl hold
          · omega
          · exact .inr ⟨hmem, hrest⟩
      · rw [hout]
        simp [hrange]
    · rw [if_neg hrange]
      obtain ⟨hmin, hmax⟩ := not_or.1 hrange
      rw [hformats _ (not_lt.1 hmin) (not_lt.1 hmax)]
      have hstill (candidates' : Candidates)
          (hsame : candidates'.outOfRange = candidates.outOfRange) :
          (candidates'.outOfRange = true ∨ ∃ offset ∈ offsets,
            localEpoch - offset < MIN_FOUR_DIGIT_YEAR_MS
              ∨ MAX_FOUR_DIGIT_YEAR_MS < localEpoch - offset)
          ↔ candidates.outOfRange = true ∨ ∃ offset' ∈ offset :: offsets,
            localEpoch - offset' < MIN_FOUR_DIGIT_YEAR_MS
              ∨ MAX_FOUR_DIGIT_YEAR_MS < localEpoch - offset' := by
        rw [hsame, exists_mem_cons_iff, or_iff_right hrange]
      by_cases hshows : zone.wallClock (localEpoch - offset) = parts
      · simp only [if_pos hshows]
        obtain ⟨collected, hcollected, hfound, hout⟩ :=
          ih { candidates with found := candidates.found ++ [localEpoch - offset] }
        refine ⟨collected, hcollected, fun t => ?_, hout.trans (hstill _ rfl)⟩
        rw [hfound, mem_append, mem_singleton, mem_cons, hsolve]
        constructor
        · rintro ((hold | rfl) | ⟨hmem, hrest⟩)
          · exact .inl hold
          · exact .inr ⟨.inl rfl, not_lt.1 hmin, not_lt.1 hmax, hshows⟩
          · exact .inr ⟨.inr hmem, hrest⟩
        · rintro (hold | ⟨rfl | hmem, hrest⟩)
          · exact .inl (.inl hold)
          · exact .inl (.inr rfl)
          · exact .inr ⟨hmem, hrest⟩
      · simp only [if_neg hshows]
        obtain ⟨collected, hcollected, hfound, hout⟩ := ih candidates
        refine ⟨collected, hcollected, fun t => ?_, hout.trans (hstill _ rfl)⟩
        rw [hfound, mem_cons, hsolve]
        constructor
        · rintro (hold | ⟨hmem, hrest⟩)
          · exact .inl hold
          · exact .inr ⟨.inr hmem, hrest⟩
        · rintro (hold | ⟨rfl | hmem, hrest⟩)
          · exact .inl hold
          · exact absurd hrest.2.2 hshows
          · exact .inr ⟨hmem, hrest⟩

end

theorem head?_mergeSort (candidates : List Int) :
    match (candidates.mergeSort (· ≤ ·)).head? with
    | some first => IsLeast {t | t ∈ candidates} first
    | none => candidates = [] := by
  have hperm := mergeSort_perm candidates (fun a b : Int => decide (a ≤ b))
  have hsorted := @pairwise_mergeSort _ (fun a b : Int => decide (a ≤ b))
    (fun a b c => by simpa using le_trans) (fun a b => by simpa using le_total a b) candidates
  generalize candidates.mergeSort (fun a b : Int => decide (a ≤ b)) = sorted at hperm hsorted ⊢
  cases sorted with
  | nil => exact hperm.nil_eq.symm
  | cons first rest =>
    refine ⟨hperm.subset mem_cons_self, fun t ht => ?_⟩
    rcases mem_cons.1 (hperm.symm.subset ht) with rfl | hrest
    · exact le_refl t
    · simpa using (pairwise_cons.1 hsorted).1 t hrest

/-! ## Resolution -/

/-- The representable instants at which the zone's clocks show `parts`. -/
def Zone.shownAt (zone : Zone) (parts : CalendarParts) : Set Int :=
  {t | MIN_FOUR_DIGIT_YEAR_MS ≤ t ∧ t ≤ MAX_FOUR_DIGIT_YEAR_MS ∧ zone.wallClock t = parts}

section
variable {zone : Zone} {formatter : Formatter} {parts : CalendarParts} {localEpoch : Int}

/-- Every representable instant that shows the value has a sampled offset. -/
theorem offset_sampled (hparts : Calendar.parts localEpoch = parts) {sampled : List Int}
    (hsampled : ∀ delta ∈ sampleDeltas, zone.offset (sampleAt localEpoch delta) ∈ sampled)
    {t : Int} (ht : t ∈ zone.shownAt parts) : localEpoch - t ∈ sampled := by
  obtain ⟨hmin, hmax, hshows⟩ := ht
  have hlocal : t + zone.offset t = localEpoch :=
    Calendar.parts_injective (hshows.trans hparts.symm)
  have hoffset : localEpoch - t = zone.offset t := by omega
  have hbounded := zone.bounded t
  -- The outer samples are at most 96 hours apart, and the instant lies between them.
  have hends : zone.offset t = zone.offset (sampleAt localEpoch (-172800000))
      ∨ zone.offset t = zone.offset (sampleAt localEpoch 172800000) := by
    simp only [hours] at hbounded
    rw [MIN_FOUR_DIGIT_YEAR_MS_eq] at hmin
    rw [MAX_FOUR_DIGIT_YEAR_MS_eq] at hmax
    apply zone.offset_mem_ends <;>
      simp only [sampleAt, hours, MIN_FOUR_DIGIT_YEAR_MS_eq, MAX_FOUR_DIGIT_YEAR_MS_eq] <;> omega
  rw [hoffset]
  rcases hends with hstart | hend
  · exact hstart ▸ hsampled _ (by simp [sampleDeltas])
  · exact hend ▸ hsampled _ (by simp [sampleDeltas])

/-- The resolution answers the earliest representable instant, or finds that there is none. -/
theorem resolveLocalInstant_spec (hformats : zone.Formats formatter)
    (hvalid : calendarEpoch parts = .ok localEpoch) :
    match resolveLocalInstant parts formatter with
    | .ok t => IsLeast (zone.shownAt parts) t
    | .error e => zone.shownAt parts = ∅ ∧ (e = localTimeMissing ∨ e = timeOutOfRange
        ∧ ∃ t, localEpoch - zone.offset t < MIN_FOUR_DIGIT_YEAR_MS
          ∨ MAX_FOUR_DIGIT_YEAR_MS < localEpoch - zone.offset t) := by
  have hparts := calendarEpoch_ok hvalid
  obtain ⟨sampled, hsampled, -, hall, honly⟩ :=
    sampleOffsets_spec hformats localEpoch sampleDeltas []
  obtain ⟨collected, hcollected, hfound, hout⟩ := collectCandidates_spec hformats parts localEpoch
    sampled { found := [], outOfRange := false }
  have hshown : {t | t ∈ collected.found} = zone.shownAt parts := by
    ext t
    refine ⟨fun ht => ?_, fun ht => (hfound t).2 (.inr ⟨offset_sampled hparts hall ht, ht⟩)⟩
    rcases (hfound t).1 ht with hnone | ⟨-, hshows⟩
    · cases hnone
    · exact hshows
  have hhead := head?_mergeSort collected.found
  rw [hshown] at hhead
  have hresolve : resolveLocalInstant parts formatter = collected.first := by
    unfold resolveLocalInstant
    rewrite [hvalid]
    simp only [hsampled, hcollected]
  rw [hresolve, Candidates.first]
  generalize (collected.found.mergeSort (· ≤ ·)).head? = earliest at hhead ⊢
  cases earliest with
  | some first => exact hhead
  | none =>
    have hempty : zone.shownAt parts = ∅ := by
      rw [← hshown, hhead]
      ext t
      simp
    cases hflag : collected.outOfRange with
    | false => exact ⟨hempty, .inl rfl⟩
    | true =>
      refine ⟨hempty, .inr ⟨rfl, ?_⟩⟩
      rcases hout.1 hflag with hinit | ⟨offset, hoffset, hrange⟩
      · cases hinit
      rcases honly offset hoffset with hnone | ⟨t, rfl⟩
      · cases hnone
      · exact ⟨t, hrange⟩

/-- Away from the ends of the representable range a valid local value resolves to the earliest
instant whose wall clock shows it, and it is rejected exactly when no instant does. -/
theorem resolveLocalInstant_earliest (hformats : zone.Formats formatter)
    (hvalid : calendarEpoch parts = .ok localEpoch)
    (hmin : MIN_FOUR_DIGIT_YEAR_MS + hours 16 ≤ localEpoch)
    (hmax : localEpoch ≤ MAX_FOUR_DIGIT_YEAR_MS - hours 16) :
    (∀ t, resolveLocalInstant parts formatter = .ok t
        ↔ IsLeast {t | zone.wallClock t = parts} t)
      ∧ ((∃ e, resolveLocalInstant parts formatter = .error e)
        ↔ ¬ ∃ t, zone.wallClock t = parts)
      ∧ ∀ e, resolveLocalInstant parts formatter = .error e → e = localTimeMissing := by
  have hparts := calendarEpoch_ok hvalid
  have hshown : {t | zone.wallClock t = parts} = zone.shownAt parts := by
    ext t
    refine ⟨fun hshows => ?_, fun ht => ht.2.2⟩
    have hlocal : t + zone.offset t = localEpoch :=
      Calendar.parts_injective (Eq.trans hshows hparts.symm)
    have hbounded := zone.bounded t
    exact ⟨by omega, by omega, hshows⟩
  have hspec := resolveLocalInstant_spec hformats hvalid
  rw [← hshown] at hspec
  cases hresolve : resolveLocalInstant parts formatter with
  | ok first =>
    rw [hresolve] at hspec
    refine ⟨fun t => ?_, ?_, fun e he => by cases he⟩
    · rw [Except.ok.injEq]
      exact ⟨fun heq => heq ▸ hspec, fun hleast => hspec.unique hleast⟩
    constructor
    · rintro ⟨e, he⟩
      cases he
    · intro hnone
      exact absurd ⟨first, hspec.1⟩ hnone
  | error e =>
    rw [hresolve] at hspec
    obtain ⟨hempty, hcause⟩ := hspec
    have hnone (t : Int) : zone.wallClock t ≠ parts := fun hshows => by
      have hmem : t ∈ {t | zone.wallClock t = parts} := hshows
      rw [hempty] at hmem
      exact hmem
    refine ⟨fun t => ?_, ?_, fun e' he => ?_⟩
    · constructor
      · intro heq
        cases heq
      · intro hleast
        exact absurd hleast.1 (hnone t)
    · exact ⟨fun _ ⟨t, ht⟩ => hnone t ht, fun _ => ⟨e, rfl⟩⟩
    · cases he
      apply hcause.resolve_right
      rintro ⟨-, t, hrange⟩
      have hbounded := zone.bounded t
      omega

end

/-! ## An overlap -/

/-- A zone whose clocks go back from one hour east to UTC, once. -/
def fallBack : Zone where
  offset t := if t < 1000000000000 then hours 1 else 0
  bounded t := by
    simp only [hours]
    split <;> omega
  sparse start t t' _ _ _ _ ht ht' := by
    simp only [hours] at ht ht'
    split_ifs at ht ht' <;> omega

/-- What is printed in that zone. -/
def fallBackFormatter : Formatter := fun t =>
  { fields := fallBack.wallClock t
    timeZoneName :=
      if t < 1000000000000 then some (some { sign := .plus, hour := 1, minute := 0, second := none })
      else some none }

theorem fallBackFormatter_formats : fallBack.Formats fallBackFormatter := by
  intro t _ _
  by_cases hbefore : t < 1000000000000
  · simp [localProjection, fallBackFormatter, fallBack, OffsetGroups.offset, hours, hbefore]
  · simp [localProjection, fallBackFormatter, fallBack, hbefore]

/-- Half an hour after the change the clocks show what they showed half an hour before it. -/
theorem resolveLocalInstant_overlap :
    resolveLocalInstant (Calendar.parts 1000001800000) fallBackFormatter = .ok 999998200000 := by
  have hvalid : calendarEpoch (Calendar.parts 1000001800000) = .ok 1000001800000 := by
    simp [calendarEpoch, Calendar.epoch_parts, MAX_TIME_VALUE]
  have hearliest := resolveLocalInstant_earliest fallBackFormatter_formats hvalid
    (by rw [MIN_FOUR_DIGIT_YEAR_MS_eq]; decide) (by rw [MAX_FOUR_DIGIT_YEAR_MS_eq]; decide)
  apply (hearliest.1 999998200000).2
  constructor
  · have hoffset : fallBack.offset 999998200000 = 3600000 := by decide
    simp [Zone.wallClock, hoffset]
  intro t hshows
  have hlocal := Calendar.parts_injective hshows
  simp only [fallBack, hours] at hlocal
  split at hlocal <;> omega

end Schedule

end Harness
