-- SUMMARY: The pruner rewrites every result over budget, to one within it.
import Harness.Compaction.Pruner

namespace Harness

open List

/-! ## Code points -/

/-- One more code unit adds at most one code point, and takes none away. -/
theorem codePoints_cons_length (u : UInt16) (rest : List UInt16) :
    (codePoints rest).length ≤ (codePoints (u :: rest)).length ∧
      (codePoints (u :: rest)).length ≤ (codePoints rest).length + 1 := by
  induction rest generalizing u with
  | nil => simp [codePoints]
  | cons v rest ih =>
    rw [codePoints]
    obtain ⟨hlo, hhi⟩ := ih v
    split
    · simp only [length_cons]
      omega
    · simp only [length_cons]
      omega

/-- Two texts side by side may share a code point, where a surrogate pair meets. -/
theorem codePoints_append_length (a b : List UInt16) :
    (codePoints (a ++ b)).length ≤ (codePoints a).length + (codePoints b).length := by
  induction a using codePoints.induct with
  | case1 => simp [codePoints]
  | case2 u =>
    have := (codePoints_cons_length u b).2
    simp only [singleton_append, codePoints, length_singleton]
    omega
  | case3 u v rest hpair ih =>
    simp only [cons_append, codePoints, hpair, if_true, length_cons]
    omega
  | case4 u v rest hpair ih =>
    simp only [cons_append, codePoints, hpair, Bool.false_eq_true, if_false,
      length_cons] at ih ⊢
    omega

theorem codePoints_single {text point : List UInt16} (h : point ∈ codePoints text) :
    (codePoints point).length = 1 := by
  induction text using codePoints.induct with
  | case1 => simp [codePoints] at h
  | case2 u =>
    rw [codePoints, mem_singleton] at h
    rw [h]
    rfl
  | case3 u v rest hpair ih =>
    rw [codePoints, if_pos hpair] at h
    rcases mem_cons.mp h with rfl | h
    · simp [codePoints, hpair]
    · exact ih h
  | case4 u v rest hpair ih =>
    rw [codePoints, if_neg hpair] at h
    rcases mem_cons.mp h with rfl | h
    · rfl
    · exact ih h

theorem codePoints_flatten_length {points : List (List UInt16)}
    (h : ∀ point ∈ points, (codePoints point).length = 1) :
    (codePoints points.flatten).length ≤ points.length := by
  induction points with
  | nil => exact Nat.le_refl 0
  | cons point points ih =>
    have happend := codePoints_append_length point points.flatten
    have hpoint := h point mem_cons_self
    have hrest := ih fun p hp => h p (mem_cons_of_mem _ hp)
    rw [flatten_cons, length_cons]
    omega

namespace ToolResultPruner

/-! ## The loop -/

theorem measureContent_append (xs ys : List ContentBlock) :
    measureContent (xs ++ ys) = measureContent xs + measureContent ys := by
  induction xs with
  | nil => simp [measureContent]
  | cons block xs ih =>
    cases block <;> simp only [cons_append, measureContent, ih]
    omega

/-- What the loop has kept of the first `l.consumed` code points: those before the removed
span, those after it, and one marker. -/
structure PruneLoop.Kept (removedStart removedEnd : Nat) (l : PruneLoop) : Prop where
  marker : l.markerInserted = decide (removedStart < l.consumed)
  kept : measureContent l.pruned ≤
    min l.consumed removedStart + (l.consumed - removedEnd) +
      if removedStart < l.consumed then codePointLength PRUNE_MARKER else 0

variable {removedStart removedEnd : Nat} {l : PruneLoop}

/-- The text a text block leaves, measured. -/
theorem text_length (text : JsString) (headEnd tailStart : Nat) (marker : List UInt16)
    (hhead : headEnd ≤ (codePoints text.units).length) :
    (codePoints (((codePoints text.units).take headEnd).flatten ++ marker ++
        ((codePoints text.units).drop tailStart).flatten)).length ≤
      headEnd + (codePoints marker).length + ((codePoints text.units).length - tailStart) := by
  have hsplit := codePoints_append_length
    (((codePoints text.units).take headEnd).flatten ++ marker)
    ((codePoints text.units).drop tailStart).flatten
  have hfront := codePoints_append_length ((codePoints text.units).take headEnd).flatten marker
  have hheads : (codePoints ((codePoints text.units).take headEnd).flatten).length ≤ headEnd := by
    have hsingle : ∀ p ∈ (codePoints text.units).take headEnd, (codePoints p).length = 1 :=
      fun p hp => codePoints_single (mem_of_mem_take hp)
    have := codePoints_flatten_length hsingle
    rwa [length_take, Nat.min_eq_left hhead] at this
  have htails : (codePoints ((codePoints text.units).drop tailStart).flatten).length ≤
      (codePoints text.units).length - tailStart := by
    have hsingle : ∀ p ∈ (codePoints text.units).drop tailStart, (codePoints p).length = 1 :=
      fun p hp => codePoints_single (mem_of_mem_drop hp)
    have := codePoints_flatten_length hsingle
    rwa [length_drop] at this
  omega

theorem measureContent_pushed (pruned : List ContentBlock) (text : List UInt16) :
    measureContent (if text.length > 0 then pruned ++ [.text ⟨text⟩] else pruned) ≤
      measureContent pruned + (codePoints text).length := by
  split
  · rw [measureContent_append]
    exact Nat.le_refl _
  · exact Nat.le_add_right _ _

theorem PruneLoop.Kept.text (h : l.Kept removedStart removedEnd)
    (hspan : removedStart < removedEnd) (text : JsString) :
    (l.text removedStart removedEnd text).Kept removedStart removedEnd ∧
      (l.text removedStart removedEnd text).consumed = l.consumed + codePointLength text := by
  have hmarker := h.marker
  have hkept := h.kept
  refine ⟨⟨?_, ?_⟩, rfl⟩
  · simp only [PruneLoop.text, hmarker]
    rw [Bool.eq_iff_iff]
    simp only [Bool.or_eq_true, Bool.and_eq_true, decide_eq_true_eq]
    omega
  have hpushed := measureContent_pushed l.pruned
    (((codePoints text.units).take
        (min (codePoints text.units).length (removedStart - l.consumed))).flatten ++
      (if (decide (l.consumed < removedEnd) &&
          decide (removedStart < l.consumed + (codePoints text.units).length)) &&
            !l.markerInserted then PRUNE_MARKER.units else []) ++
      ((codePoints text.units).drop
        (min (codePoints text.units).length (removedEnd - l.consumed))).flatten)
  refine hpushed.trans ?_
  have hlength := text_length text
    (min (codePoints text.units).length (removedStart - l.consumed))
    (min (codePoints text.units).length (removedEnd - l.consumed))
    (if (decide (l.consumed < removedEnd) &&
      decide (removedStart < l.consumed + (codePoints text.units).length)) &&
        !l.markerInserted then PRUNE_MARKER.units else []) (by omega)
  refine (Nat.add_le_add hkept hlength).trans ?_
  rw [show (l.text removedStart removedEnd text).consumed =
    l.consumed + (codePoints text.units).length from rfl, hmarker]
  have hnone : (codePoints ([] : List UInt16)).length = 0 := rfl
  have hsome : (codePoints PRUNE_MARKER.units).length = codePointLength PRUNE_MARKER := rfl
  by_cases hbefore : removedStart < l.consumed
  · simp only [hbefore, decide_true, Bool.not_true, Bool.and_false, Bool.false_eq_true, if_false,
      if_true, hnone, show removedStart < l.consumed + (codePoints text.units).length by omega]
    omega
  by_cases hafter : removedStart < l.consumed + (codePoints text.units).length
  · simp only [hbefore, hafter, decide_false, decide_true, Bool.not_false, Bool.and_true,
      show l.consumed < removedEnd by omega, if_true, if_false, hsome]
    omega
  · simp only [hbefore, hafter, decide_false, Bool.and_false, Bool.false_and,
      Bool.false_eq_true, if_false, hnone]
    omega

theorem PruneLoop.Kept.block (h : l.Kept removedStart removedEnd)
    (hspan : removedStart < removedEnd) (block : ContentBlock) :
    (PruneLoop.block removedStart removedEnd l block).Kept removedStart removedEnd ∧
      (PruneLoop.block removedStart removedEnd l block).consumed =
        l.consumed + measureContent [block] := by
  cases block with
  | text text => exact h.text hspan text
  | _ =>
    refine ⟨⟨h.marker, ?_⟩, rfl⟩
    simp only [PruneLoop.block]
    rw [measureContent_append]
    exact h.kept

theorem PruneLoop.Kept.blocks (h : l.Kept removedStart removedEnd)
    (hspan : removedStart < removedEnd) (blocks : List ContentBlock) :
    (blocks.foldl (PruneLoop.block removedStart removedEnd) l).Kept removedStart removedEnd ∧
      (blocks.foldl (PruneLoop.block removedStart removedEnd) l).consumed =
        l.consumed + measureContent blocks := by
  induction blocks generalizing l with
  | nil => exact ⟨h, rfl⟩
  | cons block blocks ih =>
    obtain ⟨hblock, hconsumed⟩ := h.block hspan block
    obtain ⟨hblocks, hall⟩ := ih hblock
    refine ⟨hblocks, ?_⟩
    rw [foldl_cons, hall, hconsumed, Nat.add_assoc, ← measureContent_append]
    rfl

/-! ## One result -/

/-- The rewrite of a result never throws: within budget there is none, over budget there is
one. -/
theorem pruneContent_ok (config : PruneConfig) (blocks : List ContentBlock) :
    if measureContent blocks ≤ config.thresholdChars then pruneContent config blocks = .ok none
    else ∃ pruned, pruneContent config blocks = .ok (some pruned) := by
  unfold pruneContent
  split
  · rename_i hwithin
    rw [if_pos hwithin]
  rename_i hover
  rw [if_neg hover]
  have hfits := config.fits
  have hmarker : 0 < codePointLength PRUNE_MARKER := by decide +kernel
  have hspan : config.headChars < measureContent blocks - config.tailChars := by omega
  have hstart : PruneLoop.Kept config.headChars (measureContent blocks - config.tailChars) {} :=
    ⟨rfl, Nat.zero_le _⟩
  obtain ⟨hkept, hconsumed⟩ := hstart.blocks hspan blocks
  have hall := hkept.kept
  have hinserted := hkept.marker
  rw [hconsumed, show ({} : PruneLoop).consumed = 0 from rfl, Nat.zero_add] at hall hinserted
  rw [if_pos (by omega)] at hall
  simp only [hinserted, show config.headChars < measureContent blocks by omega, decide_true,
    Bool.not_true, Bool.false_eq_true, if_false]
  rw [if_neg]
  · exact ⟨_, rfl⟩
  · simp only [Bool.or_eq_true, decide_eq_true_eq, not_or]
    omega

end ToolResultPruner

end Harness
