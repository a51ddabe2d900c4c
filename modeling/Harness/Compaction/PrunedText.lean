-- SUMMARY: What a rewritten result says: the first code points of its text, the marker, and the last code points.
import Harness.Compaction.PruneContent

namespace Harness

open List

/-! ## Code points of a text in parts -/

/-- Two texts side by side keep their code points, unless a surrogate pair meets between them. -/
theorem codePoints_append {a b : List UInt16}
    (h : ∀ u ∈ a.getLast?, ∀ v ∈ b.head?, ¬ (isLeadSurrogate u && isTrailSurrogate v) = true) :
    codePoints (a ++ b) = codePoints a ++ codePoints b := by
  induction a using codePoints.induct with
  | case1 => rfl
  | case2 u =>
    cases b with
    | nil => rfl
    | cons v b =>
      have hsplit := h u rfl v rfl
      simp only [singleton_append, codePoints, if_neg hsplit]
  | case3 u v rest hpair ih =>
    simp only [cons_append, codePoints, hpair, if_true]
    cases rest with
    | nil => rfl
    | cons w rest =>
      rw [ih]
      rwa [getLast?_cons_cons, getLast?_cons_cons] at h
  | case4 u v rest hpair ih =>
    simp only [cons_append, codePoints, hpair, Bool.false_eq_true, if_false] at ih ⊢
    rw [ih]
    rwa [getLast?_cons_cons] at h

namespace ToolResultPruner

/-! ## The text of a result -/

def textUnits : List ContentBlock → List UInt16
  | [] => []
  | .text text :: blocks => text.units ++ textUnits blocks
  | _ :: blocks => textUnits blocks

/-- The code points of a result, each text block read on its own. -/
def textPoints : List ContentBlock → List (List UInt16)
  | [] => []
  | .text text :: blocks => codePoints text.units ++ textPoints blocks
  | _ :: blocks => textPoints blocks

def isTextBlock : ContentBlock → Bool
  | .text _ => true
  | _ => false

/-- The blocks a rewrite carries over as they are. -/
def richBlocks (blocks : List ContentBlock) : List ContentBlock :=
  blocks.filter fun block => !isTextBlock block

/-- No text block ends within a surrogate pair that the text after it completes. -/
def WholePairs (blocks : List ContentBlock) : Prop :=
  ∀ front back, blocks = front ++ back →
    ∀ u ∈ (textUnits front).getLast?, ∀ v ∈ (textUnits back).head?,
      ¬ (isLeadSurrogate u && isTrailSurrogate v) = true

theorem textUnits_append (xs ys : List ContentBlock) :
    textUnits (xs ++ ys) = textUnits xs ++ textUnits ys := by
  induction xs with
  | nil => rfl
  | cons block xs ih => cases block <;> simp [textUnits, ih]

theorem textPoints_append (xs ys : List ContentBlock) :
    textPoints (xs ++ ys) = textPoints xs ++ textPoints ys := by
  induction xs with
  | nil => rfl
  | cons block xs ih => cases block <;> simp [textPoints, ih]

theorem length_textPoints (blocks : List ContentBlock) :
    (textPoints blocks).length = measureContent blocks := by
  induction blocks with
  | nil => rfl
  | cons block blocks ih =>
    cases block <;> simp [textPoints, measureContent, codePointLength, ih]

/-- Where no pair is split between blocks, the blocks' code points are the text's. -/
theorem WholePairs.textPoints_eq {blocks : List ContentBlock} (h : WholePairs blocks) :
    textPoints blocks = codePoints (textUnits blocks) := by
  induction blocks with
  | nil => rfl
  | cons block blocks ih =>
    have hrest : WholePairs blocks := by
      intro front back hsplit u hu v hv
      apply h (block :: front) back (by rw [hsplit, cons_append]) u ?_ v hv
      have happend := textUnits_append [block] front
      rw [singleton_append] at happend
      rw [happend, getLast?_append_of_ne_nil _ (by rintro hnil; simp [hnil] at hu)]
      exact hu
    cases block with
    | text text =>
      have hsides := h [.text text] blocks rfl
      rw [show textUnits [.text text] = text.units from append_nil _] at hsides
      rw [textPoints, textUnits, codePoints_append hsides, ih hrest]
    | _ => exact ih hrest

/-! ## The loop -/

/-- What the loop has written of the blocks `seen`: their first code points, the marker once the
removed span has begun, their last code points, and every block that is no text. -/
structure PruneLoop.Wrote (removedStart removedEnd : Nat) (seen : List ContentBlock)
    (l : PruneLoop) : Prop where
  consumed : l.consumed = (textPoints seen).length
  marker : l.markerInserted = decide (removedStart < (textPoints seen).length)
  text : textUnits l.pruned =
    ((textPoints seen).take removedStart).flatten ++
      (if removedStart < (textPoints seen).length then PRUNE_MARKER.units else []) ++
        ((textPoints seen).drop removedEnd).flatten
  rich : richBlocks l.pruned = richBlocks seen

theorem textUnits_pushed (pruned : List ContentBlock) (text : List UInt16) :
    textUnits (if text.length > 0 then pruned ++ [.text ⟨text⟩] else pruned) =
      textUnits pruned ++ text := by
  split
  · simp [textUnits_append, textUnits]
  · rename_i hempty
    simp [length_eq_zero_iff.mp (by omega : text.length = 0)]

theorem richBlocks_pushed (pruned : List ContentBlock) (text : List UInt16) :
    richBlocks (if text.length > 0 then pruned ++ [.text ⟨text⟩] else pruned) =
      richBlocks pruned := by
  split
  · simp [richBlocks, isTextBlock]
  · rfl

section
variable {removedStart removedEnd : Nat} {seen : List ContentBlock} {l : PruneLoop}

section

variable (h : l.Wrote removedStart removedEnd seen)
include h

theorem PruneLoop.Wrote.pushText (hspan : removedStart < removedEnd) (text : JsString) :
    (l.text removedStart removedEnd text).Wrote removedStart removedEnd (seen ++ [.text text]) := by
  have hpoints : textPoints (seen ++ [.text text]) = textPoints seen ++ codePoints text.units := by
    simp [textPoints_append, textPoints]
  have hlength : (textPoints (seen ++ [.text text])).length =
      l.consumed + (codePoints text.units).length := by
    rw [hpoints, length_append, h.consumed]
  have hmarker := h.marker
  rw [← h.consumed] at hmarker
  refine ⟨hlength.symm, ?_, ?_, ?_⟩
  · rw [hlength]
    simp only [PruneLoop.text, hmarker]
    rw [Bool.eq_iff_iff]
    simp only [Bool.or_eq_true, Bool.and_eq_true, decide_eq_true_eq]
    omega
  · have htext := h.text
    rw [← h.consumed] at htext
    simp only [PruneLoop.text]
    rw [textUnits_pushed, htext, hlength, hpoints, take_append, drop_append, ← h.consumed,
      flatten_append, flatten_append]
    have hhead : (codePoints text.units).take
        (min (codePoints text.units).length (removedStart - l.consumed)) =
          (codePoints text.units).take (removedStart - l.consumed) := by
      rw [Nat.min_comm, ← take_eq_take_min]
    have htail : (codePoints text.units).drop
        (min (codePoints text.units).length (removedEnd - l.consumed)) =
          (codePoints text.units).drop (removedEnd - l.consumed) := by
      rcases Nat.le_total (removedEnd - l.consumed) (codePoints text.units).length with hle | hle
      · rw [Nat.min_eq_right hle]
      · rw [Nat.min_eq_left hle, drop_length, drop_eq_nil_of_le hle]
    rw [hhead, htail, hmarker]
    -- the marker goes in with the block that reaches past the start of the removed span
    rcases Nat.lt_or_ge removedStart l.consumed with hbegun | hbefore
    · have hnohead : removedStart - l.consumed = 0 := by omega
      simp [hbegun, hnohead, show removedStart < l.consumed + (codePoints text.units).length by omega]
    have hnotail : (textPoints seen).drop removedEnd = [] := by
      apply drop_eq_nil_of_le
      rw [← h.consumed]
      omega
    have hnot : ¬ removedStart < l.consumed := by omega
    simp only [hnotail, hnot, if_false, decide_false, Bool.not_false, Bool.and_true,
      show l.consumed < removedEnd by omega, decide_true, Bool.true_and, decide_eq_true_eq,
      flatten_nil, append_nil, nil_append, append_assoc]
  · simp only [PruneLoop.text]
    rw [richBlocks_pushed, h.rich]
    simp [richBlocks, isTextBlock]

theorem PruneLoop.Wrote.pushRich {block : ContentBlock}
    (hpoints : textPoints [block] = []) (htext : textUnits [block] = []) :
    PruneLoop.Wrote removedStart removedEnd (seen ++ [block])
      { l with pruned := l.pruned ++ [block] } := by
  have hsame : textPoints (seen ++ [block]) = textPoints seen := by
    rw [textPoints_append, hpoints, append_nil]
  refine ⟨?_, ?_, ?_, ?_⟩
  · rw [hsame]
    exact h.consumed
  · rw [hsame]
    exact h.marker
  · rw [hsame, textUnits_append, htext, append_nil]
    exact h.text
  · rw [richBlocks, richBlocks, filter_append, filter_append]
    exact congrArg (· ++ _) h.rich

theorem PruneLoop.Wrote.push (hspan : removedStart < removedEnd) (block : ContentBlock) :
    (PruneLoop.block removedStart removedEnd l block).Wrote removedStart removedEnd
      (seen ++ [block]) := by
  cases block with
  | text text => exact h.pushText hspan text
  | _ => exact h.pushRich rfl rfl

theorem PruneLoop.Wrote.all (hspan : removedStart < removedEnd) (blocks : List ContentBlock) :
    (blocks.foldl (PruneLoop.block removedStart removedEnd) l).Wrote removedStart removedEnd
      (seen ++ blocks) := by
  induction blocks generalizing seen l with
  | nil => rwa [append_nil]
  | cons block blocks ih =>
    have hnext := ih (h.push hspan block)
    rwa [append_assoc, singleton_append] at hnext

end

end

/-- What a returned rewrite has kept and left behind. -/
theorem pruneContent_wrote {config : PruneConfig} {blocks pruned : List ContentBlock}
    (h : pruneContent config blocks = .ok (some pruned)) :
    ∃ l : PruneLoop, pruned = l.pruned
      ∧ l.Wrote config.headChars (measureContent blocks - config.tailChars) blocks
      ∧ measureContent pruned ≤ config.thresholdChars
      ∧ measureContent pruned < measureContent blocks := by
  have hmarker : 0 < codePointLength PRUNE_MARKER := by decide +kernel
  have hfits := config.fits
  simp only [pruneContent] at h
  split at h
  · cases h
  rename_i hover
  have hstart : PruneLoop.Wrote config.headChars (measureContent blocks - config.tailChars) [] {} :=
    ⟨rfl, rfl, by simp [textPoints, textUnits], rfl⟩
  have hall := hstart.all (by omega) blocks
  rw [nil_append] at hall
  split at h
  · cases h
  split at h
  · cases h
  rename_i hless
  cases h
  simp only [Bool.or_eq_true, decide_eq_true_eq, not_or] at hless
  exact ⟨_, rfl, hall, by omega, by omega⟩

/-- A result over budget is rewritten to its first code points, the marker and its last code
points, its other blocks in order, and what is left is within budget for good. -/
theorem pruneContent_middle (config : PruneConfig) (blocks : List ContentBlock)
    (hover : config.thresholdChars < measureContent blocks) :
    ∃ pruned, pruneContent config blocks = .ok (some pruned)
      ∧ richBlocks pruned = richBlocks blocks
      ∧ textUnits pruned =
          ((textPoints blocks).take config.headChars).flatten ++ PRUNE_MARKER.units ++
            ((textPoints blocks).drop ((textPoints blocks).length - config.tailChars)).flatten
      ∧ measureContent pruned ≤ config.thresholdChars
      ∧ measureContent pruned < measureContent blocks
      ∧ pruneContent config pruned = .ok none
      ∧ (WholePairs blocks → textPoints blocks = codePoints (textUnits blocks)) := by
  have hok := pruneContent_ok config blocks
  rw [if_neg (by omega)] at hok
  obtain ⟨pruned, hpruned⟩ := hok
  obtain ⟨l, rfl, hwrote, hwithin, hsmaller⟩ := pruneContent_wrote hpruned
  have hagain := pruneContent_ok config l.pruned
  rw [if_pos hwithin] at hagain
  refine ⟨_, hpruned, hwrote.rich, ?_, hwithin, hsmaller, hagain, WholePairs.textPoints_eq⟩
  have hfits := config.fits
  rw [hwrote.text, if_pos (by rw [length_textPoints]; omega), length_textPoints]

/-- The budgets of one leading code point and nothing else. -/
def oneHead : PruneConfig := ⟨40, 1, 0, by decide, by decide +kernel⟩

/-- A surrogate pair in two blocks, followed by plain text. -/
def splitPair : List ContentBlock :=
  [.text ⟨[0xD83D]⟩, .text ⟨[0xDE00]⟩, .text ⟨List.replicate 40 97⟩]

theorem pruneContent_middle_oneHead :
    ∃ pruned, pruneContent oneHead splitPair = .ok (some pruned)
      ∧ richBlocks pruned = richBlocks splitPair
      ∧ textUnits pruned =
          ((textPoints splitPair).take oneHead.headChars).flatten ++ PRUNE_MARKER.units ++
            ((textPoints splitPair).drop
              ((textPoints splitPair).length - oneHead.tailChars)).flatten
      ∧ measureContent pruned ≤ oneHead.thresholdChars
      ∧ measureContent pruned < measureContent splitPair
      ∧ pruneContent oneHead pruned = .ok none
      ∧ (WholePairs splitPair → textPoints splitPair = codePoints (textUnits splitPair)) :=
  pruneContent_middle oneHead splitPair (by decide +kernel)

/-- The pair is one code point of the concatenated text; the rewrite keeps its first half. -/
theorem pruneContent_splits_pair :
    ¬ ∀ (config : PruneConfig) (blocks pruned : List ContentBlock),
      pruneContent config blocks = .ok (some pruned) →
        textUnits pruned =
          ((codePoints (textUnits blocks)).take config.headChars).flatten ++ PRUNE_MARKER.units ++
            ((codePoints (textUnits blocks)).drop
              ((codePoints (textUnits blocks)).length - config.tailChars)).flatten := by
  intro h
  have hok := pruneContent_ok oneHead splitPair
  rw [if_neg (by decide +kernel)] at hok
  obtain ⟨pruned, hpruned⟩ := hok
  have htext := h oneHead splitPair pruned hpruned
  obtain ⟨l, rfl, hwrote, -⟩ := pruneContent_wrote hpruned
  rw [hwrote.text] at htext
  exact absurd htext (by decide +kernel)

end ToolResultPruner

end Harness
