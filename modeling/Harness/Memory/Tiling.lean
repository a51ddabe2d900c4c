-- SUMMARY: What one tiling of the memories looks like, whatever `alpha` is.
import Harness.Memory.Cover

namespace Harness

open List
open Block (nth left size_nth size)

/-! ## Tilings -/

/-- The blocks tile `[a, b)` in order, without gap or overlap. -/
def Tiles (a b : Nat) : List Block → Prop
  | [] => a = b
  | block :: blocks => block.lo = a ∧ block.lo < block.hi ∧ Tiles block.hi b blocks

/-- An aligned power-of-two range. -/
def Block.Aligned (b : Block) : Prop := ∃ j k, b = nth (2 ^ j) k

theorem Tiles.append {a b c : Nat} {blocks blocks' : List Block} (h : Tiles a b blocks)
    (h' : Tiles b c blocks') : Tiles a c (blocks ++ blocks') := by
  induction blocks generalizing a with
  | nil =>
    cases h
    exact h'
  | cons block blocks ih => exact ⟨h.1, h.2.1, ih h.2.2⟩

theorem Tiles.of_append {a c : Nat} {blocks blocks' : List Block} (h : Tiles a c (blocks ++ blocks')) :
    ∃ b, Tiles a b blocks ∧ Tiles b c blocks' := by
  induction blocks generalizing a with
  | nil => exact ⟨a, rfl, h⟩
  | cons block blocks ih =>
    obtain ⟨hlo, hlt, hrest⟩ := h
    obtain ⟨b, hblocks, hblocks'⟩ := ih hrest
    exact ⟨b, ⟨hlo, hlt, hblocks⟩, hblocks'⟩

theorem Tiles.le_lo {a b : Nat} {blocks : List Block} (h : Tiles a b blocks) :
    ∀ block ∈ blocks, a ≤ block.lo := by
  induction blocks generalizing a with
  | nil => simp
  | cons block blocks ih =>
    obtain ⟨rfl, hlt, hrest⟩ := h
    intro block' hmem
    rcases mem_cons.mp hmem with rfl | hmem
    · exact le_refl _
    · exact hlt.le.trans (ih hrest block' hmem)

/-- A tiling is sorted already. -/
theorem Tiles.pairwise {a b : Nat} {blocks : List Block} (h : Tiles a b blocks) :
    blocks.Pairwise fun block block' => block.lo ≤ block'.lo := by
  induction blocks generalizing a with
  | nil => exact .nil
  | cons block blocks ih =>
    obtain ⟨_, hlt, hrest⟩ := h
    exact .cons (fun block' hmem => hlt.le.trans (hrest.le_lo block' hmem)) (ih hrest)

/-! ## The tree under a block -/

theorem Block.left_nth (j k : Nat) : (nth (2 ^ (j + 1)) k).left = nth (2 ^ j) (2 * k) := by
  unfold left nth
  rw [Nat.pow_succ]
  congr 1
  · ring
  · have hsum : k * (2 ^ j * 2) + (k + 1) * (2 ^ j * 2) = (2 * k + 1) * 2 ^ j * 2 := by ring
    rw [hsum, Nat.mul_div_cancel _ (by decide)]

theorem Block.right_nth (j k : Nat) :
    (nth (2 ^ (j + 1)) k).right = nth (2 ^ j) (2 * k + 1) := by
  unfold Block.right nth
  rw [Nat.pow_succ]
  congr 1
  · have hsum : k * (2 ^ j * 2) + (k + 1) * (2 ^ j * 2) = (2 * k + 1) * 2 ^ j * 2 := by ring
    rw [hsum, Nat.mul_div_cancel _ (by decide)]
  · ring

/-- The blocks that `tile` keeps under the `k`-th block of size `2 ^ j`. -/
def tileNode (T : Nat) (alpha : ℚ) : Nat → Nat → List Block
  | 0, k => if T ≤ k then [] else [nth 1 k]
  | j + 1, k =>
    if T ≤ (nth (2 ^ (j + 1)) k).lo then []
    else if (nth (2 ^ (j + 1)) k).splits T alpha then
      tileNode T alpha j (2 * k) ++ tileNode T alpha j (2 * k + 1)
    else [nth (2 ^ (j + 1)) k]

variable {T : Nat} {alpha : ℚ}

/-- The stack loop walks the tree under the block on top from left to right. -/
theorem tileLoop_nth (j k : Nat) (stack out : List Block) :
    tileLoop T alpha (nth (2 ^ j) k :: stack) out =
      tileLoop T alpha stack (out ++ tileNode T alpha j k) := by
  induction j generalizing k stack out with
  | zero =>
    have hleaf : ¬(nth 1 k).splits T alpha := fun h => by
      have hsize := h.1
      rw [size_nth] at hsize
      omega
    rw [tileLoop, tileNode]
    simp only [Nat.pow_zero, hleaf, if_false]
    have hlo : (nth 1 k).lo = k := Nat.mul_one k
    rw [hlo]
    split
    · rw [append_nil]
    · rfl
  | succ j ih =>
    rw [tileLoop, tileNode]
    split
    · rw [append_nil]
    split
    · rw [Block.left_nth, Block.right_nth, ih, ih, append_assoc]
    · rfl

/-- A kept block ends by `T`. -/
theorem hi_le_of_kept {b : Block} (hpos : 0 < b.size) (hlo : ¬T ≤ b.lo) (h : ¬b.splits T alpha) :
    b.hi ≤ T := by
  by_contra hhi
  have hsize : 1 < b.size := by
    unfold size at hpos ⊢
    omega
  exact h ⟨hsize, .inl (by omega)⟩

theorem tileNode_tiles (j k : Nat) :
    Tiles (min (k * 2 ^ j) T) (min ((k + 1) * 2 ^ j) T) (tileNode T alpha j k) := by
  induction j generalizing k with
  | zero =>
    rw [tileNode]
    split
    · simp only [Tiles]
      omega
    · simp only [Tiles, nth]
      omega
  | succ j ih =>
    have hleft : 2 * k * 2 ^ j = k * 2 ^ (j + 1) := by ring
    have hright : (2 * k + 1 + 1) * 2 ^ j = (k + 1) * 2 ^ (j + 1) := by ring
    have hstep : (k + 1) * 2 ^ (j + 1) = k * 2 ^ (j + 1) + 2 ^ (j + 1) := by ring
    have hpos : 0 < 2 ^ (j + 1) := Nat.two_pow_pos _
    rw [tileNode]
    split
    · next hlo =>
      simp only [nth] at hlo
      simp only [Tiles]
      omega
    next hlo =>
    split
    · have htiles := (ih (2 * k)).append (ih (2 * k + 1))
      rw [hleft, hright] at htiles
      exact htiles
    · next hkept =>
      have hhi := hi_le_of_kept (by rw [size_nth]; exact hpos) hlo hkept
      simp only [nth] at hlo hhi
      simp only [Tiles, nth]
      omega

theorem mem_tileNode_zero {k : Nat} {b : Block} (h : b ∈ tileNode T alpha 0 k) :
    k < T ∧ b = nth 1 k := by
  rw [tileNode] at h
  split at h
  · cases h
  · next hlo => exact ⟨Nat.lt_of_not_le hlo, mem_singleton.mp h⟩

/-- A block is kept whole or comes from one of the halves. -/
theorem mem_tileNode_succ {j k : Nat} {b : Block} (h : b ∈ tileNode T alpha (j + 1) k) :
    (b = nth (2 ^ (j + 1)) k ∧ b.lo < T ∧ ¬b.splits T alpha) ∨
      (nth (2 ^ (j + 1)) k).splits T alpha ∧
        (b ∈ tileNode T alpha j (2 * k) ∨ b ∈ tileNode T alpha j (2 * k + 1)) := by
  rw [tileNode] at h
  split at h
  · cases h
  next hlo =>
  split at h
  · next hsplits => exact .inr ⟨hsplits, mem_append.mp h⟩
  next hkept =>
  obtain rfl := mem_singleton.mp h
  exact .inl ⟨rfl, Nat.lt_of_not_le hlo, hkept⟩

/-- The blocks kept are blocks of the tree. -/
theorem mem_tileNode {j k : Nat} {b : Block} (h : b ∈ tileNode T alpha j k) :
    ∃ i k', i ≤ j ∧ b = nth (2 ^ i) k' := by
  induction j generalizing k with
  | zero => exact ⟨0, k, le_refl _, (mem_tileNode_zero h).2⟩
  | succ j ih =>
    rcases mem_tileNode_succ h with ⟨rfl, _⟩ | ⟨_, h | h⟩
    · exact ⟨j + 1, k, le_refl _, rfl⟩
    · obtain ⟨i, k', hi, hb⟩ := ih h
      exact ⟨i, k', by omega, hb⟩
    · obtain ⟨i, k', hi, hb⟩ := ih h
      exact ⟨i, k', by omega, hb⟩

/-! ## Sizes -/

/-- The age test is monotone: what starts later is allowed less. -/
theorem age_mono (halpha : 0 ≤ alpha) {a b : Nat} (hab : a ≤ b) (hb : b ≤ T) :
    Doubles.round (alpha * (T - b)) ≤ Doubles.round (alpha * (T - a)) := by
  have hbT : (b : ℚ) ≤ T := by exact_mod_cast hb
  have hle : (a : ℚ) ≤ b := by exact_mod_cast hab
  apply Doubles.round_mono
  · exact mul_nonneg halpha (by linarith)
  · exact mul_le_mul_of_nonneg_left (by linarith) halpha

/-- A kept block of more than one memory is no bigger than its age allows. -/
theorem tileNode_fine {j k : Nat} {b : Block} (h : b ∈ tileNode T alpha j k) :
    b.lo < T ∧ (b.size = 1 ∨ (b.size : ℚ) ≤ Doubles.round (alpha * (T - b.lo))) := by
  induction j generalizing k with
  | zero =>
    obtain ⟨hlo, rfl⟩ := mem_tileNode_zero h
    refine ⟨?_, .inl (size_nth 1 k)⟩
    simp only [nth]
    omega
  | succ j ih =>
    rcases mem_tileNode_succ h with ⟨hb, hlo, hkept⟩ | ⟨_, h | h⟩
    · refine ⟨hlo, ?_⟩
      have hpos : 0 < b.size := by
        rw [hb, size_nth]
        exact Nat.two_pow_pos _
      by_cases hsize : 1 < b.size
      · right
        by_contra hlarge
        exact hkept ⟨hsize, .inr (not_le.mp hlarge)⟩
      · left
        omega
    · exact ih h
    · exact ih h

/-- A block kept under a split one is at least half as big as the age at its end allows. -/
theorem tileNode_coarse (halpha : 0 ≤ alpha) {j k : Nat} (hT : (k + 1) * 2 ^ j ≤ T) {b : Block}
    (h : b ∈ tileNode T alpha j k) :
    b.size = 2 ^ j ∨
      Doubles.round (alpha * (T - ((k + 1) * 2 ^ j : Nat))) < ((2 * b.size : Nat) : ℚ) := by
  induction j generalizing k with
  | zero =>
    obtain ⟨_, rfl⟩ := mem_tileNode_zero h
    exact .inl (size_nth 1 k)
  | succ j ih =>
    have hright : (2 * k + 1 + 1) * 2 ^ j = (k + 1) * 2 ^ (j + 1) := by ring
    have hmid : (2 * k + 1) * 2 ^ j ≤ (k + 1) * 2 ^ (j + 1) := by
      rw [← hright]
      exact Nat.mul_le_mul_right _ (by omega)
    rcases mem_tileNode_succ h with ⟨rfl, _⟩ | ⟨hsplits, hhalf⟩
    · exact .inl (size_nth _ k)
    right
    -- A half that is kept is half of a block too big for its age.
    have hwhole : b.size = 2 ^ j →
        Doubles.round (alpha * (T - ((k + 1) * 2 ^ (j + 1) : Nat))) < ((2 * b.size : Nat) : ℚ) := by
      intro hsize
      have hlarge := hsplits.2.resolve_left (by simp only [nth]; omega)
      have hdouble : (nth (2 ^ (j + 1)) k).size = 2 * b.size := by
        rw [size_nth, hsize, Nat.pow_succ, Nat.mul_comm]
      rw [hdouble] at hlarge
      have hlo : (nth (2 ^ (j + 1)) k).lo ≤ (k + 1) * 2 ^ (j + 1) :=
        Nat.mul_le_mul_right _ (Nat.le_succ k)
      exact lt_of_le_of_lt (age_mono halpha hlo hT) hlarge
    rcases hhalf with h | h
    · rcases ih (hmid.trans hT) h with hsize | hlt
      · exact hwhole hsize
      · exact lt_of_le_of_lt (age_mono halpha hmid hT) hlt
    · rw [← hright] at hT
      rcases ih hT h with hsize | hlt
      · exact hwhole hsize
      · rw [hright] at hlt
        exact hlt

/-- Sizes do not increase towards the present. -/
theorem tileNode_nonincreasing (halpha : 0 ≤ alpha) (j k : Nat) :
    (tileNode T alpha j k).Pairwise fun older newer => newer.size ≤ older.size := by
  induction j generalizing k with
  | zero =>
    rw [tileNode]
    split
    · exact .nil
    · exact pairwise_singleton _ _
  | succ j ih =>
    rw [tileNode]
    split
    · exact .nil
    split
    · refine pairwise_append.mpr ⟨ih _, ih _, ?_⟩
      intro older holder newer hnewer
      obtain ⟨i, k₁, _, rfl⟩ := mem_tileNode holder
      obtain ⟨i', k₂, hi', rfl⟩ := mem_tileNode hnewer
      obtain ⟨hlt, hfine⟩ := tileNode_fine hnewer
      have hmid : (2 * k + 1) * 2 ^ j ≤ (nth (2 ^ i') k₂).lo := by
        have htiles : Tiles _ _ (tileNode T alpha j (2 * k + 1)) := tileNode_tiles j _
        have hle := htiles.le_lo _ hnewer
        omega
      simp only [size_nth] at hfine ⊢
      have hcoarse := tileNode_coarse halpha (hmid.trans hlt.le) holder
      simp only [size_nth] at hcoarse
      rcases hcoarse with hwhole | hcoarse
      · rw [hwhole]
        exact Nat.pow_le_pow_right (by decide) hi'
      rcases hfine with hone | hfine
      · rw [hone]
        exact Nat.two_pow_pos i
      have hage := age_mono halpha hmid hlt.le
      have hpow : (2 ^ i' : Nat) < 2 ^ (i + 1) := by
        rw [Nat.pow_succ, Nat.mul_comm]
        exact_mod_cast lt_of_le_of_lt (hfine.trans hage) hcoarse
      have hexp := (Nat.pow_lt_pow_iff_right (by decide)).mp hpow
      exact Nat.pow_le_pow_right (by decide) (by omega)
    · exact pairwise_singleton _ _

end Harness
