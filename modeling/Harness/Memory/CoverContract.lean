-- SUMMARY: When a wake's cover keeps its budget, and that it tiles the memories in any case.
import Harness.Memory.Tiling

namespace Harness

open List
open Block (size_nth nth)

/-! ## How many blocks a tiling has -/

/-- The number of ones in the binary expansion of `n`. -/
def popcount (n : Nat) : Nat := n.bitIndices.length

@[simp] theorem popcount_zero : popcount 0 = 0 := by simp [popcount]

@[simp] theorem popcount_two_pow (j : Nat) : popcount (2 ^ j) = 1 := by simp [popcount]

theorem popcount_two_mul (n : Nat) : popcount (2 * n) = popcount n := by simp [popcount]

theorem popcount_two_mul_add_one (n : Nat) : popcount (2 * n + 1) = popcount n + 1 := by
  simp [popcount]

/-- A leading one counts once. -/
theorem popcount_two_pow_add {j r : Nat} (h : r < 2 ^ j) :
    popcount (2 ^ j + r) = 1 + popcount r := by
  induction j generalizing r with
  | zero =>
    obtain rfl : r = 0 := by omega
    simpa using popcount_two_pow 0
  | succ j ih =>
    have hpow : 2 ^ (j + 1) = 2 * 2 ^ j := by ring
    rw [hpow] at h ⊢
    obtain ⟨q, rfl | rfl⟩ := Nat.even_or_odd' r
    · rw [← Nat.mul_add, popcount_two_mul, popcount_two_mul, ih (by omega)]
    · rw [← Nat.add_assoc, ← Nat.mul_add, popcount_two_mul_add_one, popcount_two_mul_add_one,
        ih (by omega), Nat.add_assoc]

variable {T : Nat} {alpha : ℚ}

/-- How many of the memories under a block the log holds. -/
def heldUnder (T j k : Nat) : Nat := min T ((k + 1) * 2 ^ j) - k * 2 ^ j

theorem heldUnder_zero {T j k : Nat} (h : T ≤ k * 2 ^ j) : heldUnder T j k = 0 := by
  unfold heldUnder
  omega

theorem heldUnder_full {T j k : Nat} (h : (k + 1) * 2 ^ j ≤ T) : heldUnder T j k = 2 ^ j := by
  have hstep : (k + 1) * 2 ^ j = k * 2 ^ j + 2 ^ j := by ring
  have hpos : 0 < 2 ^ j := Nat.two_pow_pos j
  unfold heldUnder
  omega

/-- The ones of what a block holds are those of what its halves hold. -/
theorem popcount_heldUnder_succ {T j k : Nat} (h : T < (k + 1) * 2 ^ (j + 1)) :
    popcount (heldUnder T (j + 1) k) =
      popcount (heldUnder T j (2 * k)) + popcount (heldUnder T j (2 * k + 1)) := by
  have hlo : 2 * k * 2 ^ j = k * 2 ^ (j + 1) := by ring
  have hmid : (2 * k + 1) * 2 ^ j = k * 2 ^ (j + 1) + 2 ^ j := by ring
  have hhi : (2 * k + 1 + 1) * 2 ^ j = k * 2 ^ (j + 1) + 2 ^ j + 2 ^ j := by ring
  have hstep : (k + 1) * 2 ^ (j + 1) = k * 2 ^ (j + 1) + 2 ^ j + 2 ^ j := by ring
  rcases Nat.lt_or_ge T ((2 * k + 1) * 2 ^ j) with hleft | hright
  · have hwhole : heldUnder T (j + 1) k = heldUnder T j (2 * k) := by
      unfold heldUnder
      omega
    rw [hwhole, heldUnder_zero hleft.le, popcount_zero, Nat.add_zero]
  · have hwhole : heldUnder T (j + 1) k = 2 ^ j + heldUnder T j (2 * k + 1) := by
      unfold heldUnder
      omega
    have hsmall : heldUnder T j (2 * k + 1) < 2 ^ j := by
      unfold heldUnder
      omega
    rw [hwhole, popcount_two_pow_add hsmall, heldUnder_full hright, popcount_two_pow]

/-- A tiling has at least one block for each one of what it covers. -/
theorem popcount_le_length (j k : Nat) :
    popcount (heldUnder T j k) ≤ (tileNode T alpha j k).length := by
  induction j generalizing k with
  | zero =>
    rw [tileNode]
    split
    · next hlo =>
      rw [heldUnder_zero (by omega)]
      simp
    · rw [heldUnder_full (by omega)]
      exact (popcount_two_pow 0).le
  | succ j ih =>
    rw [tileNode]
    split
    · next hlo =>
      rw [heldUnder_zero hlo]
      simp
    next hlo =>
    split
    · rw [length_append]
      rcases Nat.lt_or_ge T ((k + 1) * 2 ^ (j + 1)) with hpart | hfull
      · rw [popcount_heldUnder_succ hpart]
        exact Nat.add_le_add (ih _) (ih _)
      have hhalf : (2 * k + 1) * 2 ^ j ≤ T := by
        have hle : (2 * k + 1) * 2 ^ j ≤ (k + 1) * 2 ^ (j + 1) := by
          rw [Nat.pow_succ, Nat.mul_comm (2 ^ j) 2, ← Nat.mul_assoc]
          exact Nat.mul_le_mul_right _ (by omega)
        omega
      have hleft := ih (2 * k)
      rw [heldUnder_full hhalf, popcount_two_pow] at hleft
      rw [heldUnder_full hfull, popcount_two_pow]
      omega
    · next hkept =>
      have hhi := hi_le_of_kept (by rw [size_nth]; exact Nat.two_pow_pos _) hlo hkept
      rw [heldUnder_full hhi]
      exact (popcount_two_pow _).le

/-- With `alpha` one, a block is halved only when the log ends inside it. -/
theorem splits_one {j k : Nat} (hhi : (k + 1) * 2 ^ j ≤ T) :
    ¬(nth (2 ^ j) k).splits T 1 := by
  rintro ⟨_, hlt | hlt⟩
  · simp only [nth] at hlt
    omega
  rw [one_mul, size_nth] at hlt
  have hage : ((2 : ℚ) ^ j) ≤ T - (nth (2 ^ j) k).lo := by
    have hsum : (2 ^ j : Nat) + (nth (2 ^ j) k).lo ≤ T := by
      simp only [nth]
      have hstep : (k + 1) * 2 ^ j = k * 2 ^ j + 2 ^ j := by ring
      omega
    have hcast : ((2 ^ j : Nat) : ℚ) + (nth (2 ^ j) k).lo ≤ T := by exact_mod_cast hsum
    push_cast at hcast
    linarith
  have hround := Doubles.round_mono (by positivity) hage
  rw [Doubles.round_two_pow] at hround
  push_cast at hlt
  linarith

/-- With `alpha` one, the tiling is the binary decomposition. -/
theorem length_tileNode_one (j k : Nat) :
    (tileNode T 1 j k).length = popcount (heldUnder T j k) := by
  induction j generalizing k with
  | zero =>
    rw [tileNode]
    split
    · next hlo =>
      rw [heldUnder_zero (by omega)]
      simp
    · rw [heldUnder_full (by omega)]
      exact (popcount_two_pow 0).symm
  | succ j ih =>
    rw [tileNode]
    split
    · next hlo =>
      rw [heldUnder_zero hlo]
      simp
    next hlo =>
    split
    · next hsplits =>
      have hpart : T < (k + 1) * 2 ^ (j + 1) := by
        by_contra hfull
        exact splits_one (Nat.le_of_not_lt hfull) hsplits
      rw [length_append, popcount_heldUnder_succ hpart, ih, ih]
    · next hkept =>
      have hhi := hi_le_of_kept (by rw [size_nth]; exact Nat.two_pow_pos _) hlo hkept
      rw [heldUnder_full hhi]
      exact (popcount_two_pow _).symm

/-! ## The tiling from the root -/

theorem rootFrom_spec (T k : Nat) : ∃ j, rootFrom T k = 2 ^ j ∧ T ≤ 2 ^ j := by
  fun_induction rootFrom T k with
  | case1 k h ih => exact ih
  | case2 k h => exact ⟨k, rfl, Nat.le_of_not_lt h⟩

theorem tile_eq (T : Nat) (alpha : ℚ) :
    ∃ j, T ≤ 2 ^ j ∧ tile T alpha = tileNode T alpha j 0 ∧ heldUnder T j 0 = T := by
  obtain ⟨j, hroot, hT⟩ := rootFrom_spec T 0
  refine ⟨j, hT, ?_, ?_⟩
  · have hblock : (⟨0, 2 ^ j⟩ : Block) = nth (2 ^ j) 0 := by simp [nth]
    have htiles : Tiles _ _ (tileNode T alpha j 0) := tileNode_tiles j 0
    have hsorted := htiles.pairwise
    unfold tile
    rw [hroot, hblock, tileLoop_nth, tileLoop, nil_append]
    exact mergeSort_of_pairwise (by simpa using hsorted)
  · unfold heldUnder
    omega

/-- The blocks tile the memories: aligned, and no finer in the past than in the present. -/
structure Tiling (T : Nat) (blocks : List Block) : Prop where
  tiles : Tiles 0 T blocks
  aligned : ∀ b ∈ blocks, b.Aligned
  nonincreasing : blocks.Pairwise fun older newer => newer.size ≤ older.size

theorem tile_tiling (halpha : 0 ≤ alpha) : Tiling T (tile T alpha) := by
  obtain ⟨j, hT, htile, _⟩ := tile_eq T alpha
  rw [htile]
  refine ⟨?_, ?_, tileNode_nonincreasing halpha j 0⟩
  · have htiles : Tiles _ _ (tileNode T alpha j 0) := tileNode_tiles j 0
    have hlo : min (0 * 2 ^ j) T = 0 := by omega
    have hhi : min ((0 + 1) * 2 ^ j) T = T := by omega
    rw [hlo, hhi] at htiles
    exact htiles
  · intro b hb
    obtain ⟨i, k, _, hblock⟩ := mem_tileNode hb
    exact ⟨i, k, hblock⟩

theorem popcount_le_length_tile (T : Nat) (alpha : ℚ) : popcount T ≤ (tile T alpha).length := by
  obtain ⟨j, _, htile, hheld⟩ := tile_eq T alpha
  have hle : popcount (heldUnder T j 0) ≤ (tileNode T alpha j 0).length := popcount_le_length j 0
  rwa [hheld, ← htile] at hle

theorem length_tile_one (T : Nat) : (tile T 1).length = popcount T := by
  obtain ⟨j, _, htile, hheld⟩ := tile_eq T 1
  rw [htile, length_tileNode_one, hheld]

/-! ## The bisection -/

/-- The upper end of the bisection keeps the budget, or is one still. -/
theorem bisect_spec {budget n : Nat} {lo hi : ℚ} (hlo : 0 ≤ lo) (hhi : 0 ≤ hi)
    (h : hi = 1 ∨ (tile T hi).length ≤ budget) :
    0 ≤ bisect T budget n lo hi ∧
      (bisect T budget n lo hi = 1 ∨ (tile T (bisect T budget n lo hi)).length ≤ budget) := by
  induction n generalizing lo hi with
  | zero => exact ⟨hhi, h⟩
  | succ n ih =>
    have hmid : 0 ≤ Doubles.round (Doubles.round (lo + hi) / 2) := by
      have hsum := Doubles.round_nonneg (add_nonneg hlo hhi)
      exact Doubles.round_nonneg (by linarith)
    simp only [bisect]
    split
    · exact ih hmid hhi h
    · next hfits => exact ih hlo hmid (.inr (Nat.le_of_not_lt hfits))

/-! ## Spending what is left -/

theorem lastSplittable_spec {out before after : List Block} {target : Block}
    (h : lastSplittable out = some (before, target, after)) :
    out = before ++ target :: after ∧ 1 < target.size ∧ ∀ b ∈ after, b.size ≤ 1 := by
  unfold lastSplittable at h
  split at h
  · cases h
  next target' before' hdrop =>
  cases h
  have hsplit := takeWhile_append_dropWhile (p := (·.size ≤ 1)) (l := out.reverse)
  rw [hdrop] at hsplit
  refine ⟨?_, ?_, ?_⟩
  · have hout := congrArg List.reverse hsplit
    simpa using hout.symm
  · have hhead := head_dropWhile_not (p := (·.size ≤ 1)) (l := out.reverse)
      (by rw [hdrop]; simp)
    simp only [hdrop, head_cons] at hhead
    simpa using hhead
  · intro b hb
    have hall := all_eq_true.mp all_takeWhile b (mem_reverse.mp hb)
    simpa using hall

theorem Tiling.halve {before after : List Block} {target : Block}
    (h : Tiling T (before ++ target :: after)) (hsize : 1 < target.size)
    (hafter : ∀ b ∈ after, b.size ≤ 1) :
    Tiling T (before ++ [target.left, target.right] ++ after) := by
  obtain ⟨j, k, htarget⟩ := h.aligned target (by simp)
  obtain ⟨i, rfl⟩ : ∃ i, j = i + 1 := by
    cases j with
    | zero =>
      rw [htarget, size_nth] at hsize
      omega
    | succ i => exact ⟨i, rfl⟩
  have hleft := htarget ▸ Block.left_nth i k
  have hright := htarget ▸ Block.right_nth i k
  have hpos : 0 < 2 ^ i := Nat.two_pow_pos i
  have hhalf : 2 * 2 ^ i = target.size := by rw [htarget, size_nth, Nat.pow_succ, Nat.mul_comm]
  refine ⟨?_, ?_, ?_⟩
  · obtain ⟨m, hbefore, hlo, hlt, hrest⟩ := h.tiles.of_append
    rw [append_assoc]
    refine hbefore.append ⟨?_, ?_, ?_, ?_, ?_⟩
    · exact hlo
    · rw [hleft]
      simp only [nth]
      exact Nat.mul_lt_mul_of_pos_right (by omega) hpos
    · rfl
    · rw [hright]
      simp only [nth]
      exact Nat.mul_lt_mul_of_pos_right (by omega) hpos
    · exact hrest
  · intro b hb
    simp only [mem_append, mem_cons, not_mem_nil, or_false] at hb
    rcases hb with (hb | rfl | rfl) | hb
    · exact h.aligned b (by simp [hb])
    · exact ⟨i, 2 * k, hleft⟩
    · exact ⟨i, 2 * k + 1, hright⟩
    · exact h.aligned b (by simp [hb])
  · have hsizes : target.left.size = 2 ^ i ∧ target.right.size = 2 ^ i := by
      rw [hleft, hright, size_nth, size_nth]
      exact ⟨rfl, rfl⟩
    obtain ⟨hbefore, htail, hcross⟩ := pairwise_append.mp h.nonincreasing
    obtain ⟨_, hpast⟩ := pairwise_cons.mp htail
    rw [append_assoc]
    refine pairwise_append.mpr ⟨hbefore, ?_, ?_⟩
    · simp only [cons_append, nil_append, pairwise_cons, mem_cons,
        forall_eq_or_imp, hsizes]
      refine ⟨⟨le_refl _, ?_⟩, ?_, hpast⟩
      · exact fun b hb => (hafter b hb).trans hpos
      · exact fun b hb => (hafter b hb).trans hpos
    · intro older holder newer hnewer
      have htarget' := hcross older holder target (by simp)
      simp only [cons_append, nil_append, mem_cons] at hnewer
      rcases hnewer with rfl | rfl | hnewer
      · rw [hsizes.1]
        omega
      · rw [hsizes.2]
        omega
      · exact hcross older holder newer (by simp [hnewer])

/-- Spending keeps the tiling and adds at most one block each round. -/
theorem spend_spec (n : Nat) {out : List Block} (h : Tiling T out) :
    Tiling T (spend n out) ∧ out.length ≤ (spend n out).length ∧
      (spend n out).length ≤ out.length + n := by
  induction n generalizing out with
  | zero => exact ⟨h, le_refl _, le_refl _⟩
  | succ n ih =>
    simp only [spend]
    split
    · exact ⟨h, le_refl _, Nat.le_add_right _ _⟩
    next before target after hlast =>
    obtain ⟨rfl, hsize, hafter⟩ := lastSplittable_spec hlast
    obtain ⟨htiling, hge, hle⟩ := ih (h.halve hsize hafter)
    simp only [length_append, length_cons, length_nil] at hge hle ⊢
    exact ⟨htiling, by omega, by omega⟩

/-! ## The contract -/

theorem cover_spec {T budget : Nat} (hT : budget < T) :
    Tiling T (cover T budget) ∧ ((cover T budget).length ≤ budget ↔ popcount T ≤ budget) := by
  obtain ⟨halpha, hfits⟩ := bisect_spec (T := T) (n := 60) (le_refl 0) zero_le_one (.inl rfl)
  have htiling := tile_tiling halpha (T := T)
  have hpopcount := popcount_le_length_tile T (bisect T budget 60 0 1)
  obtain ⟨hspent, hge, hle⟩ :=
    spend_spec (budget - (tile T (bisect T budget 60 0 1)).length) htiling
  have hcover : cover T budget = spend (budget - (tile T (bisect T budget 60 0 1)).length)
      (tile T (bisect T budget 60 0 1)) := by
    unfold cover
    rw [if_neg (by omega), if_neg (by omega)]
  rw [hcover]
  refine ⟨hspent, ?_⟩
  constructor
  · intro hlength
    omega
  intro hones
  rcases hfits with hone | hfits
  · rw [hone, length_tile_one] at hle ⊢
    omega
  · omega

/-- A cover within its budget: an aligned tiling, non-increasing towards the present, of at
most `budget` blocks. -/
structure WithinBudget (T budget : Nat) (blocks : List Block) : Prop extends Tiling T blocks where
  length_le : blocks.length ≤ budget

/-- A wake's cover keeps its budget exactly when the memory count has no more binary ones. -/
theorem cover_withinBudget_iff {T budget : Nat} (hT : budget < T) :
    WithinBudget T budget (cover T budget) ↔ popcount T ≤ budget := by
  obtain ⟨htiling, hlength⟩ := cover_spec hT
  constructor
  · exact fun h => hlength.mp h.length_le
  · exact fun h => ⟨htiling, hlength.mpr h⟩

theorem cover_withinBudget_seven : 3 < 7 ∧ WithinBudget 7 3 (cover 7 3) :=
  ⟨by decide, (cover_withinBudget_iff (by decide)).mpr (by decide)⟩

/-- Three memories do not fit on one line. -/
theorem cover_over_budget : 1 ≤ 1 ∧ 1 < 3 ∧ ¬WithinBudget 3 1 (cover 3 1) := by
  refine ⟨by decide, by decide, fun h => ?_⟩
  have hones := (cover_spec (by decide)).2.mp h.length_le
  exact absurd hones (by decide)

end Harness
