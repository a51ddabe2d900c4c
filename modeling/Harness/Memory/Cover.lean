-- SUMMARY: The blocks one wake renders, `tile` and `cover` of `memory-log/src/store.ts`.
import Harness.Lib.Doubles
import Harness.Memory.Store
import Mathlib.Data.Nat.BitIndices

/-!
# Cover

Old memories are shown in coarse blocks, recent ones in fine blocks. A block stays whole
when its size is at most `alpha` times its age; `alpha` is found by bisection.
-/

namespace Harness

/-! ## Tiling -/

/-- The root of the tree over `T` memories: doubled, from `2 ^ k` on, until it reaches `T`. -/
def rootFrom (T k : Nat) : Nat :=
  if 2 ^ k < T then rootFrom T (k + 1) else 2 ^ k
termination_by T - 2 ^ k
decreasing_by
  have hpow : 2 ^ (k + 1) = 2 ^ k + 2 ^ k := by rw [Nat.pow_succ, Nat.mul_two]
  have hpos : 0 < 2 ^ k := Nat.two_pow_pos k
  omega

/-- Whether `tile` halves a block that starts before `T`. -/
def Block.splits (T : Nat) (alpha : ℚ) (b : Block) : Prop :=
  1 < b.size ∧ (T < b.hi ∨ Doubles.round (alpha * (T - b.lo)) < b.size)

instance (T : Nat) (alpha : ℚ) (b : Block) : Decidable (b.splits T alpha) :=
  inferInstanceAs (Decidable (_ ∧ _))

/-- The two halves of a block. -/
def Block.left (b : Block) : Block := ⟨b.lo, (b.lo + b.hi) / 2⟩

def Block.right (b : Block) : Block := ⟨(b.lo + b.hi) / 2, b.hi⟩

/-- Work left on a block: a split block is followed by less of it. -/
def Block.work (b : Block) : Nat := max 1 (2 * b.size - 1)

/-- The loop of `tile` over its stack. -/
def tileLoop (T : Nat) (alpha : ℚ) : List Block → List Block → List Block
  | [], out => out
  | top :: stack, out =>
    if T ≤ top.lo then tileLoop T alpha stack out
    else if top.splits T alpha then tileLoop T alpha (top.left :: top.right :: stack) out
    else tileLoop T alpha stack (out ++ [top])
termination_by stack => (stack.map Block.work).sum
decreasing_by
  · simp only [List.map_cons, List.sum_cons, Block.work]
    omega
  · next hsplits =>
    have hsize := hsplits.1
    simp only [List.map_cons, List.sum_cons, Block.work, Block.left, Block.right, Block.size] at hsize ⊢
    omega
  · simp only [List.map_cons, List.sum_cons, Block.work]
    omega

/-- Tile `[0, T)` with aligned power-of-two blocks, keeping a block whole iff its size is
at most `alpha` times its age. -/
def tile (T : Nat) (alpha : ℚ) : List Block :=
  (tileLoop T alpha [⟨0, rootFrom T 0⟩] []).mergeSort fun a b => a.lo ≤ b.lo

/-! ## Covering -/

/-- The bisection of `cover`: `n` more rounds between `lo` and `hi`. -/
def bisect (T budget : Nat) : Nat → ℚ → ℚ → ℚ
  | 0, _, hi => hi
  | n + 1, lo, hi =>
    let mid := Doubles.round (Doubles.round (lo + hi) / 2)
    if budget < (tile T mid).length then bisect T budget n mid hi else bisect T budget n lo mid

/-- The last block of more than one memory, between what stands before and after it. -/
def lastSplittable (out : List Block) : Option (List Block × Block × List Block) :=
  match out.reverse.dropWhile (·.size ≤ 1) with
  | [] => none
  | target :: before =>
    some (before.reverse, target, (out.reverse.takeWhile (·.size ≤ 1)).reverse)

/-- Spend the lines left on the present: `n` times, halve the last block that can be. -/
def spend : Nat → List Block → List Block
  | 0, out => out
  | n + 1, out =>
    match lastSplittable out with
    | none => out
    | some (before, target, after) => spend n (before ++ [target.left, target.right] ++ after)

/-- The blocks one wake renders over `T` memories, at most `budget` of them. One round of
`spend` adds one block. -/
def cover (T budget : Nat) : List Block :=
  if T = 0 then []
  else if T ≤ budget then (List.range T).map fun i => ⟨i, i + 1⟩
  else
    let out := tile T (bisect T budget 60 0 1)
    spend (budget - out.length) out

end Harness
