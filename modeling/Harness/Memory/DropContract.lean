-- SUMMARY: When a drop truncates every level above its block and returns exactly the blocks that it drops.
import Harness.Memory.Tiling
import Harness.Memory.Tree

/-!
# Drops

The position of the block in a level above it is `lo / size`, which need not be whole. There the
list that the drop returns counts on from it in whole sizes, and names no blocks of that level.
-/

namespace Harness

open List

namespace MemoryStore

variable {s : MemoryStore}

/-- The drop of a block does to the levels what it is to do, and returns the aligned blocks that are
no longer settled. -/
def DropsExactly (s : MemoryStore) (b : Block) : Prop :=
  ∃ gone, (s.treeDrop b).1 = .ok gone ∧ (s.treeDrop b).2.log = s.log ∧
    (∀ size < b.size, (s.treeDrop b).2.level size = s.level size) ∧
    (∀ i, (s.treeDrop b).2.levelCount (b.size * 2 ^ i) =
      min (s.levelCount (b.size * 2 ^ i)) (b.lo / (b.size * 2 ^ i))) ∧
    gone.Nodup ∧
    ∀ block, block ∈ gone ↔
      block.Aligned ∧ s.Settled block ∧ ¬ (s.treeDrop b).2.Settled block

theorem level_setLevel (size : Nat) (file : List UInt8) (size' : Nat) :
    (s.setLevel size file).level size' = if size' = size then file else s.level size' := by
  unfold level setLevel
  dsimp only
  rw [OrderedMap.get?_set]
  split <;> simp_all

/-! ## The loop -/

/-- The log and the other levels are left as they are. -/
theorem treeDropLevels_frame (lo : Nat) : ∀ (sizes : List Nat) (gone : List Block)
    (s : MemoryStore), (treeDropLevels lo sizes gone s).2.log = s.log ∧
      ∀ size ∉ sizes, (treeDropLevels lo sizes gone s).2.level size = s.level size
  | [], gone, s => ⟨rfl, fun _ _ => rfl⟩
  | size :: sizes, gone, s => by
    have hrest : ∀ {n}, n ∉ size :: sizes → n ≠ size ∧ n ∉ sizes := fun hn =>
      ⟨fun heq => hn (heq ▸ mem_cons_self), fun hin => hn (mem_cons_of_mem _ hin)⟩
    unfold treeDropLevels
    dsimp only
    split
    · split
      · obtain ⟨hlog, hlevel⟩ := treeDropLevels_frame lo sizes
          (gone ++ (List.range (s.levelCount size - lo / size)).map
            fun i => ⟨lo + i * size, lo + (i + 1) * size⟩)
          (s.setLevel size ((s.level size).take (lo * TREE_REC / size)))
        refine ⟨hlog, fun n hn => ?_⟩
        rw [hlevel n (hrest hn).2, level_setLevel, if_neg (hrest hn).1]
      · exact ⟨rfl, fun _ _ => rfl⟩
    · obtain ⟨hlog, hlevel⟩ := treeDropLevels_frame lo sizes gone s
      exact ⟨hlog, fun n hn => hlevel n (hrest hn).2⟩

/-- The blocks of a level from a position on. -/
def blocksFrom (s : MemoryStore) (lo size : Nat) : List Block :=
  (List.range (s.levelCount size - lo / size)).map fun i => Block.nth size (lo / size + i)

/-- Where the position of the block is whole in every level that is truncated, the drop returns the
blocks of these levels from there on. -/
theorem treeDropLevels_whole (lo : Nat) {sizes : List Nat} (hnodup : sizes.Nodup)
    (gone : List Block) (hpos : ∀ size ∈ sizes, 0 < size) (s : MemoryStore)
    (hwhole : ∀ size ∈ sizes, lo < s.levelCount size * size → size ∣ lo) :
    (treeDropLevels lo sizes gone s).1 = .ok (gone ++ sizes.flatMap (s.blocksFrom lo)) ∧
      ∀ size ∈ sizes, (treeDropLevels lo sizes gone s).2.levelCount size =
        min (s.levelCount size) (lo / size) := by
  induction sizes generalizing gone s with
  | nil => exact ⟨by simp [treeDropLevels], by simp⟩
  | cons size sizes ih =>
    obtain ⟨hfresh, hnodup⟩ := nodup_cons.mp hnodup
    have hsize : 0 < size := hpos size mem_cons_self
    have hpos' : ∀ n ∈ sizes, 0 < n := fun n hn => hpos n (mem_cons_of_mem _ hn)
    have hwhole' : ∀ n ∈ sizes, lo < s.levelCount n * n → n ∣ lo :=
      fun n hn => hwhole n (mem_cons_of_mem _ hn)
    unfold treeDropLevels
    dsimp only
    by_cases hbeyond : lo < s.levelCount size * size
    · have hdvd := hwhole size mem_cons_self hbeyond
      rw [if_pos hbeyond, if_pos (Nat.dvd_mul_right_of_dvd hdvd _)]
      let next := s.setLevel size ((s.level size).take (lo * TREE_REC / size))
      have hkept : ∀ n ∈ sizes, next.levelCount n = s.levelCount n := fun n hn => by
        have hne : n ≠ size := fun heq => hfresh (heq ▸ hn)
        rw [levelCount_setLevel, if_neg hne]
      have hblocks : sizes.flatMap (next.blocksFrom lo) = sizes.flatMap (s.blocksFrom lo) :=
        flatMap_congr fun n hn => by rw [blocksFrom, hkept n hn, ← blocksFrom]
      have hfirst : ((List.range (s.levelCount size - lo / size)).map
          fun i => (⟨lo + i * size, lo + (i + 1) * size⟩ : Block)) = s.blocksFrom lo size := by
        refine map_congr_left fun i _ => ?_
        have hat : ∀ n, (lo / size + n) * size = lo + n * size := fun n => by
          rw [Nat.add_mul, Nat.div_mul_cancel hdvd]
        rw [Block.nth, Nat.add_assoc, hat, hat]
      obtain ⟨hok, hcount⟩ := ih hnodup (gone ++ s.blocksFrom lo size) hpos' next
        fun n hn hlt => hwhole' n hn (by rwa [← hkept n hn])
      rw [hfirst]
      refine ⟨by rw [hok, hblocks, flatMap_cons, append_assoc], fun n hn => ?_⟩
      rcases mem_cons.mp hn with rfl | hn
      · have hframe := (treeDropLevels_frame lo sizes (gone ++ s.blocksFrom lo n) next).2 n hfresh
        rw [levelCount, hframe, ← levelCount, levelCount_setLevel, if_pos rfl, count_truncated,
          Nat.min_comm]
      · rw [hcount n hn, hkept n hn]
    · rw [if_neg hbeyond]
      have hle : s.levelCount size ≤ lo / size :=
        (Nat.le_div_iff_mul_le hsize).mpr (Nat.le_of_not_lt hbeyond)
      obtain ⟨hok, hcount⟩ := ih hnodup gone hpos' s hwhole'
      refine ⟨?_, fun n hn => ?_⟩
      · rw [hok, flatMap_cons, blocksFrom, Nat.sub_eq_zero_of_le hle]
        rfl
      rcases mem_cons.mp hn with rfl | hn
      · have hframe := (treeDropLevels_frame lo sizes gone s).2 n hfresh
        rw [levelCount, hframe, ← levelCount, Nat.min_eq_left hle]
      · exact hcount n hn

/-- Otherwise a drop that returns names a block that is not aligned. -/
theorem treeDropLevels_ragged (lo : Nat) {sizes : List Nat} (hnodup : sizes.Nodup)
    {gone gone' : List Block} (hpos : ∀ size ∈ sizes, 0 < size) {s : MemoryStore}
    (hok : (treeDropLevels lo sizes gone s).1 = .ok gone') :
    (∀ block ∈ gone, block ∈ gone') ∧ ∀ size ∈ sizes, lo < s.levelCount size * size →
      ¬ size ∣ lo → ∃ block ∈ gone', block.lo % block.size ≠ 0 := by
  induction sizes generalizing gone s with
  | nil =>
    cases hok
    exact ⟨fun _ h => h, by simp⟩
  | cons size sizes ih =>
    obtain ⟨hfresh, hnodup⟩ := nodup_cons.mp hnodup
    have hsize : 0 < size := hpos size mem_cons_self
    have hpos' : ∀ n ∈ sizes, 0 < n := fun n hn => hpos n (mem_cons_of_mem _ hn)
    unfold treeDropLevels at hok
    dsimp only at hok
    split at hok
    · rename_i hbeyond
      split at hok
      · obtain ⟨hsub, hragged⟩ := ih hnodup hpos' hok
        refine ⟨fun block hin => hsub block (mem_append_left _ hin), fun n hn hlt hdvd => ?_⟩
        rcases mem_cons.mp hn with rfl | hn
        · -- its first block starts at the dropped one
          refine ⟨⟨lo, lo + n⟩, hsub _ (mem_append_right _ ?_), ?_⟩
          · have hsome : 0 < s.levelCount n - lo / n :=
              Nat.sub_pos_of_lt ((Nat.div_lt_iff_lt_mul hsize).mpr hbeyond)
            exact mem_map.mpr ⟨0, mem_range.mpr hsome, by simp⟩
          · rw [Block.size, Nat.add_sub_cancel_left]
            exact fun hzero => hdvd (Nat.dvd_of_mod_eq_zero hzero)
        · refine hragged n hn ?_ hdvd
          have hne : n ≠ size := fun heq => hfresh (heq ▸ hn)
          rwa [levelCount_setLevel, if_neg hne]
      · cases hok
    · rename_i hbeyond
      obtain ⟨hsub, hragged⟩ := ih hnodup hpos' hok
      refine ⟨hsub, fun n hn hlt hdvd => ?_⟩
      rcases mem_cons.mp hn with rfl | hn
      · exact absurd hlt hbeyond
      · exact hragged n hn hlt hdvd

theorem nodup_levelsFrom {size : Nat} (hsize : 0 < size) (T : Nat) :
    (levelsFrom size T).Nodup := by
  obtain ⟨m, hlevels, -, -⟩ := levelsFrom_eq hsize T
  have hinj : Function.Injective fun i => size * 2 ^ i := fun i j hij =>
    Nat.pow_right_injective (Nat.le_refl 2) (Nat.eq_of_mul_eq_mul_left hsize hij)
  exact hlevels ▸ nodup_range.map hinj

theorem nodup_blocksFrom (lo : Nat) {sizes : List Nat} (hnodup : sizes.Nodup)
    (hpos : ∀ size ∈ sizes, 0 < size) : (sizes.flatMap (s.blocksFrom lo)).Nodup := by
  refine nodup_flatMap.mpr ⟨fun size hin => ?_, hnodup.pairwise_of_forall_ne ?_⟩
  · refine nodup_range.map fun i k heq => ?_
    exact Nat.add_left_cancel (Block.nth_injective (hpos size hin) heq)
  intro size _ size' _ hne block hin hin'
  obtain ⟨i, -, rfl⟩ := mem_map.mp hin
  obtain ⟨k, -, heq⟩ := mem_map.mp hin'
  refine hne ?_
  rw [← Block.size_nth size (lo / size + i), ← heq, Block.size_nth]

/-! ## The contract -/

/-- A drop does what it is to do, and returns the blocks that it drops, exactly when every level
above the block that goes beyond it is one that the log can fill, and in it the block starts
where one of that level does. -/
theorem treeDrop_exact_iff (s : MemoryStore) (j k : Nat) :
    s.DropsExactly (.nth (2 ^ j) k) ↔
      ∀ i, k * 2 ^ j < s.levelCount (2 ^ j * 2 ^ i) * (2 ^ j * 2 ^ i) →
        2 ^ j * 2 ^ i ≤ s.logLength ∧ 2 ^ j * 2 ^ i ∣ k * 2 ^ j := by
  have hsize : 0 < 2 ^ j := Nat.two_pow_pos j
  have hnodup := nodup_levelsFrom hsize s.logLength
  have hpos : ∀ size ∈ levelsFrom (2 ^ j) s.logLength, 0 < size := fun size hin => by
    obtain ⟨i, rfl, -⟩ := (mem_levelsFrom hsize).mp hin
    exact Nat.mul_pos hsize (Nat.two_pow_pos i)
  have hframe := treeDropLevels_frame (k * 2 ^ j) (levelsFrom (2 ^ j) s.logLength) [] s
  unfold DropsExactly treeDrop
  rw [Block.size_nth, show (Block.nth (2 ^ j) k).lo = k * 2 ^ j from rfl]
  constructor
  · rintro ⟨gone, hok, -, -, hcount, -, hmem⟩ i hbeyond
    have hin : 2 ^ j * 2 ^ i ∈ levelsFrom (2 ^ j) s.logLength := by
      by_contra hout
      have hmin := hcount i
      rw [levelCount, hframe.2 _ hout, ← levelCount] at hmin
      have hlt := (Nat.div_lt_iff_lt_mul (Nat.mul_pos hsize (Nat.two_pow_pos i))).mpr hbeyond
      omega
    refine ⟨(mem_levelsFrom hsize).mp hin |>.choose_spec.2, ?_⟩
    by_contra hdvd
    obtain ⟨block, hgone, hragged⟩ :=
      (treeDropLevels_ragged (k * 2 ^ j) hnodup hpos hok).2 _ hin hbeyond hdvd
    exact hragged ((hmem block).mp hgone).2.1.1
  intro hwhole
  obtain ⟨hok, hcount⟩ := treeDropLevels_whole (k * 2 ^ j) hnodup [] hpos s fun size hin hlt => by
    obtain ⟨i, rfl, -⟩ := (mem_levelsFrom hsize).mp hin
    exact (hwhole i hlt).2
  rw [nil_append] at hok
  have hlevels : ∀ i, (treeDropLevels (k * 2 ^ j) (levelsFrom (2 ^ j) s.logLength) [] s).2.levelCount
      (2 ^ j * 2 ^ i) = min (s.levelCount (2 ^ j * 2 ^ i)) (k * 2 ^ j / (2 ^ j * 2 ^ i)) := fun i => by
    by_cases hin : 2 ^ j * 2 ^ i ∈ levelsFrom (2 ^ j) s.logLength
    · exact hcount _ hin
    have hle : ¬ k * 2 ^ j < s.levelCount (2 ^ j * 2 ^ i) * (2 ^ j * 2 ^ i) := fun hlt =>
      hin ((mem_levelsFrom hsize).mpr ⟨i, rfl, (hwhole i hlt).1⟩)
    rw [levelCount, hframe.2 _ hin, ← levelCount, Nat.min_eq_left]
    exact (Nat.le_div_iff_mul_le (Nat.mul_pos hsize (Nat.two_pow_pos i))).mpr
      (Nat.le_of_not_lt hle)
  have hbelow : ∀ size, (∀ i, size ≠ 2 ^ j * 2 ^ i) →
      (treeDropLevels (k * 2 ^ j) (levelsFrom (2 ^ j) s.logLength) [] s).2.level size =
        s.level size := fun size hne => hframe.2 size fun hin => by
    obtain ⟨i, heq, -⟩ := (mem_levelsFrom hsize).mp hin
    exact hne i heq
  refine ⟨_, hok, hframe.1, fun size hlt => hbelow size fun i heq => ?_, hlevels,
    nodup_blocksFrom _ hnodup hpos, fun block => ?_⟩
  · have hle : 2 ^ j ≤ 2 ^ j * 2 ^ i := Nat.le_mul_of_pos_right _ (Nat.two_pow_pos i)
    omega
  simp only [mem_flatMap, blocksFrom, mem_map, mem_range]
  constructor
  · rintro ⟨size, hin, i, hi, rfl⟩
    obtain ⟨n, rfl, -⟩ := (mem_levelsFrom hsize).mp hin
    rw [settled_nth (hpos _ hin), settled_nth (hpos _ hin), hlevels]
    exact ⟨⟨j + n, _, by rw [Nat.pow_add]⟩, by omega, by omega⟩
  rintro ⟨⟨n, start, rfl⟩, hbefore, hafter⟩
  rw [settled_nth (Nat.two_pow_pos n)] at hbefore hafter
  by_cases hn : ∃ i, 2 ^ n = 2 ^ j * 2 ^ i
  · obtain ⟨i, hi⟩ := hn
    rw [hi] at hbefore hafter ⊢
    rw [hlevels] at hafter
    have hpast : k * 2 ^ j < s.levelCount (2 ^ j * 2 ^ i) * (2 ^ j * 2 ^ i) := by
      refine (Nat.div_lt_iff_lt_mul (Nat.mul_pos hsize (Nat.two_pow_pos i))).mp ?_
      omega
    refine ⟨_, (mem_levelsFrom hsize).mpr ⟨i, rfl, (hwhole i hpast).1⟩,
      start - k * 2 ^ j / (2 ^ j * 2 ^ i), by omega, ?_⟩
    congr 1
    omega
  · rw [levelCount, hbelow _ fun i heq => hn ⟨i, heq⟩] at hafter
    exact absurd hbefore hafter

/-- Four memories, compressed up to the top. -/
def four : MemoryStore :=
  let notes : MemoryStore :=
    { entryChars := 280, log := List.replicate (4 * LOG_REC) 0x61, tree := [] }
  (notes.setLevel 2 (List.replicate (2 * TREE_REC) 0x61)).setLevel 4
    (List.replicate TREE_REC 0x61)

/-- The drop of `2-3` names a block of four that does not start where one does. -/
theorem four_drops_ragged : ¬ four.DropsExactly (.nth 2 1) := by
  rintro ⟨gone, hok, -, -, -, -, hmem⟩
  have hlength : four.logLength = 4 := by
    rw [four, logLength_setLevel, logLength_setLevel, logLength, Records.count,
      length_replicate]
    rfl
  have hcount : four.levelCount 4 = 1 := by
    rw [four, levelCount_setLevel, if_pos rfl, Records.count, length_replicate]
    rfl
  have hin : 4 ∈ levelsFrom 2 four.logLength :=
    (mem_levelsFrom (by decide)).mpr ⟨1, rfl, hlength.ge⟩
  obtain ⟨block, hgone, hragged⟩ :=
    (treeDropLevels_ragged 2 (nodup_levelsFrom (by decide) _) (fun size hsize => by
      obtain ⟨i, rfl, -⟩ := (mem_levelsFrom (by decide)).mp hsize
      exact Nat.mul_pos (by decide) (Nat.two_pow_pos i)) hok).2 4 hin (by rw [hcount]; decide)
      (by decide)
  exact hragged ((hmem block).mp hgone).2.1.1

end MemoryStore

end Harness
