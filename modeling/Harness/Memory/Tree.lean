-- SUMMARY: What one put and one drop do to the levels of the summary tree.
import Harness.Memory.Store
import Mathlib.Data.Nat.Find

namespace Harness

open List

/-! ## Levels -/

namespace MemoryStore

theorem levelsFrom_eq {size : Nat} (hsize : 0 < size) (T : Nat) :
    ∃ m, levelsFrom size T = (List.range m).map (size * 2 ^ ·) ∧ (∀ i < m, size * 2 ^ i ≤ T) ∧
      T < size * 2 ^ m := by
  have hex : ∃ m, T < size * 2 ^ m :=
    ⟨T, Nat.lt_of_lt_of_le Nat.lt_two_pow_self (Nat.le_mul_of_pos_left _ hsize)⟩
  let m := Nat.find hex
  have hm : T < size * 2 ^ m := Nat.find_spec hex
  have hlt : ∀ i < m, size * 2 ^ i ≤ T := fun i hi => Nat.le_of_not_lt (Nat.find_min hex hi)
  have hmT : m ≤ T :=
    Nat.find_min' hex (Nat.lt_of_lt_of_le Nat.lt_two_pow_self (Nat.le_mul_of_pos_left _ hsize))
  refine ⟨m, ?_, hlt, hm⟩
  unfold levelsFrom
  obtain ⟨d, hd⟩ : ∃ d, T + 1 = m + (d + 1) := ⟨T - m, by omega⟩
  rw [hd, range_add, map_append, takeWhile_append_of_pos]
  · rw [range_succ_eq_map, map_cons, map_cons, takeWhile_cons_of_neg]
    · exact append_nil _
    · simpa using hm
  · intro n hn
    obtain ⟨i, hi, rfl⟩ := mem_map.mp hn
    simpa using hlt i (mem_range.mp hi)

theorem mem_levelsFrom {size : Nat} (hsize : 0 < size) {T n : Nat} :
    n ∈ levelsFrom size T ↔ ∃ i, n = size * 2 ^ i ∧ n ≤ T := by
  obtain ⟨m, heq, hle, hlt⟩ := levelsFrom_eq hsize T
  rw [heq, mem_map]
  constructor
  · rintro ⟨i, hi, rfl⟩
    exact ⟨i, rfl, hle i (mem_range.mp hi)⟩
  rintro ⟨i, rfl, hi⟩
  refine ⟨i, mem_range.mpr (Nat.lt_of_not_le fun hmi => ?_), rfl⟩
  have hpow : size * 2 ^ m ≤ size * 2 ^ i :=
    Nat.mul_le_mul_left _ (Nat.pow_le_pow_right (by decide) hmi)
  omega

/-! ## Writes -/

variable {s : MemoryStore}

theorem count_truncated (lo size : Nat) :
    Records.count TREE_REC ((s.level size).take (lo * TREE_REC / size)) =
      min (lo / size) (s.levelCount size) := by
  rw [Records.count_take, Nat.div_right_comm, Nat.mul_div_cancel _ (by decide)]
  rfl

/-- What a put leaves in the levels, and whether it settles its block. -/
theorem treePut_spec (b : Block) (text : JsString) :
    (s.treePut b text).2.logLength = s.logLength ∧
    ((s.treePut b text).1 = .ok true ↔
      s.levelCount b.size * b.size = b.lo ∧ text.byteLength < TREE_REC) ∧
    ∀ size, (s.treePut b text).2.levelCount size =
      if size = b.size ∧ s.levelCount b.size * b.size = b.lo ∧ text.byteLength < TREE_REC then
        s.levelCount size + 1
      else s.levelCount size := by
  unfold treePut
  dsimp only
  rw [Records.count_repair (by decide)]
  have hcount : Records.count TREE_REC (s.level b.size) = s.levelCount b.size := rfl
  have hrepair : Records.count TREE_REC (Records.repair TREE_REC (s.level b.size)) =
      s.levelCount b.size := Records.count_repair (by decide) _
  by_cases hpos : s.levelCount b.size * b.size = b.lo
  · rw [hcount, if_neg (not_not_intro hpos)]
    cases hpad : pad text TREE_REC with
    | error e =>
      have hlong : ¬ text.byteLength < TREE_REC := by
        intro hshort
        have hfits : ¬ TREE_REC - 1 < text.utf8.length := by
          have hlen : text.utf8.length < TREE_REC := hshort
          omega
        simp [pad, hfits] at hpad
      refine ⟨rfl, by simp [hlong], fun size => ?_⟩
      rw [levelCount_setLevel, hrepair]
      by_cases hsize : size = b.size
      · simp [hsize, hlong]
      · simp [hsize]
    | ok record =>
      have hshort : text.byteLength < TREE_REC := by
        by_contra hlong
        have hlen : TREE_REC ≤ text.utf8.length := Nat.le_of_not_lt hlong
        have hfits : TREE_REC - 1 < text.utf8.length := by
          have : 0 < TREE_REC := by decide
          omega
        simp [pad, hfits] at hpad
      refine ⟨rfl, by simp [hpos, hshort], fun size => ?_⟩
      rw [levelCount_setLevel, Records.count_repair_append (by decide) _
        (length_pad (by decide) hpad)]
      by_cases hsize : size = b.size
      · subst hsize
        rw [if_pos rfl, if_pos ⟨rfl, hpos, hshort⟩]
        rfl
      · simp [hsize]
  · rw [hcount, if_pos hpos]
    refine ⟨rfl, by simp [hpos], fun size => ?_⟩
    rw [levelCount_setLevel, hrepair]
    by_cases hsize : size = b.size
    · simp [hsize, hpos]
    · simp [hsize]

/-- The levels that a drop truncates: those before the first whose truncation throws. -/
theorem treeDropLevels_spec (lo : Nat) {sizes : List Nat} (hnodup : sizes.Nodup)
    (gone : List Block) (hpos : ∀ size ∈ sizes, 0 < size) (s : MemoryStore) :
    ∃ done rest, sizes = done ++ rest ∧
      (treeDropLevels lo sizes gone s).2.logLength = s.logLength ∧
      (∀ size, (treeDropLevels lo sizes gone s).2.levelCount size =
        if size ∈ done then min (lo / size) (s.levelCount size) else s.levelCount size) ∧
      (∀ size ∈ done, lo < s.levelCount size * size → size ∣ lo * TREE_REC) ∧
      ∀ size, rest.head? = some size → lo < s.levelCount size * size ∧ ¬ size ∣ lo * TREE_REC := by
  induction sizes generalizing gone s with
  | nil => exact ⟨[], [], rfl, rfl, by simp [treeDropLevels], by simp, by simp⟩
  | cons size sizes ih =>
    obtain ⟨hfresh, hnodup⟩ := nodup_cons.mp hnodup
    have hpos' : ∀ size ∈ sizes, 0 < size := fun n hn => hpos n (mem_cons_of_mem _ hn)
    have hsize : 0 < size := hpos size mem_cons_self
    unfold treeDropLevels
    dsimp only
    by_cases hbeyond : lo < s.levelCount size * size
    · rw [if_pos hbeyond]
      by_cases hdvd : size ∣ lo * TREE_REC
      · rw [if_pos hdvd]
        obtain ⟨done, rest, rfl, hlog, hcount, hdone, hrest⟩ := ih hnodup
          (gone ++ (List.range (s.levelCount size - lo / size)).map
            fun i => ⟨lo + i * size, lo + (i + 1) * size⟩) hpos'
          (s.setLevel size ((s.level size).take (lo * TREE_REC / size)))
        have hkept : ∀ n, n ≠ size → (s.setLevel size
            ((s.level size).take (lo * TREE_REC / size))).levelCount n = s.levelCount n :=
          fun n hn => by rw [levelCount_setLevel, if_neg hn]
        have hne : ∀ n ∈ done ++ rest, n ≠ size := fun n hn heq => hfresh (heq ▸ hn)
        refine ⟨size :: done, rest, rfl, hlog, fun n => ?_, ?_, ?_⟩
        · rw [hcount n, levelCount_setLevel]
          by_cases hn : n = size
          · subst hn
            have hnot : n ∉ done := fun h => hfresh (mem_append_left _ h)
            simp only [hnot, if_false, if_true, mem_cons, true_or]
            exact count_truncated lo n
          · simp [hn]
        · intro n hn hlo
          rcases mem_cons.mp hn with rfl | hn
          · exact hdvd
          · exact hdone n hn (by rwa [hkept n (hne n (mem_append_left _ hn))])
        · intro n hn
          have hmem : n ∈ done ++ rest := mem_append_right _ (mem_of_head? hn)
          simpa only [hkept n (hne n hmem)] using hrest n hn
      · rw [if_neg hdvd]
        refine ⟨[], size :: sizes, rfl, rfl, by simp, by simp, fun n hn => ?_⟩
        cases hn
        exact ⟨hbeyond, hdvd⟩
    · rw [if_neg hbeyond]
      obtain ⟨done, rest, rfl, hlog, hcount, hdone, hrest⟩ := ih hnodup gone hpos' s
      refine ⟨size :: done, rest, rfl, hlog, fun n => ?_, ?_, hrest⟩
      · rw [hcount n]
        by_cases hn : n = size
        · subst hn
          have hle : s.levelCount n ≤ lo / n :=
            (Nat.le_div_iff_mul_le hsize).mpr (Nat.le_of_not_lt hbeyond)
          simp [Nat.min_eq_right hle]
        · simp [hn]
      · intro n hn hlo
        rcases mem_cons.mp hn with rfl | hn
        · exact absurd hlo hbeyond
        · exact hdone n hn hlo

/-! ## The tree -/

/-- The summary of a block is in its level file. -/
def Settled (s : MemoryStore) (b : Block) : Prop :=
  b.lo % b.size = 0 ∧ b.lo / b.size < s.levelCount b.size

instance (s : MemoryStore) (b : Block) : Decidable (s.Settled b) :=
  inferInstanceAs (Decidable (_ ∧ _))

/-- No summary block is settled before both of its halves, where these are summaries. -/
def Halved (s : MemoryStore) : Prop :=
  ∀ i k, s.Settled (.nth (2 ^ (i + 2)) k) →
    s.Settled (.nth (2 ^ (i + 1)) (2 * k)) ∧ s.Settled (.nth (2 ^ (i + 1)) (2 * k + 1))

theorem settled_nth {size k : Nat} (hsize : 0 < size) :
    s.Settled (.nth size k) ↔ k < s.levelCount size := by
  unfold Settled
  rw [Block.size_nth]
  simp [Block.nth, Nat.mul_div_cancel _ hsize]

theorem halved_iff : s.Halved ↔ ∀ i, 2 * s.levelCount (2 ^ (i + 2)) ≤ s.levelCount (2 ^ (i + 1)) := by
  have hpow : ∀ i, 0 < 2 ^ i := fun i => Nat.two_pow_pos i
  unfold Halved
  constructor
  · intro h i
    rcases Nat.eq_zero_or_pos (s.levelCount (2 ^ (i + 2))) with hzero | hpos
    · omega
    have hlast := (h i (s.levelCount (2 ^ (i + 2)) - 1)
      ((settled_nth (hpow _)).mpr (by omega))).2
    rw [settled_nth (hpow _)] at hlast
    omega
  · intro h i k hk
    rw [settled_nth (hpow _)] at hk
    have := h i
    exact ⟨(settled_nth (hpow _)).mpr (by omega), (settled_nth (hpow _)).mpr (by omega)⟩

/-- Only levels of powers of two hold summaries, and only of memories that are in the log. -/
structure Levelled (s : MemoryStore) : Prop where
  sizes : ∀ size, 0 < s.levelCount size → ∃ i, size = 2 ^ (i + 1)
  fits : ∀ size, s.levelCount size * size ≤ s.logLength

/-- What a drop does to the levels: it truncates all of them, or the ones below the first
whose truncation throws, and then at least the one right below. -/
theorem treeDrop_spec {b : Block} (hb : 0 < b.size) (haligned : b.lo % b.size = 0) :
    (s.treeDrop b).2.logLength = s.logLength ∧
    ∃ done : List Nat,
      (∀ size, (s.treeDrop b).2.levelCount size =
        if size ∈ done then min (b.lo / size) (s.levelCount size) else s.levelCount size) ∧
      (∀ size ∈ done, size ∈ levelsFrom b.size s.logLength ∧
        (b.lo < s.levelCount size * size → size ∣ b.lo * TREE_REC)) ∧
      ((∀ size ∈ levelsFrom b.size s.logLength, size ∈ done) ∨
        ∃ j, b.size * 2 ^ j ∈ done ∧ b.size * 2 ^ (j + 1) ∉ done ∧
          b.size * 2 ^ (j + 1) ∈ levelsFrom b.size s.logLength ∧
          b.lo < s.levelCount (b.size * 2 ^ (j + 1)) * (b.size * 2 ^ (j + 1)) ∧
          ¬ b.size * 2 ^ (j + 1) ∣ b.lo * TREE_REC) := by
  obtain ⟨m, hlevels, -, -⟩ := levelsFrom_eq hb s.logLength
  have hinj : Function.Injective fun i => b.size * 2 ^ i := fun i j hij =>
    Nat.pow_right_injective (Nat.le_refl 2) (Nat.eq_of_mul_eq_mul_left hb hij)
  have hnodup : (levelsFrom b.size s.logLength).Nodup := hlevels ▸ nodup_range.map hinj
  have hpositive : ∀ size ∈ levelsFrom b.size s.logLength, 0 < size := fun size hsize => by
    obtain ⟨i, rfl, -⟩ := (mem_levelsFrom hb).mp hsize
    exact Nat.mul_pos hb (Nat.two_pow_pos i)
  obtain ⟨done, rest, hsplit, hlog, hcount, hdone, hrest⟩ :=
    treeDropLevels_spec b.lo hnodup [] hpositive s
  refine ⟨hlog, done, hcount, fun size hsize =>
    ⟨hsplit ▸ mem_append_left _ hsize, hdone size hsize⟩, ?_⟩
  cases rest with
  | nil => exact .inl fun size hsize => by simpa [hsplit] using hsize
  | cons size rest =>
    obtain ⟨hbeyond, hdvd⟩ := hrest size rfl
    have hat : ((List.range m).map (b.size * 2 ^ ·))[done.length]? = some size := by
      rw [← hlevels, hsplit, getElem?_append_right (Nat.le_refl _), Nat.sub_self]
      rfl
    rw [getElem?_map, Option.map_eq_some_iff] at hat
    obtain ⟨n, hn, rfl⟩ := hat
    obtain ⟨hlen, hn⟩ := List.getElem?_eq_some_iff.mp hn
    rw [getElem_range] at hn
    subst hn
    -- the first level is a whole number of blocks, and no truncation of it throws
    have hsome : done.length ≠ 0 := by
      intro hzero
      refine hdvd ?_
      rw [hzero, Nat.pow_zero, Nat.mul_one]
      exact Nat.dvd_mul_right_of_dvd (Nat.dvd_of_mod_eq_zero haligned) _
    obtain ⟨j, hj⟩ := Nat.exists_eq_succ_of_ne_zero hsome
    refine .inr ⟨j, ?_, ?_, ?_, ?_, ?_⟩
    · have hmem : (done ++ b.size * 2 ^ done.length :: rest)[j]? = some (b.size * 2 ^ j) := by
        rw [← hsplit, hlevels, getElem?_map, getElem?_range (by simp at hlen; omega)]
        rfl
      rw [getElem?_append_left (by omega)] at hmem
      exact mem_of_getElem? hmem
    · rw [hsplit, nodup_append] at hnodup
      intro hmem
      exact hnodup.2.2 _ hmem _ mem_cons_self (by rw [hj])
    all_goals rw [← Nat.succ_eq_add_one, ← hj]
    · rw [hsplit]
      exact mem_append_right _ mem_cons_self
    · exact hbeyond
    · exact hdvd

/-- After a drop the tree is closed under halves exactly when no truncation threw. -/
theorem halved_treeDrop_iff (hlev : s.Levelled) (hhalved : s.Halved) {b : Block} (hb : 2 ≤ b.size)
    (haligned : b.lo % b.size = 0) :
    (s.treeDrop b).2.Halved ↔ ∀ size ∈ levelsFrom b.size s.logLength,
      b.lo < s.levelCount size * size → size ∣ b.lo * TREE_REC := by
  obtain ⟨-, done, hcount, hdone, hend⟩ := treeDrop_spec (s := s) (by omega) haligned
  rw [halved_iff] at hhalved ⊢
  have hle : ∀ size, (s.treeDrop b).2.levelCount size ≤ s.levelCount size := fun size => by
    rw [hcount]
    split
    · exact Nat.min_le_right _ _
    · exact Nat.le_refl _
  constructor
  · intro hafter
    rcases hend with hall | ⟨j, hmem, hnot, -, hbeyond, -⟩
    · exact fun size hsize => (hdone size (hall size hsize)).2
    -- the level that kept its summary is a power of two, and so is the one below
    obtain ⟨i, hi⟩ := hlev.sizes (b.size * 2 ^ (j + 1)) (Nat.pos_of_ne_zero fun hzero => by
      rw [hzero, Nat.zero_mul] at hbeyond
      exact absurd hbeyond (Nat.not_lt_zero _))
    have hbelow : b.size * 2 ^ j = 2 ^ i := by
      rw [Nat.pow_succ, Nat.pow_succ, ← Nat.mul_assoc] at hi
      omega
    have hi0 : i ≠ 0 := by
      rintro rfl
      have : b.size ≤ b.size * 2 ^ j := Nat.le_mul_of_pos_right _ (Nat.two_pow_pos j)
      omega
    obtain ⟨n, rfl⟩ := Nat.exists_eq_succ_of_ne_zero hi0
    rw [hi] at hnot hbeyond
    rw [hbelow] at hmem
    have hhalf := hafter n
    rw [hcount, if_neg hnot, hcount, if_pos hmem] at hhalf
    have hlo : s.levelCount (2 ^ (n + 2)) * 2 ≤ b.lo / 2 ^ (n + 1) := by omega
    rw [Nat.le_div_iff_mul_le (Nat.two_pow_pos _), Nat.mul_assoc, ← Nat.pow_succ'] at hlo
    exact absurd hbeyond (Nat.not_lt.mpr hlo)
  · intro hall i
    have hdone' : ∀ size ∈ levelsFrom b.size s.logLength, size ∈ done := by
      rcases hend with hend | ⟨j, -, -, hmem, hbeyond, hdvd⟩
      · exact hend
      · exact absurd (hall _ hmem hbeyond) hdvd
    by_cases hmem : 2 ^ (i + 1) ∈ done
    · obtain ⟨j, hj, -⟩ := (mem_levelsFrom (by omega)).mp (hdone _ hmem).1
      by_cases hmem' : 2 ^ (i + 2) ∈ done
      · rw [hcount, if_pos hmem', hcount, if_pos hmem]
        have hhalf := hhalved i
        have hquot : 2 * (b.lo / 2 ^ (i + 2)) ≤ b.lo / 2 ^ (i + 1) := by
          rw [Nat.pow_succ, ← Nat.div_div_eq_div_mul]
          exact Nat.mul_div_le _ 2
        omega
      -- a level beyond the log is empty
      have hout : s.logLength < 2 ^ (i + 2) := by
        refine Nat.lt_of_not_le fun hle => hmem' (hdone' _ ?_)
        refine (mem_levelsFrom (by omega)).mpr ⟨j + 1, ?_, hle⟩
        rw [Nat.pow_succ, hj, Nat.mul_assoc, ← Nat.pow_succ]
      have hzero : s.levelCount (2 ^ (i + 2)) = 0 := by
        have hfits := hlev.fits (2 ^ (i + 2))
        refine Nat.eq_zero_of_not_pos fun hpos => ?_
        have : 2 ^ (i + 2) ≤ s.levelCount (2 ^ (i + 2)) * 2 ^ (i + 2) :=
          Nat.le_mul_of_pos_left _ hpos
        omega
      have := hle (2 ^ (i + 2))
      omega
    · rw [hcount (2 ^ (i + 1)), if_neg hmem]
      have := hle (2 ^ (i + 2))
      have := hhalved i
      omega

/-- A put keeps the tree closed under halves exactly when it settles nothing, or a block
both of whose halves are there. -/
theorem halved_treePut_iff (hhalved : s.Halved) {i k : Nat} (text : JsString) :
    (s.treePut (.nth (2 ^ (i + 1)) k) text).2.Halved ↔
      ∀ j, i = j + 1 → s.levelCount (2 ^ (j + 2)) = k → text.byteLength < TREE_REC →
        2 * k + 2 ≤ s.levelCount (2 ^ (j + 1)) := by
  obtain ⟨-, -, hcount⟩ := s.treePut_spec (.nth (2 ^ (i + 1)) k) text
  have hsame : s.levelCount (2 ^ (i + 1)) * 2 ^ (i + 1) = k * 2 ^ (i + 1) ↔
      s.levelCount (2 ^ (i + 1)) = k :=
    ⟨fun h => Nat.eq_of_mul_eq_mul_right (Nat.two_pow_pos _) h, fun h => h ▸ rfl⟩
  simp only [Block.size_nth, show (Block.nth (2 ^ (i + 1)) k).lo = k * 2 ^ (i + 1) from rfl,
    hsame] at hcount
  have hpow : ∀ n m : Nat, 2 ^ n = 2 ^ m ↔ n = m := fun n m =>
    Nat.pow_right_inj (by decide)
  rw [halved_iff] at hhalved ⊢
  constructor
  · rintro hafter j rfl hk htext
    have hhalf := hafter j
    rw [hcount, if_pos ⟨rfl, hk, htext⟩, hcount, if_neg (by rw [hpow]; omega)] at hhalf
    omega
  intro hhalves n
  have hhalf := hhalved n
  rw [hcount, hcount]
  by_cases hn : n + 1 = i ∧ s.levelCount (2 ^ (i + 1)) = k ∧ text.byteLength < TREE_REC
  · obtain ⟨rfl, hk, htext⟩ := hn
    have hroom := hhalves n rfl hk htext
    rw [if_pos ⟨rfl, hk, htext⟩, if_neg (by rw [hpow]; omega)]
    change s.levelCount (2 ^ (n + 2)) = k at hk
    omega
  · rw [if_neg (by rw [hpow]; omega)]
    split <;> omega

theorem levelCount_treeDrop_le {b : Block} (hb : 0 < b.size) (haligned : b.lo % b.size = 0)
    (size : Nat) : (s.treeDrop b).2.levelCount size ≤ s.levelCount size := by
  obtain ⟨-, done, hcount, -, -⟩ := treeDrop_spec (s := s) hb haligned
  rw [hcount]
  split
  · exact Nat.min_le_right _ _
  · exact Nat.le_refl _

/-- What holds of the levels goes on when the log grows and levels shrink. -/
theorem Levelled.mono (h : s.Levelled) {s' : MemoryStore} (hlog : s.logLength ≤ s'.logLength)
    (hcount : ∀ size, s'.levelCount size ≤ s.levelCount size) : s'.Levelled where
  sizes size hpos := h.sizes size (Nat.lt_of_lt_of_le hpos (hcount size))
  fits size := Nat.le_trans (Nat.mul_le_mul_right _ (hcount size)) (Nat.le_trans (h.fits size) hlog)

end MemoryStore

end Harness
