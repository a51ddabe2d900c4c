-- SUMMARY: The retainer gives what its two windows over the whole stream give, however the stream is cut into chunks.
import Harness.Retention.TextRetainer
import Mathlib.Data.List.GetD

namespace Harness

open List
namespace Retention

open Unicode

/-! ## Cuts -/

theorem isContinuation_iff (b : UInt8) : isContinuation b = true ↔ IsContinuation b := by
  have hall : ∀ n < 256, (UInt8.ofNat n &&& 0xC0 == 0x80) = decide (0x80 ≤ n ∧ n < 0xC0) := by
    decide +kernel
  have hb := hall b.toNat b.toNat_lt
  rw [UInt8.ofNat_toNat] at hb
  rw [isContinuation, hb, decide_eq_true_eq, IsContinuation]

theorem declared_eq (lead : UInt8) :
    (if lead < 0x80 then 1 else if lead < 0xE0 then 2 else if lead < 0xF0 then 3
      else if lead < 0xF8 then 4 else 0) = declared lead := by
  simp only [UInt8.lt_iff_toNat_lt]
  rfl

/-- The walk back stops at the last byte that is no continuation. -/
theorem walkBack_append {front conts : List UInt8} {lead : UInt8} (hlead : ¬ IsContinuation lead)
    (hconts : ∀ b ∈ conts, IsContinuation b) (hlength : conts.length ≤ 3) {k : Nat}
    (hk : k ≤ conts.length) :
    walkBack (front ++ lead :: conts) (front.length + 1 + k) = front.length + 1 := by
  induction k with
  | zero =>
    have hget : (front ++ lead :: conts).getD front.length 0 = lead := by simp
    have hstop : ¬ (isContinuation ((front ++ lead :: conts).getD front.length 0) &&
        decide ((front ++ lead :: conts).length - front.length ≤ 3)) = true := by
      rw [hget, Bool.and_eq_true, isContinuation_iff]
      exact fun h => hlead h.1
    rw [Nat.add_zero, walkBack, if_neg hstop]
  | succ k ih =>
    have hlt : k < conts.length := hk
    have hget : (front ++ lead :: conts).getD (front.length + 1 + k) 0 = conts[k] := by
      rw [getD_append_right _ _ _ _ (by omega),
        show front.length + 1 + k - front.length = k + 1 by omega, getD_cons_succ,
        getD_eq_getElem _ _ hlt]
    have hgo : (isContinuation ((front ++ lead :: conts).getD (front.length + 1 + k) 0) &&
        decide ((front ++ lead :: conts).length - (front.length + 1 + k) ≤ 3)) = true := by
      rw [hget, Bool.and_eq_true, isContinuation_iff, decide_eq_true_eq]
      refine ⟨hconts _ (getElem_mem hlt), ?_⟩
      rw [length_append, length_cons]
      omega
    rw [← Nat.add_assoc, walkBack, if_pos hgo]
    exact ih (Nat.le_of_lt hlt)

/-- What the walk back has passed are continuation bytes, and it stops at none while it may. -/
theorem walkBack_spec (bytes : List UInt8) (n : Nat) :
    walkBack bytes n ≤ n
      ∧ (∀ j, walkBack bytes n ≤ j → j < n → IsContinuation (bytes.getD j 0))
      ∧ (∀ i, walkBack bytes n = i + 1 →
          IsContinuation (bytes.getD i 0) → 3 < bytes.length - i) := by
  induction n with
  | zero => exact ⟨Nat.le_refl _, fun j _ hj => by omega, fun i hi => by simp [walkBack] at hi⟩
  | succ n ih =>
    rw [walkBack]
    split
    · rename_i hgo
      obtain ⟨hle, hpassed, hstop⟩ := ih
      rw [Bool.and_eq_true, isContinuation_iff] at hgo
      refine ⟨by omega, fun j hj hlt => ?_, hstop⟩
      rcases Nat.lt_succ_iff_lt_or_eq.mp hlt with hlt | rfl
      · exact hpassed j hj hlt
      · exact hgo.1
    · rename_i hstop
      refine ⟨Nat.le_refl _, fun j hj hlt => by omega, fun i hi hcont => ?_⟩
      obtain rfl : n = i := by omega
      rw [Bool.and_eq_true, isContinuation_iff, decide_eq_true_eq] at hstop
      exact Nat.lt_of_not_le fun hle => hstop ⟨hcont, hle⟩

theorem trimTrailing_part {front part : List UInt8} (h : IsPartial part) :
    trimTrailingPartialUtf8 (front ++ part) = front := by
  obtain ⟨lead, conts, rfl, hlead, hconts, hshort⟩ := h
  have hfour := declared_le lead
  rw [length_cons] at hshort
  have hwalk : walkBack (front ++ lead :: conts) (front ++ lead :: conts).length =
      front.length + 1 := by
    have hall := @walkBack_append front conts lead hlead hconts (by omega) _ (Nat.le_refl _)
    rwa [show (front ++ lead :: conts).length = front.length + 1 + conts.length by
      rw [length_append, length_cons]; omega]
  have hget : (front ++ lead :: conts).getD front.length 0 = lead := by simp
  rw [trimTrailingPartialUtf8, hwalk]
  simp only [hget]
  rw [declared_eq, if_neg (by omega), if_pos, take_left]
  rw [length_append, length_cons]
  omega

/-- Without a trailing part of a sequence, every byte stays. -/
theorem trimTrailing_whole {bytes : List UInt8}
    (h : ∀ front part, bytes = front ++ part → ¬ IsPartial part) :
    trimTrailingPartialUtf8 bytes = bytes := by
  obtain ⟨hle, hpassed, hstop⟩ := walkBack_spec bytes bytes.length
  rw [trimTrailingPartialUtf8]
  split
  · rfl
  rename_i i hwalk
  have hi : i < bytes.length := by omega
  simp only
  rw [declared_eq]
  split
  · rfl
  split
  · rename_i hshort
    have hlead : ¬ IsContinuation (bytes.getD i 0) := by
      intro hcont
      have := hstop i hwalk hcont
      have := declared_le (bytes.getD i 0)
      unfold IsContinuation at hcont
      have htwo : declared (bytes.getD i 0) = 2 := by
        rw [declared, if_neg (by omega), if_pos (by omega)]
      omega
    refine absurd ?_ (h (bytes.take i) (bytes.drop i) (take_append_drop _ _).symm)
    refine ⟨bytes[i], bytes.drop (i + 1), drop_eq_getElem_cons hi, ?_, ?_, ?_⟩
    · rwa [getD_eq_getElem _ _ hi] at hlead
    · intro b hb
      obtain ⟨k, hk, rfl⟩ := getElem_of_mem hb
      rw [length_drop] at hk
      have hcont := hpassed (i + 1 + k) (by omega) (by omega)
      rwa [getD_eq_getElem _ _ (by omega), ← getElem_drop] at hcont
    · rwa [length_drop, ← getD_eq_getElem _ 0 hi]
  · rfl

/-! ## Windows -/

namespace TextRetainer

/-- The suffix chunks are cut down to the last bytes of what they hold. -/
theorem slide_shorten {cap : Nat} (hcap : 0 < cap) (chunks : List (List UInt8)) :
    (shorten cap (slide cap chunks chunks.flatten.length)).2 = min chunks.flatten.length cap
      ∧ (shorten cap (slide cap chunks chunks.flatten.length)).1.flatten =
        chunks.flatten.drop (chunks.flatten.length - cap) := by
  induction chunks with
  | nil => exact ⟨(Nat.zero_min _).symm, drop_nil.symm⟩
  | cons head chunks ih =>
    have hlength : (head :: chunks).flatten.length = head.length + chunks.flatten.length := by
      rw [flatten_cons, length_append]
    rw [slide, hlength, Nat.add_sub_cancel_left]
    split
    · rename_i hout
      obtain ⟨hheld, hflat⟩ := ih
      have hin : cap ≤ chunks.flatten.length := hout
      refine ⟨by rw [hheld]; omega, ?_⟩
      have hdrop : head.length + chunks.flatten.length - cap =
          head.length + (chunks.flatten.length - cap) := by omega
      rw [hflat, flatten_cons, hdrop, drop_append,
        @drop_eq_nil_of_le _ head _ (Nat.le_add_right _ _), nil_append,
        Nat.add_sub_cancel_left]
    · rename_i hin
      rw [shorten]
      split
      · refine ⟨by dsimp only; omega, ?_⟩
        rw [flatten_cons, flatten_cons, drop_append_of_le_length (by omega)]
      · refine ⟨by dsimp only; omega, ?_⟩
        rw [show head.length + chunks.flatten.length - cap = 0 by omega, drop_zero]

/-- The retainer holds the two windows over the stream so far. -/
structure Holds (r : TextRetainer) (stream : List UInt8) : Prop where
  total : r.total = stream.length
  prefixHeld : r.prefixHeld = min stream.length r.prefixCap
  head : r.prefixChunks.flatten = stream.take r.prefixCap
  suffixHeld : r.suffixHeld = min stream.length r.suffixCap
  suffixLength : r.suffixChunks.flatten.length = r.suffixHeld
  tail : r.suffixChunks.flatten = stream.drop (stream.length - r.suffixCap)

theorem holds_new (strategy : TextRetentionStrategy) : (new strategy).Holds [] := by
  cases strategy <;>
    exact ⟨rfl, by simp [new], by simp [new], by simp [new], rfl, drop_nil.symm⟩

section
variable {r : TextRetainer} {stream : List UInt8}

theorem push_caps (r : TextRetainer) (chunk : Chunk) :
    (r.push chunk).2.prefixCap = r.prefixCap ∧ (r.push chunk).2.suffixCap = r.suffixCap :=
  ⟨rfl, rfl⟩

theorem Holds.push_suffix (h : r.Holds stream) (chunk : Chunk) :
    (r.push chunk).2.suffixHeld = min (stream.length + chunk.encode.length) r.suffixCap
      ∧ (r.push chunk).2.suffixChunks.flatten =
        (stream ++ chunk.encode).drop ((stream ++ chunk.encode).length - r.suffixCap) := by
  have hlength : (stream ++ chunk.encode).length = stream.length + chunk.encode.length :=
    length_append
  have hsuffix : ((r.push chunk).2.suffixChunks, (r.push chunk).2.suffixHeld) =
      if r.suffixCap > 0 then
        shorten r.suffixCap (slide r.suffixCap (r.suffixChunks ++ [chunk.encode])
          (r.suffixHeld + chunk.encode.length))
      else (r.suffixChunks, r.suffixHeld) := rfl
  have hheld := h.suffixHeld
  rcases Nat.eq_zero_or_pos r.suffixCap with hzero | hpos
  · rw [if_neg (by omega)] at hsuffix
    obtain ⟨hchunks, hlast⟩ := Prod.mk.inj hsuffix
    refine ⟨by rw [hlast]; omega, ?_⟩
    rw [hchunks, h.tail, hzero, Nat.sub_zero, Nat.sub_zero, drop_length, drop_length]
  have hflat : (r.suffixChunks ++ [chunk.encode]).flatten =
      (stream ++ chunk.encode).drop (stream.length - r.suffixCap) := by
    rw [flatten_append, h.tail, flatten_singleton,
      drop_append_of_le_length (Nat.sub_le _ _)]
  have hflatLength : (r.suffixChunks ++ [chunk.encode]).flatten.length =
      r.suffixHeld + chunk.encode.length := by
    rw [flatten_append, length_append, h.suffixLength, flatten_singleton]
  rw [if_pos hpos, ← hflatLength] at hsuffix
  obtain ⟨hlast, hchunks⟩ := slide_shorten hpos (r.suffixChunks ++ [chunk.encode])
  rw [← hsuffix] at hlast hchunks
  dsimp only at hlast hchunks
  refine ⟨by rw [hlast, hflatLength]; omega, ?_⟩
  rw [hchunks, hflatLength, hflat, drop_drop, hlength]
  congr 1
  omega

theorem Holds.push (h : r.Holds stream) (chunk : Chunk) :
    (r.push chunk).2.Holds (stream ++ chunk.encode) := by
  have hlength : (stream ++ chunk.encode).length = stream.length + chunk.encode.length :=
    length_append
  have hheld := h.prefixHeld
  refine ⟨?_, ?_, ?_, ?_, ?_, ?_⟩
  · rw [hlength, ← h.total]
    rfl
  · rw [hlength]
    simp only [TextRetainer.push]
    split <;> dsimp only <;> omega
  · rw [(push_caps r chunk).1, take_append]
    simp only [TextRetainer.push]
    split
    · rename_i htaken
      rw [flatten_append, h.head, flatten_singleton]
      congr 1
      rw [show r.prefixCap - r.prefixHeld = r.prefixCap - stream.length by omega,
        ← take_eq_take_min]
    · rename_i htaken
      rw [h.head]
      have hnone : chunk.encode.take (r.prefixCap - stream.length) = [] := by
        apply take_eq_nil_iff.mpr
        rcases Nat.eq_zero_or_pos chunk.encode.length with hzero | hpos
        · exact .inr (length_eq_zero_iff.mp hzero)
        · exact .inl (by omega)
      rw [hnone, append_nil]
  · rw [hlength]
    exact (h.push_suffix chunk).1
  · rw [(h.push_suffix chunk).2, length_drop, (h.push_suffix chunk).1, hlength]
    omega
  · exact (h.push_suffix chunk).2

end

section Runs
variable {r : TextRetainer} {stream : List UInt8}

theorem pushAll_caps (r : TextRetainer) (chunks : List Chunk) :
    (r.pushAll chunks).2.prefixCap = r.prefixCap ∧
      (r.pushAll chunks).2.suffixCap = r.suffixCap := by
  induction chunks generalizing r with
  | nil => exact ⟨rfl, rfl⟩
  | cons chunk chunks ih => exact ih (r.push chunk).2

theorem Holds.pushAll (h : r.Holds stream) (chunks : List Chunk) :
    (r.pushAll chunks).2.Holds (stream ++ chunks.flatMap Chunk.encode) := by
  induction chunks generalizing r stream with
  | nil =>
    rw [flatMap_nil, append_nil]
    exact h
  | cons chunk chunks ih =>
    have hnext := ih (h.push chunk)
    rwa [append_assoc] at hnext

theorem pushAll_append (r : TextRetainer) (front back : List Chunk) :
    r.pushAll (front ++ back) =
      ((r.pushAll front).1 ++ ((r.pushAll front).2.pushAll back).1,
        ((r.pushAll front).2.pushAll back).2) := by
  induction front generalizing r with
  | nil => rfl
  | cons chunk front ih =>
    simp only [cons_append, pushAll, ih]

theorem length_pushAll (r : TextRetainer) (chunks : List Chunk) :
    (r.pushAll chunks).1.length = chunks.length := by
  induction chunks generalizing r with
  | nil => rfl
  | cons chunk chunks ih => exact congrArg (· + 1) (ih (r.push chunk).2)

end Runs

end TextRetainer

/-! ## The whole stream -/

def TextRetentionStrategy.budgets : TextRetentionStrategy → Nat × Nat
  | .head maxBytes => (maxBytes, 0)
  | .tail maxBytes => (0, maxBytes)
  | .headTail headBytes tailBytes => (headBytes, tailBytes)

/-- A window's bytes less a part of a sequence at their end, where there is one. -/
def HeadCut (window head : List UInt8) : Prop :=
  (∃ part, IsPartial part ∧ window = head ++ part) ∨
    head = window ∧ ∀ front part, window = front ++ part → ¬ IsPartial part

/-- What two windows over the whole stream give. -/
def Reference (headBytes tailBytes : Nat) (stream : List UInt8) (result : RetainedText) : Prop :=
  if stream.length ≤ headBytes + tailBytes then result = ⟨decode stream, false, .none⟩
  else ∃ head tail,
    HeadCut (stream.take headBytes) head
      ∧ tail = (stream.drop (stream.length - tailBytes)).dropWhile (decide <| IsContinuation ·)
      ∧ result = ⟨⟨(decode head).units ++ (decode tail).units⟩, true,
          .exact (stream.length - head.length - tail.length)⟩

theorem HeadCut.length_le {window head : List UInt8} (h : HeadCut window head) :
    head.length ≤ window.length := by
  rcases h with ⟨part, -, rfl⟩ | ⟨rfl, -⟩
  · rw [length_append]
    omega
  · exact Nat.le_refl _

theorem trimTrailing_headCut (bytes : List UInt8) :
    HeadCut bytes (trimTrailingPartialUtf8 bytes) := by
  by_cases hpart : ∃ front part, bytes = front ++ part ∧ IsPartial part
  · obtain ⟨front, part, rfl, hpart⟩ := hpart
    exact .inl ⟨part, hpart, by rw [trimTrailing_part hpart]⟩
  have hwhole : ∀ front part, bytes = front ++ part → ¬ IsPartial part :=
    fun front part hsplit hp => hpart ⟨front, part, hsplit, hp⟩
  exact .inr ⟨trimTrailing_whole hwhole, hwhole⟩

theorem trimLeading_eq (bytes : List UInt8) :
    trimLeadingContinuationUtf8 bytes = bytes.dropWhile (decide <| IsContinuation ·) := by
  have hsame : isContinuation = (decide <| IsContinuation ·) := by
    funext b
    rw [Bool.eq_iff_iff, isContinuation_iff, decide_eq_true_eq]
  rw [trimLeadingContinuationUtf8, hsame]

namespace TextRetainer

theorem new_caps (strategy : TextRetentionStrategy) :
    (new strategy).prefixCap = strategy.budgets.1 ∧
      (new strategy).suffixCap = strategy.budgets.2 := by
  cases strategy <;> exact ⟨rfl, rfl⟩

section
variable {r : TextRetainer} {stream : List UInt8}

theorem omittedAt_pos (r : TextRetainer) (total : Nat) :
    r.omittedAt total > 0 ↔ r.prefixCap + r.suffixCap < total := by
  simp only [omittedAt]
  omega

theorem Holds.finish (h : r.Holds stream) :
    Reference r.prefixCap r.suffixCap stream r.finish := by
  have htotal := h.total
  have hheld := h.suffixHeld
  have hover := r.omittedAt_pos stream.length
  unfold Reference
  split
  · rename_i hwithin
    have hnone : ¬ r.omittedAt r.total > 0 := by
      rw [htotal, hover]
      omega
    have hslices : r.slices.1 ++ r.slices.2 = stream := by
      simp only [slices, if_neg hnone, h.head, h.tail, drop_drop]
      rcases Nat.le_total stream.length r.prefixCap with hle | hle
      · rw [take_of_length_le hle, drop_of_length_le (by omega), append_nil]
      rw [show stream.length - r.suffixCap + (r.suffixHeld -
          min (r.total - min r.total r.prefixCap) r.suffixCap) = r.prefixCap by omega,
        take_append_drop]
    have homitted : r.total - r.slices.1.length - r.slices.2.length = 0 := by
      have hlength := congrArg List.length hslices
      rw [length_append] at hlength
      omega
    simp only [TextRetainer.finish, if_neg hnone, hslices, homitted]
    rfl
  · rename_i hnot
    have hsome : r.omittedAt r.total > 0 := by
      rw [htotal, hover]
      omega
    have hslices : r.slices = (trimTrailingPartialUtf8 (stream.take r.prefixCap),
        trimLeadingContinuationUtf8 (stream.drop (stream.length - r.suffixCap))) := by
      simp only [slices, if_pos hsome, h.head, h.tail, drop_drop]
      rw [show stream.length - r.suffixCap + (r.suffixHeld -
        min (r.total - min r.total r.prefixCap) r.suffixCap) = stream.length - r.suffixCap by omega]
    refine ⟨_, _, trimTrailing_headCut _, trimLeading_eq _, ?_⟩
    have hhead := (trimTrailing_headCut (stream.take r.prefixCap)).length_le
    have htail := (dropWhile_sublist isContinuation
      (l := stream.drop (stream.length - r.suffixCap))).length_le
    rw [length_take] at hhead
    rw [length_drop] at htail
    have homitted : r.total - (trimTrailingPartialUtf8 (stream.take r.prefixCap)).length -
        (trimLeadingContinuationUtf8 (stream.drop (stream.length - r.suffixCap))).length > 0 := by
      rw [trimLeadingContinuationUtf8]
      omega
    rw [htotal] at hsome homitted
    simp only [TextRetainer.finish, htotal, hslices, if_pos hsome, decide_eq_true homitted, if_true]

end

end TextRetainer

/-! ## Valid streams -/

/-- Code points without a byte order mark at their start. -/
def unmarked : List Nat → List Nat
  | 0xFEFF :: cs => cs
  | cs => cs

theorem unmarked_subset (cs : List Nat) : ∀ c ∈ unmarked cs, c ∈ cs := by
  intro c hc
  unfold unmarked at hc
  split at hc
  · exact mem_cons_of_mem _ hc
  · exact hc

theorem unmarked_of_not_mem {cs : List Nat} (h : 0xFEFF ∉ cs) : unmarked cs = cs := by
  unfold unmarked
  split
  · simp at h
  · rfl

/-- Whole sequences decode to their code points, less a byte order mark. -/
theorem decode_encoded {cs : List Nat} (hcs : ∀ c ∈ cs, IsScalar c) :
    decode (cs.flatMap bytes) = ⟨(unmarked cs).flatMap units⟩ := by
  have hall := decode_flatMap_bytes hcs
  unfold decode
  split
  · rename_i rest hmark
    have hbytes : bytes 0xFEFF = [0xEF, 0xBB, 0xBF] := by decide
    have hsplit : cs.flatMap bytes = [0xFEFF].flatMap bytes ++ rest := by
      rw [hmark, flatMap_singleton, hbytes]
      rfl
    rw [hsplit, decode_flatMap_bytes_append (by decide)] at hall
    rw [JsString.ofUtf8, ← hall]
    rfl
  · rename_i hmark
    have hsame : unmarked cs = cs := by
      unfold unmarked
      split
      · rename_i rest
        exact absurd rfl (hmark (rest.flatMap bytes))
      · rfl
    rw [JsString.ofUtf8, hall, hsame]

/-- A replacement character comes from a replacement character. -/
theorem eq_replacement_of_mem_units {c : Nat} (hc : IsScalar c) {u : UInt16} (hu : u ∈ units c)
    (hreplaced : u.toNat = replacement) : c = replacement := by
  unfold IsScalar at hc
  unfold replacement at hreplaced ⊢
  unfold units at hu
  split at hu
  · rw [mem_singleton.mp hu, Nat.toUInt16, UInt16.toNat_ofNat'] at hreplaced
    omega
  simp only [mem_cons, not_mem_nil, or_false] at hu
  rcases hu with rfl | rfl
  · rw [Nat.toUInt16, UInt16.toNat_ofNat'] at hreplaced
    omega
  · rw [Nat.toUInt16, UInt16.toNat_ofNat'] at hreplaced
    omega

/-- What a retainer keeps of the code points `cs`: some first ones, as many as the head budget
has room for, and some last ones; the bytes of the others are counted. -/
structure Keeps (headBytes : Nat) (cs front mid back : List Nat) (result : RetainedText) :
    Prop where
  split : cs = front ++ mid ++ back
  text : result.text = ⟨(unmarked front ++ unmarked back).flatMap units⟩
  omitted : result.omittedBytes =
    if (mid.flatMap bytes).length = 0 then .none else .exact (mid.flatMap bytes).length
  within : result.truncated = true → (front.flatMap bytes).length ≤ headBytes
  longest : ∀ more, more <+: cs → (more.flatMap bytes).length ≤ headBytes → more <+: front

theorem length_flatMap_bytes_mono {cs ds : List Nat} (h : cs <+: ds) :
    (cs.flatMap bytes).length ≤ (ds.flatMap bytes).length := by
  obtain ⟨more, rfl⟩ := h
  rw [flatMap_append, length_append]
  omega

theorem HeadCut.eq {window head : List UInt8} (h : HeadCut window head) :
    head = trimTrailingPartialUtf8 window := by
  rcases h with ⟨part, hpart, rfl⟩ | ⟨rfl, hwhole⟩
  · rw [trimTrailing_part hpart]
  · rw [trimTrailing_whole hwhole]

section
variable {cs : List Nat} (hcs : ∀ c ∈ cs, IsScalar c)
include hcs

/-- The head is the longest run of whole sequences within its budget. -/
theorem headCut_encoded {n : Nat} {head : List UInt8} (h : HeadCut ((cs.flatMap bytes).take n) head) :
    ∃ front rest, cs = front ++ rest ∧ head = front.flatMap bytes ∧ head.length ≤ n
      ∧ ∀ more, more <+: cs → (more.flatMap bytes).length ≤ n → more <+: front := by
  obtain ⟨front, rest, part, hsplit, htake, hpart, hrest⟩ := take_encoded hcs n
  have hfront : ∀ c ∈ front, IsScalar c := fun c hc => hcs c (hsplit ▸ mem_append_left _ hc)
  have hhead : head = front.flatMap bytes := by
    rw [h.eq, htake]
    rcases hpart with rfl | hpart
    · rw [append_nil]
      exact trimTrailing_whole fun _ _ hparts => not_isPartial_of_encoded hfront hparts
    · exact trimTrailing_part hpart
  refine ⟨front, rest, hsplit, hhead, ?_, fun more hmore hlength => ?_⟩
  · have hle := h.length_le
    rw [length_take] at hle
    omega
  have hprefix : front <+: cs := ⟨rest, hsplit.symm⟩
  rcases prefix_or_prefix_of_prefix hmore hprefix with hshort | ⟨others, rfl⟩
  · exact hshort
  cases others with
  | nil => simp
  | cons c others =>
    obtain ⟨beyond, hbeyond⟩ := hmore
    rw [append_assoc, hsplit, cons_append] at hbeyond
    obtain rfl := append_cancel_left hbeyond
    rcases hrest with hnone | hlong
    · cases hnone
    have hmono := @length_flatMap_bytes_mono (front ++ [c]) (front ++ c :: others)
      ⟨others, by simp⟩
    simp only [take_succ_cons, take_zero] at hlong
    omega

theorem tail_encoded (n : Nat) :
    ∃ front back, cs = front ++ back
      ∧ ((cs.flatMap bytes).drop n).dropWhile (decide <| IsContinuation ·) = back.flatMap bytes
      ∧ (back.flatMap bytes).length ≤ (cs.flatMap bytes).length - n := by
  obtain ⟨front, back, part, hsplit, hdrop, hpart⟩ := drop_encoded hcs n
  have hback : ∀ c ∈ back, IsScalar c := fun c hc => hcs c (hsplit ▸ mem_append_right _ hc)
  refine ⟨front, back, hsplit, ?_, ?_⟩
  · rw [hdrop, dropWhile_append_of_pos fun b hb => decide_eq_true (hpart b hb)]
    have hhead := head_encoded hback
    cases hbytes : back.flatMap bytes with
    | nil => rfl
    | cons b rest =>
      rw [hbytes] at hhead
      rw [dropWhile_cons_of_neg]
      rw [decide_eq_true_eq]
      exact hhead b rfl
  · rw [← length_drop, hdrop, length_append]
    omega

/-- A reference over a valid stream keeps whole code points. -/
theorem Reference.keeps {headBytes tailBytes : Nat} {result : RetainedText}
    (h : Reference headBytes tailBytes (cs.flatMap bytes) result) :
    ∃ front mid back, Keeps headBytes cs front mid back result := by
  unfold Reference at h
  split at h
  · rw [h]
    refine ⟨cs, [], [], by simp, ?_, rfl, fun hfalse => ?_, fun more hmore _ => hmore⟩
    · rw [decode_encoded hcs]
      simp [unmarked]
    · cases hfalse
  rename_i hover
  obtain ⟨head, tail, hhead, htail, rfl⟩ := h
  obtain ⟨front, rest, hsplit, rfl, hwithin, hlongest⟩ := headCut_encoded hcs hhead
  obtain ⟨before, back, hsplit', hback, hlength⟩ :=
    tail_encoded hcs ((cs.flatMap bytes).length - tailBytes)
  rw [hback] at htail
  subst htail
  have hmid : ∃ mid, before = front ++ mid := by
    have hlengths := congrArg (fun ds => (ds.flatMap bytes).length) hsplit'
    have hboth := hsplit.symm.trans hsplit'
    rcases append_eq_append_iff.mp hboth with ⟨mid, hmid, -⟩ | ⟨more, hmore, -⟩
    · exact ⟨mid, hmid⟩
    refine ⟨[], ?_⟩
    rw [hmore, flatMap_append, length_append] at hwithin
    simp only [flatMap_append, length_append] at hlengths
    have hnone : (more.flatMap bytes).length = 0 := by omega
    cases more with
    | nil => rw [hmore, append_nil, append_nil]
    | cons c more =>
      have hc : IsScalar c := hcs c (by rw [hsplit, hmore]; simp)
      rw [flatMap_cons, length_append] at hnone
      exact absurd (length_eq_zero_iff.mp (by omega)) (bytes_ne_nil hc)
  obtain ⟨mid, rfl⟩ := hmid
  have hfront : ∀ c ∈ front, IsScalar c :=
    fun c hc => hcs c (by rw [hsplit]; exact mem_append_left _ hc)
  have hend : ∀ c ∈ back, IsScalar c :=
    fun c hc => hcs c (by rw [hsplit']; exact mem_append_right _ hc)
  have hbytes : (cs.flatMap bytes).length = (front.flatMap bytes).length +
      (mid.flatMap bytes).length + (back.flatMap bytes).length := by
    rw [hsplit', flatMap_append, flatMap_append, length_append, length_append]
  refine ⟨front, mid, back, hsplit', ?_, ?_, fun _ => hwithin, hlongest⟩
  · rw [decode_encoded hfront, decode_encoded hend]
    simp only [flatMap_append]
  rw [if_neg (by omega)]
  simp only
  congr 1
  omega

end

/-! ## Every stream -/

/-- How many bytes an omission counts. -/
def Omitted.count : Omitted → Nat
  | .exact count => count
  | _ => 0

theorem Reference.truncated_iff {headBytes tailBytes : Nat} {stream : List UInt8}
    {result : RetainedText} (h : Reference headBytes tailBytes stream result) :
    result.truncated = true ↔ headBytes + tailBytes < stream.length := by
  unfold Reference at h
  split at h
  · rw [h]
    simp only [Bool.false_eq_true, false_iff]
    omega
  · obtain ⟨head, tail, -, -, rfl⟩ := h
    simp only [true_iff]
    omega

theorem Keeps.omitted_count {headBytes : Nat} {cs front mid back : List Nat}
    {result : RetainedText} (h : Keeps headBytes cs front mid back result) :
    result.omittedBytes.count = (mid.flatMap bytes).length := by
  rw [h.omitted]
  split
  · rename_i hzero
    exact hzero.symm
  · rfl

section
variable {cs : List Nat} (hcs : ∀ c ∈ cs, IsScalar c) {headBytes : Nat} {front mid back : List Nat}
  {result : RetainedText} (h : Keeps headBytes cs front mid back result)
include hcs h

theorem Keeps.mem_kept : ∀ c ∈ unmarked front ++ unmarked back, c ∈ cs := by
  intro c hc
  rw [h.split]
  rcases mem_append.mp hc with hc | hc
  · exact mem_append_left _ (mem_append_left _ (unmarked_subset _ c hc))
  · exact mem_append_right _ (unmarked_subset _ c hc)

/-- A valid stream's own replacement characters are the only ones. -/
theorem Keeps.replacement {u : UInt16} (hu : u ∈ result.text.units)
    (hreplaced : u.toNat = replacement) : replacement ∈ cs := by
  rw [h.text] at hu
  obtain ⟨c, hc, hu⟩ := mem_flatMap.mp hu
  have hmem := h.mem_kept hcs c hc
  rwa [← eq_replacement_of_mem_units (hcs c hmem) hu hreplaced]

/-- Without byte order marks, the bytes of the text and the omitted ones are the stream's. -/
theorem Keeps.byteLength (hmark : 0xFEFF ∉ cs) :
    result.text.byteLength + result.omittedBytes.count = (cs.flatMap bytes).length := by
  have hfront : 0xFEFF ∉ front := fun hmem => hmark (by rw [h.split]; simp [hmem])
  have hback : 0xFEFF ∉ back := fun hmem => hmark (by rw [h.split]; simp [hmem])
  have hkept : ∀ c ∈ front ++ back, IsScalar c := by
    have hall := h.mem_kept hcs
    rw [unmarked_of_not_mem hfront, unmarked_of_not_mem hback] at hall
    exact fun c hc => hcs c (hall c hc)
  rw [h.omitted_count, h.text, unmarked_of_not_mem hfront, unmarked_of_not_mem hback,
    JsString.byteLength, JsString.utf8, points_flatMap_units hkept, h.split]
  simp only [flatMap_append, length_append]
  omega

end

namespace TextRetainer

/-- The retainer after every chunk was pushed gives the reference over the whole stream. -/
theorem finish_pushAll (strategy : TextRetentionStrategy) (chunks : List Chunk) :
    Reference strategy.budgets.1 strategy.budgets.2 (chunks.flatMap Chunk.encode)
      ((new strategy).pushAll chunks).2.finish := by
  have hholds := ((holds_new strategy).pushAll chunks).finish
  rwa [(pushAll_caps _ chunks).1, (pushAll_caps _ chunks).2, (new_caps strategy).1,
    (new_caps strategy).2] at hholds

theorem push_truncated (strategy : TextRetentionStrategy) (front : List Chunk) (chunk : Chunk) :
    ((((new strategy).pushAll front).2.push chunk).1.truncated = true ↔
      strategy.budgets.1 + strategy.budgets.2 <
        ((front ++ [chunk]).flatMap Chunk.encode).length) := by
  have htotal := ((holds_new strategy).pushAll front).total
  rw [nil_append] at htotal
  have hcaps := pushAll_caps (new strategy) front
  rw [TextRetainer.push, decide_eq_true_eq, omittedAt_pos, hcaps.1, hcaps.2, (new_caps strategy).1,
    (new_caps strategy).2, htotal, flatMap_append, length_append, flatMap_singleton]

/-- However a stream is cut into chunks, the retainer gives what its two windows over the whole
stream give; of valid UTF-8 it keeps whole code points, and it counts the bytes of the others. -/
theorem finish_reference (strategy : TextRetentionStrategy) (chunks : List Chunk) :
    Reference strategy.budgets.1 strategy.budgets.2 (chunks.flatMap Chunk.encode)
        ((new strategy).pushAll chunks).2.finish
      ∧ (∀ cs : List Nat, (∀ c ∈ cs, IsScalar c) →
          chunks.flatMap Chunk.encode = cs.flatMap bytes →
            (∃ front mid back, Keeps strategy.budgets.1 cs front mid back
                ((new strategy).pushAll chunks).2.finish)
              ∧ (∀ u ∈ ((new strategy).pushAll chunks).2.finish.text.units,
                  u.toNat = replacement → replacement ∈ cs)
              ∧ (0xFEFF ∉ cs →
                  ((new strategy).pushAll chunks).2.finish.text.byteLength +
                      ((new strategy).pushAll chunks).2.finish.omittedBytes.count =
                    (chunks.flatMap Chunk.encode).length))
      ∧ (∀ front chunk back, chunks = front ++ chunk :: back →
          ((new strategy).pushAll chunks).1[front.length]?.map (·.truncated) =
              some ((new strategy).pushAll (front ++ [chunk])).2.finish.truncated
            ∧ (((new strategy).pushAll (front ++ [chunk])).2.finish.truncated = true ↔
                strategy.budgets.1 + strategy.budgets.2 <
                  ((front ++ [chunk]).flatMap Chunk.encode).length)) := by
  have hreference := finish_pushAll strategy chunks
  refine ⟨hreference, ?_, ?_⟩
  · intro cs hcs hstream
    rw [hstream] at hreference
    obtain ⟨front, mid, back, hkeeps⟩ := hreference.keeps hcs
    refine ⟨⟨front, mid, back, hkeeps⟩, fun u hu => hkeeps.replacement hcs hu, fun hmark => ?_⟩
    rw [hstream]
    exact hkeeps.byteLength hcs hmark
  · rintro front chunk back rfl
    have hiff := (finish_pushAll strategy (front ++ [chunk])).truncated_iff
    refine ⟨?_, hiff⟩
    have hdecision : ((new strategy).pushAll (front ++ chunk :: back)).1[front.length]? =
        some (((new strategy).pushAll front).2.push chunk).1 := by
      have hlength := length_pushAll (new strategy) front
      rw [pushAll_append, getElem?_append_right (by omega), hlength, Nat.sub_self]
      rfl
    rw [hdecision, Option.map_some, Option.some_inj, Bool.eq_iff_iff, push_truncated, hiff]

/-- A stream's own replacement character, a byte order mark, and a window that ends in two lead
bytes. -/
theorem finish_beyond_reference :
    ¬ (∀ (strategy : TextRetentionStrategy) (chunks : List Chunk) (cs : List Nat),
        (∀ c ∈ cs, IsScalar c) → chunks.flatMap Chunk.encode = cs.flatMap bytes →
          ∀ u ∈ ((new strategy).pushAll chunks).2.finish.text.units, u.toNat ≠ replacement)
      ∧ ¬ (∀ (strategy : TextRetentionStrategy) (chunks : List Chunk) (cs : List Nat),
          (∀ c ∈ cs, IsScalar c) → chunks.flatMap Chunk.encode = cs.flatMap bytes →
            ((new strategy).pushAll chunks).2.finish.text.byteLength +
                ((new strategy).pushAll chunks).2.finish.omittedBytes.count =
              (chunks.flatMap Chunk.encode).length)
      ∧ ¬ (∀ (maxBytes : Nat) (chunks : List Chunk) (head : List UInt8),
          maxBytes < (chunks.flatMap Chunk.encode).length →
          head <+: (chunks.flatMap Chunk.encode).take maxBytes →
          (∀ front part, head = front ++ part → ¬ IsPartial part) →
          (∀ more, more <+: (chunks.flatMap Chunk.encode).take maxBytes →
            (∀ front part, more = front ++ part → ¬ IsPartial part) → more <+: head) →
          ((new (.head maxBytes)).pushAll chunks).2.finish.text = decode head) := by
  refine ⟨fun h => ?_, fun h => ?_, fun h => ?_⟩
  · have hall := h (.head 10) [.bytes [0xEF, 0xBF, 0xBD]] [replacement] (by decide) (by decide)
    exact hall 0xFFFD (by decide +kernel) (by decide)
  · have hall := h (.head 10) [.bytes [0xEF, 0xBB, 0xBF, 0x41]] [0xFEFF, 0x41] (by decide)
      (by decide)
    exact absurd hall (by decide +kernel)
  have hlone : IsPartial [0xE2] := ⟨0xE2, [], rfl, by decide, by simp, by decide⟩
  have hall := h 2 [.bytes [0xE2, 0xE2, 0x41]] [] (by decide) List.nil_prefix
    (by simp [IsPartial]) ?_
  · exact absurd hall (by decide +kernel)
  intro more hmore hwhole
  have hcases : more = [] ∨ more = [0xE2] ∨ more = [0xE2, 0xE2] := by
    have hwindow : more <+: [0xE2, 0xE2] := hmore
    rw [prefix_cons_iff] at hwindow
    rcases hwindow with rfl | ⟨rest, rfl, hrest⟩
    · exact .inl rfl
    rw [prefix_cons_iff] at hrest
    rcases hrest with rfl | ⟨rest, rfl, hrest⟩
    · exact .inr (.inl rfl)
    · exact .inr (.inr (by rw [prefix_nil.mp hrest]))
  rcases hcases with rfl | rfl | rfl
  · exact prefix_rfl
  · exact absurd hlone (hwhole [] [0xE2] rfl)
  · exact absurd hlone (hwhole [0xE2] [0xE2] rfl)

end TextRetainer

end Retention

end Harness
