-- SUMMARY: File name segments of `session-persistence-jsonl/src/format.ts`: every string has its own, and each is safe.
import Harness.Json.RoundTrip
import Harness.Json.Utf8

/-!
# Path segments

A safe code unit stands for itself, any other one is a tilde and four hexadecimal digits. A segment
reads back to the string that it encodes.
-/

namespace Harness

open List

/-! ## Encoding -/

/-- One upper-case hexadecimal digit. -/
def upperHexDigit (d : Nat) : UInt16 :=
  if d < 10 then UInt16.ofNat (0x30 + d) else UInt16.ofNat (0x41 + (d - 10))

/-- `code.toString(16).toUpperCase().padStart(4, '0')`. -/
def paddedHex (code : UInt16) : Text :=
  [upperHexDigit (code.toNat / 4096), upperHexDigit (code.toNat / 256 % 16),
    upperHexDigit (code.toNat / 16 % 16), upperHexDigit (code.toNat % 16)]

/-- `/^[A-Za-z0-9._-]$/` on one unit. -/
def isLiteralUnit (u : UInt16) : Bool :=
  let n := u.toNat
  (0x41 ≤ n && n ≤ 0x5A) || (0x61 ≤ n && n ≤ 0x7A) || (0x30 ≤ n && n ≤ 0x39) ||
    u = unit '.' || u = unit '_' || u = unit '-'

def encodeUnit (u : UInt16) : Text :=
  if u ≠ unit '~' && isLiteralUnit u then [u] else unit '~' :: paddedHex u

/-- The segment of a string; the empty string throws. -/
def encodeSegment (raw : JsString) : Option JsString :=
  if raw.units.length = 0 then none
  else if raw = "." then some "~002E"
  else if raw = ".." then some "~002E~002E"
  else some ⟨raw.units.flatMap encodeUnit⟩

/-! ## Decoding -/

/-- The string that a segment stands for. -/
def decodeUnits : Text → Option Text
  | [] => some []
  | u :: rest =>
    if u = unit '~' then
      match rest with
      | a :: b :: c :: d :: rest =>
        (hexUnit a b c d).bind fun code => (decodeUnits rest).map (code :: ·)
      | _ => none
    else (decodeUnits rest).map (u :: ·)

theorem hexValue_upperHexDigit {d : Nat} (h : d < 16) : hexValue (upperHexDigit d) = some d := by
  have hall : ∀ d < 16, hexValue (upperHexDigit d) = some d := by decide
  exact hall d h

theorem decodeUnits_encodeUnit (u : UInt16) (rest : Text) :
    decodeUnits (encodeUnit u ++ rest) = (decodeUnits rest).map (u :: ·) := by
  unfold encodeUnit
  split
  · next hliteral =>
    have hne : u ≠ unit '~' := by simpa using (Bool.and_eq_true_iff.mp hliteral).1
    rw [singleton_append, decodeUnits.eq_def]
    simp only [if_neg hne]
  have hu : u.toNat < 65536 := u.toNat_lt
  have hcode : u.toNat / 4096 * 4096 + u.toNat / 256 % 16 * 256 + u.toNat / 16 % 16 * 16 +
      u.toNat % 16 = u.toNat := by omega
  have h₁ := hexValue_upperHexDigit (d := u.toNat / 4096) (by omega)
  have h₂ := hexValue_upperHexDigit (d := u.toNat / 256 % 16) (by omega)
  have h₃ := hexValue_upperHexDigit (d := u.toNat / 16 % 16) (by omega)
  have h₄ := hexValue_upperHexDigit (d := u.toNat % 16) (by omega)
  rw [paddedHex, cons_append, decodeUnits.eq_def]
  simp only [cons_append, nil_append, if_true, hexUnit, h₁, h₂, h₃, h₄, hcode,
    UInt16.ofNat_toNat, Option.bind_some]

theorem decodeUnits_flatMap (us : Text) : decodeUnits (us.flatMap encodeUnit) = some us := by
  induction us with
  | nil => rfl
  | cons u us ih => rw [flatMap_cons, decodeUnits_encodeUnit, ih, Option.map_some]

theorem decodeUnits_encodeSegment {raw out : JsString} (h : encodeSegment raw = some out) :
    decodeUnits out.units = some raw.units := by
  unfold encodeSegment at h
  split_ifs at h with hempty hdot hdots
  · cases h
    rw [hdot]
    decide +kernel
  · cases h
    rw [hdots]
    decide +kernel
  · cases h
    exact decodeUnits_flatMap raw.units

/-! ## Safety -/

/-- A file name of its own in any directory: no separator, no way up, only safe characters. -/
structure IsSafeSegment (out : JsString) : Prop where
  ne_nil : out.units ≠ []
  ne_dot : out ≠ "."
  ne_dots : out ≠ ".."
  safe : ∀ u ∈ out.units, isLiteralUnit u = true ∨ u = unit '~'
  separators : unit '/' ∉ out.units ∧ unit '\\' ∉ out.units

theorem isLiteralUnit_paddedHex {u v : UInt16} (h : v ∈ paddedHex u) : isLiteralUnit v = true := by
  have hdigit : ∀ d < 16, isLiteralUnit (upperHexDigit d) = true := by decide
  have hu : u.toNat < 65536 := u.toNat_lt
  simp only [paddedHex, mem_cons, not_mem_nil, or_false] at h
  rcases h with rfl | rfl | rfl | rfl <;> exact hdigit _ (by omega)

theorem encodeUnit_safe {u v : UInt16} (h : v ∈ encodeUnit u) :
    isLiteralUnit v = true ∨ v = unit '~' := by
  unfold encodeUnit at h
  split at h
  · next hliteral =>
    rw [mem_singleton.mp h]
    exact .inl (Bool.and_eq_true_iff.mp hliteral).2
  · rcases mem_cons.mp h with rfl | h
    · exact .inr rfl
    · exact .inl (isLiteralUnit_paddedHex h)

theorem encodeSegment_safe {raw out : JsString} (h : encodeSegment raw = some out) :
    ∀ u ∈ out.units, isLiteralUnit u = true ∨ u = unit '~' := by
  unfold encodeSegment at h
  split_ifs at h
  · cases h
    exact forall_iff_forall_mem.mp (by decide)
  · cases h
    exact forall_iff_forall_mem.mp (by decide)
  · cases h
    intro u hmem
    obtain ⟨v, -, hmem⟩ := mem_flatMap.mp hmem
    exact encodeUnit_safe hmem

/-- A segment that spells a string literally is the segment of that string. -/
theorem encodeSegment_ne {raw out : JsString} {us : Text} (h : encodeSegment raw = some out)
    (hdecode : decodeUnits us = some us) (hother : encodeSegment ⟨us⟩ ≠ some ⟨us⟩) :
    out ≠ ⟨us⟩ := by
  rintro rfl
  have hraw : raw = ⟨us⟩ :=
    congrArg JsString.mk (Option.some.inj ((decodeUnits_encodeSegment h).symm.trans hdecode))
  rw [hraw] at h
  exact hother h

/-- Distinct strings get distinct segments, and only the empty string gets none. -/
theorem encodeSegment_injective :
    Function.Injective encodeSegment ∧ (∀ raw, encodeSegment raw = none ↔ raw = "") ∧
      ∀ raw out, encodeSegment raw = some out → IsSafeSegment out := by
  have hnone : ∀ raw, encodeSegment raw = none ↔ raw = "" := by
    intro raw
    constructor
    · intro h
      unfold encodeSegment at h
      split_ifs at h with hempty
      exact congrArg JsString.mk (length_eq_zero_iff.mp hempty)
    · rintro rfl
      rfl
  refine ⟨fun raw raw' h => ?_, hnone, fun raw out h => ?_⟩
  · cases hout : encodeSegment raw with
    | none => rw [(hnone raw).mp hout, (hnone raw').mp (h ▸ hout)]
    | some out =>
      have hraw := decodeUnits_encodeSegment hout
      rw [decodeUnits_encodeSegment (h ▸ hout)] at hraw
      exact congrArg JsString.mk (Option.some.inj hraw).symm
  · have hsafe := encodeSegment_safe h
    exact {
      ne_nil := fun heq =>
        @encodeSegment_ne raw out [] h rfl (by decide +kernel) (congrArg JsString.mk heq)
      ne_dot := @encodeSegment_ne raw out [unit '.'] h rfl (by decide +kernel)
      ne_dots := @encodeSegment_ne raw out [unit '.', unit '.'] h rfl (by decide +kernel)
      safe := hsafe
      separators := ⟨fun hmem => absurd (hsafe _ hmem) (by decide),
        fun hmem => absurd (hsafe _ hmem) (by decide)⟩ }

end Harness
