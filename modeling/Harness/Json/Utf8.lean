-- SUMMARY: Strings as the bytes of a file.
import Harness.Json.Value
import Harness.Lib.Unicode

namespace Harness

open List
namespace JsString

variable (s : JsString)

/-- `Buffer.from(text, 'utf8')`. -/
def utf8 : List UInt8 := (Unicode.points s.units).flatMap Unicode.bytes

/-- `buffer.toString('utf8')`. -/
def ofUtf8 (bytes : List UInt8) : JsString := ⟨(Unicode.decode bytes).flatMap Unicode.units⟩

/-- `Buffer.byteLength(text, 'utf8')`. -/
def byteLength : Nat := s.utf8.length

/-! ## White space -/

/-- What `trim` removes: white space and line terminators. -/
def isWhiteSpace (u : UInt16) : Bool :=
  let n := u.toNat
  (9 ≤ n && n ≤ 13) || n = 0x20 || n = 0xA0 || n = 0x1680 || (0x2000 ≤ n && n ≤ 0x200A) ||
    n = 0x2028 || n = 0x2029 || n = 0x202F || n = 0x205F || n = 0x3000 || n = 0xFEFF

def trimStart : JsString := ⟨s.units.dropWhile isWhiteSpace⟩

def trimEnd : JsString := ⟨(s.units.reverse.dropWhile isWhiteSpace).reverse⟩

def trim : JsString := s.trimStart.trimEnd

/-! ## Round trips -/

/-- A text is read back repaired, and the ASCII bytes after it as they are. -/
theorem ofUtf8_utf8_append {tail : List UInt8} (htail : ∀ b ∈ tail, b.toNat < 0x80) :
    ofUtf8 (s.utf8 ++ tail) = ⟨Unicode.repaired s.units ++ tail.map UInt8.toUInt16⟩ := by
  have hunits : (tail.map UInt8.toNat).flatMap Unicode.units = tail.map UInt8.toUInt16 := by
    rw [flatMap_map, map_eq_flatMap]
    refine flatMap_congr fun b hb => ?_
    have hlt := htail b hb
    rw [Unicode.units, if_pos (by omega)]
    exact congrArg (fun v => [v]) (UInt16.ofNat_uInt8ToNat b)
  rw [ofUtf8, utf8, Unicode.decode_flatMap_bytes_append fun c hc => Unicode.isScalar_of_mem_points hc,
    Unicode.decode_ascii htail, flatMap_append, hunits, Unicode.repaired]

/-- The last unit, when there is one, is no white space. -/
def EndsInText (us : List UInt16) : Prop := ∀ u ∈ us.getLast?, isWhiteSpace u = false

theorem endsInText_trimEnd : EndsInText s.trimEnd.units := by
  intro u hu
  have hhead : (s.units.reverse.dropWhile isWhiteSpace).head? = some u := by
    rw [← getLast?_reverse]
    exact hu
  have hnot := head?_dropWhile_not isWhiteSpace s.units.reverse
  rw [hhead] at hnot
  simpa using hnot

theorem trimEnd_append {us ws : List UInt16} (hne : us ≠ []) (hus : EndsInText us)
    (hws : ∀ u ∈ ws, isWhiteSpace u = true) : trimEnd ⟨us ++ ws⟩ = ⟨us⟩ := by
  have hlast : isWhiteSpace (us.getLast hne) = false := hus _ (getLast?_eq_getLast_of_ne_nil hne)
  have hrev : us.reverse = us.getLast hne :: us.dropLast.reverse := by
    rw [← reverse_concat', dropLast_append_getLast]
  have hstop : us.reverse.dropWhile isWhiteSpace = us.reverse := by
    rw [hrev, dropWhile_cons_of_neg (by simp [hlast])]
  rw [trimEnd, reverse_append, dropWhile_append_of_pos fun u hu =>
    hws u (mem_reverse.mp hu), hstop, reverse_reverse]

/-- A text that is encoded and decoded again ends where it did. -/
theorem EndsInText.repaired {us : List UInt16} (hus : EndsInText us) :
    EndsInText (Unicode.repaired us) := by
  have hrel := forall₂_reverse_iff.mpr (Unicode.repaired_forall₂ us)
  intro v hv
  rw [← head?_reverse] at hv
  cases hrev : us.reverse with
  | nil =>
    rw [hrev, forall₂_nil_left_iff] at hrel
    simp [hrel] at hv
  | cons u rest =>
    rw [hrev] at hrel
    obtain ⟨v', rest', hv', -, heq⟩ := forall₂_cons_left_iff.mp hrel
    rw [heq, head?_cons, Option.mem_some_iff] at hv
    subst hv
    rcases hv' with rfl | ⟨-, rfl⟩
    · refine hus v' ?_
      rw [← head?_reverse, hrev]
      rfl
    · decide

end JsString
end Harness
