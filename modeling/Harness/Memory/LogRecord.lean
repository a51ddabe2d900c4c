-- SUMMARY: One record of the memory log: how it is written, and what the readers of the log make of it.
import Harness.Memory.Store

/-!
# Reading the log

A record is sliced as bytes, decoded, freed of its padding and split at its first two spaces.
-/

namespace Harness

/-- One decoded log record. An id that is no run of digits is left out. -/
structure MemoryLogEntry where
  id : Option Nat
  date : JsString
  text : JsString
  deriving DecidableEq

/-- `line.indexOf(' ')`. -/
def indexOfSpace (units : List UInt16) : Option Nat :=
  if 0x20 ∈ units then some (units.idxOf 0x20) else none

/-- `Number` of what should be a run of digits. -/
def idNumber (units : List UInt16) : Option Nat :=
  if units.all isDigit then some (digitsValue units) else none

/-- Decode one log line into id, date and text. Without a space `slice` counts from the end. -/
def parseLogLine (line : JsString) : MemoryLogEntry :=
  match indexOfSpace line.units with
  | none => {
    id := idNumber (line.units.dropLast.drop 1), date := ⟨line.units.dropLast⟩, text := line }
  | some sp1 =>
    let id := idNumber ((line.units.take sp1).drop 1)
    let rest := line.units.drop (sp1 + 1)
    match indexOfSpace rest with
    | none => { id, date := ⟨rest.dropLast⟩, text := line }
    | some sp2 => { id, date := ⟨rest.take sp2⟩, text := ⟨rest.drop (sp2 + 1)⟩ }

def decodeLogRecords (buf : List UInt8) : List MemoryLogEntry :=
  (Records.records LOG_REC buf).map fun record => parseLogLine (JsString.ofUtf8 record).trimEnd

/-- How many bytes one read of a scan asks for. -/
def SCAN_BYTES : Nat := LOG_REC * 4096

theorem scanBytes_pos : 0 < SCAN_BYTES := by decide

/-- The reads of `logScan`, from what is left of the file: what they yield, and how they end. -/
def scanFrom (file : List UInt8) : List MemoryLogEntry × Option String :=
  if hempty : file = [] then ([], none)
  else
    let buf := file.take SCAN_BYTES
    let entries := decodeLogRecords (buf.take (buf.length - buf.length % LOG_REC))
    if buf.length % LOG_REC ≠ 0 then
      (entries, some "LOG.txt is misaligned: a partial record survived repair.")
    else
      let rest := scanFrom (file.drop SCAN_BYTES)
      (entries ++ rest.1, rest.2)
  termination_by file.length
  decreasing_by
    have hpos := List.length_pos_iff.mpr hempty
    have hbytes := scanBytes_pos
    rw [List.length_drop]
    omega

namespace MemoryStore

variable (s : MemoryStore)

/-- Memories `[lo, hi)` in one seeked read. -/
def logSlice (lo hi : Nat) : List MemoryLogEntry :=
  decodeLogRecords ((s.log.drop (lo * LOG_REC)).take ((hi - lo) * LOG_REC))

/-- One memory by id. -/
def logGet (i : Nat) : Except String MemoryLogEntry :=
  match (s.logSlice i (i + 1)).head? with
  | some entry => .ok entry
  | none => .error s!"Memory #{i} is beyond the log."

def logScan : List MemoryLogEntry × Option String := scanFrom s.log

end MemoryStore

end Harness

/-!
# Log records

A record is one line, its id and its date in ASCII before the text. Of the text the readers see
what an encoding and a decoding leave.
-/

namespace Harness

open List
open JsString (ofUtf8 byteLength utf8 ofString)

/-! ## ASCII -/

theorem units_ofString_ascii {s : String} (hs : ∀ c ∈ s.toList, c.toNat < 0x80) :
    (ofString s).units = s.toList.map fun c => c.toNat.toUInt16 := by
  rw [ofString, map_eq_flatMap]
  refine flatMap_congr fun c hc => ?_
  have hlt := hs c hc
  rw [utf16, if_pos (by omega)]

theorem toNat_toUInt16_of_ascii {c : Char} (hc : c.toNat < 0x80) :
    c.toNat.toUInt16.toNat = c.toNat := by
  rw [Nat.toUInt16, UInt16.toNat_ofNat']
  omega

theorem toNat_of_isDigit {c : Char} (hc : c.isDigit = true) : 48 ≤ c.toNat ∧ c.toNat ≤ 57 := by
  rw [Char.isDigit, Bool.and_eq_true, decide_eq_true_eq, decide_eq_true_eq] at hc
  exact ⟨hc.1, hc.2⟩

/-- A text of printable ASCII. -/
def isGraphic (s : String) : Bool := s.toList.all fun c => 0x20 < c.toNat && c.toNat < 0x80

theorem isGraphic_iff {s : String} :
    isGraphic s = true ↔ ∀ c ∈ s.toList, 0x20 < c.toNat ∧ c.toNat < 0x80 := by
  simp [isGraphic]

theorem mem_units_of_isGraphic {s : String} (hs : isGraphic s = true) {u : UInt16}
    (hu : u ∈ (ofString s).units) : 0x20 < u.toNat ∧ u.toNat < 0x80 := by
  have hgraphic := isGraphic_iff.mp hs
  rw [units_ofString_ascii fun c hc => (hgraphic c hc).2] at hu
  obtain ⟨c, hc, rfl⟩ := List.mem_map.mp hu
  rw [toNat_toUInt16_of_ascii (hgraphic c hc).2]
  exact hgraphic c hc

/-! ## Ids -/

theorem digit_of_mem_id {id : Nat} {c : Char} (hc : c ∈ (toString id).toList) :
    48 ≤ c.toNat ∧ c.toNat ≤ 57 := by
  rw [Nat.toString_eq_repr, Nat.toList_repr] at hc
  exact toNat_of_isDigit (Nat.isDigit_of_mem_toDigits (by decide) (by decide) hc)

theorem isGraphic_id (id : Nat) : isGraphic (toString id) = true :=
  isGraphic_iff.mpr fun _ hc => ⟨by have := digit_of_mem_id hc; omega, by have := digit_of_mem_id hc; omega⟩

theorem digitsValue_map {cs : List Char} (hcs : ∀ c ∈ cs, 48 ≤ c.toNat ∧ c.toNat ≤ 57) (n : Nat) :
    (cs.map fun c => c.toNat.toUInt16).foldl (fun n u => n * 10 + (u.toNat - 48)) n =
      Nat.ofDigitChars 10 cs n := by
  induction cs generalizing n with
  | nil => rw [map_nil, foldl_nil, Nat.ofDigitChars_nil]
  | cons c cs ih =>
    have hc := hcs c mem_cons_self
    rw [map_cons, foldl_cons, ih fun d hd => hcs d (mem_cons_of_mem _ hd),
      Nat.ofDigitChars_cons, toNat_toUInt16_of_ascii (by omega), Nat.mul_comm]
    rfl

/-- The id of a record is read back. -/
theorem idNumber_id (id : Nat) : idNumber (ofString (toString id)).units = some id := by
  have hunits := units_ofString_ascii fun c hc => ((isGraphic_iff.mp (isGraphic_id id)) c hc).2
  have hall : ((toString id).toList.map fun c => c.toNat.toUInt16).all isDigit = true := by
    rw [List.all_eq_true]
    rintro u hu
    obtain ⟨c, hc, rfl⟩ := List.mem_map.mp hu
    have hdigit := digit_of_mem_id hc
    simp only [isDigit, toNat_toUInt16_of_ascii (c := c) (by omega), Bool.and_eq_true,
      decide_eq_true_eq]
    exact hdigit
  rw [idNumber, hunits, if_pos hall, digitsValue, digitsValue_map fun c hc => digit_of_mem_id hc,
    Nat.toString_eq_repr, Nat.toList_repr, Nat.ofDigitChars_ten_toDigits]

theorem length_id_le {id k : Nat} (hk : 0 < k) (hid : id < 10 ^ k) :
    (ofString (toString id)).units.length ≤ k := by
  rw [units_ofString_ascii fun c hc => ((isGraphic_iff.mp (isGraphic_id id)) c hc).2, length_map,
    Nat.toString_eq_repr, Nat.toList_repr]
  exact (Nat.length_toDigits_le_iff (by decide) hk).mpr hid

/-! ## Lines -/

/-- What stands before the text: the id and the date. -/
theorem units_head (id : Nat) (date : String) :
    (ofString s!"#{id} {date} ").units =
      0x23 :: ((ofString (toString id)).units ++
        0x20 :: ((ofString date).units ++ [0x20])) := by
  simp only [ofString, String.toList_append, flatMap_append]
  have hhash : (toString "#").toList.flatMap utf16 = [0x23] := by decide
  have hspace : (toString " ").toList.flatMap utf16 = [0x20] := by decide
  rw [hhash, hspace, append_assoc, append_assoc, append_assoc]
  rfl

theorem indexOfSpace_append {us : List UInt16} (hus : 0x20 ∉ us) (vs : List UInt16) :
    indexOfSpace (us ++ 0x20 :: vs) = some us.length := by
  rw [indexOfSpace, if_pos (mem_append_right _ mem_cons_self), idxOf_append,
    if_neg hus, idxOf_cons_self, Nat.zero_add]

/-- A line is split at its first two spaces. -/
theorem parseLogLine_line {id date text : List UInt16} (hid : 0x20 ∉ id) (hdate : 0x20 ∉ date) :
    parseLogLine ⟨0x23 :: (id ++ 0x20 :: (date ++ 0x20 :: text))⟩ =
      { id := idNumber id, date := ⟨date⟩, text := ⟨text⟩ } := by
  have hsp1 : indexOfSpace (0x23 :: (id ++ 0x20 :: (date ++ 0x20 :: text))) =
      some (id.length + 1) := by
    have hnot : (0x20 : UInt16) ∉ 0x23 :: id := by simp [hid]
    have h := indexOfSpace_append hnot (date ++ 0x20 :: text)
    rwa [cons_append, length_cons] at h
  have hrest : (0x23 :: (id ++ 0x20 :: (date ++ 0x20 :: text))).drop (id.length + 1 + 1) =
      date ++ 0x20 :: text := by
    rw [drop_succ_cons, drop_append, drop_of_length_le (Nat.le_succ _)]
    simp
  rw [parseLogLine]
  simp only [hsp1, hrest, indexOfSpace_append hdate]
  simp

/-! ## Records -/

def recordLine (id : Nat) (item : String × JsString) : JsString :=
  ⟨(ofString s!"#{id} {item.1} ").units ++ item.2.units⟩

/-- The bytes of a record that fits. -/
def recordOf (id : Nat) (item : String × JsString) : List UInt8 :=
  (recordLine id item).utf8 ++
    List.replicate (LOG_REC - (recordLine id item).byteLength - 1) 0x20 ++ [0x0A]

theorem pad_recordLine {id : Nat} {item : String × JsString}
    (hfits : (recordLine id item).byteLength < LOG_REC) :
    pad (recordLine id item) LOG_REC = .ok (recordOf id item) := by
  have hle : ¬ LOG_REC - 1 < (recordLine id item).utf8.length :=
    Nat.not_lt.mpr (Nat.le_sub_one_of_lt hfits)
  rw [pad, if_neg hle]
  rfl

theorem length_recordOf {id : Nat} {item : String × JsString}
    (hfits : (recordLine id item).byteLength < LOG_REC) : (recordOf id item).length = LOG_REC :=
  length_pad (by decide) (pad_recordLine hfits)

section Item

variable {item : String × JsString} (hdate : isGraphic item.1 = true)
include hdate

theorem ascii_head (id : Nat) :
    ∀ u ∈ (ofString s!"#{id} {item.1} ").units, u.toNat < 0x80 := by
  rw [units_head]
  intro u hu
  have hid := @mem_units_of_isGraphic _ (isGraphic_id id) u
  have hday := @mem_units_of_isGraphic _ hdate u
  simp only [mem_cons, mem_append, not_mem_nil, or_false] at hu
  rcases hu with rfl | hu | rfl | hu | rfl
  · decide
  · exact (hid hu).2
  · decide
  · exact (hday hu).2
  · decide

theorem byteLength_recordLine (id : Nat) :
    (recordLine id item).byteLength = (ofString (toString id)).units.length +
      (ofString item.1).units.length + 3 + item.2.byteLength := by
  have hlength := Unicode.length_bytes_ascii_append (ascii_head hdate id) item.2.units
  rw [units_head] at hlength
  rw [byteLength, utf8, recordLine, units_head, hlength, byteLength,
    utf8]
  simp only [length_cons, length_append, length_nil]
  omega

/-- The readers get the id and the date of a record, and its text repaired. -/
theorem parseLogLine_recordOf (id : Nat) (hne : item.2.units ≠ [])
    (hends : JsString.EndsInText item.2.units) :
    parseLogLine (ofUtf8 (recordOf id item)).trimEnd =
      { id := some id
        date := ofString item.1
        text := ⟨Unicode.repaired item.2.units⟩ } := by
  let head := (ofString s!"#{id} {item.1} ").units
  let text := Unicode.repaired item.2.units
  let blank := List.replicate (LOG_REC - (recordLine id item).byteLength - 1) (0x20 : UInt8) ++ [0x0A]
  have htext : text ≠ [] := fun hnil => hne (by
    have hrel := Unicode.repaired_forall₂ item.2.units
    rwa [show Unicode.repaired item.2.units = [] from hnil, forall₂_nil_right_iff] at hrel)
  have hblank : ∀ b ∈ blank, b = 0x20 ∨ b = 0x0A := fun b hb => by
    rcases mem_append.mp hb with hb | hb
    · exact .inl (eq_of_mem_replicate hb)
    · exact .inr (mem_singleton.mp hb)
  have hread : ofUtf8 (recordOf id item) = ⟨(head ++ text) ++ blank.map UInt8.toUInt16⟩ := by
    rw [recordOf, append_assoc, JsString.ofUtf8_utf8_append, recordLine,
      Unicode.repaired_ascii_append (ascii_head hdate id)]
    · rfl
    · intro b hb
      rcases hblank b hb with rfl | rfl <;> decide
  have hlast : JsString.EndsInText (head ++ text) := by
    intro u hu
    refine JsString.EndsInText.repaired hends u ?_
    rwa [getLast?_append_of_ne_nil _ htext] at hu
  have htrim : (ofUtf8 (recordOf id item)).trimEnd = ⟨head ++ text⟩ := by
    rw [hread]
    refine JsString.trimEnd_append (by simp [htext]) hlast fun u hu => ?_
    obtain ⟨b, hb, rfl⟩ := List.mem_map.mp hu
    rcases hblank b hb with rfl | rfl <;> decide
  have hspace : ∀ {s : String}, isGraphic s = true → 0x20 ∉ (ofString s).units :=
    fun hs hmem => absurd (mem_units_of_isGraphic hs hmem).1 (by decide)
  have hline : head ++ text = 0x23 :: ((ofString (toString id)).units ++
      0x20 :: ((ofString item.1).units ++ 0x20 :: text)) := by
    show (ofString s!"#{id} {item.1} ").units ++ text = _
    rw [units_head]
    simp
  rw [htrim, hline, parseLogLine_line (hspace (isGraphic_id id)) (hspace hdate), idNumber_id]

end Item

end Harness
