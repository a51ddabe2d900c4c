-- SUMMARY: The lines a JSONL log is written as and what they read back as; the SQLite row scan refuses the same logs and preserves the same prefix.
import Harness.Json.Lines
import Harness.Persistence.JsonlScan

namespace Harness

open List SessionLogScanner

/-! ## The header line -/

/-- What `validateSessionHeader` lets through. -/
structure SessionHeader.Valid (header : SessionHeader) : Prop where
  version : header.version = SESSION_FORMAT_VERSION
  createdAt : isCount (some (.num header.createdAt)) = true
  cwd : ∀ v, header.cwd = some v → ∃ s, v = .str s
  parentSession : ∀ v, header.parentSession = some v → ∃ s, v = .str s
  seedLength : ∀ v, header.seedLength = some v → ∃ n, v = .num n
  origin : ∀ v, header.origin = some v → v = .str "subagent"
  delegationDepth : ∀ n, header.delegationDepth = some n → isCount (some (.num n)) = true
  agentPreset : ∀ v, header.agentPreset = some v → ∃ s, v = .str s

/-- The header a file gives back: the depth is always spelled out. -/
def SessionHeader.stored (header : SessionHeader) : SessionHeader :=
  { header with delegationDepth := some (header.delegationDepth.getD (.int 0)) }

theorem Json.get?_append (key : JsString) (fields more : StoredFields) :
    Json.get? key (fields ++ more) = (Json.get? key fields).or (Json.get? key more) := by
  induction fields with
  | nil => rfl
  | cons field fields ih =>
    obtain ⟨k, v⟩ := field
    simp only [cons_append, Json.get?]
    split_ifs
    · rfl
    · exact ih

theorem get?_optionalField (key key' : JsString) (value : Option Json) :
    Json.get? key (optionalField key' value) = if key' = key then value else none := by
  cases value with
  | none => simp [optionalField, Json.get?]
  | some v => simp [optionalField, Json.get?]

theorem optionalField_keys (key : JsString) (value : Option Json) :
    ((optionalField key value).map Prod.fst).Sublist [key] := by
  cases value with
  | none => exact nil_sublist _
  | some v => exact List.Sublist.refl _

def headerKeys : List JsString :=
  ["type", "version", "id", "createdAt", "cwd", "parentSession", "seedLength", "origin",
    "delegationDepth", "agentPreset"]

theorem properFields_append {fields more : StoredFields} (h : Json.ProperFields fields)
    (hmore : Json.ProperFields more) : Json.ProperFields (fields ++ more) := by
  induction fields with
  | nil => exact hmore
  | cons field fields ih => exact ⟨h.1, ih h.2⟩

theorem properFields_optionalField {key : JsString} {value : Option Json}
    (h : ∀ v, value = some v → v.Proper) : Json.ProperFields (optionalField key value) := by
  cases value with
  | none => exact trivial
  | some v => exact ⟨h v rfl, trivial⟩

theorem toHeaderLine_proper {header : SessionHeader} (h : header.Valid) : (toHeaderLine header).Proper := by
  have htext : ∀ value : Option Json, (∀ v, value = some v → ∃ s, v = .str s) →
      ∀ v, value = some v → v.Proper := by
    intro value hvalue v hv
    obtain ⟨s, rfl⟩ := hvalue v hv
    exact trivial
  refine ⟨?_, ?_⟩
  · have hkeys : headerKeys.Nodup := by decide
    refine List.Nodup.sublist ?_ hkeys
    simp only [map_append]
    exact ((((((List.Sublist.refl _).append (optionalField_keys _ _)).append
      (optionalField_keys _ _)).append (optionalField_keys _ _)).append
        (optionalField_keys _ _)).append (List.Sublist.refl _)).append (optionalField_keys _ _)
  refine properFields_append (properFields_append (properFields_append (properFields_append
    (properFields_append (properFields_append ?_ ?_) ?_) ?_) ?_) ?_) ?_
  · exact ⟨trivial, trivial, trivial, trivial, trivial⟩
  · exact properFields_optionalField (htext _ h.cwd)
  · exact properFields_optionalField (htext _ h.parentSession)
  · refine properFields_optionalField fun v hv => ?_
    obtain ⟨n, rfl⟩ := h.seedLength v hv
    exact trivial
  · exact properFields_optionalField fun v hv => by
      rw [h.origin v hv]
      exact trivial
  · exact ⟨trivial, trivial⟩
  · exact properFields_optionalField (htext _ h.agentPreset)

/-- A header line reads back as its header. -/
theorem parseHeaderRecord_headerBytes {header : SessionHeader} (h : header.Valid) :
    parseHeaderRecord (JsString.utf8 ⟨(toHeaderLine header).stringify⟩ ++ [0x0A]) = .ok header.stored := by
  have hline := oneLine_stringify (toHeaderLine header)
  have hdepth : isCount (some (.num (header.delegationDepth.getD (.int 0)))) = true := by
    cases hd : header.delegationDepth with
    | none => rfl
    | some n => exact h.delegationDepth n hd
  unfold parseHeaderRecord
  rw [if_neg]
  · rw [dropLast_concat, OneLine.ofUtf8_utf8 hline, Json.parse_stringify (toHeaderLine_proper h)]
    have hversion : refuseForeignFormatVersion (toHeaderLine header) = .ok () := by
      have hget : (toHeaderLine header).member "version" = some (.num header.version) := rfl
      simp only [refuseForeignFormatVersion, hget, h.version, if_true]
    dsimp only
    rw [hversion]
    unfold toHeaderLine
    simp only [bind, Except.bind]
    unfold fromHeaderLine
    have horigin : isOrigin header.origin = true := by
      cases ho : header.origin with
      | none => rfl
      | some v =>
        rw [h.origin v ho]
        decide
    have hpreset : isOptionalText header.agentPreset = true := by
      cases hp : header.agentPreset with
      | none => rfl
      | some v =>
        obtain ⟨s, rfl⟩ := h.agentPreset v hp
        rfl
    simp only [Json.get?_append, get?_optionalField, Json.get?, Json.hasOwn]
    simp +decide only [if_true, if_false, Option.or_none, Option.none_or, h.createdAt,
      hdepth, horigin, hpreset, Bool.and_true, decide_true]
    rfl
  · rw [getLast?_concat, dropLast_concat]
    rintro (hne | hmem)
    · exact hne rfl
    · exact OneLine.utf8_clean hline hmem

/-- A header of a session with a parent. -/
def forkHeader : SessionHeader where
  version := .int 0
  id := "fork"
  createdAt := .int 5
  cwd := none
  parentSession := some (.str "root")
  seedLength := none
  origin := none
  delegationDepth := none
  agentPreset := none

theorem forkHeader_valid : forkHeader.Valid where
  version := rfl
  createdAt := by decide
  cwd := by rintro v ⟨⟩
  parentSession := by
    rintro v ⟨⟩
    exact ⟨_, rfl⟩
  seedLength := by rintro v ⟨⟩
  origin := by rintro v ⟨⟩
  delegationDepth := by rintro n ⟨⟩
  agentPreset := by rintro v ⟨⟩

/-! ## Rows -/

/-- The bytes of a stored row, without its line feed. -/
def rowBytes (row : Json) : List UInt8 := JsString.utf8 ⟨row.stringify⟩

theorem rowBytes_clean (row : Json) : (0x0A : UInt8) ∉ rowBytes row :=
  OneLine.utf8_clean (oneLine_stringify row)

theorem decodeLine_rowBytes (row : Json) : decodeLine (rowBytes row) = readRow row.stringify := by
  unfold decodeLine rowBytes
  rw [OneLine.ofUtf8_utf8 (oneLine_stringify row)]

end Harness

/-!
# Rows and lines

Both scanners are torn logs. A row and a line that hold the same event, or both hold
nothing that parses, take the same step in either.
-/

namespace Harness

/-- One event, up to the order of its properties. -/
def SameEvent (fields : StoredFields) (event : Json) : Prop :=
  ∃ fields' : StoredFields, event = .obj fields' ∧ fields'.Perm fields

/-- A row and a line with the same parse outcome. -/
inductive SameRow : EventRow → List UInt8 → Prop where
  | unparsable {row line e} : rowToEvent row = none →
      SessionLogScanner.decodeLine line = .error e → SameRow row line
  | event {row line fields event} : rowToEvent row = some fields →
      SessionLogScanner.decodeLine line = .ok [event] → SameEvent fields event → SameRow row line

/-- Both scans refuse, or both preserve the same events. -/
inductive SameScan : Except String ScannedRows → Except String SessionLogScan → Prop where
  | refused {e e'} : SameScan (.error e) (.error e')
  | accepted {rows scan} : List.Forall₂ SameEvent rows.preserved scan.events →
      SameScan (.ok rows) (.ok scan)

/-! ## Properties of an event -/

variable {fields : StoredFields}

theorem columnField_keys {key : JsString} {column : Option JsString}
    (h : columnField key column = some fields) : fields.map Prod.fst = [] ∨ fields.map Prod.fst = [key] := by
  cases column with
  | none =>
    cases h
    exact .inl rfl
  | some text =>
    obtain ⟨value, -, rfl⟩ := Option.map_eq_some_iff.mp h
    exact .inr rfl

variable {row : EventRow}

/-- The envelope a row is read into. -/
theorem rowToEvent_fields (h : rowToEvent row = some fields) :
    ((("type" : JsString), Json.str row.type) ∈ fields ∧
      (("seq" : JsString), Json.ofInt row.seq) ∈ fields) ∧ (fields.map Prod.fst).Nodup := by
  unfold rowToEvent at h
  split at h
  · next sources op data hsources hop hdata =>
    cases h
    refine ⟨by simp, ?_⟩
    simp only [List.map_cons, List.map_append]
    rcases columnField_keys hsources with hs | hs
    · rcases columnField_keys hop with ho | ho
      · rw [hs, ho]
        split_ifs <;> decide
      · rw [hs, ho]
        split_ifs <;> decide
    · rcases columnField_keys hop with ho | ho
      · rw [hs, ho]
        split_ifs <;> decide
      · rw [hs, ho]
        split_ifs <;> decide
  · cases h

/-- The scanners read the same seq and type off the event. -/
theorem member_of_sameEvent {event : Json}
    (hrow : rowToEvent row = some fields) (h : SameEvent fields event) :
    event.member "seq" = some (.ofInt row.seq) ∧ event.member "type" = some (.str row.type) := by
  obtain ⟨fields', rfl, hperm⟩ := h
  obtain ⟨⟨htype, hseq⟩, hnodup⟩ := rowToEvent_fields hrow
  have hnodup' : (fields'.map Prod.fst).Nodup := (hperm.map Prod.fst).nodup_iff.mpr hnodup
  constructor
  · exact Json.get?_of_mem hnodup' (hperm.mem_iff.mpr hseq)
  · exact Json.get?_of_mem hnodup' (hperm.mem_iff.mpr htype)

open SessionLogScanner

/-- A row and the line of its event have the same parse outcome. -/
theorem SameRow.of_event (hrow : rowToEvent row = some fields)
    (hstored : StoredEvent (.obj fields)) :
    SameRow row (rowBytes (.obj fields)) := by
  refine .event hrow ?_ ⟨fields, rfl, .refl _⟩
  rw [decodeLine_rowBytes, readRow_stringify hstored.proper]
  unfold decodeStorageRecord
  rw [hstored.untagged]

/-- A row that does not parse and a line that was cut off at its start. -/
theorem SameRow.of_torn (hrow : rowToEvent row = none) : SameRow row [] :=
  .unparsable hrow rfl

/-! ## Steps -/

theorem closesTurn_eq_commitsLine {line : List UInt8} (h : SameRow row line) :
    closesTurn row = commitsLine line := by
  cases h with
  | unparsable hrow hline =>
    simp only [closesTurn, hrow, Option.isSome_none, Bool.false_and, commitsLine, hline]
  | @event fields event hrow hline hsame =>
    obtain ⟨-, htype⟩ := member_of_sameEvent hrow hsame
    obtain ⟨fields', rfl, -⟩ := hsame
    simp only [closesTurn, hrow, Option.isSome_some, Bool.true_and, commitsLine, hline, someTurnEnd,
      htype]
    by_cases hend : row.type = "turn/end"
    · simp only [hend, decide_true, if_true]
    · simp only [hend, decide_false, if_false]

theorem readEventRow_rel_readLine {preserved : List StoredFields} {scan : SessionLogScan}
    (hscan : List.Forall₂ SameEvent preserved scan.events) {line : List UInt8}
    (h : SameRow row line) :
    Option.Rel (fun preserved (scan : SessionLogScan) => List.Forall₂ SameEvent preserved scan.events)
      (readEventRow 0 preserved row) (readLine scan line) := by
  cases h with
  | unparsable hrow hline =>
    simp only [readEventRow, hrow, readLine, hline]
    exact .none
  | @event fields event hrow hline hsame =>
    obtain ⟨hseq, -⟩ := member_of_sameEvent hrow hsame
    have hlength := hscan.length_eq
    have hnext : hasSeq event scan.events.length = decide (row.seq = 0 + preserved.length) := by
      simp only [hasSeq, hseq, Json.ofInt, Num.int.injEq, hlength, Int.zero_add]
    obtain ⟨fields', rfl, hperm⟩ := id hsame
    simp only [readEventRow, hrow, readLine, hline, pushRow, hnext]
    by_cases heq : row.seq = 0 + preserved.length
    · simp only [heq, decide_true, if_true]
      exact .some (List.rel_append hscan (.cons hsame .nil))
    · simp only [heq, decide_false, Bool.false_eq_true, if_false]
      exact .none

/-! ## Scans -/

/-- Fed one event per line, the JSONL scanner accepts and rejects the logs that the SQLite
row scan does, and preserves the same prefix. -/
theorem scanRows_agrees_with_scanLog {header : SessionHeader} {headerLine : List UInt8}
    (hheader : (0x0A : UInt8) ∉ headerLine)
    (hparse : parseHeaderRecord (headerLine ++ [0x0A]) = .ok header)
    {rows : List EventRow} {lines : List (List UInt8)} (hrows : List.Forall₂ SameRow rows lines)
    (hlines : ∀ line ∈ lines, (0x0A : UInt8) ∉ line) :
    SameScan (scanRows rows 0) (scanLog (headerLine ++ 0x0A :: TornLog.unlines 0x0A lines)) := by
  have hlog := scanLog_eq_scan hheader hparse (TornLog.unlines 0x0A lines)
  have hsplit : (TornLog.lines 0x0A (TornLog.unlines 0x0A lines)).1 = lines := by
    have hall := congrArg Prod.fst (TornLog.lines_unlines hlines [])
    simpa [TornLog.lines] using hall
  rw [hsplit] at hlog
  have hsql := scanRows_eq_scan rows 0
  have hrel : Option.Rel (fun preserved (scan : SessionLogScan) =>
      List.Forall₂ SameEvent preserved scan.events)
      (TornLog.scan (readEventRow 0) closesTurn [] rows)
      (TornLog.scan readLine commitsLine
        { header, events := [], committedBytes := headerLine.length + 1 } lines) :=
    TornLog.scan_simulates (fun _ _ h => closesTurn_eq_commitsLine h)
      (fun _ _ _ _ hs h => readEventRow_rel_readLine hs h) .nil hrows
  rw [← hlog, ← hsql] at hrel
  cases hscan : scanRows rows 0 with
  | error e =>
    cases hline : scanLog (headerLine ++ 0x0A :: TornLog.unlines 0x0A lines) with
    | error e' => exact .refused
    | ok scan =>
      rw [hscan, hline] at hrel
      cases hrel
  | ok scanned =>
    cases hline : scanLog (headerLine ++ 0x0A :: TornLog.unlines 0x0A lines) with
    | error e' =>
      rw [hscan, hline] at hrel
      cases hrel
    | ok scan =>
      rw [hscan, hline] at hrel
      cases hrel with
      | some h => exact .accepted h

/-- A row that opens a turn, and the torn row after it. -/
def startRow : EventRow where
  seq := 0
  type := "turn/start"
  time := 0
  data := ⟨(Json.obj [("turn", .ofInt 1)]).stringify⟩
  sourceEventSeqs := none
  surfaceOp := none
  ignorable := none

def startFields : StoredFields :=
  [("type", .str "turn/start"), ("seq", .ofInt 0), ("time", .ofInt 0),
    ("data", .obj [("turn", .ofInt 1)])]

def tornRow : EventRow := { startRow with seq := 1, data := "" }

theorem startFields_proper : (Json.obj startFields).Proper := by
  have henvelope : (startFields.map Prod.fst).Nodup := by decide
  have hdata : (["turn"] : List JsString).Nodup := by decide
  exact ⟨henvelope, trivial, trivial, trivial, ⟨hdata, trivial, trivial⟩, trivial⟩

theorem rowToEvent_startRow : rowToEvent startRow = some startFields := by
  have hparse : Json.parse startRow.data.units = some (.obj [("turn", .ofInt 1)]) :=
    Json.parse_stringify startFields_proper.2.2.2.2.1
  unfold rowToEvent
  rw [hparse]
  rfl

theorem startRow_agrees :
    SameScan (scanRows [startRow, tornRow] 0)
      (scanLog (JsString.utf8 ⟨(toHeaderLine forkHeader).stringify⟩ ++ 0x0A ::
        TornLog.unlines 0x0A [rowBytes (.obj startFields), []])) := by
  have huntagged : rowTagOf (.obj startFields) = none := by
    have htype : (Json.obj startFields).member "type" = some (.str "turn/start") := rfl
    unfold rowTagOf
    rw [htype]
    decide
  refine scanRows_agrees_with_scanLog (OneLine.utf8_clean (oneLine_stringify (toHeaderLine forkHeader)))
    (parseHeaderRecord_headerBytes forkHeader_valid)
    (.cons (.of_event rowToEvent_startRow ⟨startFields_proper, huntagged⟩)
      (.cons (.of_torn rfl) .nil)) ?_
  intro line hline
  simp only [List.mem_cons, List.not_mem_nil, or_false] at hline
  rcases hline with rfl | rfl
  · exact rowBytes_clean _
  · exact List.not_mem_nil

end Harness
