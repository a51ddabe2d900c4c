-- SUMMARY: A log file cut anywhere after its header scans to its complete rows, and its repair scans to the whole log.
import Harness.Persistence.JsonlLines

namespace Harness

open List SessionLogScanner
open TornLog (unlines unlines_cons unlines_append)

/-! ## Rows -/

/-- The rows of a non-empty batch are written as lines. -/
theorem fileBytes_joinRows {rows : List Json} (h : rows ≠ []) :
    fileBytes (joinRows (rows.map Json.stringify)) = unlines 0x0A (rows.map rowBytes) := by
  unfold fileBytes
  induction rows with
  | nil => exact absurd rfl h
  | cons row rest ih =>
    cases rest with
    | nil =>
      simp only [map_cons, map_nil, joinRows, unlines_cons, TornLog.unlines_nil]
      exact OneLine.utf8_feed (oneLine_stringify row) []
    | cons next rest =>
      have hnext := ih (cons_ne_nil _ _)
      have hjoin : joinRows ((row :: next :: rest).map Json.stringify) ++ [0x0A] =
          row.stringify ++ 0x0A :: (joinRows ((next :: rest).map Json.stringify) ++ [0x0A]) := by
        simp [joinRows]
      rw [map_cons (f := rowBytes), unlines_cons, ← hnext, hjoin]
      exact OneLine.utf8_feed (oneLine_stringify row) _

/-- Consecutive events, from seq `n` on. -/
def Numbered : Nat → List Json → Prop
  | _, [] => True
  | n, event :: rest => hasSeq event n = true ∧ Numbered (n + 1) rest

theorem Numbered.append {n : Nat} {events more : List Json} (h : Numbered n (events ++ more)) :
    Numbered n events ∧ Numbered (n + events.length) more := by
  induction events generalizing n with
  | nil => exact ⟨trivial, h⟩
  | cons event rest ih =>
    obtain ⟨hfront, hback⟩ := ih h.2
    rw [Nat.add_right_comm] at hback
    exact ⟨⟨h.1, hfront⟩, hback⟩

theorem pushRow_numbered {events decoded : List Json} (h : Numbered events.length decoded) :
    pushRow events decoded = .ok (.accepted (events ++ decoded)) := by
  induction decoded generalizing events with
  | nil => rw [pushRow, append_nil]
  | cons event rest ih =>
    obtain ⟨hseq, hrest⟩ := h
    have hlonger : Numbered (events ++ [event]).length rest := by simpa using hrest
    have hnext := ih hlonger
    cases event with
    | null => cases hseq
    | bool b => cases hseq
    | num n => cases hseq
    | str s => cases hseq
    | arr items => cases hseq
    | obj fields =>
      unfold pushRow
      rw [if_pos hseq, hnext, append_assoc, singleton_append]

/-- A scan that has read `bytes` more, and the events in them. -/
def SessionLogScan.extend (scan : SessionLogScan) (events : List Json) (bytes : Nat) : SessionLogScan :=
  { scan with events := scan.events ++ events, committedBytes := scan.committedBytes + bytes }

theorem reads_rows {rows decoded : List Json} (hread : readRows (rows.map Json.stringify) = .ok decoded)
    (scan : SessionLogScan) (hseqs : Numbered scan.events.length decoded) :
    TornLog.Reads readLine scan (rows.map rowBytes)
      (scan.extend decoded (unlines 0x0A (rows.map rowBytes)).length) := by
  induction rows generalizing scan decoded with
  | nil =>
    cases hread
    have hsame : scan.extend [] (unlines (0x0A : UInt8) ([].map rowBytes)).length = scan := by
      simp [SessionLogScan.extend]
    rw [hsame]
    exact .nil scan
  | cons row rest ih =>
    simp only [map_cons, readRows] at hread
    split at hread
    · cases hread
    rename_i events hrow
    obtain ⟨later, hrest, hread⟩ := Except.bind_eq_ok.mp hread
    cases hread
    obtain ⟨hfirst, hsecond⟩ := hseqs.append
    have hstep : readLine scan (rowBytes row) = some (scan.extend events ((rowBytes row).length + 1)) := by
      simp only [readLine, decodeLine_rowBytes, hrow, pushRow_numbered hfirst,
        SessionLogScan.extend, Nat.add_assoc]
    have hnext := ih hrest (scan.extend events ((rowBytes row).length + 1)) (by
      simpa [SessionLogScan.extend] using hsecond)
    have hsame : (scan.extend events ((rowBytes row).length + 1)).extend later
        (unlines 0x0A (rest.map rowBytes)).length =
          scan.extend (events ++ later) (unlines 0x0A ((row :: rest).map rowBytes)).length := by
      simp only [SessionLogScan.extend, append_assoc, map_cons, unlines_cons,
        length_append, length_cons]
      congr 1
      omega
    rw [hsame] at hnext
    exact .cons hstep hnext

/-! ## Same events -/

theorem Json.get?_sameFields {fields fields' : StoredFields} (h : Json.SameFields fields fields')
    {key : JsString} {n : Num} (hget : Json.get? key fields' = some (.num n)) :
    Json.get? key fields = some (.num n) := by
  induction fields generalizing fields' with
  | nil =>
    cases h
    exact hget
  | cons field rest ih =>
    obtain ⟨k, v⟩ := field
    cases h with
    | @cons _ _ value' _ fields' hvalue hrest =>
      simp only [Json.get?] at hget ⊢
      split_ifs at hget ⊢
      · cases hget
        cases hvalue
        rfl
      · exact ih hrest hget

theorem hasSeq_of_same {event event' : Json} (h : Json.Same event event') (hproper : event'.Proper)
    {n : Nat} (hseq : hasSeq event' n = true) : hasSeq event n = true := by
  cases h with
  | refl => exact hseq
  | @obj fields fields' fields'' hfields hperm =>
    unfold hasSeq at hseq ⊢
    cases hmember : Json.member "seq" (.obj fields'') with
    | none =>
      rw [hmember] at hseq
      cases hseq
    | some v =>
      rw [hmember] at hseq
      cases v with
      | num m =>
        have hnodup : (fields'.map Prod.fst).Nodup := (hperm.map Prod.fst).nodup_iff.mpr hproper.1
        have hget : Json.get? "seq" fields' = some (.num m) :=
          Json.get?_of_mem hnodup (hperm.mem_iff.mpr (Json.get?_eq_some_mem hmember))
        have hfound : Json.member "seq" (.obj fields) = some (.num m) := Json.get?_sameFields hfields hget
        rw [hfound]
        exact hseq
      | null => cases hseq
      | bool b => cases hseq
      | str s => cases hseq
      | arr items => cases hseq
      | obj inner => cases hseq

theorem Numbered.of_same {decoded events : List Json} (h : SameEvents decoded events)
    (hproper : ∀ event ∈ events, event.Proper) {n : Nat} (hseqs : Numbered n events) :
    Numbered n decoded := by
  induction h generalizing n with
  | nil => trivial
  | cons hevent _ ih =>
    exact ⟨hasSeq_of_same hevent (hproper _ mem_cons_self) hseqs.1,
      ih (fun e he => hproper e (mem_cons_of_mem _ he)) hseqs.2⟩

theorem SameEvents.length_eq {events events' : List Json} (h : SameEvents events events') :
    events.length = events'.length := by
  induction h with
  | nil => rfl
  | cons _ _ ih => rw [length_cons, length_cons, ih]

theorem SameEvents.split {front back events : List Json} (h : SameEvents (front ++ back) events) :
    SameEvents front (events.take front.length) ∧ SameEvents back (events.drop front.length) := by
  induction front generalizing events with
  | nil => exact ⟨.nil, h⟩
  | cons event rest ih =>
    cases h with
    | cons hevent hrest =>
      obtain ⟨hfront, hback⟩ := ih hrest
      exact ⟨.cons hevent hfront, hback⟩

/-! ## Batches -/

/-- One write: a batch, and whether it is packed. -/
structure Batch where
  events : List Json
  packChunks : Bool

/-- The events of a sequence of writes. -/
def loggedEvents (batches : List Batch) : List Json := batches.flatMap (·.events)

def loggedRows (batches : List Batch) : List Json :=
  batches.flatMap fun batch => storageRecords batch.events batch.packChunks

def loggedBytes (batches : List Batch) : List UInt8 :=
  batches.flatMap fun batch => encodeEventBatch batch.events batch.packChunks

/-- A write the coordinator makes: it has events, and every one is stored as the log holds it. -/
structure Batch.Written (batch : Batch) : Prop where
  nonempty : batch.events ≠ []
  stored : ∀ event ∈ batch.events, StoredEvent event

theorem Batch.Written.stores {batch : Batch} (h : batch.Written) :
    Stores (storageRecords batch.events batch.packChunks) batch.events := by
  unfold storageRecords
  split
  · exact stores_packChunkRuns h.stored
  · exact .of_events h.stored

theorem loggedRows_stores {batches : List Batch} (h : ∀ batch ∈ batches, batch.Written) :
    Stores (loggedRows batches) (loggedEvents batches) := by
  induction batches with
  | nil => exact .nil
  | cons batch rest ih =>
    have hrest := ih fun b hb => h b (mem_cons_of_mem _ hb)
    exact (h batch mem_cons_self).stores.append hrest

theorem loggedBytes_eq {batches : List Batch} (h : ∀ batch ∈ batches, batch.Written) :
    loggedBytes batches = unlines 0x0A ((loggedRows batches).map rowBytes) := by
  induction batches with
  | nil => rfl
  | cons batch rest ih =>
    have hwritten := h batch mem_cons_self
    have hrows : storageRecords batch.events batch.packChunks ≠ [] := by
      intro hnone
      obtain ⟨decoded, hread, hsame⟩ := hwritten.stores
      rw [hnone] at hread
      cases hread
      exact hwritten.nonempty (length_eq_zero_iff.mp hsame.length_eq.symm)
    have hrest := ih fun b hb => h b (mem_cons_of_mem _ hb)
    unfold loggedBytes loggedRows at hrest ⊢
    rw [flatMap_cons, flatMap_cons, hrest, map_append, unlines_append]
    unfold encodeEventBatch eventLines
    rw [fileBytes_joinRows hrows]

theorem headerBytes_eq (header : SessionHeader) :
    headerBytes header = JsString.utf8 ⟨(toHeaderLine header).stringify⟩ ++ [0x0A] :=
  OneLine.utf8_feed (oneLine_stringify (toHeaderLine header)) []

/-! ## Torn writes -/

/-- A file of a header, whole rows and a torn one scans to the events of the whole rows. -/
theorem scanLog_rows {header : SessionHeader} (h : header.Valid) {rows decoded : List Json}
    (hread : readRows (rows.map Json.stringify) = .ok decoded) (hseqs : Numbered 0 decoded)
    {torn : List UInt8} (htorn : (0x0A : UInt8) ∉ torn) :
    scanLog (headerBytes header ++ (unlines 0x0A (rows.map rowBytes) ++ torn)) =
      .ok { header := header.stored, events := decoded
            committedBytes := (headerBytes header ++ unlines 0x0A (rows.map rowBytes)).length } := by
  have hclean : ∀ line ∈ rows.map rowBytes, (0x0A : UInt8) ∉ line := by
    intro line hline
    obtain ⟨row, -, rfl⟩ := mem_map.mp hline
    exact rowBytes_clean row
  have hlog := scanLog_eq_scan (OneLine.utf8_clean (oneLine_stringify (toHeaderLine header)))
    (parseHeaderRecord_headerBytes h) (unlines 0x0A (rows.map rowBytes) ++ torn)
  have hreads := reads_rows hread
    { header := header.stored, events := []
      committedBytes := (JsString.utf8 ⟨(toHeaderLine header).stringify⟩).length + 1 } hseqs
  rw [TornLog.lines_unlines hclean, TornLog.lines_of_clean htorn, append_nil,
    TornLog.scan_of_reads hreads] at hlog
  rw [headerBytes_eq, append_assoc, singleton_append]
  cases hscan : scanLog (JsString.utf8 ⟨(toHeaderLine header).stringify⟩ ++
      0x0A :: (unlines 0x0A (rows.map rowBytes) ++ torn)) with
  | error e =>
    rw [hscan] at hlog
    cases hlog
  | ok scan =>
    rw [hscan] at hlog
    cases hlog
    simp only [SessionLogScan.extend, nil_append, length_append, length_singleton]

theorem readRows_split {lines more : List Text} {decoded : List Json}
    (h : readRows (lines ++ more) = .ok decoded) :
    ∃ front back, decoded = front ++ back ∧ readRows lines = .ok front ∧ readRows more = .ok back := by
  induction lines generalizing decoded with
  | nil => exact ⟨[], decoded, rfl, rfl, h⟩
  | cons line lines ih =>
    simp only [cons_append, readRows] at h ⊢
    split at h
    · cases h
    rename_i first hline
    obtain ⟨rest, hrest, h⟩ := Except.bind_eq_ok.mp h
    cases h
    obtain ⟨front, back, rfl, hfront, hback⟩ := ih hrest
    refine ⟨first ++ front, back, (append_assoc ..).symm, ?_, hback⟩
    simp only [hfront, Except.map]

/-- How a scan recovers a file that was cut: `whole` rows were complete. -/
structure Recovered (header : SessionHeader) (batches : List Batch) (size whole : Nat)
    (scan : SessionLogScan) : Prop where
  sameHeader : scan.header = header.stored
  /-- The events are those of the complete rows, and a front part of the log. -/
  rows : readRows (((loggedRows batches).take whole).map Json.stringify) = .ok scan.events
  events : SameEvents scan.events ((loggedEvents batches).take scan.events.length)
  /-- The committed bytes end at the last complete row, and the next row ends past the cut. -/
  committed : scan.committedBytes = (headerBytes header ++
    unlines 0x0A (((loggedRows batches).take whole).map rowBytes)).length
  within : scan.committedBytes ≤ size
  last : ∀ row, (loggedRows batches)[whole]? = some row → size < (headerBytes header ++
    unlines 0x0A (((loggedRows batches).take (whole + 1)).map rowBytes)).length

/-- A cut file is a header, whole rows and a torn one. -/
theorem take_log (header : SessionHeader) {batches : List Batch} (h : ∀ batch ∈ batches, batch.Written)
    {size : Nat} (hsize : (headerBytes header).length ≤ size) :
    ∃ whole torn, (0x0A : UInt8) ∉ torn ∧
      (headerBytes header ++ loggedBytes batches).take size = headerBytes header ++
        (unlines 0x0A (((loggedRows batches).take whole).map rowBytes) ++ torn) ∧
      ∀ row, (loggedRows batches)[whole]? = some row → size < (headerBytes header ++
        unlines 0x0A (((loggedRows batches).take (whole + 1)).map rowBytes)).length := by
  have hclean : ∀ line ∈ (loggedRows batches).map rowBytes, (0x0A : UInt8) ∉ line := by
    intro line hline
    obtain ⟨row, -, rfl⟩ := mem_map.mp hline
    exact rowBytes_clean row
  obtain ⟨whole, torn, htake, htorn, hlast⟩ :=
    TornLog.take_unlines hclean (size - (headerBytes header).length)
  refine ⟨whole, torn, htorn, ?_, fun row hrow => ?_⟩
  · rw [take_append, take_of_length_le hsize, loggedBytes_eq h, htake, map_take]
  have hnext := hlast (rowBytes row) (by rw [getElem?_map, hrow]; rfl)
  rw [length_append, map_take]
  omega

/-- Appending writes to whole rows gives a file of more whole rows. -/
theorem scanLog_extended {header : SessionHeader} (hheader : header.Valid) {rows events : List Json}
    (hrows : Stores rows events) (hproper : ∀ event ∈ events, event.Proper) {more : List Batch}
    (hmore : ∀ batch ∈ more, batch.Written) (hseqs : Numbered 0 (events ++ loggedEvents more)) :
    ∃ scan, scanLog (headerBytes header ++ unlines 0x0A (rows.map rowBytes) ++
        loggedBytes more) = .ok scan ∧
      scan.header = header.stored ∧ SameEvents scan.events (events ++ loggedEvents more) := by
  obtain ⟨decoded, hread, hsame⟩ := hrows.append (loggedRows_stores hmore)
  have hproperAll : ∀ event ∈ events ++ loggedEvents more, event.Proper := by
    intro event hevent
    rcases mem_append.mp hevent with hevent | hevent
    · exact hproper event hevent
    · obtain ⟨batch, hbatch, hmem⟩ := mem_flatMap.mp hevent
      exact ((hmore batch hbatch).stored event hmem).proper
  have hempty : (0x0A : UInt8) ∉ ([] : List UInt8) := by simp
  have hscan := scanLog_rows hheader hread (.of_same hsame hproperAll hseqs) hempty
  have hbytes : headerBytes header ++ unlines 0x0A (rows.map rowBytes) ++ loggedBytes more =
      headerBytes header ++
        (unlines 0x0A ((rows ++ loggedRows more).map rowBytes) ++ []) := by
    rw [loggedBytes_eq hmore, append_nil, map_append, unlines_append,
      append_assoc]
  rw [hbytes]
  exact ⟨_, hscan, rfl, hsame⟩

/-- A repair truncates at the committed bytes and appends what it is given, if anything. -/
theorem commitRepair_eq (file : List UInt8) (scan : SessionLogScan) (repaired : List Json)
    (packChunks : Bool) :
    commitRepair file (tornMarker file scan) repaired packChunks = file.take scan.committedBytes ++
      loggedBytes (if repaired = [] then [] else [{ events := repaired, packChunks }]) := by
  have hfile : commitRepair file (tornMarker file scan) repaired packChunks =
      if repaired.length > 0 then
        file.take scan.committedBytes ++ encodeEventBatch repaired packChunks
      else file.take scan.committedBytes := by
    unfold commitRepair tornMarker
    by_cases hlt : scan.committedBytes < file.length
    · simp only [hlt, if_true]
    · simp only [hlt, if_false, take_of_length_le (Nat.le_of_not_lt hlt)]
  rw [hfile]
  cases repaired with
  | nil => simp [loggedBytes]
  | cons event rest => simp [loggedBytes]

/-- Cut anywhere after its header, a log scans to its complete rows. Truncated there and
extended by the encoding of the other events, in whatever batches, it scans to the whole
log; so does the file that a repair with the other events leaves. -/
theorem scanLog_torn_write {header : SessionHeader} (hheader : header.Valid) {batches : List Batch}
    (hbatches : ∀ batch ∈ batches, batch.Written) (hseqs : Numbered 0 (loggedEvents batches))
    {size : Nat} (hsize : (headerBytes header).length ≤ size) :
    let file := (headerBytes header ++ loggedBytes batches).take size
    ∃ whole scan, scanLog file = .ok scan ∧ Recovered header batches size whole scan ∧
      (∀ more : List Batch, (∀ batch ∈ more, batch.Written) →
        loggedEvents more = (loggedEvents batches).drop scan.events.length →
        ∃ scan', scanLog (file.take scan.committedBytes ++ loggedBytes more) = .ok scan' ∧
          scan'.header = header.stored ∧ SameEvents scan'.events (loggedEvents batches)) ∧
      (∀ packChunks, ∃ scan', scanLog (commitRepair file (tornMarker file scan)
          ((loggedEvents batches).drop scan.events.length) packChunks) = .ok scan' ∧
        scan'.header = header.stored ∧ SameEvents scan'.events (loggedEvents batches)) := by
  intro file
  obtain ⟨whole, torn, htorn, htake, hlast⟩ := take_log header hbatches hsize
  obtain ⟨decoded, hread, hsame⟩ := loggedRows_stores hbatches
  have hproper : ∀ event ∈ loggedEvents batches, event.Proper := by
    intro event hevent
    obtain ⟨batch, hbatch, hmem⟩ := mem_flatMap.mp hevent
    exact ((hbatches batch hbatch).stored event hmem).proper
  rw [← take_append_drop whole (loggedRows batches), map_append] at hread
  obtain ⟨front, back, rfl, hfront, -⟩ := readRows_split hread
  have hnumbered := (Numbered.of_same hsame hproper hseqs).append.1
  have hscan := scanLog_rows hheader hfront hnumbered htorn
  have hfile : file.take (headerBytes header ++
      unlines 0x0A (((loggedRows batches).take whole).map rowBytes)).length =
      headerBytes header ++ unlines 0x0A (((loggedRows batches).take whole).map rowBytes) := by
    rw [show file = _ from htake, ← append_assoc, take_left]
  have hextended : ∀ more : List Batch, (∀ batch ∈ more, batch.Written) →
      loggedEvents more = (loggedEvents batches).drop front.length →
      ∃ scan', scanLog (file.take (headerBytes header ++ unlines 0x0A
          (((loggedRows batches).take whole).map rowBytes)).length ++ loggedBytes more) = .ok scan' ∧
        scan'.header = header.stored ∧ SameEvents scan'.events (loggedEvents batches) := by
    intro more hmore hrest
    have hall : (loggedEvents batches).take front.length ++ loggedEvents more = loggedEvents batches := by
      rw [hrest, take_append_drop]
    rw [hfile, ← hall]
    exact scanLog_extended hheader ⟨front, hfront, hsame.split.1⟩
      (fun event hevent => hproper event (mem_of_mem_take hevent)) hmore (hall.symm ▸ hseqs)
  refine ⟨whole, { header := header.stored, events := front, committedBytes := _ }, ?_, ⟨rfl, hfront, hsame.split.1, rfl, ?_, hlast⟩, hextended, fun packChunks => ?_⟩
  · rw [show file = _ from htake]
    exact hscan
  · have hle := length_take_le size (headerBytes header ++ loggedBytes batches)
    rw [htake, ← append_assoc, length_append] at hle
    exact (Nat.le_add_right _ _).trans hle
  rw [commitRepair_eq]
  refine hextended _ (fun batch hbatch => ?_) ?_
  · split_ifs at hbatch with hnone
    · cases hbatch
    cases mem_singleton.mp hbatch
    refine ⟨hnone, fun event hevent => ?_⟩
    obtain ⟨batch, hmem, hin⟩ := mem_flatMap.mp (mem_of_mem_drop hevent)
    exact (hbatches batch hmem).stored event hin
  · split_ifs with hnone
    · exact hnone.symm
    · simp [loggedEvents]

theorem textDelta_stored (k : Nat) : StoredEvent (textDelta k) where
  proper := by
    have henvelope : (["type", "seq", "time", "data"] : List JsString).Nodup := by decide
    have hdata : (["turn", "step", "chunk"] : List JsString).Nodup := by decide
    have hchunk : (["type", "index", "text"] : List JsString).Nodup := by decide
    exact ⟨henvelope, trivial, trivial, trivial,
      ⟨hdata, trivial, trivial, ⟨hchunk, trivial, trivial, trivial, trivial⟩, trivial⟩, trivial⟩
  untagged := by
    have htype : (textDelta k).member "type" = some (.str "assistant/chunk") := rfl
    unfold rowTagOf
    rw [htype]
    decide

/-- Three packed deltas and one more, cut five bytes into the first row. -/
theorem textDeltas_torn_write :
    let batches : List Batch :=
      [⟨[textDelta 0, textDelta 1, textDelta 2], true⟩, ⟨[textDelta 3], false⟩]
    let size := (headerBytes forkHeader).length + 5
    ∃ whole scan, scanLog ((headerBytes forkHeader ++ loggedBytes batches).take size) = .ok scan ∧
      Recovered forkHeader batches size whole scan := by
  have hwritten : ∀ batch ∈ ([⟨[textDelta 0, textDelta 1, textDelta 2], true⟩,
      ⟨[textDelta 3], false⟩] : List Batch), batch.Written := by
    intro batch hbatch
    simp only [mem_cons, not_mem_nil, or_false] at hbatch
    rcases hbatch with rfl | rfl
    · refine ⟨cons_ne_nil _ _, fun event hevent => ?_⟩
      simp only [mem_cons, not_mem_nil, or_false] at hevent
      rcases hevent with rfl | rfl | rfl <;> exact textDelta_stored _
    · refine ⟨cons_ne_nil _ _, fun event hevent => ?_⟩
      rw [mem_singleton] at hevent
      exact hevent ▸ textDelta_stored 3
  obtain ⟨whole, scan, hscan, hrecovered, -⟩ := scanLog_torn_write forkHeader_valid hwritten
    ⟨rfl, rfl, rfl, rfl, trivial⟩ (Nat.le_add_right (headerBytes forkHeader).length 5)
  exact ⟨whole, scan, hscan, hrecovered⟩

end Harness
