-- SUMMARY: What the log reads back after appends and crashes, and exactly when it is what was appended.
import Harness.Memory.LogRecord

/-!
# The log across appends and crashes

A crash leaves the first bytes of what an append writes. The next append repairs the file first.
-/

namespace Harness

open List

/-- The largest entry limit that a configuration may set. -/
def ENTRY_CHARS_MAX : Nat := min (TREE_REC - 8) (LOG_REC - 40)

/-- `/^\d{4}-\d{2}-\d{2}$/`. -/
def isCalendarDate (date : String) : Bool :=
  match date.toList with
  | [y₁, y₂, y₃, y₄, '-', m₁, m₂, '-', d₁, d₂] => [y₁, y₂, y₃, y₄, m₁, m₂, d₁, d₂].all Char.isDigit
  | _ => false

/-- How many ids a record has room for, far beyond the integers that a number holds exactly. -/
def ID_ROOM : Nat := 10 ^ 26

/-- A dated memory as the commands append it. -/
structure Appendable (entryChars : Nat) (item : String × JsString) : Prop where
  date : isCalendarDate item.1 = true
  text : ∃ raw, (MemoryStore.create entryChars).checkEntry raw = .ok item.2

inductive LogAct where
  | append (items : List (String × JsString))
  /-- An append of which only the first bytes reach the file. -/
  | crash (items : List (String × JsString)) (bytes : Nat)

namespace LogAct

def items : LogAct → List (String × JsString)
  | .append items | .crash items _ => items

/-- The memories whose records reach the file as a whole. -/
def kept : LogAct → List (String × JsString)
  | .append items => items
  | .crash items bytes => items.take (bytes / LOG_REC)

end LogAct

/-- What the readers return of records that hold these memories. -/
def entriesFrom (base : Nat) : List (String × JsString) → List MemoryLogEntry
  | [] => []
  | item :: items =>
    { id := some base, date := JsString.ofString item.1, text := item.2 } ::
      entriesFrom (base + 1) items

namespace MemoryStore

/-- The log as the next write finds it. -/
def repaired (s : MemoryStore) : MemoryStore := { s with log := Records.repair LOG_REC s.log }

def logStep (s : MemoryStore) : LogAct → MemoryStore
  | .append items => (s.append items).2
  | .crash items bytes =>
    { s with log := (s.append items).2.log.take (s.repaired.log.length + bytes) }

def logRun (s : MemoryStore) (acts : List LogAct) : MemoryStore := acts.foldl logStep s

/-- All three readers return these entries. -/
def Reads (s : MemoryStore) (entries : List MemoryLogEntry) : Prop :=
  s.logScan = (entries, none) ∧
    (∀ lo hi, s.logSlice lo hi = (entries.drop lo).take (hi - lo)) ∧
    ∀ i entry, entries[i]? = some entry → s.logGet i = .ok entry

/-- Of a run of appends and crashes no memory that was kept moves or loses its id. -/
structure LogSafe (entryChars : Nat) (acts : List LogAct) : Prop where
  /-- Repair leaves whole records, one for each memory that was kept. -/
  whole : ((create entryChars).logRun acts).repaired.log.length =
    (acts.flatMap LogAct.kept).length * LOG_REC
  /-- What an append leaves needs no repair. -/
  settled : ∀ before items, acts = before ++ [.append items] →
    ((create entryChars).logRun acts).repaired = (create entryChars).logRun acts
  /-- The records of an earlier state are the first ones of a later state. -/
  unshifted : ∀ before after, acts = before ++ after →
    Records.records LOG_REC ((create entryChars).logRun before).repaired.log <+:
      Records.records LOG_REC ((create entryChars).logRun acts).repaired.log
  /-- An append gets the next free ids. -/
  nextIds : ∀ before items after, acts = before ++ .append items :: after →
    (((create entryChars).logRun before).append items).1 = .ok (before.flatMap LogAct.kept).length

end MemoryStore

/-! ## Records that fit -/

theorem isDigit_graphic {c : Char} (hc : c.isDigit = true) : 0x20 < c.toNat ∧ c.toNat < 0x80 := by
  have := toNat_of_isDigit hc
  omega

theorem isGraphic_of_isCalendarDate {date : String} (h : isCalendarDate date = true) :
    isGraphic date = true ∧ date.toList.length = 10 := by
  unfold isCalendarDate at h
  split at h
  · rename_i heq
    rw [all_eq_true] at h
    refine ⟨isGraphic_iff.mpr fun c hc => ?_, by rw [heq]; rfl⟩
    rw [heq] at hc
    simp only [mem_cons, not_mem_nil, or_false] at hc h
    by_cases hdash : c = '-'
    · subst hdash
      decide
    · exact isDigit_graphic (h c (by tauto))
  · cases h

namespace Appendable

variable {entryChars : Nat} {item : String × JsString} (h : Appendable entryChars item)
include h

theorem isGraphic : isGraphic item.1 = true := (isGraphic_of_isCalendarDate h.date).1

theorem checked : item.2.units ≠ [] ∧ JsString.EndsInText item.2.units ∧
    item.2.byteLength ≤ entryChars := by
  obtain ⟨raw, hraw⟩ := h.text
  unfold MemoryStore.checkEntry at hraw
  dsimp only at hraw
  split at hraw
  · cases hraw
  split at hraw
  · cases hraw
  split at hraw
  · cases hraw
  rename_i hne _ hle
  have heq := Except.ok.inj hraw
  rw [← heq]
  exact ⟨hne, JsString.endsInText_trimEnd _, Nat.le_of_not_lt hle⟩

theorem fits (hsize : entryChars ≤ ENTRY_CHARS_MAX) {id : Nat} (hid : id < ID_ROOM) :
    (recordLine id item).byteLength < LOG_REC := by
  have hdigits := length_id_le (k := 26) (by decide) hid
  have hdate : (JsString.ofString item.1).units.length = 10 := by
    rw [units_ofString_ascii fun c hc => (isGraphic_iff.mp h.isGraphic c hc).2, length_map]
    exact (isGraphic_of_isCalendarDate h.date).2
  have hlimit : ENTRY_CHARS_MAX = 280 := by decide
  have hrecord : LOG_REC = 320 := rfl
  have htext := h.checked.2.2
  rw [byteLength_recordLine h.isGraphic]
  omega

end Appendable

/-! ## Runs of records -/

def recordsOf (base : Nat) : List (String × JsString) → List (List UInt8)
  | [] => []
  | item :: items => recordOf base item :: recordsOf (base + 1) items

@[simp] theorem length_recordsOf (base : Nat) (items : List (String × JsString)) :
    (recordsOf base items).length = items.length := by
  induction items generalizing base with
  | nil => rfl
  | cons item items ih => rw [recordsOf, length_cons, ih, length_cons]

theorem recordsOf_append (base : Nat) (items later : List (String × JsString)) :
    recordsOf base (items ++ later) =
      recordsOf base items ++ recordsOf (base + items.length) later := by
  induction items generalizing base with
  | nil => rfl
  | cons item items ih =>
    rw [cons_append, recordsOf, ih, recordsOf, cons_append, length_cons,
      Nat.add_right_comm, Nat.add_assoc]

theorem recordsOf_take (base n : Nat) (items : List (String × JsString)) :
    recordsOf base (items.take n) = (recordsOf base items).take n := by
  induction items generalizing base n with
  | nil => simp [recordsOf]
  | cons item items ih =>
    cases n with
    | zero => rfl
    | succ n => rw [take_succ_cons, recordsOf, ih, recordsOf, take_succ_cons]

/-- What the readers make of a memory. -/
def repairedItem (item : String × JsString) : String × JsString :=
  (item.1, ⟨Unicode.repaired item.2.units⟩)

theorem entriesFrom_repaired_iff {base : Nat} {items : List (String × JsString)} :
    entriesFrom base (items.map repairedItem) = entriesFrom base items ↔
      ∀ item ∈ items, Unicode.WellFormed item.2.units := by
  induction items generalizing base with
  | nil => simp [entriesFrom]
  | cons item items ih =>
    rw [map_cons, entriesFrom, entriesFrom, cons_eq_cons, ih, forall_mem_cons,
      ← Unicode.repaired_eq_iff]
    simp only [repairedItem, MemoryLogEntry.mk.injEq, true_and]
    exact and_congr_left fun _ => ⟨fun heq => congrArg JsString.units heq, fun heq => by rw [heq]⟩

section Items

variable {entryChars : Nat} (hsize : entryChars ≤ ENTRY_CHARS_MAX) {base : Nat}
  {items : List (String × JsString)} (hitems : ∀ item ∈ items, Appendable entryChars item)
  (hids : base + items.length ≤ ID_ROOM)
include hitems hids

/-- The readers get the memories of whole records, their texts repaired. -/
theorem decode_recordsOf :
    (recordsOf base items).map (fun record => parseLogLine (JsString.ofUtf8 record).trimEnd) =
      entriesFrom base (items.map repairedItem) := by
  induction items generalizing base with
  | nil => rfl
  | cons item items ih =>
    have hitem := hitems item mem_cons_self
    rw [length_cons] at hids
    rw [recordsOf, map_cons, map_cons, entriesFrom,
      parseLogLine_recordOf hitem.isGraphic base hitem.checked.1 hitem.checked.2.1,
      ih (fun it hit => hitems it (mem_cons_of_mem _ hit)) (by omega)]
    rfl

include hsize

theorem length_of_mem_recordsOf : ∀ r ∈ recordsOf base items, r.length = LOG_REC := by
  induction items generalizing base with
  | nil => exact fun r hr => by cases hr
  | cons item items ih =>
    rw [length_cons] at hids
    intro r hr
    rcases mem_cons.mp hr with heq | hr
    · rw [heq, length_recordOf ((hitems item mem_cons_self).fits hsize (by omega))]
    · exact ih (fun it hit => hitems it (mem_cons_of_mem _ hit)) (by omega) r hr

theorem appendRecords_eq (log : List UInt8) :
    MemoryStore.appendRecords base log items = (.ok (), log ++ (recordsOf base items).flatten) := by
  induction items generalizing base log with
  | nil => simp [MemoryStore.appendRecords, recordsOf]
  | cons item items ih =>
    obtain ⟨date, text⟩ := item
    rw [length_cons] at hids
    have hline : (⟨(JsString.ofString s!"#{base} {date} ").units ++ text.units⟩ : JsString) =
        recordLine base (date, text) := rfl
    rw [MemoryStore.appendRecords, hline,
      pad_recordLine ((hitems (date, text) mem_cons_self).fits hsize (by omega))]
    dsimp only
    rw [ih (fun it hit => hitems it (mem_cons_of_mem _ hit)) (by omega), recordsOf,
      flatten_cons, append_assoc]

end Items

/-! ## The readers -/

namespace MemoryStore

section Whole

variable {s : MemoryStore} {rs : List (List UInt8)} (hwidth : ∀ r ∈ rs, r.length = LOG_REC)
include hwidth

theorem decodeLogRecords_flatten :
    decodeLogRecords rs.flatten =
      rs.map fun record => parseLogLine (JsString.ofUtf8 record).trimEnd := by
  rw [decodeLogRecords, Records.records_flatten (by decide) hwidth]

/-- A scan reads a file of whole records to its end. -/
theorem scanFrom_flatten :
    scanFrom rs.flatten =
      (rs.map fun record => parseLogLine (JsString.ofUtf8 record).trimEnd, none) := by
  induction hn : rs.length using Nat.strongRecOn generalizing rs with
  | _ n ih =>
    rw [scanFrom]
    split
    · rename_i hempty
      have hnil : rs = [] := by
        have hlength := Records.length_flatten_of_width hwidth
        rw [hempty, length_nil] at hlength
        exact length_eq_zero_iff.mp
          ((Nat.mul_eq_zero.mp hlength.symm).resolve_right (by decide))
      rw [hnil]
      rfl
    rename_i hfull
    have hbytes : SCAN_BYTES = 4096 * LOG_REC := Nat.mul_comm _ _
    have htake : ∀ r ∈ rs.take 4096, r.length = LOG_REC := fun r hr => hwidth r (mem_of_mem_take hr)
    have hdrop : ∀ r ∈ rs.drop 4096, r.length = LOG_REC := fun r hr => hwidth r (mem_of_mem_drop hr)
    have hbuf : rs.flatten.take SCAN_BYTES = (rs.take 4096).flatten := by
      rw [hbytes, Records.take_flatten hwidth]
    have haligned : (rs.take 4096).flatten.length % LOG_REC = 0 := by
      rw [Records.length_flatten_of_width htake, Nat.mul_mod_left]
    have hne : rs ≠ [] := fun hnil => hfull (by rw [hnil]; rfl)
    have hshorter : (rs.drop 4096).length < n := by
      have hpos := length_pos_iff.mpr hne
      rw [length_drop]
      omega
    simp only [hbuf, haligned, Nat.sub_zero, take_length]
    rw [hbytes, Records.drop_flatten hwidth, ih _ hshorter hdrop rfl,
      decodeLogRecords_flatten htake]
    simp only [ne_eq, not_true_eq_false, if_false, ← map_append, take_append_drop]

theorem reads_of_whole (hlog : s.log = rs.flatten) :
    s.Reads (rs.map fun record => parseLogLine (JsString.ofUtf8 record).trimEnd) := by
  have hslice : ∀ lo hi, s.logSlice lo hi =
      ((rs.map fun record => parseLogLine (JsString.ofUtf8 record).trimEnd).drop lo).take (hi - lo) := by
    intro lo hi
    have hdrop : ∀ r ∈ rs.drop lo, r.length = LOG_REC := fun r hr => hwidth r (mem_of_mem_drop hr)
    have htake : ∀ r ∈ (rs.drop lo).take (hi - lo), r.length = LOG_REC :=
      fun r hr => hdrop r (mem_of_mem_take hr)
    rw [logSlice, hlog, Records.drop_flatten hwidth, Records.take_flatten hdrop,
      decodeLogRecords_flatten htake, map_take, map_drop]
  refine ⟨?_, hslice, fun i entry hentry => ?_⟩
  · rw [logScan, hlog, scanFrom_flatten hwidth]
  · rw [logGet, hslice, Nat.add_sub_cancel_left, head?_take, head?_drop, hentry]
    rfl

end Whole

theorem Reads.unique {s : MemoryStore} {entries entries' : List MemoryLogEntry}
    (h : s.Reads entries) (h' : s.Reads entries') : entries = entries' :=
  congrArg Prod.fst (h.1.symm.trans h'.1)

end MemoryStore

/-! ## Runs -/

namespace MemoryStore

section Step

variable {entryChars : Nat} (hsize : entryChars ≤ ENTRY_CHARS_MAX) {s : MemoryStore}
  {held items : List (String × JsString)}
  (hitems : ∀ item ∈ held ++ items, Appendable entryChars item)
  (hids : (held ++ items).length ≤ ID_ROOM)
  (hlog : s.repaired.log = (recordsOf 0 held).flatten)
include hsize hitems hids hlog

theorem append_eq : s.append items =
    (.ok held.length, { s with log := (recordsOf 0 (held ++ items)).flatten }) := by
  rw [length_append] at hids
  have hheld : ∀ item ∈ held, Appendable entryChars item :=
    fun item hitem => hitems item (mem_append_left _ hitem)
  have hnew : ∀ item ∈ items, Appendable entryChars item :=
    fun item hitem => hitems item (mem_append_right _ hitem)
  have hwidth := length_of_mem_recordsOf hsize hheld (show 0 + held.length ≤ ID_ROOM by omega)
  have hlog' : Records.repair LOG_REC s.log = (recordsOf 0 held).flatten := hlog
  have hbase : Records.count LOG_REC (recordsOf 0 held).flatten = held.length := by
    rw [Records.count_flatten (by decide) hwidth, length_recordsOf]
  rw [append, hlog', hbase, appendRecords_eq hsize hnew hids, recordsOf_append, flatten_append,
    Nat.zero_add]
  rfl

/-- One append or crash: the records of the memories that it keeps follow the ones before. -/
theorem logStep_repaired {a : LogAct} (ha : a.items = items) :
    (s.logStep a).repaired.log = (recordsOf 0 (held ++ a.kept)).flatten := by
  have happend := append_eq hsize hitems hids hlog
  subst ha
  cases a with
  | append new =>
    have hwidth : ∀ r ∈ recordsOf 0 (held ++ new), r.length = LOG_REC :=
      length_of_mem_recordsOf hsize hitems (by rwa [Nat.zero_add])
    have hwhole := Records.repair_flatten_append hwidth (show [].length < LOG_REC by decide)
    rw [append_nil] at hwhole
    rw [LogAct.items] at happend
    rw [logStep, repaired, happend]
    exact hwhole
  | crash new bytes =>
    rw [LogAct.items] at happend hitems hids
    rw [length_append] at hids
    have hnew : ∀ item ∈ new, Appendable entryChars item :=
      fun item hitem => hitems item (mem_append_right _ hitem)
    obtain ⟨torn, htorn, htake⟩ := Records.take_flatten_torn (show 0 < LOG_REC by decide)
      (length_of_mem_recordsOf hsize hnew (show held.length + new.length ≤ ID_ROOM from hids)) bytes
    have hkept : ∀ item ∈ held ++ new.take (bytes / LOG_REC), Appendable entryChars item :=
      fun item hitem => hitems item (by
        rcases mem_append.mp hitem with h | h
        · exact mem_append_left _ h
        · exact mem_append_right _ (mem_of_mem_take h))
    have hroom : 0 + (held ++ new.take (bytes / LOG_REC)).length ≤ ID_ROOM := by
      rw [length_append, length_take]
      omega
    have hfile : (s.logStep (.crash new bytes)).log =
        (recordsOf 0 (held ++ new.take (bytes / LOG_REC))).flatten ++ torn := by
      simp only [logStep, happend, hlog]
      rw [recordsOf_append, recordsOf_append, flatten_append, flatten_append,
        take_length_add_append, Nat.zero_add, htake, recordsOf_take, append_assoc]
    rw [repaired, hfile]
    exact Records.repair_flatten_append (length_of_mem_recordsOf hsize hkept hroom) htorn

end Step

theorem kept_sublist (acts : List LogAct) :
    (acts.flatMap LogAct.kept).Sublist (acts.flatMap LogAct.items) := by
  induction acts with
  | nil => exact .refl _
  | cons a acts ih =>
    rw [flatMap_cons, flatMap_cons]
    refine List.Sublist.append ?_ ih
    cases a with
    | append items => exact .refl _
    | crash items bytes => exact take_sublist _ _

section Run

variable {entryChars : Nat} (hsize : entryChars ≤ ENTRY_CHARS_MAX)
include hsize

/-- After a run, repair leaves the records of the memories that were kept. -/
theorem logRun_repaired {acts : List LogAct}
    (hitems : ∀ item ∈ acts.flatMap LogAct.items, Appendable entryChars item)
    (hids : (acts.flatMap LogAct.items).length ≤ ID_ROOM) :
    ((create entryChars).logRun acts).repaired.log =
      (recordsOf 0 (acts.flatMap LogAct.kept)).flatten := by
  induction acts using List.reverseRecOn with
  | nil => rfl
  | append_singleton acts a ih =>
    have hkept := kept_sublist acts
    have hlength := hkept.length_le
    simp only [flatMap_append, flatMap_singleton, length_append] at hitems hids ⊢
    have hlog := ih (fun item hitem => hitems item (mem_append_left _ hitem)) (by omega)
    rw [logRun, foldl_append]
    refine logStep_repaired hsize (fun item hitem => hitems item ?_)
      (by rw [length_append]; omega) hlog rfl
    rcases mem_append.mp hitem with h | h
    · exact mem_append_left _ (hkept.subset h)
    · exact mem_append_right _ h

variable {acts : List LogAct}
  (hitems : ∀ item ∈ acts.flatMap LogAct.items, Appendable entryChars item)
  (hids : (acts.flatMap LogAct.items).length ≤ ID_ROOM)
include hitems hids

theorem width_kept : ∀ r ∈ recordsOf 0 (acts.flatMap LogAct.kept), r.length = LOG_REC := by
  have hlength := (kept_sublist acts).length_le
  exact length_of_mem_recordsOf hsize
    (fun item hitem => hitems item ((kept_sublist acts).subset hitem)) (by omega)

theorem append_of_run {before after : List LogAct} {items : List (String × JsString)}
    (hacts : acts = before ++ .append items :: after) :
    ((create entryChars).logRun before).append items =
      (.ok (before.flatMap LogAct.kept).length, { (create entryChars).logRun before with
        log := (recordsOf 0 (before.flatMap LogAct.kept ++ items)).flatten }) := by
  subst hacts
  have hkept := kept_sublist before
  have hlength := hkept.length_le
  simp only [flatMap_append, flatMap_cons, length_append, LogAct.items] at hitems hids
  have hbefore : ∀ item ∈ before.flatMap LogAct.items, Appendable entryChars item :=
    fun item hitem => hitems item (mem_append_left _ hitem)
  refine append_eq hsize (fun item hitem => hitems item ?_) (by rw [length_append]; omega)
    (logRun_repaired hsize hbefore (by omega))
  rcases mem_append.mp hitem with h | h
  · exact mem_append_left _ (hkept.subset h)
  · exact mem_append_right _ (mem_append_left _ h)

theorem logSafe : LogSafe entryChars acts := by
  have hpart : ∀ {before after : List LogAct}, acts = before ++ after →
      (∀ item ∈ before.flatMap LogAct.items, Appendable entryChars item) ∧
        (before.flatMap LogAct.items).length ≤ ID_ROOM := by
    rintro before after rfl
    rw [flatMap_append] at hitems hids
    rw [length_append] at hids
    exact ⟨fun item hitem => hitems item (mem_append_left _ hitem), by omega⟩
  refine ⟨?_, fun before items hacts => ?_, fun before after hacts => ?_,
    fun before items after hacts => ?_⟩
  · rw [logRun_repaired hsize hitems hids,
      Records.length_flatten_of_width (width_kept hsize hitems hids), length_recordsOf]
  · have happend := append_of_run hsize hitems hids hacts
    have hlog := logRun_repaired hsize hitems hids
    have hfile : ((create entryChars).logRun acts).log =
        ((create entryChars).logRun acts).repaired.log := by
      rw [hlog, hacts, logRun, foldl_append, foldl_cons, foldl_nil, ← logRun, logStep,
        happend, flatMap_append, flatMap_singleton, LogAct.kept]
    rw [repaired] at hfile ⊢
    dsimp only at hfile
    rw [← hfile]
  · obtain ⟨hitems', hids'⟩ := hpart hacts
    rw [logRun_repaired hsize hitems hids, logRun_repaired hsize hitems' hids',
      Records.records_flatten (by decide) (width_kept hsize hitems hids),
      Records.records_flatten (by decide) (width_kept hsize hitems' hids'), hacts,
      flatMap_append, recordsOf_append]
    exact prefix_append _ _
  · rw [append_of_run hsize hitems hids hacts]

end Run

/-- After a run of appends and crashes the readers return what was kept, exactly when its texts are
well formed. No memory moves or loses its id either way. -/
theorem log_read_back_iff {entryChars : Nat} (hsize : entryChars ≤ ENTRY_CHARS_MAX)
    {acts : List LogAct}
    (hitems : ∀ item ∈ acts.flatMap LogAct.items, Appendable entryChars item)
    (hids : (acts.flatMap LogAct.items).length ≤ ID_ROOM) :
    (((create entryChars).logRun acts).repaired.Reads (entriesFrom 0 (acts.flatMap LogAct.kept)) ↔
      ∀ item ∈ acts.flatMap LogAct.kept, Unicode.WellFormed item.2.units) ∧
    LogSafe entryChars acts := by
  refine ⟨?_, logSafe hsize hitems hids⟩
  have hlength := (kept_sublist acts).length_le
  have hreads := reads_of_whole (width_kept hsize hitems hids) (logRun_repaired hsize hitems hids)
  rw [decode_recordsOf (fun item hitem => hitems item ((kept_sublist acts).subset hitem))
    (by omega)] at hreads
  rw [← entriesFrom_repaired_iff]
  exact ⟨fun h => hreads.unique h, fun heq => heq ▸ hreads⟩

/-- An append, a crash inside the next record, and another append. -/
def crashedRun : List LogAct :=
  [.append [("2026-01-01", ⟨[0x61]⟩)], .crash [("2026-01-02", ⟨[0x62]⟩)] 100, .append [("2026-01-03", ⟨[0x63]⟩)]]

theorem log_read_back_crashed :
    ((create 280).logRun crashedRun).repaired.Reads
        (entriesFrom 0 [("2026-01-01", ⟨[0x61]⟩), ("2026-01-03", ⟨[0x63]⟩)]) ∧
      LogSafe 280 crashedRun := by
  have hone : ∀ (date : String) (text : JsString), isCalendarDate date = true →
      (create 280).checkEntry text = .ok text → Appendable 280 (date, text) :=
    fun _ text hdate htext => ⟨hdate, text, htext⟩
  have hitems : ∀ item ∈ crashedRun.flatMap LogAct.items, Appendable 280 item := by
    intro item hitem
    have hcases : item = ("2026-01-01", ⟨[0x61]⟩) ∨ item = ("2026-01-02", ⟨[0x62]⟩) ∨
        item = ("2026-01-03", ⟨[0x63]⟩) := by
      simpa [crashedRun, LogAct.items] using hitem
    rcases hcases with rfl | rfl | rfl
    · exact hone _ _ (by decide) (by decide)
    · exact hone _ _ (by decide) (by decide)
    · exact hone _ _ (by decide) (by decide)
  have hspec := log_read_back_iff (by decide) hitems (by decide)
  refine ⟨hspec.1.mpr fun item hitem => ?_, hspec.2⟩
  have hcases : item = ("2026-01-01", ⟨[0x61]⟩) ∨ item = ("2026-01-03", ⟨[0x63]⟩) := by
    simpa [crashedRun, LogAct.kept, LOG_REC] using hitem
  rcases hcases with rfl | rfl
  · exact Unicode.repaired_eq_iff.mp (by decide)
  · exact Unicode.repaired_eq_iff.mp (by decide)

/-- A lone surrogate is accepted, and read back as the replacement character. -/
theorem lone_surrogate_replaced :
    Appendable 280 ("2026-01-01", ⟨[0xD800]⟩) ∧
      ((create 280).append [("2026-01-01", ⟨[0xD800]⟩)]).2.logScan =
        ([{ id := some 0, date := "2026-01-01", text := ⟨[0xFFFD]⟩ }], none) :=
  ⟨⟨by decide, ⟨[0xD800]⟩, by decide⟩, by decide +kernel⟩

end MemoryStore

end Harness
