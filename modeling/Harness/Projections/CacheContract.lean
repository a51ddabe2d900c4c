-- SUMMARY: In every run in which a detach write lands behind the drain of its session, the rows of the projection cache are folds of the stored log and its cold reads refold it.
import Harness.Projections.Cache

/-!
# What the cache holds

A cut is taken from a log that may reach beyond what is stored. The flush brings the stored
log up to the cut before the record is put; the write at detach has no flush, so its record
is ahead of the stored log until the retirement has drained the session, and stays ahead
where the drain does not come to that.
-/

namespace Harness.SessionProjections

open List Transitions

variable {S V : Type}

namespace Cache

/-! ## Statements -/

/-- The rows stored under the identity of the stored log are folds of it. -/
def RowsRight (catalogue : Catalogue S V) (c : Cache S V) : Prop :=
  ∀ record, c.recordFor c.identity = some record → Right catalogue c.stored record.rows

/-- A cold read that is served now is served the full refold of the stored log. -/
def ColdReadsRefold (c : Cache S V) : Prop :=
  ∀ read ∈ c.reads, ∀ snapshot rows, c.coldSettle read = some (snapshot, rows) →
    Refolds (if read.floor = none then [] else c.units) c.stored snapshot

/-- What the listing read shows now was folded from events of the stored log, up to the
snapshot's watermark or beyond. -/
def ListingRight (c : Cache S V) : Prop :=
  ∀ snapshot, c.cachedSnapshot c.identity = some (some snapshot) →
    ∀ key value, (key, value) ∈ snapshot.values →
      ∃ definition ∈ c.units, definition.key = key ∧ ∃ n ≤ c.stored.length,
        snapshot.asOfSeq < n ∧
        (definition.fold (c.stored.take n)).bind definition.value = some value

/-- The condition on one step: a write cut at detach does not land on the log it was cut
from before the drain has stored what it was folded from. -/
def Drained (c : Cache S V) : Action → Prop
  | .landed i => ∀ write ∈ c.writes[i]?, write.detached = true → write.identity = c.identity →
      write.events.length ≤ c.stored.length
  | _ => True

/-! ## The invariant -/

/-- The invariant of a pending write, where it is of the stored log. -/
structure WriteInv (catalogue : Catalogue S V) (c : Cache S V) (write : PendingWrite S) : Prop where
  known : write.identity ∈ c.identity :: c.past
  events : write.identity = c.identity → write.events <+: c.log
  rows : Right catalogue write.events write.rows
  stored : write.identity = c.identity → write.stage = .putting → write.detached = false →
    write.events.length ≤ c.stored.length

/-- The invariant of a record, stored or read. -/
structure RecordInv (catalogue : Catalogue S V) (c : Cache S V) (record : CheckpointRecord S) :
    Prop where
  known : record.identity ∈ c.identity :: c.past
  rows : record.identity = c.identity → Right catalogue c.stored record.rows

/-- The invariant of a cold read in progress: its floor is within the log it may be
restored over. -/
structure ReadInv (catalogue : Catalogue S V) (c : Cache S V) (read : ColdRead S) : Prop where
  cached : ∀ record ∈ read.cached, RecordInv catalogue c record
  floor : ∀ record ∈ read.cached, record.identity = c.identity → ∀ floor ∈ read.floor,
    floor ≤ c.stored.length
  /-- Where there was no record the whole log is read. -/
  uncached : read.cached = none → ∀ floor ∈ read.floor, floor = 0
  whole : ∀ identity ∈ read.whole, identity ∈ c.identity :: c.past

structure Inv (catalogue : Catalogue S V) (c : Cache S V) : Prop where
  numbered : Numbered c.log
  stored : c.stored <+: c.log
  units : ∀ definition ∈ c.units, catalogue.Holds definition
  writes : ∀ write ∈ c.writes, WriteInv catalogue c write
  record : ∀ record ∈ c.record, RecordInv catalogue c record
  reads : ∀ read ∈ c.reads, ReadInv catalogue c read

variable {catalogue : Catalogue S V} {c c' : Cache S V}

theorem Inv.storedNumbered (h : Inv catalogue c) : Numbered c.stored := by
  rw [prefix_iff_eq_take.mp h.stored]
  exact h.numbered.take _

/-- The lifecycle goes on: nothing stored and nothing logged is lost. -/
structure Grows (c c' : Cache S V) : Prop where
  identity : c'.identity = c.identity
  past : c'.past = c.past
  stored : c.stored <+: c'.stored
  log : c.log <+: c'.log

variable {write : PendingWrite S}

theorem WriteInv.grow (h : WriteInv catalogue c write)
    (hgrows : Grows c c') : WriteInv catalogue c' write where
  known := by
    rw [hgrows.identity, hgrows.past]
    exact h.known
  events hidentity := (h.events (hidentity.trans hgrows.identity)).trans hgrows.log
  rows := h.rows
  stored hidentity hstage hattached :=
    (h.stored (hidentity.trans hgrows.identity) hstage hattached).trans hgrows.stored.length_le

theorem RecordInv.grow {record : CheckpointRecord S} (h : RecordInv catalogue c record)
    (hgrows : Grows c c') : RecordInv catalogue c' record where
  known := by
    rw [hgrows.identity, hgrows.past]
    exact h.known
  rows hidentity := (h.rows (hidentity.trans hgrows.identity)).grow hgrows.stored

variable {read : ColdRead S}

theorem ReadInv.grow (h : ReadInv catalogue c read) (hgrows : Grows c c') :
    ReadInv catalogue c' read where
  cached record hmem := (h.cached record hmem).grow hgrows
  floor record hmem hidentity floor hfloor :=
    (h.floor record hmem (hidentity.trans hgrows.identity) floor hfloor).trans
      hgrows.stored.length_le
  uncached := h.uncached
  whole identity hmem := by
    rw [hgrows.identity, hgrows.past]
    exact h.whole identity hmem

/-- A step that goes on in the lifecycle keeps the invariant of what it leaves alone. -/
theorem Inv.grow (h : Inv catalogue c) (hgrows : Grows c c') (hnumbered : Numbered c'.log)
    (hstored : c'.stored <+: c'.log)
    (hunits : ∀ definition ∈ c'.units, catalogue.Holds definition)
    (hwrites : ∀ write ∈ c'.writes, write ∈ c.writes ∨ WriteInv catalogue c' write)
    (hrecord : ∀ record ∈ c'.record, record ∈ c.record ∨ RecordInv catalogue c' record)
    (hreads : ∀ read ∈ c'.reads, read ∈ c.reads ∨ ReadInv catalogue c' read) :
    Inv catalogue c' where
  numbered := hnumbered
  stored := hstored
  units := hunits
  writes write hmem := (hwrites write hmem).elim (fun hmem => (h.writes write hmem).grow hgrows) id
  record record hmem :=
    (hrecord record hmem).elim (fun hmem => (h.record record hmem).grow hgrows) id
  reads read hmem := (hreads read hmem).elim (fun hmem => (h.reads read hmem).grow hgrows) id

/-! ## Session steps -/

/-- The session's log grows. -/
theorem Inv.withSession (h : Inv catalogue c) {session : Lifecycle}
    (hlog : c.log <+: { c with session }.log) (hnumbered : Numbered { c with session }.log) :
    Inv catalogue { c with session } :=
  h.grow ⟨rfl, rfl, prefix_rfl, hlog⟩ hnumbered (h.stored.trans hlog) h.units
    (fun _ => .inl) (fun _ => .inl) (fun _ => .inl)

theorem markClean_log (session : Lifecycle) :
    { c with session := markClean session }.log = { c with session }.log := by
  cases session <;> rfl

/-- A checkpoint write takes a cut that is right for the log. -/
theorem Inv.flushSoft (h : Inv catalogue c) (detached : Bool) :
    Inv catalogue (c.flushSoft detached) := by
  unfold Cache.flushSoft
  cases hcut : cut c.units c.log with
  | none => exact h
  | some rows =>
    have hlog : { c with session := markClean c.session }.log = c.log := markClean_log c.session
    refine h.grow ⟨rfl, rfl, prefix_rfl, ?_⟩ ?_ ?_ h.units ?_ (fun _ => .inl) (fun _ => .inl)
    · exact hlog.symm ▸ prefix_rfl
    · exact hlog.symm ▸ h.numbered
    · exact hlog.symm ▸ h.stored
    · intro write hmem
      rcases mem_append.mp hmem with hmem | hmem
      · exact .inl hmem
      right
      rw [mem_singleton.mp hmem]
      refine ⟨mem_cons_self, fun _ => ?_, cut_right h.units hcut, fun _ hstage hattached => ?_⟩
      · exact hlog.symm ▸ prefix_rfl
      simp only at hattached
      rw [hattached] at hstage
      cases hstage

variable {events : List SessionEvent}

/-- The log of a live session grows by one event. -/
theorem Inv.live_concat (h : Inv catalogue c)
    {dirty dirty' : DirtyState} {event : SessionEvent} (hsession : c.session = .live events dirty)
    (hseq : event.seq = events.length) :
    Inv catalogue { c with session := .live (events ++ [event]) dirty' } := by
  have hlog : c.log = events := by rw [log, hsession]
  have hnumbered : Numbered events := hlog ▸ h.numbered
  refine h.withSession ?_ ?_
  · rw [hlog]
    exact prefix_append events [event]
  · exact hnumbered.concat (by omega)

variable {dirty : DirtyState}

theorem Inv.append (h : Inv catalogue c)
    {event : SessionEvent} (hsession : c.session = .live events dirty)
    (hseq : event.seq = events.length) :
    Inv catalogue (c.onEvent (events ++ [event]) dirty event) := by
  unfold Cache.onEvent
  split
  · exact (h.live_concat hsession hseq).flushSoft false
  simp only
  split
  · exact (h.live_concat hsession hseq).flushSoft false
  · exact h.live_concat hsession hseq

theorem Inv.sameLog (h : Inv catalogue c) {session : Lifecycle}
    (hlog : { c with session }.log = c.log) : Inv catalogue { c with session } :=
  h.withSession (hlog ▸ prefix_rfl) (hlog ▸ h.numbered)

/-- Storing more changes nothing about the log. -/
theorem persist_log {n : Nat} (hlow : c.stored.length ≤ n) :
    { c with stored := c.log.take n }.log = c.log := by
  cases hsession : c.session with
  | cold => simpa [log, hsession] using take_of_length_le hlow
  | live events dirty => simp [log, hsession]
  | retiring events => simp [log, hsession]

/-- Persistence stores more of the log. -/
theorem Inv.persist (h : Inv catalogue c) {n : Nat} (hlow : c.stored.length ≤ n) :
    Inv catalogue { c with stored := c.log.take n } := by
  have hlog : { c with stored := c.log.take n }.log = c.log := persist_log hlow
  refine h.grow ⟨rfl, rfl, ?_, hlog.symm ▸ prefix_rfl⟩ (hlog.symm ▸ h.numbered) ?_
    h.units (fun _ => .inl) (fun _ => .inl) (fun _ => .inl)
  · refine prefix_of_prefix_length_le h.stored (List.take_prefix n c.log) ?_
    have := h.stored.length_le
    rw [length_take]
    omega
  · rw [hlog]
    exact take_prefix n c.log

/-- The retired session is drained: the stored log is its log. -/
theorem Inv.retired (h : Inv catalogue c)
    (hsession : c.session = .retiring events) (hdrained : c.stored.length = events.length) :
    Inv catalogue { c with session := .cold } := by
  refine h.sameLog ?_
  have hlog : c.log = events := by rw [log, hsession]
  rw [hlog]
  exact (hlog ▸ h.stored).eq_of_length hdrained

/-- The stored log becomes a live session. -/
theorem Inv.resume (h : Inv catalogue c) {closers : List SessionEvent}
    (hsession : c.session = .cold) (hclosers : numberedFrom c.stored.length closers = true) :
    Inv catalogue
      { c with stored := c.stored ++ closers, session := .live (c.stored ++ closers) dirty } := by
  have hlog : c.log = c.stored := by rw [log, hsession]
  refine h.grow ⟨rfl, rfl, prefix_append _ _, ?_⟩ ?_ prefix_rfl h.units
    (fun _ => .inl) (fun _ => .inl) (fun _ => .inl)
  · rw [hlog]
    exact prefix_append _ _
  · exact h.storedNumbered.append (numberedFrom_iff.mp hclosers)

theorem ne_of_known {identity known : CheckpointIdentity} {identities : List CheckpointIdentity}
    (hfresh : identity ∉ identities) (hknown : known ∈ identities) : known ≠ identity :=
  fun heq => hfresh (heq ▸ hknown)

variable {identity : CheckpointIdentity}

/-- A record is of another log than that of a new header. -/
theorem RecordInv.other {record : CheckpointRecord S}
    (h : RecordInv catalogue c record) (hfresh : identity ∉ c.identity :: c.past)
    (hidentity : c'.identity = identity := by rfl)
    (hpast : c'.past = c.identity :: c.past := by rfl) : RecordInv catalogue c' record where
  known := by
    rw [hidentity, hpast]
    exact mem_cons_of_mem _ h.known
  rows heq := absurd (heq.trans hidentity) (ne_of_known hfresh h.known)

/-- A new header names a log of its own: nothing of the old one is taken for it. -/
theorem Inv.create (h : Inv catalogue c)
    {seed : List SessionEvent} (hfresh : identity ∉ c.identity :: c.past)
    (hseed : Numbered seed) :
    Inv catalogue
      { c with
        identity, past := c.identity :: c.past, stored := [], session := .live seed dirty } where
  numbered := hseed
  stored := nil_prefix
  units := h.units
  writes write hmem := by
    have hwrite := h.writes write hmem
    exact {
      known := mem_cons_of_mem _ hwrite.known
      events := fun heq => absurd heq (ne_of_known hfresh hwrite.known)
      rows := hwrite.rows
      stored := fun heq => absurd heq (ne_of_known hfresh hwrite.known) }
  record record hmem := (h.record record hmem).other hfresh
  reads read hmem := by
    have hread := h.reads read hmem
    exact {
      cached := fun record hmem => (hread.cached record hmem).other hfresh
      floor := fun record hmem heq =>
        absurd heq (ne_of_known hfresh (hread.cached record hmem).known)
      uncached := hread.uncached
      whole := fun identity hmem => mem_cons_of_mem _ (hread.whole identity hmem) }

/-- A crash loses what is not stored, and every write and read in progress. -/
theorem Inv.crash (h : Inv catalogue c) :
    Inv catalogue { c with session := .cold, writes := [], reads := [] } where
  numbered := h.storedNumbered
  stored := prefix_rfl
  units := h.units
  writes := by simp
  record record hmem := ⟨(h.record record hmem).known, (h.record record hmem).rows⟩
  reads := by simp

/-! ## Write and read steps -/

/-- What is done in one place of the list of writes, and nothing else. -/
theorem Inv.withWrites (h : Inv catalogue c) {writes : List (PendingWrite S)}
    (hwrites : ∀ write ∈ writes, write ∈ c.writes ∨ WriteInv catalogue c write) :
    Inv catalogue { c with writes } :=
  h.grow ⟨rfl, rfl, prefix_rfl, prefix_rfl⟩ h.numbered h.stored h.units
    (fun write hmem => (hwrites write hmem).imp id fun hwrite =>
      hwrite.grow ⟨rfl, rfl, prefix_rfl, prefix_rfl⟩)
    (fun _ => .inl) (fun _ => .inl)

theorem writeStep_some {i : Nat} {stage : WriteStage} {next : PendingWrite S → Option (Cache S V)}
    (hstep : c.writeStep i stage next = some c') :
    ∃ write, c.writes[i]? = some write ∧ write ∈ c.writes ∧ write.stage = stage ∧
      next write = some c' := by
  obtain ⟨write, hwrite, hnext⟩ := Option.bind_eq_some_iff.mp hstep
  split at hnext
  · rename_i hstage
    exact ⟨write, hwrite, mem_of_getElem? hwrite, hstage, hnext⟩
  · cases hnext

/-- A flush that resolves has the cut stored. -/
theorem Inv.flushed (h : Inv catalogue c) (i : Nat) (hmem : write ∈ c.writes)
    (hflushed : ¬ (write.identity = c.identity ∧ c.stored.length < write.events.length)) :
    Inv catalogue { c with writes := c.writes.set i { write with stage := .putting } } := by
  refine h.withWrites fun other hother => ?_
  rcases mem_or_eq_of_mem_set hother with hother | rfl
  · exact .inl hother
  right
  exact { h.writes write hmem with
    stored := fun hidentity _ _ => Nat.le_of_not_lt fun hlt => hflushed ⟨hidentity, hlt⟩ }

/-- A write that fails leaves the record as it was. -/
theorem Inv.dropWrite (h : Inv catalogue c) (i : Nat) :
    Inv catalogue { c with writes := c.writes.eraseIdx i } :=
  h.withWrites fun _ hmem => .inl (mem_of_mem_eraseIdx hmem)

/-- The record of a write whose events are stored is right. -/
theorem Inv.landed (h : Inv catalogue c) (i : Nat)
    (hmem : write ∈ c.writes) (hstage : write.stage = .putting)
    (hdrained : write.detached = true → write.identity = c.identity →
      write.events.length ≤ c.stored.length) :
    Inv catalogue { c with
      record := some { identity := write.identity, rows := write.rows }
      writes := c.writes.eraseIdx i } := by
  have hwrite := h.writes write hmem
  refine h.grow ⟨rfl, rfl, prefix_rfl, prefix_rfl⟩ h.numbered h.stored h.units
    (fun _ hmem => .inl (mem_of_mem_eraseIdx hmem)) (fun record hrecord => .inr ?_)
    (fun _ => .inl)
  cases hrecord
  refine ⟨hwrite.known, fun hidentity => ?_⟩
  have hlength : write.events.length ≤ c.stored.length := by
    cases hdetached : write.detached with
    | true => exact hdrained hdetached hidentity
    | false => exact hwrite.stored hidentity hstage hdetached
  have hprefix : write.events <+: c.stored :=
    prefix_of_prefix_length_le (hwrite.events hidentity) h.stored hlength
  exact hwrite.rows.grow hprefix

theorem identityMatches_iff {stored expected : CheckpointIdentity} :
    identityMatches stored expected = true ↔ stored = expected := by
  cases stored
  cases expected
  simp [identityMatches]

/-- No row pulls the floor to the first event. -/
theorem restoreFloor_nil {units : List (ProjectionDefinition S V)} {floor : Nat}
    (hfloor : restoreFloor units ([] : ProjectionCheckpoint S) = some floor) : floor = 0 := by
  obtain ⟨lowest, hlowest, rfl⟩ := Option.map_eq_some_iff.mp hfloor
  obtain ⟨definition, _, hneeded⟩ := mem_map.mp (min?_mem hlowest)
  rw [← hneeded]
  rfl

theorem Inv.coldSnapshot (h : Inv catalogue c) :
    Inv catalogue { c with
      reads := c.reads ++
        [{ cached := c.record
           floor := restoreFloor c.units ((c.record.map (·.rows)).getD []), whole := none }] } := by
  refine h.grow ⟨rfl, rfl, prefix_rfl, prefix_rfl⟩ h.numbered h.stored h.units (fun _ => .inl)
    (fun _ => .inl) fun read hmem => ?_
  rcases mem_append.mp hmem with hmem | hmem
  · exact .inl hmem
  right
  rw [mem_singleton.mp hmem]
  refine ⟨fun record hrecord => ?_, fun record hrecord hidentity floor hfloor => ?_,
    fun hnone floor hfloor => ?_, fun identity hidentity => ?_⟩
  · exact { h.record record hrecord with }
  · have hright : Right catalogue c.stored record.rows := (h.record record hrecord).rows hidentity
    have hrows : (c.record.map (·.rows)).getD [] = record.rows := by
      have hrecord : c.record = some record := hrecord
      rw [hrecord]
      rfl
    exact hright.floor_le h.units (hrows ▸ hfloor)
  · have hnone : c.record = none := hnone
    rw [hnone] at hfloor
    exact restoreFloor_nil hfloor
  · cases hidentity

/-- A cold read that is served shows the refold of the stored log, and what it writes back
is right for it. -/
theorem Inv.coldSettle (h : Inv catalogue c) (hread : ReadInv catalogue c read)
    {snapshot : ProjectionSnapshot V} {rows : Option (ProjectionCheckpoint S)}
    (hsettle : c.coldSettle read = some (snapshot, rows)) :
    Refolds (if read.floor = none then [] else c.units) c.stored snapshot ∧
      ∀ rows' ∈ rows, Right catalogue c.stored rows' := by
  unfold Cache.coldSettle at hsettle
  cases hfloor : read.floor with
  | none =>
    simp only [hfloor] at hsettle
    cases hsettle
    refine ⟨⟨?_, rfl⟩, by simp⟩
    simpa using endSeq_drop h.storedNumbered (Nat.zero_le _)
  | some floor =>
    simp only [hfloor] at hsettle
    rw [if_neg (by simp)]
    cases hwhole : read.whole with
    | some identity =>
      simp only [hwhole, Option.map_eq_some_iff] at hsettle
      obtain ⟨⟨snapshot', rows'⟩, hrestore, heq⟩ := hsettle
      cases heq
      obtain ⟨hrefolds, hright⟩ := restore_refolds h.storedNumbered (.nil catalogue c.stored)
        h.units (Nat.zero_le _) hrestore
      refine ⟨hrefolds, fun rows hmem => ?_⟩
      cases hmem
      exact hright
    | none =>
      simp only [hwhole] at hsettle
      split at hsettle
      · rename_i hrelated
        obtain ⟨⟨snapshot', rows'⟩, hrestore, heq⟩ := Option.map_eq_some_iff.mp hsettle
        cases heq
        have hseed : Right catalogue c.stored ((read.cached.map (·.rows)).getD []) ∧
            floor ≤ c.stored.length := by
          cases hcached : read.cached with
          | none =>
            rw [hread.uncached hcached floor hfloor]
            exact ⟨.nil catalogue c.stored, Nat.zero_le _⟩
          | some record =>
            rw [hcached] at hrelated
            have hidentity : record.identity = c.identity :=
              identityMatches_iff.mp (by simpa using hrelated)
            exact ⟨(hread.cached record hcached).rows hidentity,
              hread.floor record hcached hidentity floor hfloor⟩
        obtain ⟨hrefolds, hright⟩ :=
          restore_refolds h.storedNumbered hseed.1 h.units hseed.2 hrestore
        refine ⟨hrefolds, fun rows hmem => ?_⟩
        cases hmem
        exact hright
      · cases hsettle

theorem Inv.withReads (h : Inv catalogue c) {reads : List (ColdRead S)}
    (hreads : ∀ read ∈ reads, read ∈ c.reads ∨ ReadInv catalogue c read) :
    Inv catalogue { c with reads } :=
  h.grow ⟨rfl, rfl, prefix_rfl, prefix_rfl⟩ h.numbered h.stored h.units (fun _ => .inl)
    (fun _ => .inl) fun read hmem => (hreads read hmem).imp id fun hread =>
      hread.grow ⟨rfl, rfl, prefix_rfl, prefix_rfl⟩

/-- A cold read is served and writes back, or reads the whole log next, or rejects. -/
theorem Inv.coldRead (h : Inv catalogue c) {i : Nat} (hmem : read ∈ c.reads) :
    Inv catalogue (match c.coldSettle read with
      | some (_, rows) =>
        { c with
          reads := c.reads.eraseIdx i
          writes := c.writes ++ rows.toList.map fun rows =>
            { identity := read.whole.getD c.identity, rows, events := c.stored
              stage := .putting, detached := false } }
      | none =>
        match read.whole with
        | none => { c with reads := c.reads.set i { read with whole := some c.identity } }
        | some _ => { c with reads := c.reads.eraseIdx i }) := by
  have hread := h.reads read hmem
  have hdropped : Inv catalogue { c with reads := c.reads.eraseIdx i } :=
    h.withReads fun _ hmem => .inl (mem_of_mem_eraseIdx hmem)
  cases hsettle : c.coldSettle read with
  | some settled =>
    obtain ⟨snapshot, rows⟩ := settled
    obtain ⟨_, hright⟩ := h.coldSettle hread hsettle
    refine hdropped.withWrites fun write hwrite => ?_
    rcases mem_append.mp hwrite with hwrite | hwrite
    · exact .inl hwrite
    right
    obtain ⟨rows', hrows', rfl⟩ := mem_map.mp hwrite
    refine ⟨?_, fun _ => h.stored, hright rows' (by simpa using hrows'), fun _ _ _ => Nat.le_refl _⟩
    cases hwhole : read.whole with
    | none => exact mem_cons_self
    | some identity => exact hread.whole identity hwhole
  | none =>
    cases hwhole : read.whole with
    | none =>
      refine h.withReads fun other hother => ?_
      rcases mem_or_eq_of_mem_set hother with hother | rfl
      · exact .inl hother
      right
      refine { hread with whole := fun identity hidentity => ?_ }
      cases hidentity
      exact mem_cons_self
    | some identity => exact hdropped

/-! ## Runs -/

/-- A step keeps the invariant where no detach write lands ahead of the drain. -/
theorem Inv.step {act : Action} (h : Inv catalogue c) (hdrained : c.Drained act)
    (hstep : c.step catalogue act = some c') : Inv catalogue c' := by
  cases act with
  | register keys =>
    simp only [Cache.step] at hstep
    split at hstep
    · cases hstep
      refine h.grow ⟨rfl, rfl, prefix_rfl, prefix_rfl⟩ h.numbered h.stored
        (fun definition hmem => ?_) (fun _ => .inl) (fun _ => .inl) (fun _ => .inl)
      obtain ⟨⟨key, version⟩, _, hunit⟩ := mem_filterMap.mp hmem
      rw [Catalogue.Holds, catalogue.key hunit, catalogue.stateVersion hunit]
      exact hunit
    · cases hstep
  | append event =>
    simp only [Cache.step] at hstep
    split at hstep
    · rename_i events dirty hsession
      split at hstep
      · rename_i hseq
        cases hstep
        exact h.append hsession hseq
      · cases hstep
    · cases hstep
  | interval =>
    simp only [Cache.step] at hstep
    split at hstep
    · rename_i events dirty hsession
      split at hstep
      · cases hstep
        refine (h.sameLog ?_).flushSoft false
        rw [log, log, hsession]
      · cases hstep
    · cases hstep
  | write =>
    simp only [Cache.step] at hstep
    split at hstep
    · cases hstep
      exact h.flushSoft false
    · cases hstep
  | detach =>
    simp only [Cache.step] at hstep
    split at hstep
    · rename_i events dirty hsession
      cases hstep
      refine (h.sameLog ?_).flushSoft true
      rw [log, log, hsession]
    · cases hstep
  | persist n =>
    simp only [Cache.step] at hstep
    split at hstep
    · rename_i hbounds
      cases hstep
      exact h.persist hbounds.1
    · cases hstep
  | flushed i =>
    obtain ⟨write, _, hmem, hstage, hnext⟩ := writeStep_some hstep
    split at hnext
    · cases hnext
    rename_i hflushed
    cases hnext
    exact h.flushed i hmem hflushed
  | flushFailed i =>
    obtain ⟨write, _, hmem, hstage, hnext⟩ := writeStep_some hstep
    cases hnext
    exact h.dropWrite i
  | landed i =>
    obtain ⟨write, hwrite, hmem, hstage, hnext⟩ := writeStep_some hstep
    cases hnext
    exact h.landed i hmem hstage (hdrained write hwrite)
  | putFailed i =>
    obtain ⟨write, _, hmem, hstage, hnext⟩ := writeStep_some hstep
    cases hnext
    exact h.dropWrite i
  | retired =>
    simp only [Cache.step] at hstep
    split at hstep
    · rename_i events hsession
      split at hstep
      · rename_i hall
        cases hstep
        exact h.retired hsession hall
      · cases hstep
    · cases hstep
  | crash =>
    cases hstep
    exact h.crash
  | resume closers =>
    simp only [Cache.step] at hstep
    split at hstep
    · rename_i hsession
      split at hstep
      · rename_i hclosers
        cases hstep
        exact h.resume hsession hclosers
      · cases hstep
    · cases hstep
  | create identity seed =>
    simp only [Cache.step] at hstep
    split at hstep
    · split at hstep
      · rename_i hnew
        cases hstep
        exact h.create hnew.1 (numberedFrom_iff.mp hnew.2)
      · cases hstep
    · cases hstep
  | coldSnapshot =>
    cases hstep
    exact h.coldSnapshot
  | coldRead i =>
    obtain ⟨read, hread, rfl⟩ := Option.map_eq_some_iff.mp hstep
    exact h.coldRead (mem_of_getElem? hread)
  | coldFailed i =>
    simp only [Cache.step] at hstep
    split at hstep
    · cases hstep
      exact h.withReads fun _ hmem => .inl (mem_of_mem_eraseIdx hmem)
    · cases hstep

theorem Inv.start {writeEveryEvents : Nat}
    {stored : List SessionEvent} (hstored : Numbered stored) :
    Inv catalogue (start writeEveryEvents identity stored : Cache S V) where
  numbered := hstored
  stored := prefix_rfl
  units := by simp [Cache.start]
  writes := by simp [Cache.start]
  record := by simp [Cache.start]
  reads := by simp [Cache.start]

theorem Inv.rowsRight (h : Inv catalogue c) : c.RowsRight catalogue := by
  intro record hrecord
  obtain ⟨hrecord, hmatches⟩ := Option.filter_eq_some_iff.mp hrecord
  exact (h.record record hrecord).rows (identityMatches_iff.mp hmatches)

theorem Inv.listingRight (h : Inv catalogue c) : c.ListingRight := by
  intro snapshot hsnapshot key value hmem
  unfold Cache.cachedSnapshot at hsnapshot
  split at hsnapshot
  · cases hsnapshot
  rename_i record hrecord
  have hright : Right catalogue c.stored record.rows := h.rowsRight record hrecord
  simp only [hrecord, Option.map_eq_some_iff] at hsnapshot
  obtain ⟨values, hview, lowest, hlowest, rfl⟩ := hsnapshot
  obtain ⟨definition, hunit, row, hkey, hrow, hlow, hhigh, hvalue⟩ :=
    hright.view h.units hview hmem
  refine ⟨definition, hunit, hkey, (row.seq + 1).toNat, by omega, ?_, hvalue⟩
  have hlookup : record.rows.lookup key = some row :=
    hkey ▸ (Option.filter_eq_some_iff.mp hrow).1
  have hwatermark : row.seq ∈ values.filterMap fun e =>
      (record.rows.lookup e.1).map (·.seq) :=
    mem_filterMap.mpr ⟨(key, value), hmem, by simp [hlookup]⟩
  have hmin : lowest ≤ row.seq := (min?_eq_some_iff.mp hlowest).2 row.seq hwatermark
  simp only
  omega

/-- The turns a session has started. -/
def turns : ProjectionDefinition (List Nat) (List Nat) where
  key := "turns"
  schema := some
  init := []
  apply started event :=
    match event.data with
    | .turnStart turn => some (.changed (started ++ [turn]))
    | _ => some .same
  view := some
  stateVersion := 1

def turnsCatalogue : Catalogue (List Nat) (List Nat) where
  unit key version := if key = "turns" ∧ version = 1 then some turns else none
  key := by
    intro key version definition hunit
    split at hunit
    · rename_i h
      cases hunit
      exact h.1.symm
    · cases hunit
  stateVersion := by
    intro key version definition hunit
    split at hunit
    · rename_i h
      cases hunit
      exact h.2.symm
    · cases hunit

def startOf (seq turn : Nat) : SessionEvent := { seq, time := 0, data := .turnStart turn }

def startedAt : CheckpointIdentity := { createdAt := 1700000000000, cwd := none }

/-- The retirement drains the session before the record of its detach is put. -/
def drainedDetach : List Action :=
  [.register [("turns", 1)], .resume [], .append (startOf 0 0), .detach, .persist 1, .landed 0,
    .retired, .coldSnapshot]

/-- The record of a detach is put, the process dies before the drain, and the session goes
on with another turn at the same seq. -/
def regrownLog : List Action :=
  [.register [("turns", 1)], .resume [], .append (startOf 0 0), .detach, .landed 0, .crash,
    .resume [], .append (startOf 0 7), .persist 1, .coldSnapshot]

/-- A listing that shows turn 0 of a log that only has turn 7 is wrong. -/
theorem not_listingRight {c : Cache (List Nat) (List Nat)} (hunits : c.units = [turns])
    (hstored : c.stored = [startOf 0 7])
    (hshown : c.cachedSnapshot c.identity =
      some (some { asOfSeq := 0, values := [("turns", [0])] })) : ¬ c.ListingRight := by
  intro h
  obtain ⟨definition, hunit, _, n, hn, hasOf, hvalue⟩ := h _ hshown "turns" [0] mem_cons_self
  rw [hunits, mem_singleton] at hunit
  rw [hstored] at hn hvalue
  subst hunit
  have hone : n = 1 := by
    simp only [length_singleton] at hn hasOf
    omega
  subst hone
  cases hvalue

end Cache

end Harness.SessionProjections
