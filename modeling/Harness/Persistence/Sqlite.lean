-- SUMMARY: Event rows of the SQLite backend and the scan for their preserved prefix, after `session-persistence-sqlite/src/schema.ts`.
import Harness.Json.Parse
import Harness.Session.ChunkRows
import Harness.Lib.TornLog

/-!
# SQLite rows

One row is one event. A row whose JSON columns do not parse is a hole; a hole through
the last committed turn is corruption, a later one starts the torn tail.
-/

namespace Harness

/-- The own properties of a stored event object. -/
abbrev StoredFields := List (JsString × Json)

/-- An `events` table row; `data` and the surface columns hold JSON text. -/
structure EventRow where
  seq : Int
  type : JsString
  time : Int
  data : JsString
  sourceEventSeqs : Option JsString
  surfaceOp : Option JsString
  ignorable : Option Int

/-- A JSON column that may be `NULL`: the property it spells, or a parse failure. -/
def columnField (key : JsString) : Option JsString → Option StoredFields
  | none => some []
  | some text => (Json.parse text.units).map fun value => [(key, value)]

/-- Reconstruct an event; `none` when a JSON column fails to parse. -/
def rowToEvent (row : EventRow) : Option StoredFields :=
  match columnField "sourceEventSeqs" row.sourceEventSeqs, columnField "surfaceOp" row.surfaceOp,
    Json.parse row.data.units with
  | some sourceEventSeqs, some surfaceOp, some data =>
    let ignorableField : StoredFields :=
      if row.ignorable = some 1 then [("ignorable", .bool true)] else []
    some (("type", .str row.type) :: ("seq", .ofInt row.seq) :: ("time", .ofInt row.time) ::
      ("data", data) :: (sourceEventSeqs ++ surfaceOp ++ ignorableField))
  | _, _, _ => none

/-! ## Scanning -/

def closesTurn (row : EventRow) : Bool := (rowToEvent row).isSome && row.type = "turn/end"

/-- How many rows there are through the last valid `turn/end`. -/
def committedRows : List EventRow → Nat
  | [] => 0
  | row :: rows =>
    let rest := committedRows rows
    if rest > 0 then rest + 1 else if closesTurn row then 1 else 0

/-- The preserve loop at index `i`: the hole that stops it is tolerated from `committed` on. -/
def preserveRows (committed : Nat) (base : Int) (i : Nat) (preserved : List StoredFields) :
    List EventRow → Except String (List StoredFields)
  | [] => .ok preserved
  | row :: rows =>
    match rowToEvent row with
    | none =>
      if i < committed then
        .error s!"corrupt session log: unparsable committed event at seq {row.seq}"
      else .ok preserved
    | some event =>
      if row.seq ≠ base + i then
        if i < committed then
          .error s!"corrupt session log: seq gap in committed region (expected {base + i}, got {row.seq})"
        else .ok preserved
      else preserveRows committed base (i + 1) (preserved ++ [event]) rows

/-- What a scan returns: the preserved prefix and the seq its physical repair starts at. -/
structure ScannedRows where
  preserved : List StoredFields
  tornFrom : Option Int

/-- Find the preserved prefix of event rows ordered by seq; `base` is the seq the first
row is expected to carry. -/
def scanRows (rows : List EventRow) (base : Int) : Except String ScannedRows :=
  (preserveRows (committedRows rows) base 0 [] rows).map fun preserved =>
    { preserved
      tornFrom := if preserved.length < rows.length then some (base + preserved.length) else none }

/-! ## The scan as a torn log -/

/-- A row continues a prefix when it parses and carries the next seq. -/
def readEventRow (base : Int) (preserved : List StoredFields) (row : EventRow) :
    Option (List StoredFields) :=
  match rowToEvent row with
  | none => none
  | some event => if row.seq = base + preserved.length then some (preserved ++ [event]) else none

theorem committedRows_cons (row : EventRow) (rows : List EventRow) :
    committedRows (row :: rows) =
      if committedRows rows > 0 then committedRows rows + 1 else if closesTurn row then 1 else 0 := rfl

theorem committedRows_pos (rows : List EventRow) :
    0 < committedRows rows ↔ rows.any closesTurn = true := by
  induction rows with
  | nil => simp [committedRows]
  | cons row rows ih =>
    rw [List.any_cons, Bool.or_eq_true, ← ih, committedRows_cons]
    split_ifs with hrest hrow
    · exact ⟨fun _ => .inr hrest, fun _ => Nat.succ_pos _⟩
    · exact ⟨fun _ => .inl hrow, fun _ => Nat.one_pos⟩
    · exact ⟨fun h => absurd h (Nat.lt_irrefl 0), fun h => absurd h (not_or.mpr ⟨hrow, hrest⟩)⟩

/-- The loop refuses or stops exactly as a torn log does. -/
theorem preserveRows_eq_scan (base : Int) (preserved : List StoredFields) (rows : List EventRow)
    (committed : Nat) (hcommitted : committed = preserved.length + committedRows rows ∨
      (committed ≤ preserved.length ∧ committedRows rows = 0)) :
    (preserveRows committed base preserved.length preserved rows).toOption =
      TornLog.scan (readEventRow base) closesTurn preserved rows := by
  induction rows generalizing preserved with
  | nil => rfl
  | cons row rows ih =>
    have hpos := committedRows_pos (row :: rows)
    have hlt : preserved.length < committed ↔ (row :: rows).any closesTurn = true := by
      rw [← hpos]
      omega
    have hhole : ∀ e : String,
        (if preserved.length < committed then Except.error e else .ok preserved).toOption =
          if (row :: rows).any closesTurn = true then none else some preserved := by
      intro e
      by_cases hany : (row :: rows).any closesTurn = true
      · rw [if_pos (hlt.mpr hany), if_pos hany]
        rfl
      · rw [if_neg (fun h => hany (hlt.mp h)), if_neg hany]
        rfl
    unfold preserveRows TornLog.scan readEventRow
    cases hrow : rowToEvent row with
    | none => exact hhole _
    | some event =>
      by_cases hseq : row.seq = base + preserved.length
      · simp only [hseq, ne_eq, not_true_eq_false, if_false, if_true]
        have hnext := ih (preserved ++ [event]) (by
          rw [List.length_append, List.length_singleton]
          rcases hcommitted with hcount | ⟨hle, hnone⟩
          · rw [committedRows_cons] at hcount
            split_ifs at hcount <;> omega
          have hrest : ¬ committedRows rows > 0 := fun h => by
            rw [committedRows_cons, if_pos h] at hnone
            cases hnone
          omega)
        rw [List.length_append, List.length_singleton] at hnext
        exact hnext
      · simp only [hseq, ne_eq, not_false_eq_true, if_true, if_false]
        exact hhole _

theorem scanRows_eq_scan (rows : List EventRow) (base : Int) :
    (scanRows rows base).toOption.map (·.preserved) =
      TornLog.scan (readEventRow base) closesTurn [] rows := by
  rw [← preserveRows_eq_scan base [] rows (committedRows rows) (.inl (by simp))]
  unfold scanRows
  cases preserveRows (committedRows rows) base 0 [] rows <;> rfl

end Harness
