-- SUMMARY: The JSONL scanner gives the same result however the bytes after the header are split into chunks.
import Harness.Persistence.JsonlScan

namespace Harness

open List
open TornLog (unlines lines)
namespace SessionLogScanner

variable (s : SessionLogScanner)

/-- The chunks of a file one after the other. -/
def writeAll (chunks : List (List UInt8)) : Except String SessionLogScanner :=
  chunks.foldlM write s

/-! ## Carried state -/

def counted (inputBytes : Nat) : SessionLogScanner := { s with inputBytes }

/-- The count of input bytes is not read by the lines. -/
theorem consumeEventLine_counted (n : Nat) (line : List UInt8) (endByte : Nat) :
    (s.counted n).consumeEventLine line endByte =
      (s.consumeEventLine line endByte).map (·.counted n) := by
  obtain ⟨header, events, _, _, inputBytes, committedBytes, eventLine, issue⟩ := s
  unfold consumeEventLine counted
  cases decodeLine line with
  | error e => rfl
  | ok decoded =>
    cases issue with
    | some issue =>
      dsimp only
      cases someTurnEnd decoded with
      | error e => rfl
      | ok closes => cases closes <;> rfl
    | none =>
      dsimp only
      cases pushRow events decoded with
      | error e => rfl
      | ok outcome =>
        cases outcome with
        | accepted events => rfl
        | gap expected got =>
          cases someTurnEnd decoded with
          | error e => rfl
          | ok closes => cases closes <;> rfl

theorem consumeLines_counted (n start : Nat) (lines : List (List UInt8)) :
    (s.counted n).consumeLines start lines = (s.consumeLines start lines).map (·.counted n) := by
  induction lines generalizing s start with
  | nil => rfl
  | cons line rest ih =>
    unfold consumeLines
    rw [consumeEventLine_counted]
    cases s.consumeEventLine line (start + line.length + 1) with
    | error e => rfl
    | ok s' => exact ih s' _

theorem consumeLines_append (start : Nat) (lines more : List (List UInt8)) :
    s.consumeLines start (lines ++ more) = (s.consumeLines start lines).bind fun s' =>
      s'.consumeLines (start + (unlines 0x0A lines).length) more := by
  induction lines generalizing s start with
  | nil => rfl
  | cons line rest ih =>
    rw [cons_append, consumeLines, consumeLines]
    cases s.consumeEventLine line (start + line.length + 1) with
    | error e => rfl
    | ok s' =>
      have hnext : start + line.length + 1 + (unlines 0x0A rest).length =
          start + (unlines 0x0A (line :: rest)).length := by
        rw [TornLog.unlines_cons, length_append, length_cons]
        omega
      rw [← hnext]
      exact ih s' _

/-- A scanner that read `start` bytes of complete lines, and holds the bytes after them. -/
structure Carries (s : SessionLogScanner) (start : Nat) (bytes : List UInt8) : Prop where
  pending : s.Pending bytes
  input : s.inputBytes = start + bytes.length

/-- A chunk: the lines that it completes are consumed, and the scanner carries the rest. -/
theorem Carries.write {s : SessionLogScanner} {start : Nat} {bytes : List UInt8}
    (h : s.Carries start bytes) (chunk : List UInt8) :
    ∃ fragments, fragments.flatten = (lines 0x0A (bytes ++ chunk)).2 ∧
      s.write chunk = (s.consumeLines start (lines 0x0A (bytes ++ chunk)).1).map fun s' =>
        (s'.counted (start + (bytes ++ chunk).length)).hold fragments fragments.flatten.length := by
  have hempty : (0x0A : UInt8) ∉ ([] : List UInt8) := by simp
  have hpending : (s.counted (start + (bytes ++ chunk).length)).Pending bytes :=
    ⟨h.pending.held, h.pending.count, h.pending.clean⟩
  obtain ⟨fragments, hfragments, heq⟩ := writeFrom_eq hpending hempty start chunk
  rw [append_nil] at hfragments heq
  refine ⟨fragments, hfragments, ?_⟩
  have hinput : s.inputBytes + chunk.length = start + (bytes ++ chunk).length := by
    rw [h.input, length_append]
    omega
  have hwrite : s.write chunk =
      (s.counted (start + (bytes ++ chunk).length)).writeFrom [] (start + bytes.length) chunk := by
    rw [SessionLogScanner.write, hinput, h.input]
    rfl
  rw [hwrite]
  rw [length_nil, Nat.add_zero] at heq
  rw [heq, consumeLines_counted]
  cases s.consumeLines start (lines 0x0A (bytes ++ chunk)).1 <;> rfl

/-- Where the scanner is after a chunk. -/
theorem Carries.after {s : SessionLogScanner} {text : List UInt8} {start : Nat}
    {fragments : List (List UInt8)} (hfragments : fragments.flatten = (lines 0x0A text).2) :
    ((s.counted (start + text.length)).hold fragments fragments.flatten.length).Carries
      (start + (unlines 0x0A (lines 0x0A text).1).length)
      (lines 0x0A text).2 := by
  obtain ⟨htext, -, htorn⟩ := @TornLog.lines_spec _ (0x0A : UInt8) _ text
  have hlength := congrArg List.length htext
  rw [length_append] at hlength
  refine ⟨⟨hfragments, congrArg List.length hfragments, htorn⟩, ?_⟩
  change start + text.length = _
  omega

/-! ## Splits -/

/-- What the chunks give depends on their bytes only. -/
theorem Carries.writeAll {s : SessionLogScanner} {start : Nat} {bytes : List UInt8}
    (h : s.Carries start bytes) (chunks : List (List UInt8)) :
    (s.writeAll chunks).map finish =
      (s.consumeLines start (lines 0x0A (bytes ++ chunks.flatten)).1).map finish := by
  induction chunks generalizing s start bytes with
  | nil =>
    rw [flatten_nil, append_nil, TornLog.lines_of_clean h.pending.clean]
    rfl
  | cons chunk chunks ih =>
    obtain ⟨fragments, hfragments, hwrite⟩ := h.write chunk
    have hlines := @TornLog.lines_append _ (0x0A : UInt8) _ (bytes ++ chunk) chunks.flatten
    rw [append_assoc] at hlines
    rw [SessionLogScanner.writeAll, foldlM_cons, hwrite, flatten_cons, hlines,
      consumeLines_append]
    cases s.consumeLines start (lines 0x0A (bytes ++ chunk)).1 with
    | error e => rfl
    | ok s' =>
      have hafter : ((s'.counted (start + (bytes ++ chunk).length)).hold fragments
          fragments.flatten.length).Carries
          (start + (unlines 0x0A (lines 0x0A (bytes ++ chunk)).1).length)
          (lines 0x0A (bytes ++ chunk)).2 := Carries.after hfragments
      have hnext := ih hafter
      rw [consumeLines_hold, consumeLines_counted] at hnext
      change Except.map finish (SessionLogScanner.writeAll _ chunks) = _
      rw [hnext]
      change _ = Except.map finish (s'.consumeLines _ _)
      cases s'.consumeLines _ _ <;> rfl

theorem carries_new {headerRecord : List UInt8} {s : SessionLogScanner}
    (hnew : new headerRecord = .ok s) : s.Carries headerRecord.length [] := by
  unfold new at hnew
  obtain ⟨header, hparse, hnew⟩ := Except.bind_eq_ok.mp hnew
  cases hnew
  exact ⟨⟨rfl, rfl, by simp⟩, rfl⟩

end SessionLogScanner

open SessionLogScanner in
def scanChunks (headerRecord : List UInt8) (chunks : List (List UInt8)) : Except String SessionLogScan := do
  let scanner ← SessionLogScanner.new headerRecord
  let scanner ← scanner.writeAll chunks
  return scanner.finish

/-- However the bytes after the header are split into chunks, the scan gives what it gives for all
of them in one: the header, the events and the committed bytes, or the error. -/
theorem scanChunks_eq (headerRecord : List UInt8) (chunks : List (List UInt8)) :
    scanChunks headerRecord chunks = scanChunks headerRecord [chunks.flatten] := by
  unfold scanChunks
  cases hnew : SessionLogScanner.new headerRecord with
  | error e => rfl
  | ok s =>
    have hcarries := SessionLogScanner.carries_new hnew
    have hsplit := hcarries.writeAll chunks
    have hwhole := hcarries.writeAll [chunks.flatten]
    rw [flatten_singleton, ← hsplit] at hwhole
    change (s.writeAll chunks).map SessionLogScanner.finish =
      (s.writeAll [chunks.flatten]).map SessionLogScanner.finish
    exact hwhole.symm

end Harness
