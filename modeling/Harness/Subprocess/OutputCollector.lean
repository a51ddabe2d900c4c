-- SUMMARY: The output collector of `subprocess-local/src/spawn.ts`: the last bytes of a stream in memory, all of it in a spill file.
import Harness.Json.Utf8
import Mathlib.Data.List.Induction

/-!
# Collected output

The spill file is held by its contents; a file that is not advertised any more is not looked at.
Writes succeed.
-/

namespace Harness

open List

structure SpillState where
  /-- `spillFd !== undefined` -/
  isOpen : Bool := false
  spillFile : Option (List UInt8) := none
  spillDisabled : Bool

structure OutputCollector where
  maxBytes : Nat
  maxSpillBytes : Option Nat
  chunks : List (List UInt8) := []
  bytes : Nat := 0
  spill : SpillState := { spillDisabled := maxSpillBytes.isNone }
  /-- Total bytes ever pushed. -/
  total : Nat := 0

structure SubprocessOutputRead where
  text : JsString
  nextOffset : Nat
  lossy : Bool
  spillFile : Option (List UInt8)

namespace OutputCollector

variable (maxBytes : Nat) (c : OutputCollector)

/-- Append `chunk` to the spill file, which is opened with the prior chunks in it; a file that can
no longer hold the complete stream is discarded. -/
def spillAll (chunk : List UInt8) : SpillState :=
  if c.maxSpillBytes.any (c.total > ·) then { spillDisabled := true }
  else if !c.spill.isOpen then
    { c.spill with isOpen := true, spillFile := some (c.chunks.flatten ++ chunk) }
  else { c.spill with spillFile := c.spill.spillFile.map (· ++ chunk) }

/-- Drop chunks from the head, and the excess of the last of them, until the rest fits. -/
def trim : List (List UInt8) → Nat → List (List UInt8) × Nat
  | head :: chunks, bytes =>
    if bytes > maxBytes then
      let excess := bytes - maxBytes
      if head.length ≤ excess then trim chunks (bytes - head.length)
      else (head.drop excess :: chunks, bytes - excess)
    else (head :: chunks, bytes)
  | [], bytes => ([], bytes)

def push (chunk : List UInt8) : OutputCollector :=
  let c := { c with total := c.total + chunk.length }
  let overflows := decide (c.bytes + chunk.length > c.maxBytes)
  let spill :=
    if !c.spill.spillDisabled && (overflows || c.spill.isOpen) then c.spillAll chunk else c.spill
  let (chunks, bytes) := trim c.maxBytes (c.chunks ++ [chunk]) (c.bytes + chunk.length)
  { c with spill, chunks, bytes }

/-- What was pushed since `fromByte`, or the whole tail where that offset has left it. -/
def readFrom (fromByte : Nat) : SubprocessOutputRead :=
  let windowStart := c.total - c.bytes
  let buffer := c.chunks.flatten
  let lossy := decide (fromByte < windowStart)
  let slice := if lossy then buffer else buffer.drop (fromByte - windowStart)
  { text := .ofUtf8 slice, nextOffset := c.total, lossy, spillFile := c.spill.spillFile }

variable {maxBytes c} {stream : List UInt8}

theorem trim_spec {chunks : List (List UInt8)} {bytes : Nat} (hbytes : bytes = chunks.flatten.length) :
    (trim maxBytes chunks bytes).1.flatten = chunks.flatten.drop (bytes - maxBytes) ∧
      (trim maxBytes chunks bytes).2 = bytes - (bytes - maxBytes) := by
  induction chunks generalizing bytes with
  | nil => simp [trim, hbytes]
  | cons head chunks ih =>
    rw [flatten_cons, length_append] at hbytes
    rw [trim]
    split
    · dsimp only
      split
      · obtain ⟨hkept, hheld⟩ := @ih (bytes - head.length) (by omega)
        refine ⟨?_, by omega⟩
        rw [hkept, flatten_cons, drop_append, @drop_of_length_le _ _ head ‹_›, nil_append, Nat.sub_right_comm]
      · rw [flatten_cons, flatten_cons, drop_append_of_le_length (by omega)]
        exact ⟨rfl, rfl⟩
    · rw [Nat.sub_eq_zero_of_le (by omega)]
      exact ⟨rfl, rfl⟩

/-- The spill file once a stream was pushed. -/
def spillAfter (maxBytes : Nat) (maxSpillBytes : Option Nat) (stream : List UInt8) : SpillState :=
  let spilled := decide (maxBytes < stream.length) && maxSpillBytes.any (stream.length ≤ ·)
  { isOpen := spilled
    spillFile := if spilled then some stream else none
    spillDisabled := if maxBytes < stream.length then !spilled else maxSpillBytes.isNone }

/-- The collector once a stream was pushed, in whatever chunks. -/
structure Holds (c : OutputCollector) (stream : List UInt8) : Prop where
  total : c.total = stream.length
  bytes : c.bytes = stream.length - (stream.length - c.maxBytes)
  kept : c.chunks.flatten = stream.drop (stream.length - c.maxBytes)
  spill : c.spill = spillAfter c.maxBytes c.maxSpillBytes stream

theorem Holds.push (h : c.Holds stream) (chunk : List UInt8) :
    (c.push chunk).Holds (stream ++ chunk) := by
  have hlength : (stream ++ chunk).length = stream.length + chunk.length := length_append
  have hbytes := h.bytes
  have hflat : (c.chunks ++ [chunk]).flatten = (stream ++ chunk).drop (stream.length - c.maxBytes) := by
    rw [flatten_append, h.kept, flatten_singleton, drop_append_of_le_length (Nat.sub_le _ _)]
  obtain ⟨hkept, hheld⟩ := @trim_spec c.maxBytes (c.chunks ++ [chunk]) (c.bytes + chunk.length) <| by
    rw [hflat, length_drop, hlength]
    omega
  have hexcess : stream.length - c.maxBytes + (c.bytes + chunk.length - c.maxBytes) =
      (stream ++ chunk).length - c.maxBytes := by omega
  constructor
  case total => rw [hlength, ← h.total]; rfl
  case bytes =>
    refine hheld.trans ?_
    show _ = _ - (_ - c.maxBytes)
    omega
  case kept =>
    refine hkept.trans ?_
    rw [hflat, drop_drop, hexcess]
    rfl
  case spill =>
    show (if _ then spillAll _ chunk else c.spill) = spillAfter c.maxBytes c.maxSpillBytes _
    simp only [spillAll, h.spill, h.total]
    cases c.maxSpillBytes with
    | none => simp [spillAfter]
    | some cap =>
      by_cases hfits : c.maxBytes < stream.length
      · have hnext : c.maxBytes < stream.length + chunk.length := by omega
        by_cases hroom : stream.length + chunk.length ≤ cap
        · have hroom' : stream.length ≤ cap := by omega
          simp [spillAfter, hfits, hnext, hroom, hroom', Nat.not_lt.mpr hroom]
        · by_cases hroom' : stream.length ≤ cap <;>
            simp [spillAfter, hfits, hnext, hroom, hroom', Nat.lt_of_not_le hroom]
      · have hall : c.bytes = stream.length := by omega
        have hwhole : c.chunks.flatten = stream := by
          rw [h.kept, Nat.sub_eq_zero_of_le (Nat.not_lt.mp hfits), drop_zero]
        by_cases hnext : c.maxBytes < stream.length + chunk.length <;>
          by_cases hroom : stream.length + chunk.length ≤ cap <;>
          simp [spillAfter, hfits, hall, hwhole, hnext, hroom, Nat.not_lt.mpr, Nat.lt_of_not_le]

variable (maxBytes) (maxSpillBytes : Option Nat)

/-- The collector of a stream that comes in chunks. -/
def collect (chunks : List (List UInt8)) : OutputCollector :=
  chunks.foldl push { maxBytes, maxSpillBytes }

theorem collect_holds (chunks : List (List UInt8)) :
    (collect maxBytes maxSpillBytes chunks).maxBytes = maxBytes ∧
      (collect maxBytes maxSpillBytes chunks).maxSpillBytes = maxSpillBytes ∧
      (collect maxBytes maxSpillBytes chunks).Holds chunks.flatten := by
  induction chunks using List.reverseRecOn with
  | nil => exact ⟨rfl, rfl, rfl, by simp [collect], by simp [collect], by simp [collect, spillAfter]⟩
  | append_singleton chunks chunk ih =>
    obtain ⟨hmax, hspill, hholds⟩ := ih
    rw [collect, foldl_append, flatten_append, flatten_singleton]
    exact ⟨hmax, hspill, hholds.push chunk⟩

/-- However a stream is cut into chunks and whenever it is read: the tail is its last bytes, a read
from an earlier offset gives what came since, or says that some of it is lost, and the spill file
is there just when bytes are lost and the cap is kept, and holds all of the stream. -/
theorem collect_retains (front back : List (List UInt8)) (start : Nat) :
    let stream := (front ++ back).flatten
    let tail := stream.drop (stream.length - maxBytes)
    let earlier := (collect maxBytes maxSpillBytes front).readFrom start
    let c := collect maxBytes maxSpillBytes (front ++ back)
    let read := c.readFrom earlier.nextOffset
    c.chunks.flatten = tail ∧
      (read.lossy = true ↔ front.flatten.length + tail.length < stream.length) ∧
      read.text = .ofUtf8 (if read.lossy then tail else back.flatten) ∧
      read.spillFile =
        if maxBytes < stream.length && maxSpillBytes.any (stream.length ≤ ·) then some stream else none := by
  intro stream tail earlier c read
  obtain ⟨-, -, hfront⟩ := collect_holds maxBytes maxSpillBytes front
  obtain ⟨hmax, hcap, h⟩ := collect_holds maxBytes maxSpillBytes (front ++ back)
  have hkept : c.chunks.flatten = tail := by rw [h.kept, hmax]
  have htail : tail.length = stream.length - (stream.length - maxBytes) := length_drop
  have hwindow : c.total - c.bytes = stream.length - maxBytes := by
    rw [h.total, h.bytes, hmax]
    exact Nat.sub_sub_self (Nat.sub_le _ _)
  have hlossy : read.lossy = decide (front.flatten.length < stream.length - maxBytes) := by
    rw [← hwindow, ← hfront.total]
    rfl
  refine ⟨hkept, ?_, ?_, ?_⟩
  · rw [hlossy, decide_eq_true_eq]
    omega
  · show JsString.ofUtf8 (if read.lossy then _ else c.chunks.flatten.drop (_ - (c.total - c.bytes))) = _
    rw [hkept, hwindow, show earlier.nextOffset = front.flatten.length from hfront.total]
    congr 1
    split
    · rfl
    · rename_i hkeeps
      rw [hlossy, decide_eq_true_eq] at hkeeps
      rw [drop_drop, Nat.add_sub_cancel' (Nat.not_lt.mp hkeeps)]
      exact (congrArg (drop _) flatten_append).trans drop_left
  · show c.spill.spillFile = _
    rw [h.spill, hmax, hcap]
    rfl

end OutputCollector
end Harness
