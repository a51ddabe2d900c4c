-- SUMMARY: The structural scan of a compressed session file, `session-persistence-jsonl/src/zstd.ts`.
import Harness.Lib.Zstd

/-!
# Frame scans

The frames of a file are found from their headers and their block headers; no block is decompressed.
-/

namespace Harness

def ZSTD_MAGIC : Nat := 0xFD2FB528

inductive ZstdScanError where
  /-- A read outside of the buffer. -/
  | outOfRange
  | corrupt (message : String)
  deriving DecidableEq

structure ZstdFrameRange where
  /-- Inclusive frame start. -/
  start : Nat
  /-- Exclusive frame end. -/
  stop : Nat
  deriving DecidableEq

structure ZstdFrameScan where
  frames : List ZstdFrameRange
  /-- Start of an incomplete final frame. -/
  tornStart : Option Nat
  deriving DecidableEq

variable (buffer : List UInt8)

/-- `buffer.readUIntLE(offset, width)`. -/
def readUIntLE (offset width : Nat) : Except ZstdScanError Nat :=
  if offset + width ≤ buffer.length then .ok (Zstd.ofLe ((buffer.drop offset).take width))
  else .error .outOfRange

/-- The loop over the blocks of a frame: where they end, unless the buffer ends before. -/
def scanBlocks (buffer : List UInt8) (offset : Nat) : Except ZstdScanError (Option Nat) :=
  if _hroom : buffer.length - offset < 3 then .ok none
  else
    match readUIntLE buffer offset 3 with
    | .error e => .error e
    | .ok blockHeader =>
      let lastBlock := blockHeader &&& 1 ≠ 0
      let blockType := (blockHeader >>> 1) &&& 0x03
      let blockSize := blockHeader >>> 3
      if blockType = 0x03 then
        .error (.corrupt s!"corrupt Zstandard session log: reserved block type at byte {offset}")
      else
        let payloadBytes := if blockType = 0x01 then 1 else blockSize
        if buffer.length - (offset + 3) < payloadBytes then .ok none
        else if lastBlock then .ok (some (offset + 3 + payloadBytes))
        else scanBlocks buffer (offset + 3 + payloadBytes)
  termination_by buffer.length - offset
  decreasing_by omega

/-- How many bytes of a frame header follow its descriptor. -/
def remainingHeaderBytes (descriptor : Nat) : Nat :=
  let contentSizeFlag := descriptor >>> 6
  let singleSegment := descriptor &&& 0x20 ≠ 0
  let dictionaryFlag := descriptor &&& 0x03
  let dictionaryBytes := if dictionaryFlag = 3 then 4 else dictionaryFlag
  let contentSizeBytes :=
    if contentSizeFlag = 0 then if singleSegment then 1 else 0 else 1 <<< contentSizeFlag
  (if singleSegment then 0 else 1) + dictionaryBytes + contentSizeBytes

/-- One frame: where it ends, unless the buffer ends before. -/
def scanFrame (start : Nat) : Except ZstdScanError (Option Nat) :=
  if buffer.length - start < 4 then .ok none
  else
    match readUIntLE buffer start 4 with
    | .error e => .error e
    | .ok found =>
      if found ≠ ZSTD_MAGIC then
        .error (.corrupt s!"corrupt Zstandard session log: invalid frame magic at byte {start}")
      else if start + 4 = buffer.length then .ok none
      else
        match readUIntLE buffer (start + 4) 1 with
        | .error e => .error e
        | .ok descriptor =>
          if descriptor &&& 0x18 ≠ 0 then
            .error (.corrupt
              s!"corrupt Zstandard session log: reserved frame-header bit at byte {start + 4}")
          else
            let remaining := remainingHeaderBytes descriptor
            if buffer.length - (start + 5) < remaining then .ok none
            else
              match scanBlocks buffer (start + 5 + remaining) with
              | .error e => .error e
              | .ok none => .ok none
              | .ok (some offset) =>
                let checksum := descriptor &&& 0x04 ≠ 0
                if checksum then
                  if buffer.length - offset < 4 then .ok none else .ok (some (offset + 4))
                else .ok (some offset)

/-! ## Offsets -/

theorem readUIntLE_ok {buffer : List UInt8} {offset width : Nat}
    (h : offset + width ≤ buffer.length) :
    readUIntLE buffer offset width = .ok (Zstd.ofLe ((buffer.drop offset).take width)) :=
  if_pos h

/-- The blocks take bytes of the buffer, and no read leaves it. -/
theorem scanBlocks_spec (offset : Nat) :
    scanBlocks buffer offset ≠ .error .outOfRange ∧
      ∀ next, scanBlocks buffer offset = .ok (some next) → offset < next ∧ next ≤ buffer.length := by
  fun_induction scanBlocks buffer offset with
  | case1 offset hroom => simp
  | case2 offset hroom e hread =>
    rw [readUIntLE_ok (by omega)] at hread
    cases hread
  | case3 => simp
  | case4 => simp
  | case5 offset hroom header hread lastBlock blockType blockSize hkind payload hpayload hlast =>
    refine ⟨by simp, fun next hnext => ?_⟩
    cases hnext
    omega
  | case6 offset hroom header hread lastBlock blockType blockSize hkind payload hpayload hlast ih =>
    exact ⟨ih.1, fun next hnext => ⟨by have := (ih.2 next hnext).1; omega, (ih.2 next hnext).2⟩⟩

theorem scanFrame_spec (start : Nat) :
    scanFrame buffer start ≠ .error .outOfRange ∧
      ∀ next, scanFrame buffer start = .ok (some next) → start < next ∧ next ≤ buffer.length := by
  unfold scanFrame
  split
  · simp
  rename_i hroom
  rw [readUIntLE_ok (by omega)]
  dsimp only
  split
  · simp
  split
  · simp
  rename_i hmore
  rw [readUIntLE_ok (by omega)]
  dsimp only
  split
  · simp
  split
  · simp
  have hblocks := scanBlocks_spec buffer
    (start + 5 + remainingHeaderBytes (Zstd.ofLe ((buffer.drop (start + 4)).take 1)))
  split
  · rename_i e he
    rw [he] at hblocks
    exact ⟨fun heq => hblocks.1 heq, fun next hnext => by cases hnext⟩
  · simp
  rename_i offset hoffset
  have hbound := hblocks.2 offset hoffset
  split
  · split
    · simp
    refine ⟨by simp, fun next hnext => ?_⟩
    cases hnext
    omega
  · refine ⟨by simp, fun next hnext => ?_⟩
    cases hnext
    omega

/-! ## The scan -/

def scanFrames (buffer : List UInt8) (maxFrames : Option Nat) (offset : Nat)
    (frames : List ZstdFrameRange) : Except ZstdScanError ZstdFrameScan :=
  if _hroom : offset < buffer.length then
    match hframe : scanFrame buffer offset with
    | .error e => .error e
    | .ok none => .ok { frames, tornStart := some offset }
    | .ok (some next) =>
      let frames := frames ++ [{ start := offset, stop := next }]
      if some frames.length = maxFrames then .ok { frames, tornStart := none }
      else scanFrames buffer maxFrames next frames
  else .ok { frames, tornStart := none }
  termination_by buffer.length - offset
  decreasing_by
    have hnext := (scanFrame_spec buffer offset).2 next hframe
    omega

/-- Locate complete frames without decompressing their blocks; without a limit all of them. -/
def scanZstdFrames (maxFrames : Option Nat) : Except ZstdScanError ZstdFrameScan :=
  scanFrames buffer maxFrames 0 []

/-- No scan reads outside of its buffer. -/
theorem scanFrames_inRange (maxFrames : Option Nat) (offset : Nat)
    (frames : List ZstdFrameRange) : scanFrames buffer maxFrames offset frames ≠ .error .outOfRange := by
  fun_induction scanFrames buffer maxFrames offset frames with
  | case1 offset frames _ e hframe =>
    intro heq
    cases heq
    exact (scanFrame_spec buffer offset).1 hframe
  | case2 => simp
  | case3 => simp
  | case4 offset frames _ next hframe frames' _ ih => exact ih
  | case5 => simp

end Harness
