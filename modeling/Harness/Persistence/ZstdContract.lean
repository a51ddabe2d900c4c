-- SUMMARY: A scan of any beginning of well-formed frames finds the complete ones and the start of the cut one.
import Harness.Persistence.Zstd

/-!
# Frame scans of cut files

A file is what came before, and the first `n` bytes of what is written from there on.
-/

namespace Harness

open List Zstd

section Cut

variable {pre text rest : List UInt8} {n : Nat}

/-- A read right after what came before. -/
theorem readUIntLE_cut {bytes : List UInt8} (hn : bytes.length ≤ n) :
    readUIntLE (pre ++ (bytes ++ rest).take n) pre.length bytes.length = .ok (ofLe bytes) := by
  have hlength : bytes.length ≤ ((bytes ++ rest).take n).length := by
    rw [length_take, length_append]
    omega
  rw [readUIntLE_ok (by rw [length_append]; omega), drop_left, take_take,
    Nat.min_eq_left hn, take_left]

/-- What has been read counts as what came before. -/
theorem cut_append (hn : text.length ≤ n) :
    pre ++ (text ++ rest).take n = (pre ++ text) ++ rest.take (n - text.length) := by
  rw [take_append, take_of_length_le hn, append_assoc]

end Cut

/-! ## Blocks -/

theorem header_lastBlock (last : Bool) (b : Zstd.Block) :
    (b.header last &&& 1 ≠ 0) ↔ last = true := by
  rw [Nat.and_one_is_mod, Zstd.Block.header]
  cases last <;> simp <;> omega

theorem header_blockType (last : Bool) (b : Zstd.Block) :
    (b.header last >>> 1) &&& 0x03 = b.kind := by
  have hmask := Nat.and_two_pow_sub_one_eq_mod (b.header last >>> 1) 2
  have hkind := b.kind_le
  rw [show 2 ^ 2 - 1 = 0x03 from rfl] at hmask
  rw [hmask, Nat.shiftRight_eq_div_pow, Zstd.Block.header]
  cases last <;> simp <;> omega

theorem header_blockSize (last : Bool) (b : Zstd.Block) : b.header last >>> 3 = b.size := by
  have hkind := b.kind_le
  rw [Nat.shiftRight_eq_div_pow, Zstd.Block.header]
  cases last <;> simp <;> omega

theorem length_payload (b : Zstd.Block) : (if b.kind = 1 then 1 else b.size) = b.payload.length := by
  cases b <;> simp [Zstd.Block.kind, Zstd.Block.size, Zstd.Block.payload]

/-- One block of a cut file. -/
theorem scanBlocks_block {b : Zstd.Block} (hsize : b.size < 2 ^ 21) (last : Bool)
    (pre rest : List UInt8)
    (n : Nat) :
    scanBlocks (pre ++ (b.encode last ++ rest).take n) pre.length =
      if n < (b.encode last).length then .ok none
      else if last then .ok (some (pre.length + (b.encode last).length))
      else scanBlocks (pre ++ (b.encode last ++ rest).take n) (pre.length + (b.encode last).length) := by
  have hlength := b.length_encode last
  have hroom : (pre ++ (b.encode last ++ rest).take n).length =
      pre.length + min n ((b.encode last).length + rest.length) := by
    rw [length_append, length_take, length_append]
  by_cases hheader : n < 3
  · rw [scanBlocks, dif_pos (by omega), if_pos (by omega)]
  have hread : readUIntLE (pre ++ (b.encode last ++ rest).take n) pre.length 3 =
      .ok (b.header last) := by
    have hcut := @readUIntLE_cut pre (b.payload ++ rest) n (le 3 (b.header last))
      (by rw [length_le]; omega)
    rw [length_le, Zstd.Block.ofLe_header hsize, ← append_assoc] at hcut
    exact hcut
  have hkind : b.kind ≠ 3 := by
    have := b.kind_le
    omega
  rw [scanBlocks, dif_neg (by omega), hread]
  simp only [header_lastBlock, header_blockType, header_blockSize, length_payload]
  rw [if_neg hkind]
  by_cases hpayload : n < (b.encode last).length
  · rw [if_pos (by omega), if_pos hpayload]
  · rw [if_neg (by omega), if_neg hpayload, hlength, ← Nat.add_assoc]

/-- The blocks of a cut file. -/
theorem scanBlocks_body {blocks : List Zstd.Block} {last : Zstd.Block}
    (hblocks : ∀ b ∈ blocks, b.size < 2 ^ 21)
    (hlast : last.size < 2 ^ 21) (pre rest : List UInt8) (n : Nat) :
    scanBlocks (pre ++ ((blocks.flatMap (Zstd.Block.encode false) ++ last.encode true) ++ rest).take n)
        pre.length =
      .ok (if n < (blocks.flatMap (Zstd.Block.encode false) ++ last.encode true).length then none
        else some (pre.length + (blocks.flatMap (Zstd.Block.encode false) ++ last.encode true).length)) := by
  induction blocks generalizing pre n with
  | nil =>
    rw [flatMap_nil, nil_append, scanBlocks_block hlast, if_pos rfl]
    split <;> rfl
  | cons b blocks ih =>
    have hb := hblocks b mem_cons_self
    let tail := blocks.flatMap (Zstd.Block.encode false) ++ last.encode true
    have hbody : (b :: blocks).flatMap (Zstd.Block.encode false) ++ last.encode true =
        b.encode false ++ tail := by
      rw [flatMap_cons, append_assoc]
    rw [hbody, append_assoc, scanBlocks_block hb, if_neg Bool.false_ne_true]
    have hlength : (b.encode false ++ tail).length = (b.encode false).length + tail.length :=
      length_append
    by_cases hcut : n < (b.encode false).length
    · rw [if_pos hcut, if_pos (by omega)]
    have hrest := ih (fun b' hb' => hblocks b' (mem_cons_of_mem _ hb')) (pre ++ b.encode false)
      (n - (b.encode false).length)
    rw [if_neg hcut, cut_append (Nat.le_of_not_lt hcut)]
    rw [length_append] at hrest
    rw [hrest]
    by_cases htail : n - (b.encode false).length < tail.length
    · rw [if_pos htail, if_pos (by omega)]
    · rw [if_neg htail, if_neg (by omega), hlength, Nat.add_assoc]

/-! ## Frames -/

/-- What the scan reads off a descriptor. -/
theorem descriptorOf_bits (contentSizeFlag : Fin 4) (singleSegment checksum : Bool)
    (dictionaryFlag : Fin 4) :
    let d := Frame.descriptorOf contentSizeFlag singleSegment checksum dictionaryFlag
    d < 256 ∧ d &&& 0x18 = 0 ∧ (d &&& 0x04 ≠ 0 ↔ checksum = true) ∧
      remainingHeaderBytes d = (if singleSegment then 0 else 1) + dictionaryLength dictionaryFlag +
        contentSizeLength singleSegment contentSizeFlag := by
  revert contentSizeFlag singleSegment checksum dictionaryFlag
  decide

/-- One frame of a cut file. -/
theorem scanFrame_frame (f : Frame) (pre rest : List UInt8) (n : Nat) :
    scanFrame (pre ++ (f.encode ++ rest).take n) pre.length =
      .ok (if n < f.encode.length then none else some (pre.length + f.encode.length)) := by
  obtain ⟨hbyte, hreserved, hchecksum, hremaining⟩ := descriptorOf_bits f.contentSizeFlag
    f.singleSegment f.checksum.isSome f.dictionaryFlag
  rw [← f.length_header] at hremaining
  change f.descriptor < 256 at hbyte
  change f.descriptor &&& 0x18 = 0 at hreserved
  change f.descriptor &&& 0x04 ≠ 0 ↔ _ at hchecksum
  change remainingHeaderBytes f.descriptor = _ at hremaining
  have hencode := f.length_encode
  have hroom : (pre ++ (f.encode ++ rest).take n).length = pre.length + min n (f.encode.length + rest.length) := by
    rw [length_append, length_take, length_append]
  by_cases hmagic : n < 4
  · rw [scanFrame, if_pos (by omega), if_pos (by omega)]
  have hfirst : readUIntLE (pre ++ (f.encode ++ rest).take n) pre.length 4 = .ok ZSTD_MAGIC := by
    have hcut := @readUIntLE_cut pre
      (f.descriptor.toUInt8 :: (f.header ++ (f.body ++ f.checksum.getD [])) ++ rest) n Frame.magic
      (Nat.le_of_not_lt hmagic)
    rw [← append_assoc] at hcut
    exact hcut
  by_cases hdescriptor : n = 4
  · rw [scanFrame, if_neg (by omega), hfirst]
    dsimp only
    rw [if_neg (not_not_intro rfl), if_pos (by omega), if_pos (by omega)]
  have hsecond : readUIntLE (pre ++ (f.encode ++ rest).take n) (pre.length + 4) 1 = .ok f.descriptor := by
    have hcut := @readUIntLE_cut (pre ++ Frame.magic)
      (f.header ++ (f.body ++ f.checksum.getD []) ++ rest) (n - 4) [f.descriptor.toUInt8]
      (by rw [length_singleton]; omega)
    have hvalue : ofLe [f.descriptor.toUInt8] = f.descriptor := by
      rw [ofLe, ofLe, Nat.toUInt8, UInt8.toNat_ofNat']
      omega
    rw [hvalue, length_append] at hcut
    rw [Frame.encode, append_assoc, cut_append (Nat.le_of_not_lt hmagic)]
    exact hcut
  have hafter : pre.length + 5 + f.header.length =
      (pre ++ (Frame.magic ++ [f.descriptor.toUInt8] ++ f.header)).length := by
    simp only [length_append, Frame.magic, length_cons, length_nil]
    omega
  have hblocks : n ≥ 5 + f.header.length →
      scanBlocks (pre ++ (f.encode ++ rest).take n) (pre.length + 5 + f.header.length) =
        .ok (if n - (5 + f.header.length) < f.body.length then none
          else some (pre.length + 5 + f.header.length + f.body.length)) := by
    intro hn
    have hbody := scanBlocks_body f.blocks_size f.last_size
      (pre ++ (Frame.magic ++ [f.descriptor.toUInt8] ++ f.header)) (f.checksum.getD [] ++ rest)
      (n - (5 + f.header.length))
    have hsplit : f.encode ++ rest = (Frame.magic ++ [f.descriptor.toUInt8] ++ f.header) ++
        (f.body ++ (f.checksum.getD [] ++ rest)) := by
      simp [Frame.encode]
    have htext : (Frame.magic ++ [f.descriptor.toUInt8] ++ f.header).length = 5 + f.header.length := by
      rw [length_append] at hafter
      omega
    rw [hsplit, cut_append (by omega), htext, hafter]
    exact hbody
  rw [scanFrame, if_neg (by omega), hfirst]
  dsimp only
  rw [if_neg (not_not_intro rfl), if_neg (by omega), hsecond]
  dsimp only
  rw [if_neg (not_not_intro hreserved), hremaining]
  by_cases hheader : n < 5 + f.header.length
  · rw [if_pos (by omega), if_pos (by omega)]
  rw [if_neg (by omega), hblocks (Nat.le_of_not_lt hheader)]
  by_cases hbody : n - (5 + f.header.length) < f.body.length
  · rw [if_pos hbody, if_pos (by omega)]
  rw [if_neg hbody]
  have hlast := f.length_checksum
  simp only [hchecksum]
  cases hsome : f.checksum.isSome with
  | false =>
    rw [hsome] at hlast
    simp only [Bool.false_eq_true, if_false] at hlast ⊢
    rw [if_neg (by omega), hencode, hlast]
    congr 2
    omega
  | true =>
    rw [hsome] at hlast
    simp only [if_true] at hlast ⊢
    by_cases hcut : n < f.encode.length
    · rw [if_pos (by omega), if_pos hcut]
    rw [if_neg (by omega), if_neg hcut, hencode, hlast]
    congr 2
    omega

/-! ## Streams -/

/-- The frames one after the other. -/
def stream (fs : List Frame) : List UInt8 := fs.flatMap Frame.encode

/-- Where a frame of a stream starts, and the one before it ends. -/
def frameStart (fs : List Frame) (i : Nat) : Nat := (stream (fs.take i)).length

@[simp] theorem frameStart_zero (fs : List Frame) : frameStart fs 0 = 0 := rfl

@[simp] theorem frameStart_cons (f : Frame) (fs : List Frame) (i : Nat) :
    frameStart (f :: fs) (i + 1) = f.encode.length + frameStart fs i := by
  rw [frameStart, take_succ_cons, stream, flatMap_cons, length_append]
  rfl

/-- What the scan of the first `n` bytes of a stream that starts at `start` is to find. -/
def cutScan (start n : Nat) : List Frame → ZstdFrameScan
  | [] => { frames := [], tornStart := none }
  | f :: fs =>
    if n = 0 then { frames := [], tornStart := none }
    else if n < f.encode.length then { frames := [], tornStart := some start }
    else
      let rest := cutScan (start + f.encode.length) (n - f.encode.length) fs
      { rest with frames := { start, stop := start + f.encode.length } :: rest.frames }

/-- These are the complete frames, and the start of the cut one if there is one. -/
theorem cutScan_spec (start n : Nat) (fs : List Frame) :
    ∃ k ≤ fs.length, frameStart fs k ≤ n ∧ (k = fs.length ∨ n < frameStart fs (k + 1)) ∧
      cutScan start n fs =
        { frames := (List.range k).map fun i =>
            { start := start + frameStart fs i, stop := start + frameStart fs (i + 1) }
          tornStart := if k = fs.length ∨ frameStart fs k = n then none
            else some (start + frameStart fs k) } := by
  induction fs generalizing start n with
  | nil => exact ⟨0, Nat.le_refl _, Nat.zero_le _, .inl rfl, rfl⟩
  | cons f fs ih =>
    have hpos : 0 < f.encode.length := by
      rw [f.length_encode]
      omega
    rw [cutScan]
    by_cases hnone : n = 0
    · refine ⟨0, Nat.zero_le _, Nat.zero_le _, .inr ?_, ?_⟩
      · rw [frameStart_cons]
        omega
      · rw [if_pos hnone, if_pos (.inr hnone.symm)]
        rfl
    rw [if_neg hnone]
    by_cases hcut : n < f.encode.length
    · refine ⟨0, Nat.zero_le _, Nat.zero_le _, .inr ?_, ?_⟩
      · rw [frameStart_cons]
        omega
      have hopen : ¬ (0 = (f :: fs).length ∨ frameStart (f :: fs) 0 = n) := by
        rw [length_cons, frameStart_zero]
        omega
      rw [if_pos hcut, if_neg hopen]
      rfl
    · obtain ⟨k, hk, hle, hlast, hscan⟩ := ih (start + f.encode.length) (n - f.encode.length)
      rw [if_neg hcut, hscan]
      refine ⟨k + 1, Nat.succ_le_succ hk, ?_, ?_, ?_⟩
      · rw [frameStart_cons]
        omega
      · rw [frameStart_cons, length_cons]
        omega
      · have hsame : (k = fs.length ∨ frameStart fs k = n - f.encode.length) ↔
            (k + 1 = (f :: fs).length ∨ frameStart (f :: fs) (k + 1) = n) := by
          rw [frameStart_cons, length_cons]
          omega
        simp only [hsame, range_succ_eq_map, map_cons, map_map, frameStart_zero,
          frameStart_cons, Nat.add_zero, Function.comp_def, Nat.succ_eq_add_one, Nat.add_assoc]

def ZstdFrameScan.limited (maxFrames : Option Nat) (scan : ZstdFrameScan) : ZstdFrameScan :=
  match maxFrames with
  | none => scan
  | some limit =>
    if 0 < limit ∧ limit ≤ scan.frames.length then
      { frames := scan.frames.take limit, tornStart := none }
    else scan

theorem limited_of_few {maxFrames : Option Nat} {found : List ZstdFrameRange}
    (hfound : ∀ limit ∈ maxFrames, limit = 0 ∨ found.length < limit) (tornStart : Option Nat) :
    ZstdFrameScan.limited maxFrames { frames := found, tornStart } = { frames := found, tornStart } := by
  cases maxFrames with
  | none => rfl
  | some limit =>
    have hlimit := hfound limit rfl
    rw [ZstdFrameScan.limited, if_neg (by dsimp only; omega)]

theorem limited_of_enough (found rest : List ZstdFrameRange) (range : ZstdFrameRange)
    (tornStart : Option Nat) :
    ZstdFrameScan.limited (some (found ++ [range]).length)
        { frames := found ++ range :: rest, tornStart } =
      { frames := found ++ [range], tornStart := none } := by
  have hsplit : found ++ range :: rest = (found ++ [range]) ++ rest := by simp
  rw [ZstdFrameScan.limited, hsplit]
  dsimp only
  rw [if_pos ⟨by simp, by simp⟩, take_left]

theorem scanFrames_cut (maxFrames : Option Nat) (fs : List Frame) (pre : List UInt8) (n : Nat)
    (found : List ZstdFrameRange) (hfound : ∀ limit ∈ maxFrames, limit = 0 ∨ found.length < limit) :
    scanFrames (pre ++ (stream fs).take n) maxFrames pre.length found =
      .ok (ZstdFrameScan.limited maxFrames { cutScan pre.length n fs with
        frames := found ++ (cutScan pre.length n fs).frames }) := by
  induction fs generalizing pre n found with
  | nil =>
    rw [scanFrames, dif_neg (by simp [stream]), cutScan, append_nil, limited_of_few hfound]
  | cons f fs ih =>
    have hstream : stream (f :: fs) = f.encode ++ stream fs := flatMap_cons
    have hframe := scanFrame_frame f pre (stream fs) n
    have hpos : 0 < f.encode.length := by
      rw [f.length_encode]
      omega
    rw [hstream, cutScan]
    by_cases hnone : n = 0
    · rw [scanFrames, dif_neg (by simp [hnone]), if_pos hnone, append_nil, limited_of_few hfound]
    have hmore : pre.length < (pre ++ (f.encode ++ stream fs).take n).length := by
      rw [length_append, length_take, length_append]
      omega
    rw [scanFrames, dif_pos hmore, if_neg hnone]
    by_cases hcut : n < f.encode.length
    · rw [if_pos hcut] at hframe ⊢
      split
      · rename_i e he
        rw [hframe] at he
        cases he
      · rw [append_nil, limited_of_few hfound]
      · rename_i next hnext
        rw [hframe] at hnext
        cases hnext
    rw [if_neg hcut] at hframe ⊢
    split
    · rename_i e he
      rw [hframe] at he
      cases he
    · rename_i hnext
      rw [hframe] at hnext
      cases hnext
    rename_i next hnext
    rw [hframe] at hnext
    cases hnext
    dsimp only
    split
    · rename_i hlimit
      rw [← hlimit, limited_of_enough]
    rename_i hlimit
    have hnext := ih (pre ++ f.encode) (n - f.encode.length)
      (found ++ [{ start := pre.length, stop := pre.length + f.encode.length }])
      (fun limit hmem => by
        have hbefore := hfound limit hmem
        have hother : limit ≠ found.length + 1 := fun heq => hlimit (by
          rw [Option.mem_def.mp hmem, heq, length_append, length_singleton])
        rw [length_append, length_singleton]
        omega)
    rw [cut_append (Nat.le_of_not_lt hcut)]
    rw [length_append] at hnext
    rw [hnext]
    simp

/-- The scan of the first `n` bytes of some frames finds exactly the complete ones, and the start of
the cut one unless the cut is on a boundary; with a limit it stops after so many. On no bytes at all
does a scan read outside of the buffer. -/
theorem scanZstdFrames_cut (fs : List Frame) (n : Nat) (maxFrames : Option Nat) :
    (∃ k ≤ fs.length, frameStart fs k ≤ n ∧ (k = fs.length ∨ n < frameStart fs (k + 1)) ∧
      scanZstdFrames ((stream fs).take n) maxFrames =
        .ok (ZstdFrameScan.limited maxFrames
          { frames := (List.range k).map fun i =>
              { start := frameStart fs i, stop := frameStart fs (i + 1) }
            tornStart := if k = fs.length ∨ frameStart fs k = n then none
              else some (frameStart fs k) })) ∧
    ∀ buffer, scanZstdFrames buffer maxFrames ≠ .error .outOfRange := by
  refine ⟨?_, fun buffer => ?_⟩
  · obtain ⟨k, hk, hle, hlast, hscan⟩ := cutScan_spec 0 n fs
    simp only [Nat.zero_add] at hscan
    refine ⟨k, hk, hle, hlast, ?_⟩
    have hcut := scanFrames_cut maxFrames fs [] n [] fun limit _ => by
      rw [length_nil]
      omega
    rw [length_nil, hscan] at hcut
    exact hcut
  · exact scanFrames_inRange buffer maxFrames 0 []

end Harness
