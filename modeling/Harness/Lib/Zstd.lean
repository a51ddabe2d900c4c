-- SUMMARY: Zstandard frames as bytes: their header, their blocks and their checksum.
import Mathlib.Algebra.Order.Ring.Nat

/-!
# Zstandard frames

The structure of a frame, up to what its blocks hold. The bits of the descriptor that are reserved or
unused are zero, as an encoder sets them.
-/

namespace Zstd

open List

/-! ## Little-endian numbers -/

/-- A number in so many bytes. -/
def le : Nat → Nat → List UInt8
  | 0, _ => []
  | width + 1, n => n.toUInt8 :: le width (n / 256)

def ofLe : List UInt8 → Nat
  | [] => 0
  | b :: bs => b.toNat + 256 * ofLe bs

@[simp] theorem length_le (width n : Nat) : (le width n).length = width := by
  induction width generalizing n with
  | zero => rfl
  | succ width ih => rw [le, length_cons, ih]

theorem ofLe_le {width n : Nat} (h : n < 256 ^ width) : ofLe (le width n) = n := by
  induction width generalizing n with
  | zero =>
    rw [Nat.pow_zero] at h
    rw [le, ofLe]
    omega
  | succ width ih =>
    have hdiv : n / 256 < 256 ^ width := by
      rw [Nat.div_lt_iff_lt_mul (by decide), ← Nat.pow_succ]
      exact h
    rw [le, ofLe, ih hdiv, Nat.toUInt8, UInt8.toNat_ofNat']
    omega

/-! ## Blocks -/

inductive Block where
  | raw (data : List UInt8)
  /-- One byte, repeated. -/
  | rle (byte : UInt8) (count : Nat)
  | compressed (data : List UInt8)

namespace Block

/-- The block type in a header; 3 is reserved. -/
def kind : Block → Nat
  | raw _ => 0
  | rle _ _ => 1
  | compressed _ => 2

/-- The block size in a header. -/
def size : Block → Nat
  | raw data | compressed data => data.length
  | rle _ count => count

def payload : Block → List UInt8
  | raw data | compressed data => data
  | rle byte _ => [byte]

def header (last : Bool) (b : Block) : Nat := last.toNat + 2 * b.kind + 8 * b.size

def encode (last : Bool) (b : Block) : List UInt8 := le 3 (b.header last) ++ b.payload

theorem length_encode (last : Bool) (b : Block) :
    (b.encode last).length = 3 + b.payload.length := by
  rw [encode, length_append, length_le]

theorem kind_le (b : Block) : b.kind ≤ 2 := by cases b <;> simp [kind]

/-- A header of three bytes has room for a size of twenty-one bits. -/
theorem ofLe_header {last : Bool} {b : Block} (hsize : b.size < 2 ^ 21) :
    ofLe (le 3 (b.header last)) = b.header last := by
  refine ofLe_le ?_
  have hkind := b.kind_le
  have hlast := last.toNat_le
  unfold header
  omega

end Block

/-! ## Frames -/

/-- How many bytes a dictionary id takes. -/
def dictionaryLength : Fin 4 → Nat
  | 0 => 0
  | 1 => 1
  | 2 => 2
  | 3 => 4

/-- How many bytes a content size takes. -/
def contentSizeLength (singleSegment : Bool) : Fin 4 → Nat
  | 0 => if singleSegment then 1 else 0
  | 1 => 2
  | 2 => 4
  | 3 => 8

structure Frame where
  contentSizeFlag : Fin 4
  singleSegment : Bool
  dictionaryFlag : Fin 4
  window : List UInt8
  dictionary : List UInt8
  contentSize : List UInt8
  /-- All blocks but the last. -/
  blocks : List Block
  last : Block
  checksum : Option (List UInt8)
  window_length : window.length = if singleSegment then 0 else 1
  dictionary_length : dictionary.length = dictionaryLength dictionaryFlag
  contentSize_length : contentSize.length = contentSizeLength singleSegment contentSizeFlag
  blocks_size : ∀ b ∈ blocks, b.size < 2 ^ 21
  last_size : last.size < 2 ^ 21
  checksum_length : ∀ bytes ∈ checksum, bytes.length = 4

namespace Frame

def magic : List UInt8 := [0x28, 0xB5, 0x2F, 0xFD]

/-- The descriptor of a frame with these flags. -/
def descriptorOf (contentSizeFlag : Fin 4) (singleSegment checksum : Bool) (dictionaryFlag : Fin 4) : Nat :=
  contentSizeFlag.val * 64 + singleSegment.toNat * 32 + checksum.toNat * 4 + dictionaryFlag.val

def descriptor (f : Frame) : Nat :=
  descriptorOf f.contentSizeFlag f.singleSegment f.checksum.isSome f.dictionaryFlag

/-- What follows the descriptor in the frame header. -/
def header (f : Frame) : List UInt8 := f.window ++ f.dictionary ++ f.contentSize

def body (f : Frame) : List UInt8 := f.blocks.flatMap (Block.encode false) ++ f.last.encode true

def encode (f : Frame) : List UInt8 :=
  magic ++ f.descriptor.toUInt8 :: (f.header ++ (f.body ++ f.checksum.getD []))

theorem length_header (f : Frame) : f.header.length = (if f.singleSegment then 0 else 1) +
    dictionaryLength f.dictionaryFlag + contentSizeLength f.singleSegment f.contentSizeFlag := by
  rw [header, length_append, length_append, f.window_length, f.dictionary_length,
    f.contentSize_length]

theorem length_checksum (f : Frame) :
    (f.checksum.getD []).length = if f.checksum.isSome then 4 else 0 := by
  have hlength := f.checksum_length
  cases hchecksum : f.checksum with
  | none => rfl
  | some bytes => exact hlength bytes hchecksum

theorem length_encode (f : Frame) :
    f.encode.length = 5 + f.header.length + f.body.length + (f.checksum.getD []).length := by
  rw [encode, length_append, length_cons, length_append, length_append, magic]
  simp only [length_cons, length_nil]
  omega

end Frame

end Zstd
