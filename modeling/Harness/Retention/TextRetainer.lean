-- SUMMARY: The text retainer of `output-retention/src/index.ts`: the first and the last bytes of a stream that comes in chunks.
import Harness.Json.Utf8

namespace Harness
namespace Retention

/-! ## Results -/

/-- How much content the retainer omitted. -/
inductive Omitted where
  | none
  | exact (count : Nat)
  | unknown
  deriving DecidableEq

/-- What the caller receives after each `push`. -/
structure PushDecision where
  kept : Bool
  truncated : Bool
  deriving DecidableEq

structure RetainedText where
  text : JsString
  truncated : Bool
  omittedBytes : Omitted

/-- Keep a head, a tail, or both, counted in bytes. -/
inductive TextRetentionStrategy where
  | head (maxBytes : Nat)
  | tail (maxBytes : Nat)
  | headTail (headBytes tailBytes : Nat)

/-- What a push offers: bytes, or a string encoded as UTF-8. -/
inductive Chunk where
  | bytes (data : List UInt8)
  | text (string : JsString)

def Chunk.encode : Chunk → List UInt8
  | .bytes data => data
  | .text string => string.utf8

/-! ## Cuts -/

/-- `(b & 0xc0) === 0x80` -/
def isContinuation (b : UInt8) : Bool := b &&& 0xC0 == 0x80

/-- How many bytes are left, the last one of them the byte at which the walk back over
continuation bytes stops; none are when it runs off the start. -/
def walkBack (bytes : List UInt8) : Nat → Nat
  | 0 => 0
  | i + 1 =>
    if isContinuation (bytes.getD i 0) && decide (bytes.length - i ≤ 3) then walkBack bytes i
    else i + 1

/-- Drop a trailing incomplete sequence, so that a cut never emits a replacement character. -/
def trimTrailingPartialUtf8 (bytes : List UInt8) : List UInt8 :=
  match walkBack bytes bytes.length with
  | 0 => bytes
  | i + 1 =>
    let lead := bytes.getD i 0
    let expected :=
      if lead < 0x80 then 1 else if lead < 0xE0 then 2 else if lead < 0xF0 then 3
      else if lead < 0xF8 then 4 else 0
    if expected = 0 then bytes
    else if bytes.length - i < expected then bytes.take i else bytes

def trimLeadingContinuationUtf8 (bytes : List UInt8) : List UInt8 :=
  bytes.dropWhile isContinuation

/-- `decoder.decode(bytes)`: a byte order mark at the start is consumed. -/
def decode : List UInt8 → JsString
  | 0xEF :: 0xBB :: 0xBF :: rest => JsString.ofUtf8 rest
  | bytes => JsString.ofUtf8 bytes

/-! ## The retainer -/

structure TextRetainer where
  prefixCap : Nat
  suffixCap : Nat
  prefixChunks : List (List UInt8) := []
  prefixHeld : Nat := 0
  suffixChunks : List (List UInt8) := []
  suffixHeld : Nat := 0
  total : Nat := 0

namespace TextRetainer

def new : TextRetentionStrategy → TextRetainer
  | .head maxBytes => { prefixCap := maxBytes, suffixCap := 0 }
  | .tail maxBytes => { prefixCap := 0, suffixCap := maxBytes }
  | .headTail headBytes tailBytes => { prefixCap := headBytes, suffixCap := tailBytes }

/-- Bytes omitted once `total` bytes have been seen. -/
def omittedAt (r : TextRetainer) (total : Nat) : Nat :=
  let prefixLen := min total r.prefixCap
  let suffixLen := min (total - prefixLen) r.suffixCap
  total - prefixLen - suffixLen

/-- Drop whole leading chunks that have slid out of the last `suffixCap` bytes. -/
def slide (suffixCap : Nat) : List (List UInt8) → Nat → List (List UInt8) × Nat
  | [], held => ([], held)
  | head :: chunks, held =>
    if held - head.length ≥ suffixCap then slide suffixCap chunks (held - head.length)
    else (head :: chunks, held)

/-- Drop the bytes of the first chunk beyond the last `suffixCap`. -/
def shorten (suffixCap : Nat) : List (List UInt8) × Nat → List (List UInt8) × Nat
  | (head :: chunks, held) =>
    if held > suffixCap then (head.drop (held - suffixCap) :: chunks, held - (held - suffixCap))
    else (head :: chunks, held)
  | ([], held) => ([], held)

/-- Offer one chunk. -/
def push (r : TextRetainer) (chunk : Chunk) : PushDecision × TextRetainer :=
  let bytes := chunk.encode
  let before := r.total
  let total := r.total + bytes.length
  let room := r.prefixCap - r.prefixHeld
  let taken := min room bytes.length
  let (prefixChunks, prefixHeld) :=
    if taken > 0 then (r.prefixChunks ++ [bytes.take taken], r.prefixHeld + taken)
    else (r.prefixChunks, r.prefixHeld)
  let (suffixChunks, suffixHeld) :=
    if r.suffixCap > 0 then
      shorten r.suffixCap
        (slide r.suffixCap (r.suffixChunks ++ [bytes]) (r.suffixHeld + bytes.length))
    else (r.suffixChunks, r.suffixHeld)
  let droppedThisChunk := decide (r.omittedAt total > r.omittedAt before)
  ({ kept := !droppedThisChunk, truncated := decide (r.omittedAt total > 0) },
    { r with prefixChunks, prefixHeld, suffixChunks, suffixHeld, total })

/-- The parts of the stream that are decoded: two where something lies between them. -/
def slices (r : TextRetainer) : List UInt8 × List UInt8 :=
  let prefixLen := min r.total r.prefixCap
  let suffixLen := min (r.total - prefixLen) r.suffixCap
  let head := r.prefixChunks.flatten
  let tail := r.suffixChunks.flatten.drop (r.suffixHeld - suffixLen)
  if r.omittedAt r.total > 0 then (trimTrailingPartialUtf8 head, trimLeadingContinuationUtf8 tail)
  else (head, tail)

/-- Decode what is retained, each side trimmed at its cut, and count the omitted bytes. -/
def finish (r : TextRetainer) : RetainedText :=
  let (keptPrefix, keptSuffix) := r.slices
  let text :=
    if r.omittedAt r.total > 0 then ⟨(decode keptPrefix).units ++ (decode keptSuffix).units⟩
    else decode (keptPrefix ++ keptSuffix)
  let omitted := r.total - keptPrefix.length - keptSuffix.length
  let truncated := decide (omitted > 0)
  { text, truncated, omittedBytes := if truncated then .exact omitted else .none }

/-- Push every chunk in turn; the decisions in order. -/
def pushAll (r : TextRetainer) : List Chunk → List PushDecision × TextRetainer
  | [] => ([], r)
  | chunk :: chunks =>
    let (decision, r) := r.push chunk
    let (decisions, r) := r.pushAll chunks
    (decision :: decisions, r)

end TextRetainer

end Retention

end Harness
