-- SUMMARY: The bounded, line-numbered window of `tool-fs/src/read-render.ts`, scanned from chunks, and the whole-text window it stands for.
import Harness.Json.Utf8
import Harness.Lib.TornLog
import Harness.Session.Repair

/-!
# Read windows

A read scans decoded text chunk by chunk. It keeps a capped piece of the current line only, so
that one line without an end cannot grow memory without bound.
-/

namespace Harness
namespace FsRead

/-! ## Windows -/

/-- Resolved read window: the first line, and how many lines, characters and bytes at most. -/
structure ReadWindow where
  offset : Nat
  limit : Nat
  maxLineLength : Nat
  maxBytes : Nat

structure FileTextLine where
  number : Nat
  text : JsString
  deriving DecidableEq

structure WindowResult where
  lines : List FileTextLine
  totalLines : Nat
  truncatedByBytes : Bool
  deriving DecidableEq

/-- The one error of a window, `FS_NOT_FOUND`. -/
structure OutOfRange where
  offset : Nat
  displayPath : JsString
  totalLines : Nat
  deriving DecidableEq

def OutOfRange.message (e : OutOfRange) : JsString :=
  JsString.ofString s!"offset {e.offset} is out of range for \"" ++ e.displayPath ++
    JsString.ofString s!"\" ({e.totalLines} lines)"

structure WindowAccumulator where
  lines : List FileTextLine := []
  totalLines : Nat := 0
  outputBytes : Nat := 0
  truncatedByBytes : Bool := false

def truncationMarker (maxLineLength : Nat) : JsString :=
  JsString.ofString "... (line truncated to " ++ JsString.ofString s!"{maxLineLength} chars)"

def truncateLine (line : List UInt16) (maxLineLength : Nat) : JsString :=
  if line.length > maxLineLength then
    ⟨line.take maxLineLength ++ (truncationMarker maxLineLength).units⟩
  else ⟨line⟩

def lineByteSize (line : JsString) (currentLineCount : Nat) : Nat :=
  line.byteLength + if currentLineCount > 0 then 1 else 0

section
variable (request : ReadWindow)

def consumeLine (acc : WindowAccumulator) (rawLine : List UInt16) : WindowAccumulator :=
  let acc := { acc with totalLines := acc.totalLines + 1 }
  if acc.truncatedByBytes || acc.totalLines < request.offset || acc.lines.length ≥ request.limit then
    acc
  else
    let text := truncateLine rawLine request.maxLineLength
    let bytes := lineByteSize text acc.lines.length
    if acc.outputBytes + bytes > request.maxBytes then { acc with truncatedByBytes := true }
    else
      { acc with
        outputBytes := acc.outputBytes + bytes
        lines := acc.lines ++ [⟨acc.totalLines, text⟩] }

def stripCarriageReturn (line : List UInt16) : List UInt16 :=
  if line.getLast? = some 13 then line.dropLast else line

def finish (acc : WindowAccumulator) (displayPath : JsString) : Except OutOfRange WindowResult :=
  if !acc.truncatedByBytes && request.offset > acc.totalLines &&
      !(acc.totalLines = 0 && request.offset = 1) then
    .error ⟨request.offset, displayPath, acc.totalLines⟩
  else .ok ⟨acc.lines, acc.totalLines, acc.truncatedByBytes⟩

/-! ## The scan -/

structure Scan where
  acc : WindowAccumulator := {}
  lineBuffer : List UInt16 := []

/-- One character past the truncation point is enough to prove that a line overflows. -/
def lineBufferCap : Nat := request.maxLineLength + 1

def Scan.appendToLineBuffer (s : Scan) (segment : List UInt16) : Scan :=
  if s.lineBuffer.length ≥ lineBufferCap request then s
  else
    let lineBuffer := s.lineBuffer ++ segment
    { s with
      lineBuffer :=
        if lineBuffer.length > lineBufferCap request then lineBuffer.take (lineBufferCap request)
        else lineBuffer }

def Scan.flushLine (s : Scan) : Scan :=
  { acc := consumeLine request s.acc (stripCarriageReturn s.lineBuffer), lineBuffer := [] }

/-- One chunk: each segment up to a line feed ends a line, what follows the last one is kept. -/
def Scan.chunk (s : Scan) (chunk : List UInt16) : Scan :=
  let (segments, last) := TornLog.lines 10 chunk
  Scan.appendToLineBuffer request
    (segments.foldl (fun s segment => (s.appendToLineBuffer request segment).flushLine request) s)
    last

/-- Build one window from chunks in file order. -/
def buildWindow (chunks : List (List UInt16)) (displayPath : JsString) :
    Except OutOfRange WindowResult :=
  let s := chunks.foldl (Scan.chunk request) {}
  let s := if s.lineBuffer.length > 0 then s.flushLine request else s
  finish request s.acc displayPath

/-! ## The whole text -/

/-- The lines of a text: its pieces between line feeds, a last empty one apart. -/
def linesOf (text : List UInt16) : List (List UInt16) :=
  let (complete, last) := TornLog.lines 10 text
  if last.isEmpty then complete else complete ++ [last]

/-- A line as a reader should see it. -/
def shownLine (maxLineLength : Nat) (line : List UInt16) : JsString :=
  truncateLine (stripCarriageReturn line) maxLineLength

/-- The longest beginning of `texts` that fits, `used` bytes being taken. -/
def keepWithin (maxBytes : Nat) : Nat → Nat → List JsString → List JsString
  | _, _, [] => []
  | used, count, text :: texts =>
    if used + lineByteSize text count > maxBytes then []
    else text :: keepWithin maxBytes (used + lineByteSize text count) (count + 1) texts

/-- The lines of the window, before the byte cap. -/
def windowLines (text : List UInt16) : List (List UInt16) :=
  ((linesOf text).drop (request.offset - 1)).take request.limit

/-- The window of a whole text whose lines are shown by `shown`. -/
def wholeWindow (shown : List UInt16 → JsString) (text : List UInt16) (displayPath : JsString) :
    Except OutOfRange WindowResult :=
  let totalLines := (linesOf text).length
  let window := (windowLines request text).map shown
  let kept := keepWithin request.maxBytes 0 0 window
  if request.offset > max 1 totalLines then .error ⟨request.offset, displayPath, totalLines⟩
  else
    .ok ⟨(kept.zipIdx (max 1 request.offset)).map fun e => ⟨e.2, e.1⟩, totalLines,
      decide (kept.length < window.length)⟩

end

end FsRead

end Harness
