-- SUMMARY: The literal edit of `fs-local` (`fsio.ts`, `index.ts`): decoding, line endings, the replacement and the bytes written back.
import Harness.Json.Utf8
import Harness.Session.Repair
import Harness.Lib.Occurrences

/-!
# Literal edits

An edit decodes the file, works on text whose line breaks are single line feeds, and restores the
style it detected. Texts are lists of UTF-16 code units here, as `indexOf` and `split` see them.
-/

namespace Harness
namespace FsLocal

inductive FsErrorCode where
  | FS_STALE_VERSION
  | FS_NOT_REGULAR_FILE
  | FS_NOT_TEXT
  | FS_EDIT_NOT_FOUND
  | FS_AMBIGUOUS_EDIT
  deriving DecidableEq

structure FsError where
  message : JsString
  code : FsErrorCode
  deriving DecidableEq

/-- A message about a path: what is wrong stands behind the quoted path. -/
def pathMessage (before : String) (displayPath : JsString) (after : String) : JsString :=
  JsString.ofString (before ++ " \"") ++ displayPath ++ JsString.ofString ("\"" ++ after)

/-! ## Line endings -/

inductive LineEndings where
  | LF
  | CRLF
  deriving DecidableEq

/-- `content.replaceAll('\r\n', '\n')`. -/
def normalizeLineEndings : List UInt16 → List UInt16
  | 13 :: 10 :: rest => 10 :: normalizeLineEndings rest
  | u :: rest => u :: normalizeLineEndings rest
  | [] => []

/-- The style of the first 4096 units. -/
def detectLineEndings (raw : List UInt16) : LineEndings :=
  let sample := raw.take 4096
  let crlfCount := (Occurrences.split [13, 10] sample).length - 1
  let lfCount := (Occurrences.split [10] sample).length - 1 - crlfCount
  if crlfCount > lfCount then .CRLF else .LF

def restoreLineEndings (content : List UInt16) (lineEndings : LineEndings) : List UInt16 :=
  if lineEndings = .LF then content
  else [13, 10].intercalate (Occurrences.split [10] (normalizeLineEndings content))

/-! ## Reading -/

def byteOrderMark : List UInt8 := [0xEF, 0xBB, 0xBF]

/-- `new TextDecoder('utf-8', { fatal: true })`: a byte order mark is consumed, and malformed bytes
are an error. -/
def decodeUtf8 (buffer : List UInt8) : Option (List UInt16) :=
  let body := if byteOrderMark <+: buffer then buffer.drop 3 else buffer
  (Unicode.decodeStrict body).map fun points => points.flatMap Unicode.units

/-- The bytes of a text; a lone surrogate is written as the replacement character. -/
def encodeUtf8 (text : List UInt16) : List UInt8 := (Unicode.points text).flatMap Unicode.bytes

structure EditBasis where
  content : List UInt16
  lineEndings : LineEndings
  deriving DecidableEq

def readForEdit (buffer : List UInt8) (displayPath : JsString) : Except FsError EditBasis :=
  if 0 ∈ buffer then
    .error ⟨pathMessage "cannot edit" displayPath ": binary file", .FS_NOT_TEXT⟩
  else
    match decodeUtf8 buffer with
    | none => .error ⟨pathMessage "cannot edit" displayPath ": invalid UTF-8 text", .FS_NOT_TEXT⟩
    | some raw => .ok ⟨normalizeLineEndings raw, detectLineEndings raw⟩

/-! ## The replacement -/

structure FsEditRequest where
  oldString : JsString
  newString : JsString
  replaceAll : Bool

structure Edited where
  content : List UInt16
  replacements : Nat
  deriving DecidableEq

/-- What an ambiguous edit reports. -/
def ambiguousMessage (replacements : Nat) (displayPath : JsString) : JsString :=
  pathMessage s!"old_string matched {replacements} times in" displayPath
    "; provide a more specific old_string or set replace_all to true"

def applyLiteralEdit (content : List UInt16) (edit : FsEditRequest) (displayPath : JsString) :
    Except FsError Edited :=
  let oldNorm := normalizeLineEndings edit.oldString.units
  if oldNorm.length = 0 then
    .error ⟨JsString.ofString "old_string must be a non-empty string", .FS_EDIT_NOT_FOUND⟩
  else
    let newNorm := normalizeLineEndings edit.newString.units
    let replacements := Occurrences.count oldNorm content
    if replacements = 0 then
      .error ⟨pathMessage "old_string was not found in" displayPath "", .FS_EDIT_NOT_FOUND⟩
    else if !edit.replaceAll && replacements > 1 then
      .error ⟨ambiguousMessage replacements displayPath, .FS_AMBIGUOUS_EDIT⟩
    else .ok ⟨newNorm.intercalate (Occurrences.split oldNorm content), replacements⟩

/-! ## The edit -/

/-- What a path resolves to: its version, and its bytes where it is a regular file. -/
structure PathInfo where
  version : JsString
  file : Option (List UInt8)

structure FsTarget where
  displayPath : JsString
  targetKey : JsString

structure FsEditOutcome where
  version : JsString
  before : List UInt16
  after : List UInt16
  deriving DecidableEq

def versionAfterWrite (after : Option JsString) (target : FsTarget) : JsString :=
  after.getD (JsString.ofString "missing:" ++ target.targetKey)

/-- The guarded edit under the target's lock: the bytes it writes, and what it reports. `existing`
is the target as it stands, `written` the version that the probe after the write gives. -/
def editText (target : FsTarget) (existing : Option PathInfo) (edit : FsEditRequest)
    (expected : Option JsString) (written : Option JsString) :
    Except FsError (List UInt8 × FsEditOutcome) :=
  let stale : FsError :=
    ⟨pathMessage "cannot edit" target.displayPath ": file changed since it was read",
      .FS_STALE_VERSION⟩
  match existing with
  | none => .error stale
  | some info =>
    match info.file with
    | none =>
      .error ⟨pathMessage "cannot edit" target.displayPath ": not a regular file",
        .FS_NOT_REGULAR_FILE⟩
    | some buffer =>
      if expected.any (· ≠ info.version) then .error stale
      else do
        let original ← readForEdit buffer target.displayPath
        let edited ← applyLiteralEdit original.content edit target.displayPath
        let content := restoreLineEndings edited.content original.lineEndings
        .ok (encodeUtf8 content,
          ⟨versionAfterWrite written target, original.content, edited.content⟩)

end FsLocal

end Harness
