-- SUMMARY: The validator of values against a supported schema (`tools/src/json-schema.ts`): a machine of explicit frames.
import Harness.Tools.JsonSchema

/-!
# Checking values

A frame is one call: it opens its children, runs them in order, and hands its violations to the
frame below. What a value throws is caught by the nearest frame that catches.
-/

namespace Harness
namespace Tools

open WhileLoop

/-! ## Messages -/

/-- Root-aware diagnostic path for the parameter validator's empty sentinel. -/
def diagnosticPath (path : JsString) : JsString := if path = "" then "arguments" else path

/-- Append one object property without a leading dot at an implicit root. -/
def propertyPath (path key : JsString) : JsString :=
  if path = "" then key else path ++ JsString.ofString "." ++ key

/-- A path in quotes, and what is wrong there. -/
def quotedMessage (path : JsString) (message : JsString) : JsString :=
  JsString.ofString "\"" ++ path ++ JsString.ofString "\"" ++ message

def diagnostic (path message : JsString) : List JsString :=
  [quotedMessage (diagnosticPath path) message]

/-- The generic exception-containment diagnostic owned by one valid schema node. -/
def losslessValueViolation (path : JsString) : List JsString :=
  diagnostic path " must be a lossless JSON value"

def Val.toJson : Val → Json
  | .bool b => .bool b
  | .number (.finite n) => .num n
  | .number .negZero => .num (.int 0)
  | .string s => .str s
  | _ => .null

/-! ## Frames -/

inductive FrameKind where
  | oneOf
  | object
  | array
  deriving DecidableEq

inductive FramePhase where
  | start
  | children
  deriving DecidableEq

/-- One child evaluation deferred by a container or exact-one union frame. -/
structure ValueChild where
  node : Val
  value : Val
  path : JsString

/-- Explicit call frame for stack-safe schema-value validation. -/
structure ValueFrame where
  node : Val
  value : Val
  path : JsString
  catches : Bool := false
  phase : FramePhase := .start
  kind : Option FrameKind := none
  children : List ValueChild := []
  childIndex : Nat := 0
  violations : List JsString := []
  tailViolations : List JsString := []
  /-- `matches`. -/
  matched : Nat := 0

def ValueFrame.setCatches (frame : ValueFrame) (catches : Bool) : ValueFrame :=
  { frame with catches }

/-- Initialize one validation frame with empty aggregation state. -/
def valueFrame (child : ValueChild) : ValueFrame where
  node := child.node
  value := child.value
  path := child.path

structure ValueState where
  /-- The current frame first. -/
  frames : List ValueFrame
  rootResult : Option (List JsString) := none

def ValueFrame.receive (parent : ValueFrame) (result : List JsString) : ValueFrame :=
  if parent.kind = some .oneOf then
    { parent with matched := if result.length = 0 then parent.matched + 1 else parent.matched }
  else { parent with violations := parent.violations ++ result }

/-- The parent of a finished frame takes its result. -/
def receive : List ValueFrame → List JsString → ValueState
  | [], result => { frames := [], rootResult := some result }
  | parent :: frames, result => { frames := parent.receive result :: frames }

/-- The frames that do not catch are dropped, and the next one fails. -/
def unwind : List ValueFrame → Throws ValueState
  | [] => .error ()
  | frame :: frames =>
    if frame.catches then .ok (receive frames (losslessValueViolation frame.path))
    else unwind frames

variable (heap : Heap)

/-! ## Opening a frame -/

/-- Validate one scalar node after its primitive type check. -/
def checkScalarValue (node value : Val) (path : JsString) : Throws (List JsString) := do
  let allowed ← readOwn heap node "enum"
  let found ← someItem (sameValueZero value) (itemsOf heap allowed)
  if allowed ≠ .undefined && !found then do
    let values ← readAll (itemsOf heap allowed)
    let text := (Json.arr (values.map Val.toJson)).stringify
    .ok (diagnostic path (JsString.ofString " must be one of " ++ ⟨text⟩))
  else do
    let declared ← readOwn heap node "const"
    if hasOwn heap node "const" && !strictlyEqual value declared then
      .ok (diagnostic path (JsString.ofString " must be " ++ ⟨declared.toJson.stringify⟩))
    else .ok []

/-- What is wrong with the primitive type of a value. -/
def typeProblem : ScalarType → Val → Option JsString
  | .string, .string _ => none
  | .string, _ => some " must be a string"
  | .number, .number n =>
    if isJsonNumber (.number n) then none else some " must be a finite JSON number"
  | .number, _ => some " must be a number"
  | .integer, value =>
    if !isJsonNumber value || !isInteger value then some " must be an integer" else none
  | .boolean, .bool _ => none
  | .boolean, _ => some " must be a boolean"
  | .null, .null => none
  | .null, _ => some " must be null"

def checkScalar (type : ScalarType) (node value : Val) (path : JsString) :
    Throws (List JsString) :=
  match typeProblem type value with
  | some problem => .ok (diagnostic path problem)
  | none => checkScalarValue heap node value path

/-- The required names that a record lacks. -/
def missingViolations (value : Val) (path : JsString) : List JsString → Throws (List JsString)
  | [] => .ok []
  | key :: keys => do
    let held ← readOwn heap value key
    let violations ← missingViolations value path keys
    .ok <| if held = .undefined then
        (JsString.ofString "missing required property \"" ++ propertyPath path key ++
          JsString.ofString "\"") :: violations
      else violations

/-- The declared properties that a record has. -/
def declaredChildren (value : Val) (path : JsString) :
    List (JsString × Val) → Throws (List ValueChild)
  | [] => .ok []
  | (key, child) :: entries => do
    let held ← readOwn heap value key
    let children ← declaredChildren value path entries
    .ok <| if held = .undefined then children
      else { node := child, value := held, path := propertyPath path key } :: children

/-- The keys of a record that are not declared. -/
def undeclaredViolations (value : Val) (path : JsString) (declared : JsString → Bool) :
    List JsString :=
  ((keysOf heap value).filter fun key => !declared key).map fun key =>
    quotedMessage (propertyPath path key)
      " is not a declared property (additionalProperties: false)"

def openObject (frame : ValueFrame) : Throws (ValueFrame ⊕ List JsString) := do
  let isRecord ← isPlainJsonRecord heap frame.value
  if !isRecord then .ok (.inr (diagnostic frame.path " must be an object"))
  else do
    let properties ← readOwn heap frame.node "properties"
    let required ← readOwn heap frame.node "required"
    let keys ← readAll (itemsOf heap required)
    let violations ← missingViolations heap frame.value frame.path (keys.map keyText)
    let entries ← entriesOf heap properties
    let children ← declaredChildren heap frame.value frame.path entries
    let additional ← readOwn heap frame.node "additionalProperties"
    let tailViolations := if additional = .bool false then
        undeclaredViolations heap frame.value frame.path (hasOwn heap properties)
      else []
    .ok (.inl { frame with
      kind := some .object, children, childIndex := 0, violations, tailViolations
      phase := .children })

/-- The elements of an array from `index` on with their paths; holes are left out. -/
def itemEntries (path : JsString) : Nat → List (Option Slot) → Throws (List (Val × JsString))
  | _, [] => .ok []
  | index, none :: items => itemEntries path (index + 1) items
  | index, some slot :: items => do
    let value ← slot.read
    let entries ← itemEntries path (index + 1) items
    .ok ((value, path ++ JsString.ofString s!"[{index}]") :: entries)

/-- The entries over which `value.flatMap(..)` goes. -/
def flatMapEntries (value : Val) (path : JsString) : Throws (List (Val × JsString)) :=
  match value with
  | .object ref =>
    match objectAt heap ref with
    | .array plain mappable extras items =>
      if (plain && extras = 0) || mappable then itemEntries path 0 items else .error ()
    | _ => .error ()
  | _ => .error ()

/-- The children of an array for its item schema, if there is one. -/
def itemChildren (items value : Val) (path : JsString) : Throws (List ValueChild) :=
  if items = .undefined then .ok []
  else do
    let entries ← flatMapEntries heap value path
    .ok (entries.map fun e => { node := items, value := e.1, path := e.2 })

def openArray (frame : ValueFrame) : Throws (ValueFrame ⊕ List JsString) := do
  let isArray ← isArray heap frame.value
  if !isArray then .ok (.inr (diagnostic frame.path " must be an array"))
  else do
    let items ← readOwn heap frame.node "items"
    let children ← itemChildren heap items frame.value frame.path
    .ok (.inl { frame with
      kind := some .array, children, childIndex := 0, violations := [], phase := .children })

/-- Whether a value is lossless JSON, else what is wrong. -/
def losslessViolations (value : Val) (path message : JsString) : List JsString :=
  if safelyIsJsonValue heap value then [] else diagnostic path message

/-- A frame in its start phase: it goes on to its children, or is finished. -/
def openFrame (frame : ValueFrame) (type : Val) : Throws (ValueFrame ⊕ List JsString) := do
  let oneOf ← readOwn heap frame.node "oneOf"
  if oneOf ≠ .undefined then do
    let branches ← readAll (itemsOf heap oneOf)
    let children := branches.map fun branch =>
      { node := branch, value := frame.value, path := frame.path : ValueChild }
    .ok (.inl { frame with
      kind := some .oneOf, children, childIndex := 0, matched := 0, phase := .children })
  else if type = .undefined then
    .ok (.inr (losslessViolations heap frame.value frame.path " must be a lossless JSON value"))
  else
    match schemaType type with
    | some .object => openObject heap frame
    | some .array => openArray heap frame
    | some (.scalar type) => do
      let violations ← checkScalar heap type frame.node frame.value frame.path
      .ok (.inr violations)
    | none => .error ()

/-! ## Turns -/

/-- The result of a frame without a child left. -/
def childrenResult (frame : ValueFrame) : List JsString :=
  match frame.kind with
  | some .oneOf =>
    if frame.matched = 1 then []
    else diagnostic frame.path <|
      JsString.ofString s!" must match exactly one oneOf branch (matched {frame.matched})"
  | kind =>
    let violations := frame.violations ++ frame.tailViolations
    if violations.length > 0 then violations
    else losslessViolations heap frame.value frame.path <|
      if kind = some .object then " must be a lossless JSON object"
      else " must be a dense lossless JSON array"

/-- A frame among its children. -/
def childrenTurn (frame : ValueFrame) (frames : List ValueFrame) : ValueState :=
  match frame.children[frame.childIndex]? with
  | some child =>
    { frames := valueFrame child :: { frame with childIndex := frame.childIndex + 1 } :: frames }
  | none => receive frames (childrenResult heap frame)

/-- A frame in its start phase, with what it throws caught. -/
def startTurn (frame : ValueFrame) (frames : List ValueFrame) : Throws ValueState :=
  match readOwn heap frame.node "type" with
  | .error _ => unwind (frame :: frames)
  | .ok type =>
    let frame := frame.setCatches (type = .undefined || (schemaType type).isSome)
    match openFrame heap frame type with
    | .error _ => unwind (frame :: frames)
    | .ok (.inl frame) => .ok { frames := frame :: frames }
    | .ok (.inr result) => .ok (receive frames result)

/-- One turn of `checkValue` from a root with a path. -/
def valueTurn (path : JsString) (s : ValueState) : Throws (ValueState ⊕ List JsString) :=
  match s.frames with
  | [] => .ok (.inr (s.rootResult.getD (losslessValueViolation path)))
  | frame :: frames =>
    match frame.phase with
    | .children => .ok (.inl (childrenTurn heap frame frames))
    | .start => do
      let s ← startTurn heap frame frames
      .ok (.inl s)

def initialValueState (schema value : Val) (path : JsString) : ValueState where
  frames := [valueFrame { node := schema, value, path }]

/-- `validateJsonSchemaValue` with at most `n` turns. -/
def validateJsonSchemaValue (n : Nat) (schema value : Val) (path : JsString) :
    Throws (Option (List JsString)) :=
  loop (valueTurn heap path) n (initialValueState schema value path)

end Tools

end Harness
