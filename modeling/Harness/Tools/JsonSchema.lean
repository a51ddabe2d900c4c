-- SUMMARY: The walk over a raw JSON Schema (`tools/src/json-schema.ts`), and the schema that a node without violations is.
import Harness.Lib.WhileLoop
import Harness.Session.Repair
import Harness.Tools.Values

/-!
# Raw schemas

A raw schema is any value. The walk collects what is wrong with it; a schema that nothing is wrong
with unfolds to a finite tree, however its nodes are shared.
-/

namespace Harness

open List
open JsString (ofString)
namespace Tools

open WhileLoop
open Except (bind_eq_ok)

/-! ## Keywords -/

inductive ScalarType where
  | string
  | number
  | integer
  | boolean
  | null
  deriving DecidableEq

inductive SchemaType where
  | object
  | array
  | scalar (type : ScalarType)
  deriving DecidableEq

def ScalarType.name : ScalarType → JsString
  | .string => "string"
  | .number => "number"
  | .integer => "integer"
  | .boolean => "boolean"
  | .null => "null"

def SchemaType.name : SchemaType → JsString
  | .object => "object"
  | .array => "array"
  | .scalar type => type.name

/-- `SCHEMA_TYPES`. -/
def schemaTypes : List SchemaType :=
  [.object, .array, .scalar .string, .scalar .number, .scalar .integer, .scalar .boolean,
    .scalar .null]

def schemaType (value : Val) : Option SchemaType :=
  schemaTypes.find? fun type => value = .string type.name

def constraintKeywords : List JsString :=
  ["type", "oneOf", "properties", "required", "additionalProperties", "items", "enum", "const"]

def annotationKeywords : List JsString := ["description", "title", "default", "examples"]

/-- `ONE_OF_SIBLING_KEYWORDS`: invalid beside `oneOf`. -/
def oneOfSiblingKeywords : List JsString :=
  ["properties", "required", "additionalProperties", "items", "enum", "const"]

/-- The types a constraint is allowed on. -/
def allowedFor : List (JsString × (SchemaType → Bool)) :=
  let scalar : SchemaType → Bool
    | .scalar _ => true
    | _ => false
  [ ("properties", (· = .object)), ("required", (· = .object)),
    ("additionalProperties", (· = .object)), ("items", (· = .array)), ("enum", scalar),
    ("const", scalar) ]

/-- Whether a scalar is valid for one declared schema type. -/
def scalarMatches (type : ScalarType) (value : Val) : Bool :=
  match type, value with
  | .string, .string _ => true
  | .number, value => isJsonNumber value
  | .integer, value => isJsonNumber value && isInteger value
  | .boolean, .bool _ => true
  | .null, .null => true
  | _, _ => false

/-! ## The walk -/

/-- Deferred work for the stack-safe raw-schema walk. -/
inductive WalkTask where
  | enter (node : Val) (path : JsString)
  | leave (node : Val)
  | oneOfTail (node : Val) (path : JsString)
  | objectTail (node : Val) (path : JsString) (properties : Val)

structure WalkState where
  tasks : List WalkTask
  violations : List JsString := []
  seen : List Val := []

variable (heap : Heap)

/-- `${path}.${key}`, and what is wrong with it. -/
def keyMessage (path key : JsString) (message : String) : JsString :=
  path ++ ofString "." ++ key ++ ofString message

def Val.isString : Val → Bool
  | .string _ => true
  | _ => false

def Val.isBool : Val → Bool
  | .bool _ => true
  | _ => false

/-- `items.every(test)`. -/
def everyItem (test : Val → Bool) : List (Option Slot) → Throws Bool
  | [] => .ok true
  | item :: items => do
    let value ← readItem item
    if test value then everyItem test items else .ok false

/-- `items.some(test)`. -/
def someItem (test : Val → Bool) : List (Option Slot) → Throws Bool
  | [] => .ok false
  | item :: items => do
    let value ← readItem item
    if test value then .ok true else someItem test items

def keyText : Val → JsString
  | .string s => s
  | _ => ⟨[]⟩

/-- `isPlainJsonArray(list)`, with elements that pass a test. -/
def isArrayOf (test : Val → Bool) (list : Val) : Throws Bool := do
  let isArray ← isPlainJsonArray heap list
  if isArray then everyItem test (itemsOf heap list) else .ok false

/-- What is wrong with the required names of a node that has some. -/
def requiredViolations (path : JsString) (properties required : Val) : Throws (List JsString) := do
  let isStrings ← isArrayOf heap Val.isString required
  if !isStrings then .ok [keyMessage path "required" " must be an array of strings"]
  else do
    let isRecord ← isJsonSchemaRecord heap properties
    let keys ← readAll (itemsOf heap required)
    .ok <| ((keys.map keyText).filter fun key => !(isRecord && hasOwn heap properties key)).map
      fun key => path ++ ofString ".required names \"" ++ key ++
        ofString "\" which is not in properties"

/-- Validate object-only fields after the property schemas have been visited. -/
def checkObjectSchemaTail (node : Val) (path : JsString) (properties : Val) :
    Throws (List JsString) := do
  let required ← readOwn heap node "required"
  let wrong ← cond (hasOwn heap node "required") (requiredViolations heap path properties required)
    (.ok [])
  let additional ← readOwn heap node "additionalProperties"
  .ok <| wrong ++
    if hasOwn heap node "additionalProperties" && !additional.isBool then
      [keyMessage path "additionalProperties" " must be a boolean"]
    else []

/-- What is wrong with one key of a node. -/
def keyViolations (node : Val) (path key : JsString) : List JsString :=
  if key ∈ constraintKeywords then []
  else if key ∈ annotationKeywords then
    match readOwn heap node key >>= isJsonValue heap with
    | .ok true => []
    | _ => [keyMessage path key " annotation must be lossless JSON data"]
  else
    [keyMessage path key " is not a supported keyword (subset: " ++ ofString
      "type/oneOf/properties/required/additionalProperties/items/enum/const + annotations)"]

/-- An annotation that must be a string where it stands. -/
def stringViolations (node : Val) (path key : JsString) : Throws (List JsString) := do
  let value ← readOwn heap node key
  .ok <| if hasOwn heap node key && !value.isString then
      [keyMessage path key " must be a string"]
    else []

/-- The keywords of a node among some, each with what is wrong with it. -/
def presentViolations (node : Val) (path : JsString) (keys : List JsString) (message : String) :
    List JsString :=
  (keys.filter fun key => hasOwn heap node key).map fun key => keyMessage path key message

def enterItems (path : JsString) (branches : List Val) : List WalkTask :=
  branches.zipIdx.map fun e =>
    .enter e.1 (path ++ ofString s!".oneOf[{e.2}]")

/-- The branches of a union. -/
def checkOneOf (node : Val) (path : JsString) : Throws (List JsString × List WalkTask) := do
  let oneOf ← readOwn heap node "oneOf"
  let isArray ← isPlainJsonArray heap oneOf
  if !isArray || (itemsOf heap oneOf).length < 2 then
    .ok ([keyMessage path "oneOf" " must be an array of at least two schemas"],
      [.oneOfTail node path])
  else do
    let branches ← readAll (itemsOf heap oneOf)
    .ok ([], enterItems path branches ++ [.oneOfTail node path])

def checkProperties (node : Val) (path : JsString) : Throws (List JsString × List WalkTask) := do
  let properties ← readOwn heap node "properties"
  if !hasOwn heap node "properties" then .ok ([], [.objectTail node path properties])
  else do
    let isRecord ← isJsonSchemaRecord heap properties
    if !isRecord then
      .ok ([keyMessage path "properties" " must be an object of schemas"],
        [.objectTail node path properties])
    else do
      let entries ← entriesOf heap properties
      .ok ([], entries.map (fun e =>
          WalkTask.enter e.2 (keyMessage (keyMessage path "properties" "") e.1 ""))
        ++ [.objectTail node path properties])

def checkItems (node : Val) (path : JsString) : Throws (List JsString × List WalkTask) := do
  let items ← readOwn heap node "items"
  .ok ([], if hasOwn heap node "items" then [.enter items (keyMessage path "items" "")] else [])

/-- The literal constraints of a scalar node. -/
def checkLiterals (node : Val) (path : JsString) (type : ScalarType) : Throws (List JsString) := do
  let allowed ← readOwn heap node "enum"
  let isLiterals ← isArrayOf heap (scalarMatches type) allowed
  let enumValid := isLiterals && (itemsOf heap allowed).length > 0
  let enumViolations := if hasOwn heap node "enum" && !enumValid then
      [keyMessage path "enum" " must be a non-empty array of " ++ type.name ++
        ofString " values"]
    else []
  let declared ← readOwn heap node "const"
  if !hasOwn heap node "const" then .ok enumViolations
  else if !scalarMatches type declared then
    .ok <| enumViolations ++
      [keyMessage path "const" " must be a " ++ type.name ++ ofString " value"]
  else if !enumValid then .ok enumViolations
  else do
    let found ← someItem (sameValueZero declared) (itemsOf heap allowed)
    .ok <| enumViolations ++
      if found then []
      else
        [keyMessage path "const" " must be one of " ++
          keyMessage path "enum" " when both are declared"]

def schemaTypeNames : JsString := "object/array/string/number/integer/boolean/null"

/-- The constraints of a node by its type. -/
def checkType (node : Val) (path : JsString) :
    SchemaType → Throws (List JsString × List WalkTask)
  | .object => checkProperties heap node path
  | .array => checkItems heap node path
  | .scalar type => do
    let violations ← checkLiterals heap node path type
    .ok (violations, [])

/-- The constraints of a node with a type. -/
def checkTyped (node : Val) (path : JsString) : Throws (List JsString × List WalkTask) := do
  let type ← readOwn heap node "type"
  match schemaType type with
  | none => do
    let isList ← isArray heap type
    .ok ([if isList then
        keyMessage path "type" " must be a single type string (type arrays are not supported)"
      else keyMessage path "type" " must be one of " ++ schemaTypeNames], [])
  | some type => do
    let misplaced := (allowedFor.filter fun e => hasOwn heap node e.1 && !e.2 type).map fun e =>
      keyMessage path e.1 " is not supported on type \"" ++ type.name ++ ofString "\""
    let (violations, tasks) ← checkType heap node path type
    .ok (misplaced ++ violations, tasks)

/-- One node: what is wrong with it, and the tasks it defers. -/
def checkNode (node : Val) (path : JsString) : Throws (List JsString × List WalkTask) := do
  let keys := (keysOf heap node).flatMap (keyViolations heap node path)
  let description ← stringViolations heap node path "description"
  let title ← stringViolations heap node path "title"
  let own := keys ++ description ++ title
  let hasType := hasOwn heap node "type"
  let hasOneOf := hasOwn heap node "oneOf"
  if hasType && hasOneOf then
    .ok (own ++ [path ++ ofString " cannot declare both type and oneOf"], [])
  else if !hasType && !hasOneOf then
    .ok (own ++ presentViolations heap node path oneOfSiblingKeywords " requires type or oneOf", [])
  else do
    let (violations, tasks) ←
      cond hasOneOf (checkOneOf heap node path) (checkTyped heap node path)
    .ok (own ++ violations, tasks)

/-- One turn of `checkSchemaNode`; the first task is the top of the stack. -/
def checkTurn (s : WalkState) : Throws (WalkState ⊕ List JsString) :=
  match s.tasks with
  | [] => .ok (.inr s.violations)
  | .leave node :: tasks => .ok (.inl { s with tasks, seen := s.seen.filter (· ≠ node) })
  | .oneOfTail node path :: tasks =>
    .ok (.inl { s with
      tasks
      violations := s.violations ++
        presentViolations heap node path oneOfSiblingKeywords " is not supported beside oneOf" })
  | .objectTail node path properties :: tasks => do
    let violations ← checkObjectSchemaTail heap node path properties
    .ok (.inl { s with tasks, violations := s.violations ++ violations })
  | .enter node path :: tasks => do
    let isRecord ← isJsonSchemaRecord heap node
    if !isRecord then
      .ok (.inl { s with
        tasks
        violations := s.violations ++ [path ++ ofString " must be a schema object"] })
    else if node ∈ s.seen then
      .ok (.inl { s with
        tasks, violations := s.violations ++ [path ++ ofString " is circular"] })
    else do
      let (violations, deferred) ← checkNode heap node path
      .ok (.inl
        { tasks := deferred ++ .leave node :: tasks
          violations := s.violations ++ violations
          seen := node :: s.seen })

/-- `checkSchemaNode` with at most `n` tasks; the walk starts at `schema`. -/
def checkSchemaNode (n : Nat) (schema : Val) : Throws (Option (List JsString)) :=
  loop (checkTurn heap) n { tasks := [.enter schema "schema"] }

/-- `assertSupportedJsonSchema` returns: the walk comes to an end and found nothing wrong. -/
def Supported (schema : Val) : Prop := ∃ n, checkSchemaNode heap n schema = .ok (some [])

/-! ## What a schema asks for -/

/-- A schema as a tree: shared nodes are unfolded. -/
inductive Schema where
  | any
  | oneOf (branches : List Schema)
  | object (properties : List (JsString × Schema)) (required : List JsString) (closed : Bool)
  | array
  | arrayOf (items : Schema)
  | scalar (type : ScalarType) (allowed : Option (List Val)) (declared : Option Val)

/-- What a node holds under a key. -/
def Field (node : Val) (key : JsString) : Option Val → Prop
  | some value => hasOwn heap node key = true ∧ readOwn heap node key = .ok value
  | none => hasOwn heap node key = false

/-- The elements of a plain array. -/
def Elements (list : Val) (values : List Val) : Prop :=
  isPlainJsonArray heap list = .ok true ∧ readAll (itemsOf heap list) = .ok values

/-- A node with a type, and no union. -/
def Typed (node : Val) (type : SchemaType) : Prop :=
  isJsonSchemaRecord heap node = .ok true ∧
    Field heap node "type" (some (.string type.name)) ∧ Field heap node "oneOf" none

/-- The property schemas of a node. -/
def Properties (node : Val) (entries : List (JsString × Val)) : Prop :=
  (Field heap node "properties" none ∧ entries = []) ∨
    ∃ properties, Field heap node "properties" (some properties) ∧
      isJsonSchemaRecord heap properties = .ok true ∧ entriesOf heap properties = .ok entries

def Requires (node : Val) (names : List JsString) : Prop :=
  (Field heap node "required" none ∧ names = []) ∨
    ∃ required, Field heap node "required" (some required) ∧
      Elements heap required (names.map Val.string)

def Allows (node : Val) : Option (List Val) → Prop
  | none => Field heap node "enum" none
  | some values => ∃ list, Field heap node "enum" (some list) ∧ Elements heap list values

mutual
/-- A node of the heap is the root of a schema. -/
def Describes : Schema → Val → Prop
  | .any, node =>
    isJsonSchemaRecord heap node = .ok true ∧ ∀ key ∈ constraintKeywords, Field heap node key none
  | .oneOf branches, node =>
    isJsonSchemaRecord heap node = .ok true ∧ Field heap node "type" none ∧
      ∃ list values, Field heap node "oneOf" (some list) ∧ Elements heap list values ∧
        2 ≤ values.length ∧ DescribesAll branches values
  | .object properties required closed, node =>
    Typed heap node .object ∧ Requires heap node required ∧
      (∀ name ∈ required, name ∈ properties.map Prod.fst) ∧
      (∃ additional, readOwn heap node "additionalProperties" = .ok additional ∧
        closed = decide (additional = .bool false)) ∧
      ∃ entries, Properties heap node entries ∧ DescribesEntries properties entries
  | .array, node => Typed heap node .array ∧ Field heap node "items" none
  | .arrayOf items, node =>
    Typed heap node .array ∧ ∃ item, Field heap node "items" (some item) ∧ Describes items item
  | .scalar type allowed declared, node =>
    Typed heap node (.scalar type) ∧ Allows heap node allowed ∧ Field heap node "const" declared ∧
      (∀ values ∈ allowed, values ≠ [] ∧ ∀ value ∈ values, scalarMatches type value = true) ∧
      ∀ value ∈ declared, scalarMatches type value = true ∧ ∀ values ∈ allowed, value ∈ values

def DescribesAll : List Schema → List Val → Prop
  | [], nodes => nodes = []
  | schema :: schemas, nodes =>
    ∃ node rest, nodes = node :: rest ∧ Describes schema node ∧ DescribesAll schemas rest

def DescribesEntries : List (JsString × Schema) → List (JsString × Val) → Prop
  | [], entries => entries = []
  | (key, schema) :: properties, entries =>
    ∃ node rest, entries = (key, node) :: rest ∧ Describes schema node ∧
      DescribesEntries properties rest
end
/-! ## Nodes without violations -/

variable {heap} {node schema : Val} {path key : JsString}

variable {value : Val}

theorem field_of_read (h : readOwn heap node key = .ok value) :
    Field heap node key (if hasOwn heap node key then some value else none) := by
  cases hown : hasOwn heap node key with
  | false => exact hown
  | true => exact ⟨hown, h⟩

theorem Field.read {held : Option Val} (h : Field heap node key held) :
    readOwn heap node key = .ok (held.getD .undefined) := by
  cases held with
  | none => exact readOwn_of_not_hasOwn h
  | some value => exact h.2

theorem presentViolations_eq_nil {keys : List JsString} {message : String}
    (h : presentViolations heap node path keys message = []) :
    ∀ key ∈ keys, Field heap node key none := by
  intro key hkey
  rw [presentViolations, map_eq_nil_iff, filter_eq_nil_iff] at h
  exact Bool.eq_false_iff.mpr (h key hkey)

/-- What the walk still has to find out about a task for the schema to be a tree. -/
def WalkTask.Settled (heap : Heap) : WalkTask → Prop
  | .enter node _ => ∃ t, Describes heap t node
  | .objectTail node path properties => checkObjectSchemaTail heap node path properties = .ok []
  | .leave _ | .oneOfTail _ _ => True

variable {items : List (Option Slot)} {test : Val → Bool}

theorem everyItem_true (h : everyItem test items = .ok true) :
    ∃ values, readAll items = .ok values ∧ ∀ value ∈ values, test value = true := by
  induction items with
  | nil => exact ⟨[], rfl, fun value hmem => absurd hmem not_mem_nil⟩
  | cons item items ih =>
    obtain ⟨value, hread, h⟩ := bind_eq_ok.mp h
    cases htest : test value with
    | false => rw [htest] at h; cases h
    | true =>
      rw [htest] at h
      obtain ⟨values, hvalues, hall⟩ := ih h
      refine ⟨value :: values, ?_, forall_mem_cons.mpr ⟨htest, hall⟩⟩
      exact bind_eq_ok.mpr ⟨value, hread, bind_eq_ok.mpr ⟨values, hvalues, rfl⟩⟩

variable {values : List Val}

/-- What `some` finds among elements that can be read. -/
theorem someItem_of_readAll
    (h : readAll items = .ok values) : someItem test items = .ok (values.any test) := by
  induction items generalizing values with
  | nil => cases h; rfl
  | cons item items ih =>
    obtain ⟨value, hread, h⟩ := bind_eq_ok.mp h
    obtain ⟨rest, hrest, h⟩ := bind_eq_ok.mp h
    cases h
    refine bind_eq_ok.mpr ⟨value, hread, ?_⟩
    rw [any_cons, ih hrest]
    cases test value <;> rfl

theorem elements_of_isArrayOf {list : Val} (h : isArrayOf heap test list = .ok true) :
    ∃ values, Elements heap list values ∧ ∀ value ∈ values, test value = true := by
  obtain ⟨isArray, hisArray, h⟩ := bind_eq_ok.mp h
  cases isArray with
  | false => cases h
  | true =>
    obtain ⟨values, hvalues, hall⟩ := everyItem_true h
    exact ⟨values, ⟨hisArray, hvalues⟩, hall⟩

variable {type : ScalarType}

/-- The scalars of the schema compare as equal only to themselves. -/
theorem unsigned_of_scalarMatches
    (h : scalarMatches type value = true) : value.unsigned = value := by
  cases value with
  | number n =>
    cases n with
    | negZero => cases type <;> cases h
    | _ => rfl
  | _ => rfl

theorem sameValueZero_iff {a b : Val} (ha : scalarMatches type a = true)
    (hb : scalarMatches type b = true) : sameValueZero a b = true ↔ a = b := by
  rw [sameValueZero, unsigned_of_scalarMatches ha, unsigned_of_scalarMatches hb]
  exact decide_eq_true_iff

variable {entries : List (JsString × Val)}

theorem keys_of_readEntries {properties : List Property}
    (h : readEntries properties = .ok entries) :
    entries.map Prod.fst = properties.map Property.key := by
  induction properties generalizing entries with
  | nil => cases h; rfl
  | cons property properties ih =>
    obtain ⟨value, _, h⟩ := bind_eq_ok.mp h
    obtain ⟨rest, hrest, h⟩ := bind_eq_ok.mp h
    cases h
    rw [map_cons, map_cons, ih hrest]

theorem keys_of_entriesOf
    (h : entriesOf heap value = .ok entries) : entries.map Prod.fst = keysOf heap value :=
  keys_of_readEntries h

theorem mem_keysOf_of_hasOwn (hrecord : isJsonSchemaRecord heap value = .ok true)
    (h : hasOwn heap value key = true) : key ∈ keysOf heap value := by
  obtain ⟨property, hfind⟩ := Option.isSome_iff_exists.mp h
  have hmem := mem_of_find?_eq_some hfind
  have hkey : property.key = key := by simpa using find?_some hfind
  refine mem_map.mpr ⟨property, mem_filter.mpr ⟨hmem, ?_⟩, hkey⟩
  cases value with
  | object ref =>
    rw [propertiesOf] at hmem
    rw [isJsonSchemaRecord] at hrecord
    cases hobject : objectAt heap ref with
    | record plain symbols properties =>
      rw [hobject] at hmem hrecord
      have hall := Except.ok.inj hrecord
      rw [Bool.and_eq_true, all_eq_true] at hall
      exact hall.2 property hmem
    | _ =>
      rw [hobject] at hmem
      cases hmem
  | _ => cases hmem

theorem hasOwn_of_mem_keysOf (h : key ∈ keysOf heap value) : hasOwn heap value key = true := by
  obtain ⟨property, hmem, hkey⟩ := mem_map.mp h
  rw [hasOwn, ownProperty, find?_isSome]
  exact ⟨property, (mem_filter.mp hmem).1, by simpa using hkey⟩

theorem map_keyText (h : ∀ value ∈ values, value.isString = true) :
    (values.map keyText).map Val.string = values := by
  rw [map_map]
  conv_rhs => rw [← map_id values]
  refine map_congr_left fun value hmem => ?_
  cases value with
  | string s => rfl
  | _ => cases h _ hmem

/-- What the tail of an object node has found out. -/
theorem requires_of_tail {properties : Val}
    (h : checkObjectSchemaTail heap node path properties = .ok []) :
    (∃ names, Requires heap node names ∧ ∀ name ∈ names,
        isJsonSchemaRecord heap properties = .ok true ∧ hasOwn heap properties name = true) ∧
      ∃ additional, readOwn heap node "additionalProperties" = .ok additional := by
  obtain ⟨required, hrequired, h⟩ := bind_eq_ok.mp h
  obtain ⟨wrong, hwrong, h⟩ := bind_eq_ok.mp h
  obtain ⟨additional, hadditional, h⟩ := bind_eq_ok.mp h
  obtain ⟨rfl, -⟩ := append_eq_nil_iff.mp (Except.ok.inj h)
  refine ⟨?_, additional, hadditional⟩
  cases hown : hasOwn heap node "required" with
  | false => exact ⟨[], .inl ⟨hown, rfl⟩, fun name hmem => absurd hmem not_mem_nil⟩
  | true =>
    rw [hown] at hwrong
    obtain ⟨isStrings, hisStrings, hwrong⟩ := bind_eq_ok.mp hwrong
    cases isStrings with
    | false => cases hwrong
    | true =>
      obtain ⟨isRecord, hisRecord, hwrong⟩ := bind_eq_ok.mp hwrong
      obtain ⟨keys, hkeys, hwrong⟩ := bind_eq_ok.mp hwrong
      obtain ⟨values, ⟨hisArray, hvalues⟩, hstrings⟩ := elements_of_isArrayOf hisStrings
      obtain rfl : keys = values := Except.ok.inj (hkeys.symm.trans hvalues)
      have hnames := filter_eq_nil_iff.mp (map_eq_nil_iff.mp (Except.ok.inj hwrong))
      refine ⟨keys.map keyText, .inr ⟨required, ⟨hown, hrequired⟩, hisArray, ?_⟩, ?_⟩
      · rw [map_keyText hstrings]
        exact hkeys
      intro name hmem
      have hname := hnames name hmem
      rw [Bool.not_eq_true, Bool.not_eq_false', Bool.and_eq_true] at hname
      obtain rfl : isRecord = true := hname.1
      exact ⟨hisRecord, hname.2⟩

theorem schemaType_eq_some {type : SchemaType} (h : schemaType value = some type) :
    value = .string type.name := by
  simpa using find?_some h

@[simp] theorem schemaType_name (type : SchemaType) :
    schemaType (.string type.name) = some type := by
  cases type with
  | scalar type => cases type <;> rfl
  | _ => rfl

/-- Trees for the branches that the walk enters. -/
theorem describesAll_of_settled {nodes : List Val}
    (h : ∀ node ∈ nodes, ∃ t, Describes heap t node) : ∃ ts, DescribesAll heap ts nodes := by
  induction nodes with
  | nil => exact ⟨[], rfl⟩
  | cons node nodes ih =>
    obtain ⟨⟨t, ht⟩, hrest⟩ := forall_mem_cons.mp h
    obtain ⟨ts, hts⟩ := ih hrest
    exact ⟨t :: ts, node, nodes, rfl, ht, hts⟩

theorem describesEntries_of_settled
    (h : ∀ e ∈ entries, ∃ t, Describes heap t e.2) : ∃ ts, DescribesEntries heap ts entries := by
  induction entries with
  | nil => exact ⟨[], rfl⟩
  | cons e entries ih =>
    obtain ⟨⟨t, ht⟩, hrest⟩ := forall_mem_cons.mp h
    obtain ⟨ts, hts⟩ := ih hrest
    exact ⟨(e.1, t) :: ts, e.2, entries, rfl, ht, hts⟩

theorem DescribesEntries.keys {properties : List (JsString × Schema)}
    (h : DescribesEntries heap properties entries) :
    properties.map Prod.fst = entries.map Prod.fst := by
  induction properties generalizing entries with
  | nil => rw [DescribesEntries] at h; subst h; rfl
  | cons property properties ih =>
    obtain ⟨key, schema⟩ := property
    rw [DescribesEntries] at h
    obtain ⟨node, rest, rfl, -, hrest⟩ := h
    rw [map_cons, map_cons, ih hrest]

theorem length_of_readAll (h : readAll items = .ok values) : values.length = items.length := by
  induction items generalizing values with
  | nil => cases h; rfl
  | cons item items ih =>
    obtain ⟨value, _, h⟩ := bind_eq_ok.mp h
    obtain ⟨rest, hrest, h⟩ := bind_eq_ok.mp h
    cases h
    rw [length_cons, length_cons, ih hrest]

section Node

variable {deferred : List WalkTask} (hsettled : ∀ task ∈ deferred, task.Settled heap)

include hsettled

theorem checkOneOf_describes (hrecord : isJsonSchemaRecord heap node = .ok true)
    (htype : Field heap node "type" none)
    (hown : hasOwn heap node "oneOf" = true) (h : checkOneOf heap node path = .ok ([], deferred)) :
    ∃ t, Describes heap t node := by
  obtain ⟨oneOf, hread, h⟩ := bind_eq_ok.mp h
  obtain ⟨isArray, hisArray, h⟩ := bind_eq_ok.mp h
  split at h
  case isTrue => cases h
  case isFalse hvalid =>
    rw [Bool.or_eq_true, not_or, Bool.not_eq_true, Bool.not_eq_false', decide_eq_true_eq] at hvalid
    obtain ⟨rfl, htwo⟩ := hvalid
    obtain ⟨branches, hbranches, h⟩ := bind_eq_ok.mp h
    cases h
    have hall : ∀ branch ∈ branches, ∃ t, Describes heap t branch := by
      intro branch hmem
      obtain ⟨i, hi⟩ := mem_iff_getElem?.mp hmem
      have hzip : (branch, i) ∈ branches.zipIdx := mem_zipIdx_iff_getElem?.mpr hi
      apply hsettled (.enter branch (path ++ ofString s!".oneOf[{i}]"))
      exact mem_append_left _ (mem_map.mpr ⟨(branch, i), hzip, rfl⟩)
    obtain ⟨ts, hts⟩ := describesAll_of_settled hall
    refine ⟨.oneOf ts, ?_⟩
    rw [Describes]
    refine ⟨hrecord, htype, oneOf, branches, ⟨hown, hread⟩, ⟨hisArray, hbranches⟩, ?_, hts⟩
    rw [length_of_readAll hbranches]
    exact Nat.le_of_not_lt htwo

theorem checkProperties_describes (htyped : Typed heap node .object)
    (h : checkProperties heap node path = .ok ([], deferred)) : ∃ t, Describes heap t node := by
  obtain ⟨properties, hread, h⟩ := bind_eq_ok.mp h
  -- the tail is deferred behind the property schemas
  have hdone : ∀ entries, Properties heap node entries →
      (∀ e ∈ entries, ∃ t, Describes heap t e.2) →
      (isJsonSchemaRecord heap properties = .ok true →
        entriesOf heap properties = .ok entries) →
      checkObjectSchemaTail heap node path properties = .ok [] →
      ∃ t, Describes heap t node := by
    intro entries hproperties hall hentries htail
    obtain ⟨⟨names, hrequires, hnames⟩, additional, hadditional⟩ := requires_of_tail htail
    obtain ⟨ts, hts⟩ := describesEntries_of_settled hall
    refine ⟨.object ts names (decide (additional = .bool false)), ?_⟩
    rw [Describes]
    refine ⟨htyped, hrequires, ?_, ⟨additional, hadditional, rfl⟩, entries, hproperties, hts⟩
    intro name hmem
    obtain ⟨hisRecord, hown⟩ := hnames name hmem
    rw [hts.keys, keys_of_entriesOf (hentries hisRecord)]
    exact mem_keysOf_of_hasOwn hisRecord hown
  split at h
  case isTrue hnone =>
    cases h
    rw [Bool.not_eq_true'] at hnone
    obtain rfl : properties = .undefined :=
      Except.ok.inj (hread.symm.trans (readOwn_of_not_hasOwn hnone))
    exact hdone [] (.inl ⟨hnone, rfl⟩) (fun e hmem => absurd hmem not_mem_nil) nofun
      (hsettled _ (mem_singleton_self _))
  case isFalse hown =>
    rw [Bool.not_eq_true', Bool.not_eq_false] at hown
    obtain ⟨isRecord, hisRecord, h⟩ := bind_eq_ok.mp h
    split at h
    case isTrue => cases h
    case isFalse hrec =>
      rw [Bool.not_eq_true', Bool.not_eq_false] at hrec
      subst hrec
      obtain ⟨entries, hentries, h⟩ := bind_eq_ok.mp h
      cases h
      apply hdone entries (.inr ⟨properties, ⟨hown, hread⟩, hisRecord, hentries⟩)
      · intro e hmem
        exact hsettled _ (mem_append_left _ (mem_map.mpr ⟨e, hmem, rfl⟩))
      · exact fun _ => hentries
      · exact hsettled _ (mem_append_right _ (mem_singleton_self _))

theorem checkItems_describes (htyped : Typed heap node .array)
    (h : checkItems heap node path = .ok ([], deferred)) : ∃ t, Describes heap t node := by
  obtain ⟨items, hread, h⟩ := bind_eq_ok.mp h
  cases h
  cases hown : hasOwn heap node "items" with
  | false =>
    refine ⟨.array, ?_⟩
    rw [Describes]
    exact ⟨htyped, hown⟩
  | true =>
    rw [hown] at hsettled
    obtain ⟨t, ht⟩ : ∃ t, Describes heap t items := hsettled _ (mem_singleton_self _)
    refine ⟨.arrayOf t, ?_⟩
    rw [Describes]
    exact ⟨htyped, items, ⟨hown, hread⟩, ht⟩

end Node

theorem checkLiterals_describes (htyped : Typed heap node (.scalar type))
    (h : checkLiterals heap node path type = .ok []) : ∃ t, Describes heap t node := by
  obtain ⟨list, hlist, h⟩ := bind_eq_ok.mp h
  obtain ⟨isLiterals, hisLiterals, h⟩ := bind_eq_ok.mp h
  obtain ⟨declared, hdeclared, h⟩ := bind_eq_ok.mp h
  -- the allowed values, which the constant has to be among
  obtain ⟨allowed, hallows, hallowed, hvalid⟩ : ∃ allowed, Allows heap node allowed ∧
      (∀ values ∈ allowed, values ≠ [] ∧ ∀ value ∈ values, scalarMatches type value = true) ∧
      ∀ values ∈ allowed,
        (isLiterals && decide ((itemsOf heap list).length > 0)) = true ∧
          readAll (itemsOf heap list) = .ok values := by
    cases hown : hasOwn heap node "enum" with
    | false => exact ⟨none, hown, nofun, nofun⟩
    | true =>
      cases hvalid : isLiterals && decide ((itemsOf heap list).length > 0) with
      | false =>
        rw [hown, hvalid] at h
        split at h
        · cases h
        · split at h <;> cases h
      | true =>
        rw [Bool.and_eq_true, decide_eq_true_eq] at hvalid
        obtain ⟨rfl, hlength⟩ := hvalid
        obtain ⟨values, hvalues, hall⟩ := elements_of_isArrayOf hisLiterals
        refine ⟨some values, ⟨list, ⟨hown, hlist⟩, hvalues⟩, ?_, ?_⟩
        · intro values' hvalues'
          obtain rfl := Option.some.inj hvalues'
          refine ⟨?_, hall⟩
          rintro rfl
          rw [← length_of_readAll hvalues.2] at hlength
          exact absurd hlength (Nat.lt_irrefl 0)
        · intro values' hvalues'
          obtain rfl := Option.some.inj hvalues'
          exact ⟨rfl, hvalues.2⟩
  refine ⟨.scalar type allowed (if hasOwn heap node "const" then some declared else none), ?_⟩
  rw [Describes]
  refine ⟨htyped, hallows, field_of_read hdeclared, hallowed, ?_⟩
  cases hown : hasOwn heap node "const" with
  | false => exact nofun
  | true =>
    intro value hvalue
    obtain rfl : declared = value := Option.some.inj hvalue
    rw [hown] at h
    cases hmatches : scalarMatches type declared with
    | false =>
      rw [hmatches] at h
      cases append_eq_nil_iff.mp (Except.ok.inj h) |>.2
    | true =>
      refine ⟨rfl, fun values hvalues => ?_⟩
      obtain ⟨henum, hread⟩ := hvalid values hvalues
      rw [hmatches, henum] at h
      obtain ⟨found, hfound, h⟩ := bind_eq_ok.mp h
      rw [someItem_of_readAll hread] at hfound
      obtain rfl := Except.ok.inj hfound
      have hany : values.any (sameValueZero declared) = true := by
        cases hany : values.any (sameValueZero declared) with
        | true => rfl
        | false =>
          rw [hany] at h
          cases append_eq_nil_iff.mp (Except.ok.inj h) |>.2
      obtain ⟨value, hmem, hsame⟩ := any_eq_true.mp hany
      obtain rfl := (sameValueZero_iff hmatches ((hallowed values hvalues).2 value hmem)).mp hsame
      exact hmem

/-- A node that nothing is wrong with, and whose deferred tasks find nothing either. -/
theorem checkNode_describes {deferred : List WalkTask}
    (hrecord : isJsonSchemaRecord heap node = .ok true)
    (h : checkNode heap node path = .ok ([], deferred))
    (hsettled : ∀ task ∈ deferred, task.Settled heap) : ∃ t, Describes heap t node := by
  obtain ⟨description, _, h⟩ := bind_eq_ok.mp h
  obtain ⟨title, _, h⟩ := bind_eq_ok.mp h
  cases htype : hasOwn heap node "type" with
  | false =>
    cases honeOf : hasOwn heap node "oneOf" with
    | false =>
      rw [htype, honeOf] at h
      have hviolations := congrArg Prod.fst (Except.ok.inj h)
      have hsiblings := presentViolations_eq_nil (append_eq_nil_iff.mp hviolations).2
      refine ⟨.any, ?_⟩
      rw [Describes]
      refine ⟨hrecord, forall_mem_cons.mpr ⟨htype, forall_mem_cons.mpr ⟨honeOf, ?_⟩⟩⟩
      exact hsiblings
    | true =>
      rw [htype, honeOf] at h
      obtain ⟨⟨violations, tasks⟩, hcheck, h⟩ := bind_eq_ok.mp h
      obtain ⟨hviolations, rfl⟩ := Prod.mk.inj (Except.ok.inj h)
      obtain ⟨-, rfl⟩ := append_eq_nil_iff.mp hviolations
      exact checkOneOf_describes hsettled hrecord htype honeOf hcheck
  | true =>
    cases honeOf : hasOwn heap node "oneOf" with
    | true =>
      rw [htype, honeOf] at h
      have hviolations := congrArg Prod.fst (Except.ok.inj h)
      cases (append_eq_nil_iff.mp hviolations).2
    | false =>
      rw [htype, honeOf] at h
      obtain ⟨⟨violations, tasks⟩, hcheck, h⟩ := bind_eq_ok.mp h
      obtain ⟨hviolations, rfl⟩ := Prod.mk.inj (Except.ok.inj h)
      obtain ⟨-, rfl⟩ := append_eq_nil_iff.mp hviolations
      obtain ⟨value, hread, hcheck⟩ := bind_eq_ok.mp hcheck
      split at hcheck
      case h_1 =>
        obtain ⟨isList, _, hcheck⟩ := bind_eq_ok.mp hcheck
        cases hcheck
      case h_2 type hname =>
        obtain ⟨⟨violations, tasks'⟩, hcheck, h⟩ := bind_eq_ok.mp hcheck
        obtain ⟨hviolations, rfl⟩ := Prod.mk.inj (Except.ok.inj h)
        obtain ⟨-, rfl⟩ := append_eq_nil_iff.mp hviolations
        obtain rfl := schemaType_eq_some hname
        have htyped : Typed heap node type := ⟨hrecord, ⟨htype, hread⟩, honeOf⟩
        cases type with
        | object => exact checkProperties_describes hsettled htyped hcheck
        | array => exact checkItems_describes hsettled htyped hcheck
        | scalar type =>
          obtain ⟨violations, hcheck, h⟩ := bind_eq_ok.mp hcheck
          obtain ⟨rfl, -⟩ := Prod.mk.inj (Except.ok.inj h)
          exact checkLiterals_describes htyped hcheck

/-- A supported schema is a tree, however its nodes are shared. -/
theorem Supported.exists_describes (h : Supported heap schema) : ∃ t, Describes heap t schema := by
  obtain ⟨n, hloop⟩ := h
  have hall := loop_backward
    (P := fun s : WalkState => s.violations = [] ∧ ∀ task ∈ s.tasks, task.Settled heap)
    ?_ ?_ hloop
  · exact hall.2 _ (mem_singleton_self _)
  · intro s hturn
    obtain ⟨tasks, violations, seen⟩ := s
    cases tasks with
    | nil =>
      cases hturn
      exact ⟨rfl, fun task hmem => absurd hmem not_mem_nil⟩
    | cons task tasks =>
      cases task with
      | leave node => cases hturn
      | oneOfTail node path => cases hturn
      | objectTail node path properties =>
        obtain ⟨violations', _, hturn⟩ := bind_eq_ok.mp hturn
        cases hturn
      | enter node path =>
        obtain ⟨isRecord, _, hturn⟩ := bind_eq_ok.mp hturn
        split at hturn
        · cases hturn
        split at hturn
        · cases hturn
        · obtain ⟨_, _, hturn⟩ := bind_eq_ok.mp hturn
          cases hturn
  · intro s s' hturn hs'
    obtain ⟨tasks, violations, seen⟩ := s
    cases tasks with
    | nil => cases hturn
    | cons task tasks =>
      cases task with
      | leave node =>
        cases hturn
        exact ⟨hs'.1, forall_mem_cons.mpr ⟨trivial, hs'.2⟩⟩
      | oneOfTail node path =>
        cases hturn
        exact ⟨(append_eq_nil_iff.mp hs'.1).1, forall_mem_cons.mpr ⟨trivial, hs'.2⟩⟩
      | objectTail node path properties =>
        obtain ⟨violations', htail, hturn⟩ := bind_eq_ok.mp hturn
        cases hturn
        obtain ⟨hnil, rfl⟩ := append_eq_nil_iff.mp hs'.1
        exact ⟨hnil, forall_mem_cons.mpr ⟨htail, hs'.2⟩⟩
      | enter node path =>
        obtain ⟨isRecord, hisRecord, hturn⟩ := bind_eq_ok.mp hturn
        split at hturn
        · cases hturn
          cases (append_eq_nil_iff.mp hs'.1).2
        rename_i hrecord
        split at hturn
        · cases hturn
          cases (append_eq_nil_iff.mp hs'.1).2
        rw [Bool.not_eq_true', Bool.not_eq_false] at hrecord
        subst hrecord
        obtain ⟨⟨violations', deferred⟩, hcheck, hturn⟩ := bind_eq_ok.mp hturn
        cases hturn
        obtain ⟨hnil, rfl⟩ := append_eq_nil_iff.mp hs'.1
        have hdeferred := forall_mem_append.mp hs'.2
        refine ⟨hnil, forall_mem_cons.mpr ⟨?_, (forall_mem_cons.mp hdeferred.2).2⟩⟩
        exact checkNode_describes hisRecord hcheck hdeferred.1

end Tools

end Harness
