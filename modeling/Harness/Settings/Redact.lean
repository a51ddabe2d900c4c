-- SUMMARY: `settings/src/redact.ts`: stripping the secret fields of a value and recording their positions.
import Harness.Settings.Value

/-!
# Redacting secrets
-/

namespace Harness

open List

/-- The `type` of a schema node; the redactor walks the three containers. -/
inductive SchemaType where
  | object
  | dict
  | array
  | other (name : String)
  deriving DecidableEq

/-- The part of a live schema node that the redactor reads. An absent `dict` and an empty one
are the same to it. -/
inductive SchemaNode where
  | node (type : SchemaType) (role : Option String) (dict : List (JsString × SchemaNode))
    (inner : Option SchemaNode)

namespace SchemaNode

def type : SchemaNode → SchemaType
  | .node type .. => type

def dict : SchemaNode → OrderedMap JsString SchemaNode
  | .node _ _ dict _ => dict

def inner : SchemaNode → Option SchemaNode
  | .node _ _ _ inner => inner

/-- `node.meta?.role === 'secret'`. -/
def isSecret : SchemaNode → Bool
  | .node _ role .. => role == some "secret"

mutual

/-- Induction on a schema: the declared properties and the element schema come first. -/
theorem induct {motive : SchemaNode → Prop}
    (node : ∀ type role dict inner, (∀ e ∈ dict, motive e.2) →
      (∀ child, inner = some child → motive child) → motive (.node type role dict inner)) :
    ∀ schema, motive schema
  | .node type role dict inner =>
    node type role dict inner (inductProperties node dict) (inductInner node inner)

theorem inductProperties {motive : SchemaNode → Prop}
    (node : ∀ type role dict inner, (∀ e ∈ dict, motive e.2) →
      (∀ child, inner = some child → motive child) → motive (.node type role dict inner)) :
    ∀ dict : List (JsString × SchemaNode), ∀ e ∈ dict, motive e.2
  | [], _, he => nomatch he
  | (_, child) :: rest, e, he =>
    match mem_cons.mp he with
    | .inl heq => heq ▸ induct node child
    | .inr hrest => inductProperties node rest e hrest

theorem inductInner {motive : SchemaNode → Prop}
    (node : ∀ type role dict inner, (∀ e ∈ dict, motive e.2) →
      (∀ child, inner = some child → motive child) → motive (.node type role dict inner)) :
    ∀ (inner : Option SchemaNode) child, inner = some child → motive child
  | some child, _, rfl => induct node child

end

/-- `key in properties`. The properties of an object node are an ordinary object, so the names
of `Object.prototype` are in it. -/
def inProperties (properties : OrderedMap JsString SchemaNode) (key : JsString) : Bool :=
  decide (key ∈ OrderedMap.keys properties ∨ key ∈ Setting.prototypeNames)

end SchemaNode

/-- One schema-declared secret position inside a redacted value. -/
structure RedactedSecret where
  path : List JsString
  set : Bool

/-- A value with every secret field removed, plus the removal record. -/
structure RedactedValue where
  value : Setting
  secrets : List RedactedSecret

namespace Redact

open Setting (assign)

/-- Whether a value is a plain data object the walker may recurse into. -/
def isRecord : Setting → Bool
  | .record _ => true
  | .inherited name => decide (name = Setting.protoKey)
  | _ => false

/-- The own entries of the source that no declared property stands for. -/
def undeclared (properties : OrderedMap JsString SchemaNode) (source : Option Setting) :
    OrderedMap JsString Setting :=
  ((source.map Setting.entries).getD []).foldl
    (fun rebuilt e => if SchemaNode.inProperties properties e.1 then rebuilt else assign rebuilt e.1 e.2)
    []

/-- `source?.[key]`. -/
def readSource (source : Option Setting) (key : JsString) : Setting :=
  (source.map fun value => value.member key).getD .undefined

/-- `if (stripped !== undefined) rebuilt[key] = stripped`. -/
def keep (rebuilt : OrderedMap JsString Setting) (key : JsString) (stripped : Setting) :
    OrderedMap JsString Setting :=
  if stripped.isUndefined then rebuilt else assign rebuilt key stripped

mutual

def walk : SchemaNode → Setting → List JsString → List RedactedSecret →
    Setting × List RedactedSecret
  | .node type role dict inner, value, path, secrets =>
    if role == some "secret" then (.undefined, secrets ++ [⟨path, !value.isUndefined⟩])
    else
      match type with
      | .object =>
        let source := if isRecord value then some value else none
        let (rebuilt, secrets) :=
          walkProperties dict source path (undeclared dict source) secrets
        (if source.isNone && rebuilt.isEmpty then value else .record rebuilt, secrets)
      | .dict =>
        if isRecord value then
          let (rebuilt, secrets) := value.entries.foldl
            (fun (rebuilt, secrets) (key, entry) =>
              let (stripped, secrets) := walkInner inner entry (path ++ [key]) secrets
              (keep rebuilt key stripped, secrets))
            ([], secrets)
          (.record rebuilt, secrets)
        else (value, secrets)
      | .array =>
        match value with
        | .array items =>
          let (items, secrets) := items.zipIdx.foldl
            (fun (mapped, secrets) (entry, index) =>
              let (stripped, secrets) :=
                walkInner inner entry (path ++ [Setting.indexKey index]) secrets
              (mapped ++ [stripped], secrets))
            ([], secrets)
          (.array items, secrets)
        | value => (value, secrets)
      | .other _ => (value, secrets)

/-- The walk under `node.inner`, which may be missing. -/
def walkInner : Option SchemaNode → Setting → List JsString → List RedactedSecret →
    Setting × List RedactedSecret
  | none, value, _, secrets => (value, secrets)
  | some node, value, path, secrets => walk node value path secrets

/-- The declared properties of an object node, in order. -/
def walkProperties : List (JsString × SchemaNode) → Option Setting → List JsString →
    OrderedMap JsString Setting → List RedactedSecret →
    OrderedMap JsString Setting × List RedactedSecret
  | [], _, _, rebuilt, secrets => (rebuilt, secrets)
  | (key, child) :: rest, source, path, rebuilt, secrets =>
    let (stripped, secrets) := walk child (readSource source key) (path ++ [key]) secrets
    walkProperties rest source path (keep rebuilt key stripped) secrets

end

/-- Remove every secret field that a schema declares from a value. -/
def redactSecrets (schema : SchemaNode) (value : Setting) : RedactedValue :=
  let (stripped, secrets) := walk schema value [] []
  { value := stripped, secrets }

attribute [local simp] walk walkInner walkProperties

/-! ## The walk as two functions -/

/-- The stripped value of the walk. -/
def strip (node : SchemaNode) (value : Setting) : Setting := (walk node value [] []).1

/-- The secrets of the walk, by their paths from the value. -/
def found (node : SchemaNode) (value : Setting) : List RedactedSecret := (walk node value [] []).2

def stripInner (inner : Option SchemaNode) (value : Setting) : Setting :=
  (walkInner inner value [] []).1

def foundInner (inner : Option SchemaNode) (value : Setting) : List RedactedSecret :=
  (walkInner inner value [] []).2

/-- A secret position seen from further out. -/
def under (path : List JsString) (secret : RedactedSecret) : RedactedSecret :=
  { secret with path := path ++ secret.path }

/-- Where the walk stands and what it has recorded do not change what it does. -/
def Uniform (node : SchemaNode) : Prop :=
  ∀ value path secrets,
    walk node value path secrets
      = (strip node value, secrets ++ (found node value).map (under path))

theorem under_under (path path' : List JsString) :
    under path ∘ under path' = under (path ++ path') := by
  funext secret
  simp [under]

theorem walkProperties_eq {properties : List (JsString × SchemaNode)}
    (h : ∀ e ∈ properties, Uniform e.2) (source : Option Setting) (path : List JsString)
    (rebuilt : OrderedMap JsString Setting) (secrets : List RedactedSecret) :
    walkProperties properties source path rebuilt secrets
      = (properties.foldl (fun r e => keep r e.1 (strip e.2 (readSource source e.1))) rebuilt,
        secrets ++ properties.flatMap fun e =>
          (found e.2 (readSource source e.1)).map (under (path ++ [e.1]))) := by
  induction properties generalizing rebuilt secrets with
  | nil => simp [walkProperties]
  | cons e rest ih =>
    obtain ⟨key, child⟩ := e
    have hchild : Uniform child := h (key, child) (by simp)
    have hrest : ∀ e ∈ rest, Uniform e.2 := fun e he => h e (mem_cons_of_mem _ he)
    simp only [walkProperties, hchild _ (path ++ [key]) secrets, ih hrest, foldl_cons,
      flatMap_cons, append_assoc]

theorem walkInner_eq {inner : Option SchemaNode} (h : ∀ child, inner = some child → Uniform child)
    (value : Setting) (path : List JsString) (secrets : List RedactedSecret) :
    walkInner inner value path secrets
      = (stripInner inner value,
        secrets ++ (foundInner inner value).map (under path)) := by
  cases inner with
  | none => simp [walkInner, stripInner, foundInner]
  | some child =>
    simp only [walkInner, stripInner, foundInner]
    exact h child rfl value path secrets

/-- A loop that strips the elements of a container one after the other. -/
theorem foldl_walkInner {ε β : Type*} {inner : Option SchemaNode}
    (h : ∀ child, inner = some child → Uniform child) (element : ε → Setting) (key : ε → JsString)
    (add : β → ε → Setting → β) (path : List JsString) (es : List ε) (acc : β)
    (secrets : List RedactedSecret) :
    es.foldl (fun (s : β × List RedactedSecret) e =>
        (add s.1 e (walkInner inner (element e) (path ++ [key e]) s.2).1,
          (walkInner inner (element e) (path ++ [key e]) s.2).2)) (acc, secrets)
      = (es.foldl (fun acc e => add acc e (stripInner inner (element e))) acc,
        secrets ++ es.flatMap fun e =>
          (foundInner inner (element e)).map (under (path ++ [key e]))) := by
  induction es generalizing acc secrets with
  | nil => simp
  | cons e rest ih =>
    simp only [foldl_cons, walkInner_eq h (element e) (path ++ [key e]) secrets, ih,
      flatMap_cons, append_assoc]

/-- The record that an object node rebuilds from its source. -/
def rebuild (properties : OrderedMap JsString SchemaNode) (source : Option Setting) :
    OrderedMap JsString Setting :=
  properties.foldl (fun r e => keep r e.1 (strip e.2 (readSource source e.1)))
    (undeclared properties source)

/-- What an object node reads properties from. -/
def sourceOf (value : Setting) : Option Setting := if isRecord value then some value else none

theorem uniform (node : SchemaNode) : Uniform node := by
  induction node using SchemaNode.induct with
  | node type role dict inner hdict hinner =>
    intro value path secrets
    simp only [strip, found, walk]
    split
    · simp [under]
    cases type with
    | object =>
      simp only [walkProperties_eq hdict, nil_append, map_flatMap, map_map,
        under_under, append_assoc]
    | dict =>
      simp only
      split
      · have hfold := foldl_walkInner hinner (fun e : JsString × Setting => e.2) (fun e => e.1)
          (fun acc e stripped => keep acc e.1 stripped)
        simp only [hfold]
        simp only [nil_append, map_flatMap, map_map, under_under]
      · simp
    | array =>
      cases value with
      | array items =>
        have hfold := foldl_walkInner hinner (fun e : Setting × Nat => e.1)
          (fun e => Setting.indexKey e.2) (fun acc _ stripped => acc ++ [stripped])
        simp only [hfold]
        simp only [nil_append, map_flatMap, map_map, under_under]
      | _ => simp
    | other name => simp

/-! ## What each kind of node does -/

variable {node : SchemaNode} {value : Setting}

theorem strip_secret (h : node.isSecret = true) : strip node value = .undefined := by
  obtain ⟨type, role, dict, inner⟩ := node
  simp only [SchemaNode.isSecret] at h
  simp only [strip, walk, h, if_true]

theorem found_secret (h : node.isSecret = true) : found node value = [⟨[], !value.isUndefined⟩] := by
  obtain ⟨type, role, dict, inner⟩ := node
  simp only [SchemaNode.isSecret] at h
  simp only [found, walk, h, if_true, nil_append]

section

variable (h : node.isSecret = false)
include h

theorem strip_object (htype : node.type = .object) :
    strip node value
      = if (sourceOf value).isNone && (rebuild node.dict (sourceOf value)).isEmpty then value
        else .record (rebuild node.dict (sourceOf value)) := by
  obtain ⟨type, role, dict, inner⟩ := node
  simp only [SchemaNode.isSecret] at h
  cases htype
  simp only [strip, walk, h, Bool.false_eq_true, if_false,
    walkProperties_eq fun e _ => uniform e.2]
  rfl

theorem found_object (htype : node.type = .object) :
    found node value = node.dict.flatMap fun e =>
      (found e.2 (readSource (sourceOf value) e.1)).map (under [e.1]) := by
  obtain ⟨type, role, dict, inner⟩ := node
  simp only [SchemaNode.isSecret] at h
  cases htype
  simp only [found, walk, h, Bool.false_eq_true, if_false,
    walkProperties_eq fun e _ => uniform e.2, nil_append]
  rfl

theorem walk_dict (htype : node.type = .dict) (path : List JsString)
    (secrets : List RedactedSecret) :
    walk node value path secrets
      = if isRecord value then
          (.record (value.entries.foldl (fun r e => keep r e.1 (stripInner node.inner e.2)) []),
            secrets ++ value.entries.flatMap fun e =>
              (foundInner node.inner e.2).map (under (path ++ [e.1])))
        else (value, secrets) := by
  obtain ⟨type, role, dict, inner⟩ := node
  simp only [SchemaNode.isSecret] at h
  cases htype
  have hfold := foldl_walkInner (fun child (_ : inner = some child) => uniform child)
    (fun e : JsString × Setting => e.2) (fun e => e.1)
    (fun acc e stripped => keep acc e.1 stripped)
  simp only [walk, h, Bool.false_eq_true, if_false, hfold]
  rfl

theorem walk_array (htype : node.type = .array)
    (items : List Setting) (path : List JsString) (secrets : List RedactedSecret) :
    walk node (.array items) path secrets
      = (.array (items.map (stripInner node.inner)),
          secrets ++ items.zipIdx.flatMap fun e =>
            (foundInner node.inner e.1).map (under (path ++ [Setting.indexKey e.2]))) := by
  obtain ⟨type, role, dict, inner⟩ := node
  simp only [SchemaNode.isSecret] at h
  cases htype
  have hfold := foldl_walkInner (fun child (_ : inner = some child) => uniform child)
    (fun e : Setting × Nat => e.1) (fun e => Setting.indexKey e.2)
    (fun acc _ stripped => acc ++ [stripped])
  have hmap : ∀ (es : List (Setting × Nat)) (acc : List Setting),
      es.foldl (fun acc e => acc ++ [stripInner inner e.1]) acc
        = acc ++ (es.map Prod.fst).map (stripInner inner) := by
    intro es
    induction es with
    | nil => simp
    | cons e rest ih =>
      intro acc
      simp [ih]
  simp only [walk, h, Bool.false_eq_true, if_false, hfold, hmap, zipIdx_map_fst,
    nil_append]
  rfl

/-- A value that is not the container its node describes passes through. -/
theorem walk_verbatim (hother : (node.type = .dict ∧ isRecord value = false)
      ∨ (node.type = .array ∧ ∀ items, value ≠ .array items) ∨ ∃ name, node.type = .other name)
    (path : List JsString) (secrets : List RedactedSecret) :
    walk node value path secrets = (value, secrets) := by
  rcases hother with ⟨hdict, hrecord⟩ | ⟨harray, hitems⟩ | ⟨name, hname⟩
  · rw [walk_dict h hdict, hrecord]
    rfl
  · obtain ⟨type, role, dict, inner⟩ := node
    simp only [SchemaNode.isSecret] at h
    cases harray
    cases value with
    | array items => exact absurd rfl (hitems items)
    | _ => simp only [walk, h, Bool.false_eq_true, if_false]
  · obtain ⟨type, role, dict, inner⟩ := node
    simp only [SchemaNode.isSecret] at h
    cases hname
    simp only [walk, h, Bool.false_eq_true, if_false]

end

end Redact

end Harness
