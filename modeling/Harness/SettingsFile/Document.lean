-- SUMMARY: The texts of a settings document, from `settings/settings-file/src/index.ts`: how one is parsed, and how one namespace is written into it.
import Mathlib.Data.List.TakeWhile
import Harness.Json.Indent
import Harness.Json.Utf8
import Harness.Session.Surface
import Harness.Settings.Value

/-!
# The settings document

One document carries a section for every namespace. A section is written by patching the text
that the provider has cached, so that the other sections stay as they are.
-/

namespace Harness

open List OrderedMap

/-! ## YAML -/

/-- An edit of a document tree, by the path of its node. -/
inductive YamlEdit where
  | setIn (path : List JsString) (value : Json)
  | deleteIn (path : List JsString)

def YamlEdit.path : YamlEdit → List JsString
  | .setIn path _ => path
  | .deleteIn path => path

structure YamlLibrary where
  /-- `parseDocument(text).toJS()`, or none when the document has errors. -/
  toJS : JsString → Option Json
  /-- `new Document(sections).toString()`. -/
  create : List (JsString × Json) → JsString
  /-- The text of a parsed document after edits, or none when one throws. -/
  edit : JsString → List YamlEdit → Option JsString

/-- `key in record`. -/
def keyIn (key : JsString) (fields : List (JsString × Json)) : Bool :=
  (get? fields key).isSome || key ∈ Setting.prototypeNames

mutual

/-- `deepEqualJson(a, b)`. Where `b` has no `__proto__`, it reads the empty `Object.prototype`. -/
def deepEqualJson : Json → Json → Bool
  | .null, .null => true
  | .bool a, .bool b => a == b
  | .num a, .num b => a == b
  | .str a, .str b => a == b
  | .arr as, .arr bs => as.length == bs.length && everyEntryDeepEqual as bs
  | .obj as, .obj bs => as.length == bs.length && everyKeyDeepEqual as bs
  | _, _ => false

def everyEntryDeepEqual : List Json → List Json → Bool
  | [], _ => true
  | a :: as, b :: bs => deepEqualJson a b && everyEntryDeepEqual as bs
  | _ :: _, [] => false

def everyKeyDeepEqual : List (JsString × Json) → List (JsString × Json) → Bool
  | [], _ => true
  | (key, a) :: as, bs =>
    (match Json.get? key bs with
      | some b => deepEqualJson a b
      | none => key = Setting.protoKey && a matches .obj []) && everyKeyDeepEqual as bs

end

/-- What a property of a plain object reads as. -/
inductive PropertyRead where
  | own (value : Json)
  /-- `Object.prototype`, which an object without an own `__proto__` shows there. -/
  | prototype
  /-- The null that `Object.prototype` shows there. -/
  | null
  /-- Nothing, or a method of `Object.prototype`, which is neither a map nor a JSON value. -/
  | absent

namespace PropertyRead

/-- `value[key]`. -/
def get (value : PropertyRead) (key : JsString) : PropertyRead :=
  match value with
  | own (.obj fields) =>
    match get? fields key with
    | some value => own value
    | none => if key = Setting.protoKey then prototype else absent
  | prototype => if key = Setting.protoKey then null else absent
  | _ => absent

def isMapLike : PropertyRead → Bool
  | own (.obj _) | prototype => true
  | _ => false

/-- `Object.keys(value)`. -/
def keys : PropertyRead → List JsString
  | own (.obj fields) => OrderedMap.keys fields
  | _ => []

/-- `deepEqualJson(value, next)`, where not both are maps. -/
def deepEqual : PropertyRead → Json → Bool
  | own value, next => deepEqualJson value next
  | null, .null => true
  | _, _ => false

end PropertyRead

mutual

/-- The difference between a node's stored and next value, as minimal edits. -/
def patchNode (path : List JsString) (current : PropertyRead) : Json → List YamlEdit
  | .obj next =>
    if current.isMapLike then
      ((current.keys.filter fun key => !keyIn key next).map fun key => .deleteIn (path ++ [key])) ++
        patchFields path current next
    else if current.deepEqual (.obj next) then [] else [.setIn path (.obj next)]
  | next => if current.deepEqual next then [] else [.setIn path next]

/-- The edits of the entries of a map. -/
def patchFields (path : List JsString) (current : PropertyRead) :
    List (JsString × Json) → List YamlEdit
  | [] => []
  | (key, value) :: next =>
    patchNode (path ++ [key]) (current.get key) value ++ patchFields path current next

end

/-! ## Documents -/

/-- By the extension of the document's name. -/
inductive SettingsFormat where
  | yaml
  | json
  deriving DecidableEq

/-- What a provider knows of its document. -/
structure FileSpec where
  format : SettingsFormat
  yaml : YamlLibrary

namespace FileSpec

variable (spec : FileSpec)

/-- The sections of a document's root; none for a root that is no map. -/
def sectionsOf : Json → Option (List (JsString × Json))
  | .obj sections => some sections
  | _ => none

/-- Parse one document text into raw sections. -/
def parse (text : JsString) : Option (List (JsString × Json)) :=
  match spec.format with
  | .yaml =>
    (spec.yaml.toJS text).bind fun
      | .null => some []
      | root => sectionsOf root
  | .json => if text.trim = "" then some [] else (Json.parse text.units).bind sectionsOf

/-- `root[ns] = section`. Under `__proto__` it adds no own key. -/
def assign (root : List (JsString × Json)) (ns : JsString) (value : Json) :
    List (JsString × Json) :=
  if ns = Setting.protoKey ∧ ns ∉ OrderedMap.keys root then root else OrderedMap.set root ns value

/-- Render the next YAML text by patching one namespace in the document. -/
def renderYaml (text : Option JsString) (ns : JsString) (value : Json) : Option JsString :=
  match text with
  | none => some (spec.yaml.create [(ns, value)])
  | some text =>
    match spec.yaml.toJS text with
    | none => none
    | some root => spec.yaml.edit text (patchNode [ns] ((PropertyRead.own root).get ns) value)

/-- Render the next JSON text by replacing one namespace key. -/
def renderJson (text : Option JsString) (ns : JsString) (value : Json) : Option JsString :=
  (match text with
    | none => some []
    | some text => spec.parse text).map fun root =>
      ⟨Json.stringifyIndented 0 (.obj (assign root ns value)) ++ [unit '\n']⟩

def render (text : Option JsString) (ns : JsString) (value : Json) : Option JsString :=
  match spec.format with
  | .yaml => spec.renderYaml text ns value
  | .json => spec.renderJson text ns value

/-- The sections of a document that may be absent. -/
def read : Option JsString → Option (List (JsString × Json))
  | none => some []
  | some text => spec.parse text

end FileSpec

/-! ## The library -/

/-- The documented behaviour of the YAML library on the documents in `plain`, which have no alias
that a namespace's edits could reach through: an edit below one key of the root map leaves the
other keys alone. -/
structure YamlLibrary.Lawful (yaml : YamlLibrary) (plain : JsString → Prop) : Prop where
  toJS_empty : yaml.toJS "" = some .null
  plain_empty : plain ""
  create : ∀ sections, (Json.obj sections).Proper →
    yaml.toJS (yaml.create sections) = some (.obj sections) ∧ plain (yaml.create sections)
  edit : ∀ text root sections ns edits output, plain text → yaml.toJS text = some root →
    (root = .null ∧ sections = [] ∨ root = .obj sections) →
    (∀ edit ∈ edits, edit.path.head? = some ns) → yaml.edit text edits = some output →
    plain output ∧ ∃ root' sections', yaml.toJS output = some root' ∧
      (root' = .null ∧ sections' = [] ∨ root' = .obj sections') ∧
      ∀ key, key ≠ ns → get? sections' key = get? sections key

/-! ## One namespace -/

def YamlEdit.under (key : JsString) : YamlEdit → YamlEdit
  | .setIn path value => .setIn (key :: path) value
  | .deleteIn path => .deleteIn (key :: path)

theorem patchNode_under (key : JsString) (path : List JsString) (current : PropertyRead) :
    ∀ next : Json, patchNode (key :: path) current next = (patchNode path current next).map (.under key)
  | .obj next => by
    rw [patchNode, patchNode]
    split
    · rw [map_append, map_map, patchFields_under key path current next]
      rfl
    · split <;> rfl
  | .null | .bool _ | .num _ | .str _ | .arr _ => by
    simp only [patchNode]
    split <;> rfl
where
  patchFields_under (key : JsString) (path : List JsString) (current : PropertyRead) :
      ∀ next : List (JsString × Json),
        patchFields (key :: path) current next = (patchFields path current next).map (.under key)
    | [] => rfl
    | (k, value) :: next => by
      rw [patchFields, patchFields, map_append, patchFields_under key path current next,
        ← patchNode_under key (path ++ [k]) (current.get k) value]
      rfl

theorem patchNode_path (ns : JsString) (current : PropertyRead) (next : Json) :
    ∀ edit ∈ patchNode [ns] current next, edit.path.head? = some ns := by
  intro edit hmem
  rw [patchNode_under] at hmem
  obtain ⟨edit, -, rfl⟩ := mem_map.mp hmem
  cases edit <;> rfl

namespace FileSpec

variable {spec : FileSpec} {plain : JsString → Prop}

/-- `next` has the sections of `root` but for one namespace. -/
def OnlyChanges (ns : JsString) (root next : List (JsString × Json)) : Prop :=
  ∀ key, key ≠ ns → get? next key = get? root key

/-- The documents that the provider can patch namespace by namespace. -/
def Plain (spec : FileSpec) (plain : JsString → Prop) (text : JsString) : Prop :=
  spec.format = .yaml → plain text

variable {root : List (JsString × Json)} {text : JsString}

theorem parse_proper (hjson : spec.format = .json)
    (h : spec.parse text = some root) : (Json.obj root).Proper := by
  simp only [parse, hjson] at h
  split at h
  · cases h
    exact ⟨nodup_nil, trivial⟩
  obtain ⟨j, hparse, hroot⟩ := Option.bind_eq_some_iff.mp h
  cases j <;> simp only [sectionsOf, reduceCtorEq, Option.some.injEq] at hroot
  subst hroot
  exact Json.parse_proper hparse

theorem assign_proper {ns : JsString} {value : Json}
    (hroot : (Json.obj root).Proper) (hvalue : value.Proper) :
    (Json.obj (assign root ns value)).Proper := by
  unfold assign
  split
  · exact hroot
  refine ⟨nodup_set hroot.1 ns value, (Json.properFields_iff _).mpr fun e hmem => ?_⟩
  rcases mem_set hmem with hold | rfl
  · exact (Json.properFields_iff root).mp hroot.2 e hold
  · exact hvalue

theorem onlyChanges_assign (root : List (JsString × Json)) (ns : JsString) (value : Json) :
    OnlyChanges ns root (assign root ns value) := by
  intro key hne
  unfold assign
  split
  · rfl
  · rw [get?_set, if_neg hne]

theorem parse_yaml (hyaml : spec.format = .yaml) (h : spec.parse text = some root) :
    ∃ j, spec.yaml.toJS text = some j ∧ (j = .null ∧ root = [] ∨ j = .obj root) := by
  simp only [parse, hyaml] at h
  obtain ⟨j, htext, hroot⟩ := Option.bind_eq_some_iff.mp h
  refine ⟨j, htext, ?_⟩
  cases j <;> simp only [sectionsOf, reduceCtorEq, Option.some.injEq] at hroot
  · exact .inl ⟨rfl, hroot.symm⟩
  · exact .inr (by rw [hroot])

theorem parse_of_toJS {j : Json}
    (hyaml : spec.format = .yaml) (htext : spec.yaml.toJS text = some j)
    (hroot : j = .null ∧ root = [] ∨ j = .obj root) : spec.parse text = some root := by
  simp only [parse, hyaml, htext]
  rcases hroot with ⟨rfl, rfl⟩ | rfl <;> rfl

theorem parse_empty (hyaml : spec.yaml.Lawful plain) : spec.parse "" = some [] := by
  cases hformat : spec.format with
  | yaml => exact parse_of_toJS hformat hyaml.toJS_empty (.inl ⟨rfl, rfl⟩)
  | json =>
    simp only [parse, hformat]
    rfl

theorem trim_ne_empty {u : UInt16} {rest : Text} (hu : JsString.isWhiteSpace u = false) :
    (⟨u :: rest⟩ : JsString).trim ≠ "" := by
  intro hempty
  have hstart : (u :: rest).dropWhile JsString.isWhiteSpace = u :: rest := by simp [hu]
  have hunits : (((u :: rest).reverse.dropWhile JsString.isWhiteSpace).reverse) = [] := by
    have h := congrArg JsString.units hempty
    rwa [JsString.trim, JsString.trimStart, hstart] at h
  have hall : JsString.isWhiteSpace u = true :=
    dropWhile_eq_nil_iff.mp (reverse_eq_nil_iff.mp hunits) u (by simp)
  rw [hu] at hall
  cases hall

/-- A document begins with an opening brace. -/
theorem stringifyIndented_obj (fields : List (JsString × Json)) :
    ∃ rest, Json.stringifyIndented 0 (.obj fields) ++ [unit '\n'] = unit '\x7b' :: rest := by
  cases fields with
  | nil => exact ⟨_, rfl⟩
  | cons _ _ =>
    rw [Json.stringifyIndented, cons_append]
    exact ⟨_, rfl⟩

/-- What is rendered in JSON parses back to the root that was assigned to. -/
theorem render_json (ns : JsString) (hformat : spec.format = .json) {text : Option JsString}
    {value : Json} (hvalue : value.Proper) (hread : spec.read text = some root) :
    ∃ output, spec.render text ns value = some output ∧
      spec.parse output = some (assign root ns value) := by
  have hproper : (Json.obj root).Proper := by
    cases text with
    | none =>
      cases hread
      exact ⟨nodup_nil, trivial⟩
    | some text => exact parse_proper hformat hread
  refine ⟨⟨Json.stringifyIndented 0 (.obj (assign root ns value)) ++ [unit '\n']⟩, ?_, ?_⟩
  · simp only [render, hformat, renderJson]
    cases text with
    | none =>
      cases hread
      rfl
    | some text => exact congrArg (Option.map _) hread
  obtain ⟨rest, hopen⟩ := stringifyIndented_obj (assign root ns value)
  have hsome : (⟨Json.stringifyIndented 0 (.obj (assign root ns value)) ++ [unit '\n']⟩ :
      JsString).trim ≠ "" := by
    rw [hopen]
    exact trim_ne_empty (by decide)
  simp only [parse, hformat, if_neg hsome, Json.parse_indented (assign_proper hproper hvalue)]
  rfl

/-- What is rendered from a text that parses has its sections but for the namespace written. -/
theorem render_onlyChanges (hyaml : spec.yaml.Lawful plain) {text : Option JsString}
    {ns : JsString} {value : Json} {output : JsString}
    (hplain : ∀ t, text = some t → spec.Plain plain t) (hvalue : value.Proper)
    (hread : spec.read text = some root) (hrender : spec.render text ns value = some output) :
    spec.Plain plain output ∧
      ∃ next, spec.parse output = some next ∧ OnlyChanges ns root next := by
  cases hformat : spec.format with
  | yaml =>
    simp only [render, hformat] at hrender
    cases text with
    | none =>
      simp only [renderYaml, Option.some.injEq] at hrender
      cases hread
      have hproper : (Json.obj [(ns, value)]).Proper :=
        ⟨nodup_singleton _, hvalue, trivial⟩
      obtain ⟨htext, hnew⟩ := hyaml.create _ hproper
      subst hrender
      refine ⟨fun _ => hnew, _, parse_of_toJS hformat htext (.inr rfl), fun key hne => ?_⟩
      simp [get?, Ne.symm hne]
    | some text =>
      obtain ⟨j, htext, hroot⟩ := parse_yaml hformat hread
      simp only [renderYaml, htext] at hrender
      obtain ⟨hnew, j', next, htext', hroot', hsame⟩ := hyaml.edit text j root ns _ output
        (hplain text rfl hformat) htext hroot (patchNode_path ns _ value) hrender
      exact ⟨fun _ => hnew, next, parse_of_toJS hformat htext' hroot', hsame⟩
  | json =>
    obtain ⟨output', hrender', hparse⟩ := render_json ns hformat hvalue hread
    cases hrender.symm.trans hrender'
    exact ⟨fun hyaml => (by cases hformat.symm.trans hyaml), _, hparse,
      onlyChanges_assign root ns value⟩

end FileSpec

end Harness
