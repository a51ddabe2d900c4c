-- SUMMARY: Which schema node governs which position of a value, and what a redaction owes to each position.
import Harness.Settings.Redact

/-!
# Redaction, position by position

`Governs` says which schema node the redactor applies at which position, so the
secret positions are the ones a secret node governs. A redaction is compared with
its input at every other position.
-/

namespace Harness

/-- No schema node declares a property twice. -/
inductive SchemaNode.Proper : SchemaNode → Prop where
  | node (type : SchemaType) (role : Option String) {dict : List (JsString × SchemaNode)}
    {inner : Option SchemaNode} (hkeys : (OrderedMap.keys dict).Nodup)
    (hdict : ∀ e ∈ dict, SchemaNode.Proper e.2)
    (hinner : ∀ child, inner = some child → SchemaNode.Proper child) :
    SchemaNode.Proper (.node type role dict inner)

namespace SchemaNode.Proper

variable {node : SchemaNode}

theorem nodup (h : node.Proper) : (OrderedMap.keys node.dict).Nodup := by
  cases h with
  | node _ _ hkeys _ _ => exact hkeys

theorem ofDict (h : node.Proper) {e : JsString × SchemaNode} (he : e ∈ node.dict) : e.2.Proper := by
  cases h with
  | node _ _ _ hdict _ => exact hdict e he

theorem ofInner (h : node.Proper) {child : SchemaNode} (hchild : node.inner = some child) :
    child.Proper := by
  cases h with
  | node _ _ _ _ hinner => exact hinner child hchild

end SchemaNode.Proper

namespace Redact

open Setting OrderedMap

/-! ## Positions under a schema -/

/-- The value of a record's own property, `undefined` when there is none or no record. -/
def property (value : Setting) (key : JsString) : Setting :=
  (OrderedMap.get? value.entries key).getD .undefined

/-- `Governs node value path node' value'`: walking `value` by `node` comes to `value'` with
`node'`, at `path`. A declared property is there even when it is unset. -/
inductive Governs : SchemaNode → Setting → List JsString → SchemaNode → Setting → Prop where
  | here (node : SchemaNode) (value : Setting) : Governs node value [] node value
  | property {node child node' : SchemaNode} {value value' : Setting} {key : JsString}
    {path : List JsString} (hplain : node.isSecret = false) (htype : node.type = .object)
    (hchild : (key, child) ∈ node.dict)
    (hrest : Governs child (property value key) path node' value') :
    Governs node value (key :: path) node' value'
  | entry {node child node' : SchemaNode} {value entry value' : Setting} {key : JsString}
    {path : List JsString} (hplain : node.isSecret = false) (htype : node.type = .dict)
    (hchild : node.inner = some child) (hentry : (key, entry) ∈ value.entries)
    (hrest : Governs child entry path node' value') :
    Governs node value (key :: path) node' value'
  | item {node child node' : SchemaNode} {item value' : Setting} {items : List Setting} {i : Nat}
    {path : List JsString} (hplain : node.isSecret = false) (htype : node.type = .array)
    (hchild : node.inner = some child) (hitem : items[i]? = some item)
    (hrest : Governs child item path node' value') :
    Governs node (.array items) (indexKey i :: path) node' value'

variable (schema : SchemaNode)

/-- The schema declares the position secret, and it holds `value`. -/
def SecretAt (root : Setting) (path : List JsString) (value : Setting) : Prop :=
  ∃ node, Governs schema root path node value ∧ node.isSecret = true

/-- The position is at or under a secret that is set. -/
def Hidden (root : Setting) (path : List JsString) : Prop :=
  ∃ outer value, SecretAt schema root outer value ∧ value ≠ .undefined ∧ outer <+: path

/-- Each reachable secret position is named with its set flag, and no other position is. -/
def Names (root : Setting) (secrets : List RedactedSecret) : Prop :=
  ∀ path set, ⟨path, set⟩ ∈ secrets ↔ ∃ value, SecretAt schema root path value
    ∧ set = !value.isUndefined

/-- Every position that is not hidden holds in the redaction what it holds in the input. -/
def Keeps (root redacted : Setting) : Prop :=
  ∀ path, ¬ Hidden schema root path → (redacted.at_ path).content = (root.at_ path).content

/-- Two values that differ only in what they hold at secret positions that both set. -/
structure SameButSecrets (schema : SchemaNode) (v w : Setting) : Prop where
  content : ∀ path, ¬ Hidden schema v path → (v.at_ path).content = (w.at_ path).content
  keys : ∀ path, ¬ Hidden schema v path →
    OrderedMap.keys (v.at_ path).own = OrderedMap.keys (w.at_ path).own
  set : ∀ path value, SecretAt schema v path value → value ≠ .undefined →
    w.at_ path ≠ .undefined

/-- A redaction that neither shows a secret nor loses anything else. -/
structure Redacts (schema : SchemaNode) (root : Setting) : Prop where
  blind : ∀ other, other.Proper → SameButSecrets schema root other →
    (redactSecrets schema root).value = (redactSecrets schema other).value
  names : Names schema root (redactSecrets schema root).secrets
  once : ((redactSecrets schema root).secrets.map RedactedSecret.path).Nodup
  keeps : Keeps schema root (redactSecrets schema root).value

/-- At one record, no name of `Object.prototype` misleads the redactor: it drops no undeclared
key for being such a name, every declared property of such a name is the record's own (`__proto__`
a secret, or else nothing secret beneath it has such a name), and no entry is stored
under `__proto__`. -/
structure SparedAt (node : SchemaNode) (fields : OrderedMap JsString Setting) : Prop where
  undeclared : node.type = .object → ∀ key, key ∉ OrderedMap.keys node.dict →
    key ∈ prototypeNames → property (.record fields) key = .undefined
  declared : node.type = .object → ∀ child, (protoKey, child) ∈ node.dict →
    protoKey ∈ OrderedMap.keys fields →
    child.isSecret = true ∨ property (.record fields) protoKey = .undefined
  absent : node.type = .object → ∀ key child, (key, child) ∈ node.dict →
    key ∈ prototypeNames → key ∉ OrderedMap.keys fields →
    key = protoKey ∧ child.isSecret = false ∧ (child.type = .object →
      ∀ e ∈ child.dict, e.2.isSecret = true → e.1 ∉ prototypeNames)
  entries : node.type = .dict → property (.record fields) protoKey = .undefined
    ∨ ∃ child, node.inner = some child ∧ child.isSecret = true

/-- No name of `Object.prototype` misleads the redactor anywhere in the value. -/
def Spared (root : Setting) : Prop :=
  ∀ path node fields, Governs schema root path node (.record fields) → node.isSecret = false →
    SparedAt node fields

/-! ## One level down -/

/-- Below a node that is not secret, `child` governs what the value holds under `key`. -/
def Branch (node : SchemaNode) (value : Setting) (key : JsString) (child : SchemaNode)
    (entry : Setting) : Prop :=
  (node.type = .object ∧ (key, child) ∈ node.dict ∧ entry = property value key)
  ∨ (node.type = .dict ∧ node.inner = some child ∧ (key, entry) ∈ value.entries)
  ∨ (node.type = .array ∧ node.inner = some child
    ∧ ∃ items i, value = .array items ∧ key = indexKey i ∧ items[i]? = some entry)

variable {node child : SchemaNode} {value entry : Setting}

variable {node' : SchemaNode} {value' : Setting}

theorem governs_nil : Governs node value [] node' value' ↔ node' = node ∧ value' = value := by
  constructor
  · rintro ⟨⟩
    exact ⟨rfl, rfl⟩
  · rintro ⟨rfl, rfl⟩
    exact .here _ _

variable {key : JsString} {rest : List JsString}

theorem governs_cons (hplain : node.isSecret = false) :
    Governs node value (key :: rest) node' value'
      ↔ ∃ child entry, Branch node value key child entry ∧ Governs child entry rest node' value' := by
  constructor
  · intro h
    cases h with
    | property _ htype hchild hrest => exact ⟨_, _, .inl ⟨htype, hchild, rfl⟩, hrest⟩
    | entry _ htype hchild hentry hrest => exact ⟨_, _, .inr (.inl ⟨htype, hchild, hentry⟩), hrest⟩
    | item _ htype hchild hitem hrest =>
      exact ⟨_, _, .inr (.inr ⟨htype, hchild, _, _, rfl, rfl, hitem⟩), hrest⟩
  · rintro ⟨child, entry, ⟨htype, hchild, rfl⟩ | ⟨htype, hchild, hentry⟩
      | ⟨htype, hchild, items, i, rfl, rfl, hitem⟩, hrest⟩
    · exact .property hplain htype hchild hrest
    · exact .entry hplain htype hchild hentry hrest
    · exact .item hplain htype hchild hitem hrest

theorem governs_secret (hsecret : node.isSecret = true) {path : List JsString}
    (h : Governs node value path node' value') :
    path = [] ∧ node' = node ∧ value' = value := by
  cases h with
  | here => exact ⟨rfl, rfl, rfl⟩
  | property hplain => simp [hplain] at hsecret
  | entry hplain => simp [hplain] at hsecret
  | item hplain => simp [hplain] at hsecret

theorem branch_unique (hnode : node.Proper) (hvalue : value.Proper)
    {child' : SchemaNode} {entry' : Setting} (h : Branch node value key child entry)
    (h' : Branch node value key child' entry') : child' = child ∧ entry' = entry := by
  have hkeys := hnode.nodup
  rcases h with ⟨htype, hchild, rfl⟩ | ⟨htype, hchild, hentry⟩ | ⟨htype, hchild, items, i, rfl, rfl, hitem⟩
  · rcases h' with ⟨-, hchild', rfl⟩ | ⟨htype', -⟩ | ⟨htype', -⟩
    · have hsome := get?_of_mem hkeys hchild
      rw [get?_of_mem hkeys hchild'] at hsome
      exact ⟨Option.some.inj hsome, rfl⟩
    · simp [htype'] at htype
    · simp [htype'] at htype
  · rcases h' with ⟨htype', -⟩ | ⟨-, hchild', hentry'⟩ | ⟨htype', -⟩
    · simp [htype'] at htype
    · cases hvalue with
      | record hfields _ =>
        have hsome := get?_of_mem hfields hentry
        rw [get?_of_mem hfields hentry'] at hsome
        exact ⟨Option.some.inj (hchild'.symm.trans hchild), Option.some.inj hsome⟩
      | _ => cases hentry
    · simp [htype'] at htype
  · rcases h' with ⟨htype', -⟩ | ⟨htype', -⟩ | ⟨-, hchild', items', j, heq, hj, hitem'⟩
    · simp [htype'] at htype
    · simp [htype'] at htype
    cases heq
    rw [← indexKey_injective hj, hitem] at hitem'
    exact ⟨Option.some.inj (hchild'.symm.trans hchild), (Option.some.inj hitem').symm⟩

theorem branch_proper (hnode : node.Proper) (hvalue : value.Proper)
    (h : Branch node value key child entry) : child.Proper ∧ entry.Proper := by
  rcases h with ⟨-, hchild, rfl⟩ | ⟨-, hchild, hentry⟩ | ⟨-, hchild, items, i, rfl, rfl, hitem⟩
  · refine ⟨hnode.ofDict hchild, ?_⟩
    cases hvalue with
    | record hkeys hfields => exact (Proper.record hkeys hfields).ownValue key
    | _ => exact .undefined
  · refine ⟨hnode.ofInner hchild, ?_⟩
    cases hvalue with
    | record hkeys hfields => exact hfields _ hentry
    | _ => cases hentry
  · refine ⟨hnode.ofInner hchild, ?_⟩
    cases hvalue with
    | array hitems => exact hitems _ (List.mem_of_getElem? hitem)

section

variable (hplain : node.isSecret = false)
include hplain

theorem secretAt_cons {secret : Setting} :
    SecretAt node value (key :: rest) secret
      ↔ ∃ child entry, Branch node value key child entry ∧ SecretAt child entry rest secret := by
  constructor
  · rintro ⟨node', hgoverns, hsecret⟩
    obtain ⟨child, entry, hbranch, hrest⟩ := (governs_cons hplain).mp hgoverns
    exact ⟨child, entry, hbranch, node', hrest, hsecret⟩
  · rintro ⟨child, entry, hbranch, node', hrest, hsecret⟩
    exact ⟨node', (governs_cons hplain).mpr ⟨child, entry, hbranch, hrest⟩, hsecret⟩

theorem not_secretAt_nil {secret : Setting} : ¬ SecretAt node value [] secret := by
  rintro ⟨node', hgoverns, hsecret⟩
  obtain ⟨rfl, rfl⟩ := governs_nil.mp hgoverns
  simp [hplain] at hsecret

theorem not_hidden_nil : ¬ Hidden node value [] := by
  rintro ⟨outer, secret, hat, -, hle⟩
  rw [List.prefix_nil.mp hle] at hat
  exact not_secretAt_nil hplain hat

theorem hidden_cons : Hidden node value (key :: rest)
      ↔ ∃ child entry, Branch node value key child entry ∧ Hidden child entry rest := by
  constructor
  · rintro ⟨outer, secret, hat, hset, hle⟩
    cases outer with
    | nil => exact absurd hat (not_secretAt_nil hplain)
    | cons key' outer =>
      obtain ⟨rfl, hrest⟩ := List.cons_prefix_cons.mp hle
      obtain ⟨child, entry, hbranch, hat⟩ := (secretAt_cons hplain).mp hat
      exact ⟨child, entry, hbranch, outer, secret, hat, hset, hrest⟩
  · rintro ⟨child, entry, hbranch, outer, secret, hat, hset, hle⟩
    exact ⟨key :: outer, secret, (secretAt_cons hplain).mpr ⟨child, entry, hbranch, hat⟩, hset,
      List.cons_prefix_cons.mpr ⟨rfl, hle⟩⟩

theorem spared_iff : Spared node value ↔ (∀ fields, value = .record fields → SparedAt node fields)
      ∧ ∀ key child entry, Branch node value key child entry → Spared child entry := by
  constructor
  · intro h
    refine ⟨?_, ?_⟩
    · rintro fields rfl
      exact h [] node fields (.here _ _) hplain
    · intro key child entry hbranch path node' fields hgoverns
      exact h (key :: path) node' fields ((governs_cons hplain).mpr ⟨child, entry, hbranch, hgoverns⟩)
  · rintro ⟨hhere, hbelow⟩ path node' fields hgoverns hplain'
    cases path with
    | nil =>
      obtain ⟨rfl, hvalue⟩ := governs_nil.mp hgoverns
      exact hhere fields hvalue.symm
    | cons key rest =>
      obtain ⟨child, entry, hbranch, hrest⟩ := (governs_cons hplain).mp hgoverns
      exact hbelow key child entry hbranch rest node' fields hrest hplain'

end

/-- A record of what lies below names the secrets when each part names its own. -/
theorem names_iff (hnode : node.Proper) (hvalue : value.Proper) (hplain : node.isSecret = false)
    {secrets : List RedactedSecret} {below : JsString → SchemaNode → Setting → List RedactedSecret}
    (hsecrets : ∀ path set, ⟨path, set⟩ ∈ secrets ↔ ∃ key child entry rest, path = key :: rest
      ∧ Branch node value key child entry ∧ ⟨rest, set⟩ ∈ below key child entry) :
    Names node value secrets
      ↔ ∀ key child entry, Branch node value key child entry → Names child entry (below key child entry) := by
  constructor
  · intro h key child entry hbranch rest set
    constructor
    · intro hmem
      obtain ⟨secret, hat, hset⟩ := (h (key :: rest) set).mp
        ((hsecrets _ _).mpr ⟨key, child, entry, rest, rfl, hbranch, hmem⟩)
      obtain ⟨child', entry', hbranch', hat⟩ := (secretAt_cons hplain).mp hat
      obtain ⟨rfl, rfl⟩ := branch_unique hnode hvalue hbranch hbranch'
      exact ⟨secret, hat, hset⟩
    · rintro ⟨secret, hat, hset⟩
      obtain ⟨key', child', entry', rest', heq, hbranch', hmem⟩ := (hsecrets _ _).mp
        ((h (key :: rest) set).mpr
          ⟨secret, (secretAt_cons hplain).mpr ⟨child, entry, hbranch, hat⟩, hset⟩)
      cases heq
      obtain ⟨rfl, rfl⟩ := branch_unique hnode hvalue hbranch hbranch'
      exact hmem
  · intro h path set
    constructor
    · intro hmem
      obtain ⟨key, child, entry, rest, rfl, hbranch, hmem⟩ := (hsecrets _ _).mp hmem
      obtain ⟨secret, hat, hset⟩ := (h key child entry hbranch rest set).mp hmem
      exact ⟨secret, (secretAt_cons hplain).mpr ⟨child, entry, hbranch, hat⟩, hset⟩
    rintro ⟨secret, hat, hset⟩
    cases path with
    | nil => exact absurd hat (not_secretAt_nil hplain)
    | cons key rest =>
      obtain ⟨child, entry, hbranch, hat⟩ := (secretAt_cons hplain).mp hat
      exact (hsecrets _ _).mpr
        ⟨key, child, entry, rest, rfl, hbranch, (h key child entry hbranch rest set).mpr
          ⟨secret, hat, hset⟩⟩

end Redact

end Harness
