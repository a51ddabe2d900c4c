-- SUMMARY: A redaction records and keeps the right things exactly where no name of `Object.prototype` misleads it.
import Harness.Settings.Governed

/-!
# Redaction, position by position

Each kind of node is compared with the positions it governs, one level at a time, and
an induction over the schema puts the levels together.
-/

namespace Harness

open List OrderedMap
open Setting (undefined array record)

namespace Redact

open Setting

/-! ## The rebuilt record -/

theorem get?_keep (rebuilt : OrderedMap JsString Setting) (key : JsString) (stripped : Setting)
    (key' : JsString) :
    get? (keep rebuilt key stripped) key'
      = if key' = key ∧ key ≠ protoKey ∧ stripped.isUndefined = false then some stripped
        else get? rebuilt key' := by
  unfold keep assign
  split
  · next h => simp [h]
  next h =>
  split
  · next hproto => simp [hproto]
  · next hproto => simp [get?_set, hproto, h]

/-- A loop that keeps one stripped value for each key, unless it is `undefined` or `__proto__`. -/
theorem get?_foldl_keep {ε : Type*} (strip : JsString × ε → Setting) {es : OrderedMap JsString ε}
    (hnodup : (keys es).Nodup) (rebuilt : OrderedMap JsString Setting) (key : JsString) :
    get? (es.foldl (fun r e => keep r e.1 (strip e)) rebuilt) key
      = match get? es key with
        | some x =>
          if key ≠ protoKey ∧ (strip (key, x)).isUndefined = false then some (strip (key, x))
          else get? rebuilt key
        | none => get? rebuilt key := by
  induction es generalizing rebuilt with
  | nil => rfl
  | cons e rest ih =>
    obtain ⟨k, x⟩ := e
    obtain ⟨hfresh, hrest⟩ : k ∉ keys rest ∧ (keys rest).Nodup :=
      nodup_cons.mp hnodup
    rw [foldl_cons, ih hrest]
    by_cases hkey : key = k
    · subst hkey
      rw [get?_eq_none_iff.mpr hfresh, get?_cons, if_pos rfl]
      simp only [get?_keep]
      exact if_congr (by simp) rfl rfl
    · have hne : ¬ k = key := fun h => hkey h.symm
      have hskip : get? ((k, x) :: rest) key = get? rest key := by
        simp [get?_cons, hne]
      simp only [hskip, get?_keep, hkey, false_and, if_false]

variable {properties : OrderedMap JsString SchemaNode}

theorem get?_foldl_undeclared
    {es : OrderedMap JsString Setting} (hnodup : (keys es).Nodup)
    (rebuilt : OrderedMap JsString Setting) (key : JsString) :
    get? (es.foldl (fun rebuilt e =>
        if SchemaNode.inProperties properties e.1 then rebuilt else assign rebuilt e.1 e.2) rebuilt) key
      = if SchemaNode.inProperties properties key then get? rebuilt key
        else (get? es key).or (get? rebuilt key) := by
  induction es generalizing rebuilt with
  | nil => simp [get?]
  | cons e rest ih =>
    obtain ⟨k, x⟩ := e
    obtain ⟨hfresh, hrest⟩ : k ∉ keys rest ∧ (keys rest).Nodup :=
      nodup_cons.mp hnodup
    rw [foldl_cons, ih hrest]
    by_cases hin : SchemaNode.inProperties properties key = true
    · by_cases hkey : key = k
      · subst hkey
        simp [hin]
      by_cases hk : SchemaNode.inProperties properties k = true
      · simp [hin, hk]
      simp only [hin, hk, if_true, if_false, Bool.false_eq_true]
      unfold assign
      split
      · rfl
      · simp [get?_set, hkey]
    · by_cases hkey : key = k
      · subst hkey
        have hproto : key ≠ protoKey := by
          rintro rfl
          exact hin (by simp [SchemaNode.inProperties, prototypeNames])
        rw [get?_eq_none_iff.mpr hfresh, get?_cons]
        simp [hin, assign, hproto, get?_set]
      have hne : ¬ k = key := fun h => hkey h.symm
      have hskip : get? ((k, x) :: rest) key = get? rest key := by
        simp [get?_cons, hne]
      have hrebuilt : get? (if SchemaNode.inProperties properties k then rebuilt
          else assign rebuilt k x) key = get? rebuilt key := by
        unfold assign
        split
        · rfl
        split
        · rfl
        · simp [get?_set, hkey]
      simp only [hin, hskip, hrebuilt]

/-- What the rebuilt record holds under each key. -/
theorem property_rebuild (hproperties : (keys properties).Nodup) (source : Setting)
    (hsource : (keys source.entries).Nodup) (key : JsString) :
    property (.record (rebuild properties (some source))) key
      = if key = protoKey then .undefined
        else match get? properties key with
          | some child => strip child (source.member key)
          | none => if key ∈ prototypeNames then .undefined else property source key := by
  have hundeclared : get? (undeclared properties (some source)) key
      = if SchemaNode.inProperties properties key then none
        else get? source.entries key := by
    simp only [undeclared, Option.map_some, Option.getD_some, get?_foldl_undeclared hsource]
    split
    · rfl
    · simp [get?]
  have hproperty : ∀ (v : Setting) k, property v k = (get? v.entries k).getD .undefined :=
    fun _ _ => rfl
  have hentries : ∀ fields, entries (.record fields) = fields := fun _ => rfl
  rw [hproperty, hentries, rebuild, get?_foldl_keep (fun e : JsString × SchemaNode =>
    strip e.2 (readSource (some source) e.1)) hproperties, hundeclared]
  simp only [readSource, Option.map_some, Option.getD_some]
  cases hget : get? properties key with
  | none =>
    have hkey : key ∉ keys properties := get?_eq_none_iff.mp hget
    by_cases hproto : key = protoKey
    · simp [hproto, SchemaNode.inProperties, prototypeNames]
    · by_cases hname : key ∈ prototypeNames <;>
        simp [SchemaNode.inProperties, hkey, hproto, hname, hproperty]
  | some child =>
    have hkey : key ∈ keys properties :=
      mem_map_of_mem (mem_of_get? hget)
    by_cases hproto : key = protoKey
    · simp [hproto, SchemaNode.inProperties, prototypeNames]
    cases hstripped : (strip child (source.member key)).isUndefined with
    | true => simp [SchemaNode.inProperties, hkey, hproto, isUndefined_iff.mp hstripped, isUndefined]
    | false => simp [SchemaNode.inProperties, hkey, hproto, hstripped]

variable {node child : SchemaNode} {value entry : Setting}

/-! ## Values that are no record -/

theorem rebuild_none
    (h : ∀ e ∈ properties, strip e.2 .undefined = .undefined) : rebuild properties none = [] := by
  have hfold : ∀ rebuilt : OrderedMap JsString Setting,
      properties.foldl (fun r e => keep r e.1 (strip e.2 (readSource none e.1))) rebuilt = rebuilt := by
    induction properties with
    | nil => exact fun _ => rfl
    | cons e rest ih =>
      intro rebuilt
      have he : strip e.2 (readSource none e.1) = .undefined := h e (by simp)
      rw [foldl_cons, he]
      exact ih (fun e he => h e (mem_cons_of_mem _ he)) rebuilt
  exact hfold _

theorem undefined_ne_array (items : List Setting) : undefined ≠ .array items :=
  Setting.noConfusion

theorem strip_undefined (node : SchemaNode) : strip node .undefined = .undefined := by
  induction node using SchemaNode.induct with
  | node type role dict inner hdict hinner =>
    cases hplain : (SchemaNode.node type role dict inner).isSecret with
    | true => exact strip_secret hplain
    | false =>
      cases type with
      | object =>
        rw [strip_object hplain rfl]
        have hrebuild := rebuild_none hdict
        simp only [sourceOf, isRecord, Bool.false_eq_true, if_false, Option.isNone_none,
          SchemaNode.dict, hrebuild, isEmpty_nil, Bool.and_self, if_true]
      | dict => rw [strip, walk_verbatim hplain (.inl ⟨rfl, rfl⟩)]
      | array => rw [strip, walk_verbatim hplain (.inr (.inl ⟨rfl, undefined_ne_array⟩))]
      | other name => rw [strip, walk_verbatim hplain (.inr (.inr ⟨name, rfl⟩))]

/-- The node does not walk into the value. -/
structure Bare (node : SchemaNode) (value : Setting) : Prop where
  record : node.type = .object ∨ node.type = .dict → isRecord value = false
  array : node.type = .array → ∀ items, value ≠ .array items

theorem strip_bare (hplain : node.isSecret = false) (h : Bare node value) :
    strip node value = value := by
  cases htype : node.type with
  | object =>
    rw [strip_object hplain htype]
    have hrebuild := rebuild_none fun e (_ : e ∈ node.dict) => strip_undefined e.2
    simp only [sourceOf, h.record (.inl htype), Bool.false_eq_true, if_false, Option.isNone_none,
      hrebuild, isEmpty_nil, Bool.and_self, if_true]
  | dict => rw [strip, walk_verbatim hplain (.inl ⟨htype, h.record (.inr htype)⟩)]
  | array => rw [strip, walk_verbatim hplain (.inr (.inl ⟨htype, h.array htype⟩))]
  | other name => rw [strip, walk_verbatim hplain (.inr (.inr ⟨name, htype⟩))]

theorem found_bare (hplain : node.isSecret = false) (h : Bare node value) :
    found node value = found node .undefined := by
  cases htype : node.type with
  | object =>
    have hsource : sourceOf value = none := by simp [sourceOf, h.record (.inl htype)]
    rw [found_object hplain htype, found_object hplain htype, hsource]
    rfl
  | dict =>
    rw [found, found, walk_verbatim hplain (.inl ⟨htype, h.record (.inr htype)⟩),
      walk_verbatim hplain (.inl ⟨htype, rfl⟩)]
  | array =>
    rw [found, found, walk_verbatim hplain (.inr (.inl ⟨htype, h.array htype⟩)),
      walk_verbatim hplain (.inr (.inl ⟨htype, undefined_ne_array⟩))]
  | other name =>
    rw [found, found, walk_verbatim hplain (.inr (.inr ⟨name, htype⟩)),
      walk_verbatim hplain (.inr (.inr ⟨name, htype⟩))]

theorem bare_of_not_record (hrecord : isRecord value = false) (hitems : ∀ items, value ≠ .array items) :
    Bare node value :=
  ⟨fun _ => hrecord, fun _ => hitems⟩

theorem found_undefined (hplain : node.isSecret = false) (htype : node.type ≠ .object) :
    found node .undefined = [] := by
  cases h : node.type with
  | object => exact absurd h htype
  | dict => rw [found, walk_verbatim hplain (.inl ⟨h, rfl⟩)]
  | array => rw [found, walk_verbatim hplain (.inr (.inl ⟨h, undefined_ne_array⟩))]
  | other name => rw [found, walk_verbatim hplain (.inr (.inr ⟨name, h⟩))]

theorem entries_of_not_record (h : isRecord value = false) : value.entries = [] := by
  cases value with
  | record fields => cases h
  | _ => rfl

variable {key : JsString}

theorem not_branch_bare (htype : node.type ≠ .object) (h : Bare node value) :
    ¬ Branch node value key child entry := by
  rintro (⟨hobject, -⟩ | ⟨hdict, -, hentry⟩ | ⟨harray, -, items, i, heq, -⟩)
  · exact htype hobject
  · rw [entries_of_not_record (h.record (.inr hdict))] at hentry
    cases hentry
  · exact h.array harray items heq

/-- A walk of `Object.prototype` records what a walk of nothing records, unless a secret
has the name of one of its properties. -/
theorem found_prototype (hplain : node.isSecret = false)
    (h : node.type = .object → ∀ e ∈ node.dict, e.2.isSecret = true → e.1 ∉ prototypeNames) :
    found node (.inherited protoKey) = found node .undefined := by
  cases htype : node.type with
  | object =>
    rw [found_object hplain htype, found_object hplain htype]
    apply flatMap_congr
    intro e he
    have hread : readSource (sourceOf (.inherited protoKey)) e.1
        = if e.1 = protoKey then .null else inheritedMember e.1 := by
      simp [readSource, sourceOf, isRecord, member]
    have hnone : readSource (sourceOf .undefined) e.1 = .undefined := rfl
    rw [hread, hnone]
    cases hsecret : e.2.isSecret with
    | true =>
      have hname := h htype e he hsecret
      have hproto : e.1 ≠ protoKey := fun heq => hname (heq ▸ mem_cons_self)
      rw [if_neg hproto, inheritedMember, if_neg hname]
    | false =>
      rw [found_bare hsecret]
      split
      · exact bare_of_not_record rfl (by simp)
      next hproto =>
      unfold inheritedMember
      split
      · exact bare_of_not_record (by simp [isRecord, hproto]) (by simp)
      · exact bare_of_not_record rfl (by simp)
  | dict =>
    rw [found, found, walk_dict hplain htype, walk_verbatim hplain (.inl ⟨htype, rfl⟩)]
    rfl
  | array =>
    exact found_bare hplain ⟨fun hor => by simp [htype] at hor, fun _ => by simp⟩
  | other name =>
    exact found_bare hplain ⟨fun hor => by simp [htype] at hor, fun _ => by simp⟩

theorem mem_map_under {secrets : List RedactedSecret} {path : List JsString}
    {set : Bool} : ⟨path, set⟩ ∈ secrets.map (under [key])
      ↔ ∃ rest, path = key :: rest ∧ ⟨rest, set⟩ ∈ secrets := by
  simp only [mem_map, under, singleton_append, RedactedSecret.mk.injEq]
  constructor
  · rintro ⟨⟨rest, set'⟩, hmem, rfl, rfl⟩
    exact ⟨rest, rfl, hmem⟩
  · rintro ⟨rest, rfl, hmem⟩
    exact ⟨⟨rest, set⟩, hmem, rfl, rfl⟩

/-- An object node records what its declared properties record, in what it reads there. -/
theorem mem_found_object (hplain : node.isSecret = false) (htype : node.type = .object)
    (path : List JsString) (set : Bool) :
    ⟨path, set⟩ ∈ found node value ↔ ∃ key child entry rest, path = key :: rest
      ∧ Branch node value key child entry
      ∧ ⟨rest, set⟩ ∈ found child (readSource (sourceOf value) key) := by
  simp only [found_object hplain htype, mem_flatMap, mem_map_under]
  constructor
  · rintro ⟨⟨key, child⟩, hchild, rest, rfl, hmem⟩
    exact ⟨key, child, _, rest, rfl, .inl ⟨htype, hchild, rfl⟩, hmem⟩
  rintro ⟨key, child, entry, rest, rfl, ⟨-, hchild, -⟩ | ⟨htype', -⟩ | ⟨htype', -⟩, hmem⟩
  · exact ⟨(key, child), hchild, rest, rfl, hmem⟩
  · simp [htype] at htype'
  · simp [htype] at htype'

/-- Where nothing lies below, there is nothing to name. -/
theorem names_nil (hplain : node.isSecret = false)
    (h : ∀ key child entry, ¬ Branch node value key child entry) : Names node value [] := by
  intro path set
  constructor
  · intro hmem
    cases hmem
  rintro ⟨secret, hat, -⟩
  cases path with
  | nil => exact absurd hat (not_secretAt_nil hplain)
  | cons key rest =>
    obtain ⟨child, entry, hbranch, -⟩ := (secretAt_cons hplain).mp hat
    exact absurd hbranch (h key child entry)

theorem branch_undefined (h : Branch node .undefined key child entry) :
    node.type = .object ∧ (key, child) ∈ node.dict ∧ entry = .undefined := by
  rcases h with ⟨htype, hchild, rfl⟩ | ⟨-, -, hentry⟩ | ⟨-, -, items, i, heq, -⟩
  · exact ⟨htype, hchild, rfl⟩
  · cases hentry
  · cases heq

theorem names_secret (hsecret : node.isSecret = true) (value : Setting) :
    Names node value (found node value) := by
  intro path set
  rw [found_secret hsecret]
  simp only [mem_singleton, RedactedSecret.mk.injEq]
  constructor
  · rintro ⟨rfl, rfl⟩
    exact ⟨_, ⟨_, .here _ _, hsecret⟩, rfl⟩
  rintro ⟨value, ⟨node', hgoverns, -⟩, rfl⟩
  obtain ⟨rfl, -, rfl⟩ := governs_secret hsecret hgoverns
  exact ⟨rfl, rfl⟩

/-- An absent value names every secret property as unset. -/
theorem names_undefined (node : SchemaNode) (hnode : node.Proper) :
    Names node .undefined (found node .undefined) := by
  induction hnode with
  | node type role hkeys hdict hinner ihdict ihinner =>
    rename_i dict inner
    have hnode : (SchemaNode.node type role dict inner).Proper := .node type role hkeys hdict hinner
    cases hplain : (SchemaNode.node type role dict inner).isSecret with
    | true => exact names_secret hplain _
    | false =>
      cases type with
      | object =>
        rw [names_iff hnode .undefined hplain (mem_found_object hplain rfl)]
        intro key child entry hbranch
        obtain ⟨-, hchild, rfl⟩ := branch_undefined hbranch
        exact ihdict _ hchild
      | _ =>
        rw [found_undefined hplain nofun]
        exact names_nil hplain fun _ _ _ hbranch => nomatch (branch_undefined hbranch).1

/-! ## Where nothing is set -/

theorem governs_undefined {path : List JsString} {node' : SchemaNode} {value' : Setting}
    (h : Governs node .undefined path node' value') : value' = .undefined := by
  generalize hroot : undefined = root at h
  induction h with
  | here => rfl
  | property _ _ _ _ ih =>
    subst hroot
    exact ih rfl
  | entry _ _ _ hentry =>
    subst hroot
    cases hentry
  | item => cases hroot

theorem not_hidden_undefined (node : SchemaNode) (path : List JsString) :
    ¬ Hidden node .undefined path := by
  rintro ⟨outer, secret, ⟨node', hgoverns, -⟩, hset, -⟩
  exact hset (governs_undefined hgoverns)

/-! ## Each position by itself -/

/-- Both halves of a redaction are right: what it records and what it keeps. -/
def Sound (node : SchemaNode) (value : Setting) : Prop :=
  Names node value (found node value) ∧ Keeps node value (strip node value)

theorem keeps_undefined (node : SchemaNode) : Keeps node .undefined (strip node .undefined) := by
  intro path _
  rw [strip_undefined]

theorem sound_undefined (hnode : node.Proper) : Sound node .undefined :=
  ⟨names_undefined node hnode, keeps_undefined node⟩

theorem keeps_secret (hsecret : node.isSecret = true) (value redacted : Setting)
    (hvalue : value = .undefined → redacted = .undefined) : Keeps node value redacted := by
  intro path hhidden
  by_cases hset : value = .undefined
  · rw [hset, hvalue hset]
  · exact absurd ⟨[], value, ⟨node, .here _ _, hsecret⟩, hset, nil_prefix⟩ hhidden

theorem keeps_iff (hplain : node.isSecret = false) {redacted : Setting}
    (hroot : redacted.content = value.content) :
    Keeps node value redacted ↔ ∀ key rest,
      ¬ (∃ child entry, Branch node value key child entry ∧ Hidden child entry rest) →
      ((redacted.ownValue key).at_ rest).content = ((value.ownValue key).at_ rest).content := by
  constructor
  · intro h key rest hhidden
    exact h (key :: rest) (mt (hidden_cons hplain).mp hhidden)
  intro h path hhidden
  cases path with
  | nil => exact hroot
  | cons key rest => exact h key rest (mt (hidden_cons hplain).mpr hhidden)

/-- Dropping a value keeps what is not hidden only where there is nothing else. -/
theorem lost_iff : Keeps node value .undefined ↔ node.isSecret = true ∨ value = .undefined := by
  constructor
  · intro h
    cases hplain : node.isSecret with
    | true => exact .inl rfl
    | false => exact .inr (content_eq_absent.mp (h [] (not_hidden_nil hplain)).symm)
  · rintro (hsecret | rfl)
    · exact keeps_secret hsecret _ _ fun _ => rfl
    · exact fun _ _ => rfl

/-- What may be dropped loses nothing when it is stripped instead. -/
theorem keeps_of_lost (h : Keeps node value .undefined) : Keeps node value (strip node value) := by
  rcases lost_iff.mp h with hsecret | rfl
  · rw [strip_secret hsecret]
    exact h
  · exact keeps_undefined node

theorem sound_bare (hnode : node.Proper) (hplain : node.isSecret = false) (h : Bare node value)
    (hvalue : value.Proper) : Sound node value := by
  constructor
  · rw [found_bare hplain h]
    by_cases htype : node.type = .object
    · have hsource : sourceOf value = none := by simp [sourceOf, h.record (.inl htype)]
      have hmem : ∀ path set, ⟨path, set⟩ ∈ found node value ↔ _ := mem_found_object hplain htype
      rw [hsource, found_bare hplain h] at hmem
      rw [names_iff hnode hvalue hplain hmem]
      intro key child entry hbranch
      have hentry : entry = .undefined := by
        rcases hbranch with ⟨-, -, rfl⟩ | ⟨htype', -⟩ | ⟨htype', -⟩
        · rw [property, entries_of_not_record (h.record (.inl htype))]
          rfl
        · simp [htype] at htype'
        · simp [htype] at htype'
      rw [hentry]
      exact names_undefined child (branch_proper hnode hvalue hbranch).1
    · rw [found_undefined hplain htype]
      exact names_nil hplain fun key child entry => not_branch_bare htype h
  · rw [strip_bare hplain h]
    exact fun _ _ => rfl

/-! ## Arrays and dicts -/

def SoundBelow (node : SchemaNode) (value : Setting) : Prop :=
  ∀ key child entry, Branch node value key child entry → Sound child entry

theorem ownValue_of_entry (hkeys : (keys value.own).Nodup)
    (h : (key, entry) ∈ value.own) : value.ownValue key = entry := by
  rw [ownValue, get?_of_mem hkeys h]
  rfl

theorem stripInner_undefined (inner : Option SchemaNode) :
    stripInner inner .undefined = .undefined := by
  cases inner with
  | none => rfl
  | some child => exact strip_undefined child

section Elements

variable (hplain : node.isSecret = false)
  (hbranch : ∀ {key child entry}, Branch node value key child entry
    ↔ node.inner = some child ∧ (key, entry) ∈ value.own)
include hbranch

/-- A container of elements records what its elements record. -/
theorem mem_found_elements
    (hfound : found node value = value.own.flatMap fun e =>
      (foundInner node.inner e.2).map (under [e.1])) (path : List JsString) (set : Bool) :
    ⟨path, set⟩ ∈ found node value ↔ ∃ key child entry rest, path = key :: rest
      ∧ Branch node value key child entry ∧ ⟨rest, set⟩ ∈ found child entry := by
  simp only [hfound, mem_flatMap, mem_map_under, hbranch]
  constructor
  · rintro ⟨⟨key, entry⟩, hentry, rest, rfl, hmem⟩
    cases hinner : node.inner with
    | none =>
      rw [hinner] at hmem
      cases hmem
    | some child =>
      rw [hinner] at hmem
      exact ⟨key, child, entry, rest, rfl, ⟨rfl, hentry⟩, hmem⟩
  · rintro ⟨key, child, entry, rest, rfl, ⟨hinner, hentry⟩, hmem⟩
    refine ⟨(key, entry), hentry, rest, rfl, ?_⟩
    rw [hinner]
    exact hmem

include hplain

theorem keeps_elements (hkeys : (keys value.own).Nodup) {redacted : Setting}
    (hroot : redacted.content = value.content) {lost : JsString → Bool}
    (hown : ∀ key, redacted.ownValue key
      = if lost key then .undefined else stripInner node.inner (value.ownValue key)) :
    Keeps node value redacted ↔
      (∀ key, lost key = true → node.inner = none → value.ownValue key = .undefined)
      ∧ ∀ key child entry, Branch node value key child entry →
        Keeps child entry (if lost key then .undefined else strip child entry) := by
  rw [keeps_iff hplain hroot]
  constructor
  · intro h
    refine ⟨?_, ?_⟩
    · intro key hlost hinner
      have hnot : ¬ ∃ child entry, Branch node value key child entry ∧ Hidden child entry [] := by
        rintro ⟨child, entry, hb, -⟩
        rw [hbranch, hinner] at hb
        cases hb.1
      have hempty := h key [] hnot
      rw [hown key, hlost, if_pos rfl] at hempty
      exact content_eq_absent.mp hempty.symm
    · intro key child entry hb rest hrest
      obtain ⟨hinner, hentry⟩ := hbranch.mp hb
      have hvalue := ownValue_of_entry hkeys hentry
      have hnot : ¬ ∃ child entry, Branch node value key child entry ∧ Hidden child entry rest := by
        rintro ⟨child', entry', hb', hhide⟩
        obtain ⟨hinner', hentry'⟩ := hbranch.mp hb'
        cases hinner.symm.trans hinner'
        cases hvalue.symm.trans (ownValue_of_entry hkeys hentry')
        exact hrest hhide
      have hkept := h key rest hnot
      rw [hown key, hvalue, hinner] at hkept
      exact hkept
  · rintro ⟨hlost, hbelow⟩ key rest hnot
    rw [hown key]
    cases hinner : node.inner with
    | none =>
      split
      · next h => rw [hlost key h hinner]
      · rfl
    | some child =>
      by_cases hkey : key ∈ keys value.own
      · obtain ⟨⟨key, entry⟩, hentry, rfl⟩ := mem_map.mp hkey
        have hb := hbranch.mpr ⟨hinner, hentry⟩
        rw [ownValue_of_entry hkeys hentry]
        exact hbelow key child entry hb rest fun hhide => hnot ⟨child, entry, hb, hhide⟩
      · have hempty : value.ownValue key = .undefined := by
          rw [ownValue, get?_eq_none_iff.mpr hkey]
          rfl
        rw [hempty]
        rw [stripInner_undefined, ite_self]

end Elements

theorem sound_array (hnode : node.Proper) (hplain : node.isSecret = false)
    (htype : node.type = .array) {items : List Setting} (hvalue : (array items).Proper) :
    Sound node (.array items) ↔ SoundBelow node (.array items) := by
  have hbranch : ∀ {key child entry}, Branch node (.array items) key child entry
      ↔ node.inner = some child ∧ (key, entry) ∈ (array items).own := by
    intro key child entry
    rw [own, mem_indexed]
    constructor
    · rintro (⟨htype', -⟩ | ⟨htype', -⟩ | ⟨-, hinner, items', i, heq, hkey, hitem⟩)
      · simp [htype] at htype'
      · simp [htype] at htype'
      · cases heq
        exact ⟨hinner, i, hkey, hitem⟩
    · rintro ⟨hinner, i, hkey, hitem⟩
      exact .inr (.inr ⟨htype, hinner, items, i, rfl, hkey, hitem⟩)
  have hfound : found node (.array items) = (array items).own.flatMap fun e =>
      (foundInner node.inner e.2).map (under [e.1]) := by
    rw [found, walk_array hplain htype, own, indexed, flatMap_map]
    rfl
  have hown : ∀ key, (strip node (.array items)).ownValue key
      = if false then .undefined else stripInner node.inner ((array items).ownValue key) := by
    intro key
    have hstrip : strip node (.array items) = .array (items.map (stripInner node.inner)) := by
      rw [strip, walk_array hplain htype]
    simp only [hstrip, Bool.false_eq_true, if_false, ownValue, own]
    by_cases hkey : ∃ i, key = indexKey i
    · obtain ⟨i, rfl⟩ := hkey
      simp only [get?_indexed, getElem?_map]
      cases items[i]? with
      | none => exact (stripInner_undefined _).symm
      | some item => rfl
    · have hnone : ∀ l : List Setting, get? (indexed l) key = none := by
        intro l
        refine get?_eq_none_iff.mpr fun hmem => ?_
        obtain ⟨⟨key, item⟩, hitem, rfl⟩ := mem_map.mp hmem
        obtain ⟨i, hi, -⟩ := mem_indexed.mp hitem
        exact hkey ⟨i, hi⟩
      rw [hnone, hnone]
      exact (stripInner_undefined _).symm
  have hroot : (strip node (.array items)).content = (array items).content := by
    rw [strip, walk_array hplain htype]
    simp [content]
  rw [Sound, names_iff hnode hvalue hplain (mem_found_elements hbranch hfound),
    keeps_elements hplain hbranch hvalue.nodup_own hroot hown]
  constructor
  · rintro ⟨hnames, -, hkeeps⟩ key child entry hb
    exact ⟨hnames key child entry hb, hkeeps key child entry hb⟩
  intro h
  exact ⟨fun key child entry hb => (h key child entry hb).1, by simp,
    fun key child entry hb => (h key child entry hb).2⟩

theorem sound_dict (hnode : node.Proper) (hplain : node.isSecret = false)
    (htype : node.type = .dict) {fields : List (JsString × Setting)}
    (hvalue : (record fields).Proper) :
    Sound node (.record fields) ↔ SparedAt node fields ∧ SoundBelow node (.record fields) := by
  have hbranch : ∀ {key child entry}, Branch node (.record fields) key child entry
      ↔ node.inner = some child ∧ (key, entry) ∈ (record fields).own := by
    intro key child entry
    constructor
    · rintro (⟨htype', -⟩ | ⟨-, hinner, hentry⟩ | ⟨htype', -⟩)
      · simp [htype] at htype'
      · exact ⟨hinner, hentry⟩
      · simp [htype] at htype'
    · rintro ⟨hinner, hentry⟩
      exact .inr (.inl ⟨htype, hinner, hentry⟩)
  have hfound : found node (.record fields) = (record fields).own.flatMap fun e =>
      (foundInner node.inner e.2).map (under [e.1]) := by
    rw [found, walk_dict hplain htype]
    rfl
  have hstrip : strip node (.record fields)
      = .record (fields.foldl (fun r e => keep r e.1 (stripInner node.inner e.2)) []) := by
    rw [strip, walk_dict hplain htype]
    rfl
  have hown : ∀ key, (strip node (.record fields)).ownValue key
      = if decide (key = protoKey) then .undefined
        else stripInner node.inner ((record fields).ownValue key) := by
    intro key
    have hkeys : (keys fields).Nodup := hvalue.nodup_own
    rw [hstrip]
    simp only [ownValue, own]
    rw [get?_foldl_keep (fun e : JsString × Setting => stripInner node.inner e.2) hkeys]
    cases get? fields key with
    | none => simp [stripInner_undefined, get?]
    | some entry =>
      by_cases hproto : key = protoKey
      · simp [hproto, get?]
      cases hempty : (stripInner node.inner entry).isUndefined with
      | true => simp [hproto, isUndefined_iff.mp hempty, isUndefined, get?]
      | false => simp [hproto, hempty]
  have hroot : (strip node (.record fields)).content = (record fields).content := by
    rw [hstrip]
    rfl
  rw [Sound, names_iff hnode hvalue hplain (mem_found_elements hbranch hfound),
    keeps_elements hplain hbranch hvalue.nodup_own hroot hown]
  constructor
  · rintro ⟨hnames, hnone, hkeeps⟩
    refine ⟨⟨fun h => by simp [htype] at h, fun h => by simp [htype] at h,
      fun h => by simp [htype] at h, ?_⟩, ?_⟩
    · intro _
      by_cases hkey : protoKey ∈ keys fields
      · obtain ⟨⟨key, entry⟩, hentry, hproto⟩ := mem_map.mp hkey
        obtain rfl : key = protoKey := hproto
        have hproperty : property (.record fields) protoKey = entry :=
          ownValue_of_entry hvalue.nodup_own hentry
        cases hinner : node.inner with
        | none => exact .inl (hnone protoKey (by simp) hinner)
        | some child =>
          have hlost := hkeeps protoKey child entry (hbranch.mpr ⟨hinner, hentry⟩)
          rw [decide_eq_true rfl, if_pos rfl] at hlost
          rcases lost_iff.mp hlost with hsecret | hempty
          · exact .inr ⟨child, rfl, hsecret⟩
          · exact .inl (hproperty.trans hempty)
      · refine .inl ?_
        rw [property, entries, get?_eq_none_iff.mpr hkey]
        rfl
    · intro key child entry hb
      refine ⟨hnames key child entry hb, ?_⟩
      have hkept := hkeeps key child entry hb
      split at hkept
      · exact keeps_of_lost hkept
      · exact hkept
  · rintro ⟨hspared, h⟩
    refine ⟨fun key child entry hb => (h key child entry hb).1, ?_, ?_⟩
    · intro key hlost hinner
      obtain rfl := of_decide_eq_true hlost
      rcases hspared.entries htype with hempty | ⟨child, hchild, -⟩
      · exact hempty
      · cases hinner.symm.trans hchild
    intro key child entry hb
    split
    · next hlost =>
      obtain rfl := of_decide_eq_true hlost
      obtain ⟨hinner, hentry⟩ := hbranch.mp hb
      refine lost_iff.mpr ?_
      rcases hspared.entries htype with hempty | ⟨child', hchild', hsecret⟩
      · exact .inr ((ownValue_of_entry hvalue.nodup_own hentry).symm.trans hempty)
      · cases hinner.symm.trans hchild'
        exact .inl hsecret
    · exact (h key child entry hb).2

/-! ## Objects -/

section Object

variable {fields : OrderedMap JsString Setting}

variable {key : JsString}

theorem member_of_mem (h : key ∈ keys fields) :
    member (.record fields) key = property (.record fields) key := by
  cases hget : get? fields key with
  | none => exact absurd h (get?_eq_none_iff.mp hget)
  | some entry => simp [member, property, entries, hget]

theorem member_of_not_mem (h : key ∉ keys fields) :
    member (.record fields) key = inheritedMember key := by
  simp [member, get?_eq_none_iff.mpr h]

theorem property_of_not_mem (h : key ∉ keys fields) :
    property (.record fields) key = .undefined := by
  simp [property, entries, get?_eq_none_iff.mpr h]

theorem names_object (hnode : node.Proper) (hplain : node.isSecret = false)
    (htype : node.type = .object) (hvalue : (record fields).Proper) :
    Names node (.record fields) (found node (.record fields)) ↔ ∀ key child, (key, child) ∈ node.dict →
      Names child (property (.record fields) key) (found child (member (.record fields) key)) := by
  rw [names_iff hnode hvalue hplain (mem_found_object hplain htype)]
  constructor
  · exact fun h key child hchild => h key child _ (.inl ⟨htype, hchild, rfl⟩)
  rintro h key child entry (⟨-, hchild, rfl⟩ | ⟨htype', -⟩ | ⟨htype', -⟩)
  · exact h key child hchild
  · simp [htype] at htype'
  · simp [htype] at htype'

/-- What an object node keeps of a record: under each key, the stripped child or the entry itself. -/
theorem keeps_object (hnode : node.Proper) (hplain : node.isSecret = false)
    (htype : node.type = .object) (hvalue : (record fields).Proper) :
    Keeps node (.record fields) (strip node (.record fields)) ↔
      (∀ key child, (key, child) ∈ node.dict → Keeps child (property (.record fields) key)
        (if key = protoKey then .undefined else strip child (member (.record fields) key)))
      ∧ ∀ key, key ∉ keys node.dict → key ∈ prototypeNames →
        property (.record fields) key = .undefined := by
  have hkeys : (keys fields).Nodup := by
    cases hvalue with
    | record hkeys _ => exact hkeys
  have hrebuild := property_rebuild hnode.nodup (.record fields) hkeys
  have hstrip : strip node (.record fields)
      = .record (rebuild node.dict (some (.record fields))) := by
    rw [strip_object hplain htype]
    simp [sourceOf, isRecord]
  have hhidden : ∀ key rest, (∃ child entry, Branch node (.record fields) key child entry
      ∧ Hidden child entry rest) ↔ ∃ child, (key, child) ∈ node.dict
        ∧ Hidden child (property (.record fields) key) rest := by
    intro key rest
    simp [Branch, htype]
  have hroot : (record (rebuild node.dict (some (.record fields)))).content
      = (record fields).content := rfl
  rw [hstrip, keeps_iff hplain hroot]
  constructor
  · intro h
    refine ⟨?_, ?_⟩
    · intro key child hchild rest hrest
      have hnot : ¬ ∃ child, (key, child) ∈ node.dict
          ∧ Hidden child (property (.record fields) key) rest := by
        rintro ⟨child', hchild', hhide⟩
        have hsome := get?_of_mem hnode.nodup hchild
        rw [get?_of_mem hnode.nodup hchild'] at hsome
        cases hsome
        exact hrest hhide
      have hkey := h key rest (mt (hhidden key rest).mp hnot)
      have hvalue' := hrebuild key
      rw [get?_of_mem hnode.nodup hchild] at hvalue'
      rw [← hvalue']
      exact hkey
    · intro key hkey hname
      have hnot : ¬ ∃ child, (key, child) ∈ node.dict
          ∧ Hidden child (property (.record fields) key) [] :=
        fun ⟨child, hchild, _⟩ => hkey (mem_map_of_mem (f := Prod.fst) hchild)
      have hroot := h key [] (mt (hhidden key []).mp hnot)
      have hvalue' := hrebuild key
      rw [get?_eq_none_iff.mpr hkey] at hvalue'
      simp only [hname, if_true, ite_self] at hvalue'
      have hempty : content (property (.record fields) key) = .absent := by
        rw [← content_eq_absent.mpr hvalue']
        exact hroot.symm
      exact content_eq_absent.mp hempty
  · rintro ⟨hdeclared, hundeclared⟩ key rest hnot
    rw [hhidden] at hnot
    have hvalue' := hrebuild key
    cases hget : get? node.dict key with
    | some child =>
      have hchild := mem_of_get? hget
      rw [hget] at hvalue'
      have hrest := hdeclared key child hchild rest fun hhide => hnot ⟨child, hchild, hhide⟩
      rw [← hvalue'] at hrest
      exact hrest
    | none =>
      have hkey := get?_eq_none_iff.mp hget
      rw [hget] at hvalue'
      have hsame : property (.record (rebuild node.dict (some (.record fields)))) key
          = property (.record fields) key := by
        rw [hvalue']
        by_cases hname : key ∈ prototypeNames
        · simp [hname, hundeclared key hkey hname]
        · have hproto : key ≠ protoKey := fun heq => hname (heq ▸ mem_cons_self)
          simp [hname, hproto]
      exact congrArg (fun v : Setting => (v.at_ rest).content) hsame

theorem inheritedMember_ne (h : key ∈ prototypeNames) :
    inheritedMember key = .inherited key := if_pos h

theorem spared_of_sound_object (hnode : node.Proper) (hplain : node.isSecret = false)
    (htype : node.type = .object) (hvalue : (record fields).Proper)
    (h : Sound node (.record fields)) : SparedAt node fields := by
  have hnames := (names_object hnode hplain htype hvalue).mp h.1
  obtain ⟨hdeclared, hundeclared⟩ := (keeps_object hnode hplain htype hvalue).mp h.2
  refine ⟨fun _ => hundeclared, ?_, ?_, fun hdict => by simp [htype] at hdict⟩
  · intro _ child hchild _
    have hlost := hdeclared protoKey child hchild
    rw [if_pos rfl] at hlost
    exact lost_iff.mp hlost
  intro _ key child hchild hname hkey
  have hread : member (.record fields) key = .inherited key :=
    (member_of_not_mem hkey).trans (inheritedMember_ne hname)
  have hempty := property_of_not_mem hkey
  have hnamed := hnames key child hchild
  rw [hread, hempty] at hnamed
  -- no secret under an absent property is set
  have hunset : ∀ path, ⟨path, true⟩ ∉ found child (.inherited key) := by
    intro path hmem
    obtain ⟨value, ⟨node', hgoverns, -⟩, hset⟩ := (hnamed path true).mp hmem
    rw [governs_undefined hgoverns] at hset
    cases hset
  have hchildPlain : child.isSecret = false := by
    cases hsecret : child.isSecret with
    | false => rfl
    | true =>
      refine absurd ?_ (hunset [])
      rw [found_secret hsecret]
      exact mem_singleton_self _
  have hproto : key = protoKey := by
    by_contra hproto
    have hkept := hdeclared key child hchild
    rw [if_neg hproto, hread, hempty] at hkept
    have hbare : Bare child (.inherited key) :=
      bare_of_not_record (by simp [isRecord, hproto]) nofun
    rw [strip_bare hchildPlain hbare] at hkept
    have hroot := hkept [] (not_hidden_undefined child [])
    simp [content, hproto] at hroot
  refine ⟨hproto, hchildPlain, ?_⟩
  intro hobject e he hsecret hbad
  subst hproto
  refine hunset [e.1] ?_
  rw [found_object hchildPlain hobject]
  refine mem_flatMap.mpr ⟨e, he, mem_map_under.mpr ⟨[], rfl, ?_⟩⟩
  rw [found_secret hsecret]
  have hset : (readSource (sourceOf (.inherited protoKey)) e.1).isUndefined = false := by
    simp only [readSource, sourceOf, isRecord, member]
    by_cases heq : e.1 = protoKey
    · simp [heq, isUndefined]
    · simp [heq, inheritedMember_ne hbad, isUndefined]
  rw [hset]
  exact mem_singleton_self _

theorem sound_object (hnode : node.Proper) (hplain : node.isSecret = false)
    (htype : node.type = .object) (hvalue : (record fields).Proper) :
    Sound node (.record fields) ↔ SparedAt node fields ∧ SoundBelow node (.record fields) := by
  constructor
  · intro h
    have hspared := spared_of_sound_object hnode hplain htype hvalue h
    have hnames := (names_object hnode hplain htype hvalue).mp h.1
    obtain ⟨hdeclared, -⟩ := (keeps_object hnode hplain htype hvalue).mp h.2
    refine ⟨hspared, ?_⟩
    rintro key child entry (⟨-, hchild, rfl⟩ | ⟨htype', -⟩ | ⟨htype', -⟩)
    · by_cases hkey : key ∈ keys fields
      · have hnamed := hnames key child hchild
        have hkept := hdeclared key child hchild
        rw [member_of_mem hkey] at hnamed hkept
        by_cases hproto : key = protoKey
        · rw [if_pos hproto] at hkept
          exact ⟨hnamed, keeps_of_lost hkept⟩
        · rw [if_neg hproto] at hkept
          exact ⟨hnamed, hkept⟩
      · rw [property_of_not_mem hkey]
        exact sound_undefined (hnode.ofDict hchild)
    · simp [htype] at htype'
    · simp [htype] at htype'
  · rintro ⟨hspared, hbelow⟩
    have hsound : ∀ key child, (key, child) ∈ node.dict →
        Sound child (property (.record fields) key) :=
      fun key child hchild => hbelow key child _ (.inl ⟨htype, hchild, rfl⟩)
    constructor
    · rw [names_object hnode hplain htype hvalue]
      intro key child hchild
      by_cases hkey : key ∈ keys fields
      · rw [member_of_mem hkey]
        exact (hsound key child hchild).1
      rw [member_of_not_mem hkey, property_of_not_mem hkey]
      by_cases hname : key ∈ prototypeNames
      · obtain ⟨rfl, hchildPlain, hbeneath⟩ := hspared.absent htype key child hchild hname hkey
        rw [inheritedMember_ne hname, found_prototype hchildPlain hbeneath]
        exact names_undefined child (hnode.ofDict hchild)
      · rw [inheritedMember, if_neg hname]
        exact names_undefined child (hnode.ofDict hchild)
    · rw [keeps_object hnode hplain htype hvalue]
      refine ⟨?_, hspared.undeclared htype⟩
      intro key child hchild
      by_cases hkey : key ∈ keys fields
      · by_cases hproto : key = protoKey
        · subst hproto
          rw [if_pos rfl]
          exact lost_iff.mpr (hspared.declared htype child hchild hkey)
        · rw [if_neg hproto, member_of_mem hkey]
          exact (hsound key child hchild).2
      · rw [property_of_not_mem hkey]
        by_cases hproto : key = protoKey
        · rw [if_pos hproto]
          exact fun _ _ => rfl
        have hname : key ∉ prototypeNames :=
          fun hname => hproto (hspared.absent htype key child hchild hname hkey).1
        rw [if_neg hproto, member_of_not_mem hkey, inheritedMember, if_neg hname]
        exact keeps_undefined child

end Object

theorem sound_iff (hnode : node.Proper) (hvalue : value.Proper) :
    Sound node value ↔ Spared node value := by
  induction hnode generalizing value with
  | node type role hkeys hdict hinner ihdict ihinner =>
    rename_i dict inner
    have hnode : (SchemaNode.node type role dict inner).Proper := .node type role hkeys hdict hinner
    cases hplain : (SchemaNode.node type role dict inner).isSecret with
    | true =>
      constructor
      · intro _ path node' fields hgoverns hplain'
        obtain ⟨-, rfl, -⟩ := governs_secret hplain hgoverns
        simp [hplain] at hplain'
      · intro _
        refine ⟨names_secret hplain value, keeps_secret hplain _ _ fun _ => strip_secret hplain⟩
    | false =>
      rw [spared_iff hplain]
      have hbelow : SoundBelow (.node type role dict inner) value
          ↔ ∀ key child entry, Branch (.node type role dict inner) value key child entry →
            Spared child entry := by
        have hstep : ∀ key child entry, Branch (.node type role dict inner) value key child entry →
            (Sound child entry ↔ Spared child entry) := by
          intro key child entry hbranch
          have hentry := (branch_proper hnode hvalue hbranch).2
          rcases hbranch with ⟨-, hchild, -⟩ | ⟨-, hchild, -⟩ | ⟨-, hchild, -⟩
          · exact ihdict _ hchild hentry
          · exact ihinner _ hchild hentry
          · exact ihinner _ hchild hentry
        constructor
        · exact fun h key child entry hbranch => (hstep key child entry hbranch).mp (h _ _ _ hbranch)
        · exact fun h key child entry hbranch => (hstep key child entry hbranch).mpr (h _ _ _ hbranch)
      rw [← hbelow]
      have hspare : ∀ fields, type ≠ .object → type ≠ .dict →
          SparedAt (.node type role dict inner) fields :=
        fun fields hobject hdict => ⟨fun h => absurd h hobject, fun h => absurd h hobject,
          fun h => absurd h hobject, fun h => absurd h hdict⟩
      have hbare : Bare (.node type role dict inner) value →
          (∀ fields, value = .record fields → SparedAt (.node type role dict inner) fields) →
          (Sound (.node type role dict inner) value ↔
            (∀ fields, value = .record fields → SparedAt (.node type role dict inner) fields)
              ∧ SoundBelow (.node type role dict inner) value) := by
        intro h hfields
        refine ⟨fun _ => ⟨hfields, ?_⟩, fun _ => sound_bare hnode hplain h hvalue⟩
        intro key child entry hb
        have hentry : entry = .undefined := by
          rcases hb with ⟨htype, -, rfl⟩ | hb | hb
          · rw [property, entries_of_not_record (h.record (.inl htype))]
            rfl
          · exact absurd (.inr (.inl hb)) (not_branch_bare (by simp [hb.1]) h)
          · exact absurd (.inr (.inr hb)) (not_branch_bare (by simp [hb.1]) h)
        rw [hentry]
        exact sound_undefined (branch_proper hnode hvalue hb).1
      cases value with
      | record fields =>
        have hone : (∀ fields', record fields = .record fields' →
            SparedAt (.node type role dict inner) fields')
            ↔ SparedAt (.node type role dict inner) fields :=
          ⟨fun h => h fields rfl, fun h fields' heq => Setting.record.inj heq ▸ h⟩
        cases type with
        | object => rw [hone, sound_object hnode hplain rfl hvalue]
        | dict => rw [hone, sound_dict hnode hplain rfl hvalue]
        | array =>
          exact hbare ⟨fun h => by simp [SchemaNode.type] at h, fun _ => nofun⟩
            fun fields _ => hspare fields nofun nofun
        | other name =>
          exact hbare ⟨fun h => by simp [SchemaNode.type] at h, fun _ => nofun⟩
            fun fields _ => hspare fields nofun nofun
      | array items =>
        by_cases htype : type = .array
        · subst htype
          rw [sound_array hnode hplain rfl hvalue]
          exact ⟨fun h => ⟨nofun, h⟩, fun h => h.2⟩
        · exact hbare ⟨fun _ => rfl, fun h => absurd h htype⟩ nofun
      | inherited name => cases hvalue
      | _ => exact hbare (bare_of_not_record rfl nofun) nofun

end Redact

end Harness
