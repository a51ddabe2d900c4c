-- SUMMARY: Redacting a value hides its secrets and keeps the rest, exactly where no name of `Object.prototype` misleads it.
import Harness.Settings.RedactSound

/-!
# The redaction contract
-/

namespace Harness

open List
open Setting (member record array)

namespace Redact

open Setting

variable {node child : SchemaNode} {value entry : Setting}

/-! ## Each position once -/

theorem nodup_paths_under {ε : Type*} {es : List ε} {key : ε → JsString}
    {secrets : ε → List RedactedSecret} (hkeys : (es.map key).Nodup)
    (hsecrets : ∀ e ∈ es, ((secrets e).map RedactedSecret.path).Nodup) :
    ((es.flatMap fun e => (secrets e).map (under [key e])).map RedactedSecret.path).Nodup := by
  have hpaths : (es.flatMap fun e => (secrets e).map (under [key e])).map RedactedSecret.path
      = es.flatMap fun e => ((secrets e).map RedactedSecret.path).map (key e :: ·) := by
    rw [map_flatMap]
    apply flatMap_congr
    intro e _
    simp [under]
  rw [hpaths, nodup_flatMap]
  constructor
  · intro e he
    exact (hsecrets e he).map fun p q h => (cons.inj h).2
  refine (pairwise_map.mp hkeys).imp fun {e e'} hne => ?_
  intro path hpath hpath'
  obtain ⟨rest, -, rfl⟩ := mem_map.mp hpath
  obtain ⟨rest', -, heq⟩ := mem_map.mp hpath'
  exact hne (cons.inj heq).1.symm

/-- Data, or what a read found on `Object.prototype`. -/
def Readable (value : Setting) : Prop := value.Proper ∨ ∃ name, value = .inherited name

theorem Readable.nodup_entries (h : Readable value) : (OrderedMap.keys value.entries).Nodup := by
  rcases h with h | ⟨name, rfl⟩
  · cases h with
    | record hkeys _ => exact hkeys
    | _ => exact nodup_nil
  · exact nodup_nil

theorem readable_inheritedMember (key : JsString) : Readable (inheritedMember key) := by
  unfold inheritedMember
  split
  · exact .inr ⟨key, rfl⟩
  · exact .inl .undefined

theorem Readable.member (h : Readable value) (key : JsString) : Readable (value.member key) := by
  rcases h with h | ⟨name, rfl⟩
  · cases h with
    | record hkeys hfields =>
      rename_i fields
      simp only [member]
      cases hget : OrderedMap.get? fields key with
      | none => exact readable_inheritedMember key
      | some entry => exact .inl (hfields _ (OrderedMap.mem_of_get? hget))
    | _ => exact .inl .undefined
  · simp only [member]
    split
    · split
      · exact .inl .null
      · exact readable_inheritedMember key
    · exact .inl .undefined

theorem readable_readSource (h : Readable value) (key : JsString) :
    Readable (readSource (sourceOf value) key) := by
  unfold readSource sourceOf
  split
  · exact h.member key
  · exact .inl .undefined

/-- No position is named twice. -/
theorem nodup_found (hnode : node.Proper) (hvalue : Readable value) :
    ((found node value).map RedactedSecret.path).Nodup := by
  induction hnode generalizing value with
  | node type role hkeys hdict hinner ihdict ihinner =>
    rename_i dict inner
    have hfoundInner : ∀ entry, Readable entry →
        ((foundInner inner entry).map RedactedSecret.path).Nodup := by
      intro entry hentry
      cases inner with
      | none => exact nodup_nil
      | some child => exact ihinner child rfl hentry
    cases hplain : (SchemaNode.node type role dict inner).isSecret with
    | true =>
      rw [found_secret hplain]
      exact nodup_singleton _
    | false =>
      cases type with
      | object =>
        rw [found_object hplain rfl]
        exact nodup_paths_under hkeys fun e he => ihdict e he (readable_readSource hvalue e.1)
      | dict =>
        rw [found, walk_dict hplain rfl]
        split
        · refine nodup_paths_under hvalue.nodup_entries fun e he => hfoundInner e.2 ?_
          rcases hvalue with hvalue | ⟨name, rfl⟩
          · cases hvalue with
            | record _ hfields => exact .inl (hfields e he)
            | _ => cases he
          · cases he
        · exact nodup_nil
      | array =>
        by_cases hitems : ∃ items, value = .array items
        · obtain ⟨items, rfl⟩ := hitems
          rw [found, walk_array hplain rfl]
          have hindices : (items.zipIdx.map fun e => indexKey e.2).Nodup := by
            have hkeys := nodup_keys_indexed items
            rw [OrderedMap.keys, indexed, map_map] at hkeys
            exact hkeys
          refine nodup_paths_under hindices fun e he => hfoundInner e.1 ?_
          rcases hvalue with hvalue | ⟨name, heq⟩
          · cases hvalue with
            | array hitems => exact .inl (hitems _ (fst_mem_of_mem_zipIdx he))
          · cases heq
        · rw [found, walk_verbatim hplain (.inr (.inl ⟨rfl, fun items heq => hitems ⟨items, heq⟩⟩))]
          exact nodup_nil
      | other name =>
        rw [found, walk_verbatim hplain (.inr (.inr ⟨name, rfl⟩))]
        exact nodup_nil

/-! ## Two values that differ only at secrets -/

section TwoRuns

variable {other : Setting}

section

variable (h : SameButSecrets node value other)
include h

theorem SameButSecrets.content_root
    (hplain : node.isSecret = false) : value.content = other.content :=
  h.content [] (not_hidden_nil hplain)

theorem SameButSecrets.keys_root
    (hplain : node.isSecret = false) : OrderedMap.keys value.own = OrderedMap.keys other.own :=
  h.keys [] (not_hidden_nil hplain)

/-- Below a node that is not secret, what stands under one key differs only at secrets too. -/
theorem SameButSecrets.below (hnode : node.Proper)
    (hvalue : value.Proper) (hplain : node.isSecret = false) {key : JsString}
    (hbranch : Branch node value key child (value.ownValue key)) :
    SameButSecrets child (value.ownValue key) (other.ownValue key) := by
  have hhidden : ∀ path, ¬ Hidden child (value.ownValue key) path →
      ¬ Hidden node value (key :: path) := by
    intro path hpath hhide
    obtain ⟨child', entry', hbranch', hhide'⟩ := (hidden_cons hplain).mp hhide
    obtain ⟨rfl, rfl⟩ := branch_unique hnode hvalue hbranch hbranch'
    exact hpath hhide'
  refine ⟨fun path hpath => h.content (key :: path) (hhidden path hpath),
    fun path hpath => h.keys (key :: path) (hhidden path hpath), ?_⟩
  intro path secret hat hset
  exact h.set (key :: path) secret ((secretAt_cons hplain).mpr ⟨child, _, hbranch, hat⟩) hset

/-- What no schema node governs is the same in both. -/
theorem SameButSecrets.ownValue_eq (hvalue : value.Proper)
    (hother : other.Proper) (hplain : node.isSecret = false) {key : JsString}
    (hbranch : ∀ child entry, ¬ (Branch node value key child entry ∧ entry ≠ .undefined)) :
    value.ownValue key = other.ownValue key := by
  have hhidden : ∀ path, ¬ Hidden node value (key :: path) := by
    intro path hhide
    obtain ⟨child, entry, hb, hhide'⟩ := (hidden_cons hplain).mp hhide
    refine hbranch child entry ⟨hb, ?_⟩
    rintro rfl
    exact not_hidden_undefined child path hhide'
  exact Proper.ext (hvalue.ownValue key) (hother.ownValue key)
    (fun path => h.content (key :: path) (hhidden path))
    (fun path => h.keys (key :: path) (hhidden path))

/-- A value that the node does not walk into holds no secret. -/
theorem SameButSecrets.eq_of_bare (hvalue : value.Proper)
    (hother : other.Proper) (hplain : node.isSecret = false) (hbare : Bare node value) :
    value = other := by
  have hhidden : ∀ path, ¬ Hidden node value path := by
    intro path hhide
    cases path with
    | nil => exact not_hidden_nil hplain hhide
    | cons key rest =>
      obtain ⟨child, entry, hb, hhide'⟩ := (hidden_cons hplain).mp hhide
      by_cases htype : node.type = .object
      · rcases hb with ⟨-, -, rfl⟩ | ⟨htype', -⟩ | ⟨htype', -⟩
        · rw [property, entries_of_not_record (hbare.record (.inl htype))] at hhide'
          exact not_hidden_undefined child rest hhide'
        · simp [htype] at htype'
        · simp [htype] at htype'
      · exact not_branch_bare htype hbare hb
  exact hvalue.ext hother (fun path => h.content path (hhidden path))
    (fun path => h.keys path (hhidden path))

end

/-- The entries of a record, key by key. -/
theorem fields_eq {fields : OrderedMap JsString Setting} (h : (OrderedMap.keys fields).Nodup) :
    fields = (OrderedMap.keys fields).map fun key => (key, (record fields).ownValue key) :=
  eq_map_keys h

/-- What the redactor keeps of undeclared keys depends only on the entries under them. -/
theorem undeclared_congr {properties : OrderedMap JsString SchemaNode}
    {fields fields' : OrderedMap JsString Setting} (hkeys : (OrderedMap.keys fields).Nodup)
    (hsame : OrderedMap.keys fields = OrderedMap.keys fields')
    (h : ∀ key, key ∉ OrderedMap.keys properties →
      (record fields).ownValue key = (record fields').ownValue key) :
    undeclared properties (some (.record fields)) = undeclared properties (some (.record fields')) := by
  have hkeys' : (OrderedMap.keys fields').Nodup := hsame ▸ hkeys
  simp only [undeclared, Option.map_some, Option.getD_some, entries]
  rw [fields_eq hkeys, fields_eq hkeys', ← hsame, foldl_map, foldl_map]
  refine foldl_ext _ _ _ fun rebuilt key _ => ?_
  simp only
  split
  · rfl
  next hin =>
  have hkey : key ∉ OrderedMap.keys properties := fun hmem =>
    hin (by simp [SchemaNode.inProperties, hmem])
  rw [h key hkey]

theorem record_of_isRecord (hvalue : value.Proper) (h : isRecord value = true) :
    ∃ fields, value = .record fields := by
  cases hvalue with
  | record => exact ⟨_, rfl⟩
  | _ => cases h

theorem record_of_content {fields : List (JsString × Setting)} (hvalue : value.Proper)
    (h : value.content = (record fields).content) : ∃ fields', value = .record fields' := by
  cases hvalue with
  | record => exact ⟨_, rfl⟩
  | _ => cases h

theorem array_of_content {items : List Setting} (hvalue : value.Proper)
    (h : value.content = (array items).content) :
    ∃ items', value = .array items' ∧ items'.length = items.length := by
  cases hvalue with
  | array => exact ⟨_, rfl, by simpa [content] using h⟩
  | _ => cases h

/-- Where two values differ only at secrets, their redactions are the same. -/
theorem strip_blind (hnode : node.Proper) (hvalue : value.Proper) (hother : other.Proper)
    (h : SameButSecrets node value other) : strip node value = strip node other := by
  induction hnode generalizing value other with
  | node type role hkeys hdict hinner ihdict ihinner =>
    rename_i dict inner
    have hnode : (SchemaNode.node type role dict inner).Proper := .node type role hkeys hdict hinner
    cases hplain : (SchemaNode.node type role dict inner).isSecret with
    | true => rw [strip_secret hplain, strip_secret hplain]
    | false =>
      by_cases hbare : Bare (.node type role dict inner) value
      · rw [h.eq_of_bare hvalue hother hplain hbare]
      have hcontent := h.content_root hplain
      have hsame := h.keys_root hplain
      have hinnerBelow : ∀ key entry, value.ownValue key = entry →
          (∀ child, inner = some child → Branch (.node type role dict inner) value key child entry) →
          type ≠ .object →
          stripInner inner (value.ownValue key) = stripInner inner (other.ownValue key) := by
        intro key entry hown hb htype
        subst hown
        cases inner with
        | none =>
          refine congrArg _ (h.ownValue_eq hvalue hother hplain ?_)
          rintro child entry ⟨⟨htype', -⟩ | ⟨-, hchild, -⟩ | ⟨-, hchild, -⟩, -⟩
          · exact htype htype'
          · cases hchild
          · cases hchild
        | some child =>
          exact ihinner child rfl (hvalue.ownValue key) (hother.ownValue key)
            (h.below hnode hvalue hplain (hb child rfl))
      cases type with
      | object =>
        obtain ⟨fields, rfl⟩ : ∃ fields, value = .record fields := by
          refine record_of_isRecord hvalue ?_
          by_contra hrecord
          exact hbare ⟨fun _ => by simpa using hrecord, fun h => by cases h⟩
        obtain ⟨fields', rfl⟩ := record_of_content hother hcontent.symm
        have hbelow : ∀ e ∈ dict, strip e.2 (member (.record fields) e.1)
            = strip e.2 (member (.record fields') e.1) := by
          intro e he
          by_cases hkey : e.1 ∈ OrderedMap.keys fields
          · have hkey' : e.1 ∈ OrderedMap.keys fields' := (hsame : OrderedMap.keys fields = _) ▸ hkey
            rw [member_of_mem hkey, member_of_mem hkey']
            exact ihdict e he (hvalue.ownValue e.1) (hother.ownValue e.1)
              (h.below hnode hvalue hplain (.inl ⟨rfl, he, rfl⟩))
          · have hkey' : e.1 ∉ OrderedMap.keys fields' := (hsame : OrderedMap.keys fields = _) ▸ hkey
            rw [member_of_not_mem hkey, member_of_not_mem hkey']
        have hundeclared : undeclared dict (some (.record fields))
            = undeclared dict (some (.record fields')) :=
          undeclared_congr hvalue.nodup_own hsame fun key hkey => h.ownValue_eq hvalue hother hplain fun child entry hb => by
            rcases hb with ⟨⟨-, hchild, -⟩ | ⟨htype, -⟩ | ⟨htype, -⟩, -⟩
            · exact hkey (mem_map_of_mem hchild)
            · cases htype
            · cases htype
        rw [strip_object hplain rfl, strip_object hplain rfl]
        simp only [sourceOf, isRecord, if_true, Option.isNone_some, Bool.false_and,
          Bool.false_eq_true, if_false, rebuild, SchemaNode.dict]
        rw [hundeclared]
        congr 1
        refine foldl_ext _ _ _ fun rebuilt e he => ?_
        simp only [readSource, Option.map_some, Option.getD_some, hbelow e he]
      | dict =>
        obtain ⟨fields, rfl⟩ : ∃ fields, value = .record fields := by
          refine record_of_isRecord hvalue ?_
          by_contra hrecord
          exact hbare ⟨fun _ => by simpa using hrecord, fun h => by cases h⟩
        obtain ⟨fields', rfl⟩ := record_of_content hother hcontent.symm
        have hkeys : (OrderedMap.keys fields).Nodup := hvalue.nodup_own
        have hkeys' : (OrderedMap.keys fields').Nodup := hother.nodup_own
        have hsameKeys : OrderedMap.keys fields = OrderedMap.keys fields' := hsame
        have hbelow : ∀ key ∈ OrderedMap.keys fields,
            stripInner inner ((record fields).ownValue key)
              = stripInner inner ((record fields').ownValue key) := by
          intro key hkey
          obtain ⟨⟨key, entry⟩, hentry, rfl⟩ := mem_map.mp hkey
          have hown : (record fields).ownValue key = entry :=
            ownValue_of_entry hvalue.nodup_own hentry
          exact hinnerBelow key entry hown
            (fun child hchild => .inr (.inl ⟨rfl, hchild, hentry⟩)) (by simp)
        rw [strip, strip, walk_dict hplain rfl, walk_dict hplain rfl]
        simp only [isRecord, if_true, entries, SchemaNode.inner]
        rw [fields_eq hkeys, fields_eq hkeys', ← hsameKeys,
          foldl_map, foldl_map]
        congr 1
        refine foldl_ext _ _ _ fun rebuilt key hkey => ?_
        rw [hbelow key hkey]
      | array =>
        obtain ⟨items, rfl⟩ : ∃ items, value = .array items := by
          by_contra hitems
          exact hbare ⟨fun hor => by simp [SchemaNode.type] at hor,
            fun _ items heq => hitems ⟨items, heq⟩⟩
        obtain ⟨items', rfl, hlength⟩ := array_of_content hother hcontent.symm
        rw [strip, strip, walk_array hplain rfl, walk_array hplain rfl]
        refine congrArg array (ext_getElem ?_ ?_)
        · simpa using hlength.symm
        intro i hi hi'
        simp only [length_map] at hi hi'
        simp only [getElem_map]
        have hown : ∀ (l : List Setting) (h : i < l.length),
            (array l).ownValue (indexKey i) = l[i] := by
          intro l h
          simp [Setting.ownValue, own, get?_indexed, h]
        have hstep := hinnerBelow (indexKey i) items[i] (hown items hi)
          (fun child hchild =>
            .inr (.inr ⟨rfl, hchild, items, i, rfl, rfl, getElem?_eq_getElem hi⟩)) (by simp)
        rw [hown items hi, hown items' hi'] at hstep
        exact hstep
      | other name =>
        refine absurd ⟨fun hor => ?_, fun harray => ?_⟩ hbare
        · simp [SchemaNode.type] at hor
        · simp [SchemaNode.type] at harray

end TwoRuns

/-- A redaction neither shows a secret nor loses anything else exactly where no name of
`Object.prototype` misleads the redactor. -/
theorem redacts_iff_spared (hnode : node.Proper) (hvalue : value.Proper) :
    Redacts node value ↔ Spared node value := by
  rw [← sound_iff hnode hvalue]
  constructor
  · intro h
    exact ⟨h.names, h.keeps⟩
  rintro ⟨hnames, hkeeps⟩
  exact {
    blind := fun other hother hsame => strip_blind hnode hvalue hother hsame
    names := hnames
    once := nodup_found hnode (.inl hvalue)
    keeps := hkeeps }

end Redact

end Harness
