-- SUMMARY: When the text rendered for a section parses back to that section, in YAML and in JSON.
import Harness.SettingsFile.Contract

/-!
# The patch of a section

A patch walks the stored and the next value together. It replaces the one by the other unless a
membership test or a read finds a name of `Object.prototype` that is no entry.
-/

namespace Harness

open List OrderedMap

/-! ## Edits -/

/-- A node after `setIn(path, value)`, which makes the maps that are missing; none when it throws. -/
def Json.setIn (value : Json) : List JsString → Option Json → Option Json
  | [], _ => some value
  | key :: path, none => (setIn value path none).map fun child => .obj [(key, child)]
  | key :: path, some (.obj fields) =>
    (setIn value path (OrderedMap.get? fields key)).map fun child => .obj (set fields key child)
  | _, _ => none

/-- A node after `deleteIn(path)`; none when it throws. -/
def Json.deleteIn : List JsString → Option Json → Option Json
  | [key], some (.obj fields) => some (.obj (delete fields key))
  | key :: path, some (.obj fields) =>
    (deleteIn path (OrderedMap.get? fields key)).map fun child => .obj (set fields key child)
  | _, _ => none

namespace YamlEdit

def apply : YamlEdit → Option Json → Option Json
  | .setIn path value, node => Json.setIn value path node
  | .deleteIn path, node => Json.deleteIn path node

/-- A node after edits, none where there is none. -/
def applyAll : List YamlEdit → Option Json → Option (Option Json)
  | [], node => some node
  | edit :: edits, node => (edit.apply node).bind fun next => applyAll edits (some next)

theorem applyAll_append (edits more : List YamlEdit) (node : Option Json) :
    applyAll (edits ++ more) node = (applyAll edits node).bind (applyAll more) := by
  induction edits generalizing node with
  | nil => rfl
  | cons edit edits ih =>
    rw [cons_append, applyAll, applyAll]
    cases edit.apply node with
    | none => rfl
    | some next => exact ih (some next)

theorem applyAll_some {edits : List YamlEdit} {value : Json} {node : Option Json}
    (h : applyAll edits (some value) = some node) : ∃ next, node = some next := by
  induction edits generalizing value with
  | nil => exact ⟨value, (Option.some.inj h).symm⟩
  | cons edit edits ih =>
    obtain ⟨next, -, hrest⟩ := Option.bind_eq_some_iff.mp h
    exact ih hrest

end YamlEdit

open YamlEdit

/-- A node with these entries: a map, or no node yet. -/
def HasEntries (node : Option Json) (fields : List (JsString × Json)) : Prop :=
  node = some (.obj fields) ∨ node = none ∧ fields = []

variable {node child : Option Json} {fields : List (JsString × Json)}

theorem apply_under {key : JsString} {edit : YamlEdit} {value : Json}
    (hnode : HasEntries node fields) (h : edit.apply (get? fields key) = some value) :
    (edit.under key).apply node = some (.obj (set fields key value)) := by
  cases edit with
  | setIn path next =>
    rcases hnode with rfl | ⟨rfl, rfl⟩
    · exact congrArg (Option.map _) h
    · exact congrArg (Option.map _) h
  | deleteIn path =>
    cases path with
    | nil => cases h
    | cons k path =>
      rcases hnode with rfl | ⟨rfl, rfl⟩
      · exact congrArg (Option.map _) h
      · cases path <;> cases h

/-- Edits below a key change its entry as they change its node. -/
theorem applyAll_under {key : JsString} (edits : List YamlEdit) (hnode : HasEntries node fields)
    (hnodup : (keys fields).Nodup) (h : applyAll edits (get? fields key) = some child) :
    ∃ node' fields', applyAll (edits.map (.under key)) node = some node' ∧
      HasEntries node' fields' ∧ (keys fields').Nodup ∧
      ∀ k, get? fields' k = if k = key then child else get? fields k := by
  induction edits generalizing node fields with
  | nil =>
    refine ⟨node, fields, rfl, hnode, hnodup, fun k => ?_⟩
    split
    · rename_i heq
      exact heq ▸ Option.some.inj h
    · rfl
  | cons edit edits ih =>
    obtain ⟨value, hvalue, hrest⟩ := Option.bind_eq_some_iff.mp h
    have hget : get? (set fields key value) key = some value := by rw [get?_set, if_pos rfl]
    obtain ⟨node', fields', hedits, hnode', hnodup', hget'⟩ :=
      ih (.inl rfl) (nodup_set hnodup key value) (hget.symm ▸ hrest)
    refine ⟨node', fields', ?_, hnode', hnodup', fun k => ?_⟩
    · rw [map_cons, applyAll, apply_under hnode hvalue]
      exact hedits
    · rw [hget', get?_set]
      split <;> simp only [*]

/-- Deleting entries one after the other. -/
theorem applyAll_delete (ks : List JsString) (hnodup : (keys fields).Nodup) :
    ∃ fields', applyAll (ks.map fun key => .deleteIn ([] ++ [key])) (some (.obj fields)) =
        some (some (.obj fields')) ∧ (keys fields').Nodup ∧
      ∀ k, get? fields' k = if k ∈ ks then none else get? fields k := by
  induction ks generalizing fields with
  | nil => exact ⟨fields, rfl, hnodup, fun k => by simp⟩
  | cons key ks ih =>
    obtain ⟨fields', hedits, hnodup', hget⟩ := ih (nodup_delete hnodup key)
    refine ⟨fields', hedits, hnodup', fun k => ?_⟩
    rw [hget, get?_delete]
    by_cases hk : k = key <;> simp [hk]

/-! ## Values up to key order -/

/-- A node is there and equals the value up to the order of keys. -/
def Agrees (node : Option Json) (value : Json) : Prop :=
  ∃ stored, node = some stored ∧ isDeepEqualJson stored value = true

theorem agrees_self {value : Json} (h : value.Proper) : Agrees (some value) value :=
  ⟨value, rfl, isDeepEqualJson_self value h⟩

theorem everyFieldEqual_iff (next : List (JsString × Json)) :
    everyFieldEqual fields next = true ↔
      ∀ e ∈ fields, ∃ value, Json.get? e.1 next = some value ∧ isDeepEqualJson e.2 value = true := by
  induction fields with
  | nil => simp [everyFieldEqual]
  | cons e fields ih =>
    rw [everyFieldEqual, Bool.and_eq_true, ih, forall_mem_cons]
    refine and_congr_left fun _ => ?_
    cases Json.get? e.1 next <;> simp

theorem agrees_obj {next : List (JsString × Json)} (hfields : (keys fields).Nodup)
    (hnext : (keys next).Nodup) :
    Agrees (some (.obj fields)) (.obj next) ↔
      keys fields ⊆ keys next ∧ ∀ e ∈ next, Agrees (get? fields e.1) e.2 := by
  simp only [Agrees, Option.some.injEq, exists_eq_left', isDeepEqualJson, Bool.and_eq_true,
    beq_iff_eq, everyFieldEqual_iff]
  constructor
  · rintro ⟨hlength, hevery⟩
    have hsub : keys fields ⊆ keys next := by
      intro key hkey
      obtain ⟨e, he, rfl⟩ := mem_map.mp hkey
      obtain ⟨value, hvalue, -⟩ := hevery e he
      exact mem_map.mpr ⟨_, Json.get?_eq_some_mem hvalue, rfl⟩
    have hperm : (keys fields).Perm (keys next) :=
      (subperm_of_subset hfields hsub).perm_of_length_le (by simp [OrderedMap.keys, hlength])
    refine ⟨hsub, fun e he => ?_⟩
    obtain ⟨⟨key, stored⟩, hstored, rfl : key = e.1⟩ :=
      mem_map.mp (hperm.mem_iff.mpr (mem_map_of_mem he))
    obtain ⟨value, hvalue, hequal⟩ := hevery _ hstored
    rw [Json.get?_of_mem hnext he] at hvalue
    cases hvalue
    exact ⟨stored, get?_of_mem hfields hstored, hequal⟩
  · rintro ⟨hsub, hevery⟩
    have hback : keys next ⊆ keys fields := by
      intro key hkey
      obtain ⟨e, he, rfl⟩ := mem_map.mp hkey
      obtain ⟨stored, hstored, -⟩ := hevery e he
      exact mem_map.mpr ⟨_, mem_of_get? hstored, rfl⟩
    refine ⟨?_, fun e he => ?_⟩
    · have hle := (subperm_of_subset hfields hsub).length_le
      have hge := (subperm_of_subset hnext hback).length_le
      simp only [OrderedMap.keys, length_map] at hle hge
      omega
    · obtain ⟨⟨key, value⟩, hvalue, rfl : key = e.1⟩ := mem_map.mp (hsub (mem_map_of_mem he))
      obtain ⟨stored, hstored, hequal⟩ := hevery _ hvalue
      rw [get?_of_mem hfields he] at hstored
      cases hstored
      exact ⟨value, Json.get?_of_mem hnext hvalue, hequal⟩

/-! ## When a patch replaces -/

namespace PropertyRead

/-- The node behind a read. -/
def stored : PropertyRead → Option Json
  | own value => some value
  | _ => none

/-- A node that is not patched is already the value. -/
def Compares (current : PropertyRead) (next : Json) : Prop :=
  current.deepEqual next = true → Agrees current.stored next

theorem stored_get (fields : List (JsString × Json)) (key : JsString) :
    ((own (.obj fields)).get key).stored = get? fields key := by
  simp only [get]
  cases get? fields key with
  | some value => rfl
  | none => dsimp only; split <;> rfl

end PropertyRead

mutual

/-- No stored key that the section leaves out, at any depth, is a property name of
`Object.prototype`, a comparison holds of equal values only, and a `__proto__` that is read from
the prototype is not set to an empty map or to a map in which `__proto__` is null. -/
def Patchable (current : PropertyRead) : Json → Prop
  | .obj next =>
    if current.isMapLike then
      (∀ key ∈ current.keys, key ∈ Setting.prototypeNames → key ∈ keys next) ∧
        (current = .prototype → next ≠ []) ∧ PatchableFields current next
    else current.Compares (.obj next)
  | next => current.Compares next

def PatchableFields (current : PropertyRead) : List (JsString × Json) → Prop
  | [] => True
  | (key, value) :: next => Patchable (current.get key) value ∧ PatchableFields current next

end

theorem patch_leaf (current : PropertyRead) {next : Json} (hcurrent : ∀ j ∈ current.stored, j.Proper)
    (hnext : next.Proper) :
    ∃ node, applyAll (if current.deepEqual next then [] else [.setIn [] next]) current.stored =
        some node ∧ (∀ j ∈ node, j.Proper) ∧ (Agrees node next ↔ current.Compares next) := by
  split
  · rename_i hequal
    exact ⟨_, rfl, hcurrent, fun h _ => h, fun h => h hequal⟩
  rename_i hunequal
  refine ⟨some next, rfl, by simpa using hnext, fun _ h => absurd h hunequal, fun _ => ?_⟩
  exact agrees_self hnext

theorem keyIn_iff {key : JsString} {next : List (JsString × Json)} :
    keyIn key next = true ↔ key ∈ keys next ∨ key ∈ Setting.prototypeNames := by
  rw [keyIn, Bool.or_eq_true, decide_eq_true_iff, Option.isSome_iff_ne_none, ne_eq,
    get?_eq_none_iff, not_not]

/-- The deletions take the entries that the membership test does not find in the value. -/
theorem applyAll_stale (next : List (JsString × Json)) (hnodup : (keys fields).Nodup) :
    ∃ fields', applyAll (((keys fields).filter fun key => !keyIn key next).map
        fun key => .deleteIn ([] ++ [key])) (some (.obj fields)) = some (some (.obj fields')) ∧
      (keys fields').Nodup ∧
      ∀ key, get? fields' key = if keyIn key next = true then get? fields key else none := by
  obtain ⟨fields', hedits, hnodup', hget⟩ :=
    applyAll_delete ((keys fields).filter fun key => !keyIn key next) hnodup
  refine ⟨fields', hedits, hnodup', fun key => ?_⟩
  rw [hget]
  by_cases hkey : key ∈ keys fields
  · cases hin : keyIn key next <;> simp [hkey, hin]
  · simp [hkey, get?_eq_none_iff.mpr hkey]

theorem patched_keys {next fields₁ fields' : List (JsString × Json)}
    (hget : ∀ key, get? fields₁ key = if keyIn key next = true then get? fields key else none)
    (hothers : ∀ key, key ∉ keys next → get? fields' key = get? fields₁ key) :
    keys fields' ⊆ keys next ↔
      ∀ key ∈ keys fields, key ∈ Setting.prototypeNames → key ∈ keys next := by
  constructor
  · intro hsub key hkey hname
    by_contra hnot
    have hnone := get?_eq_none_iff.mpr (mt (@hsub key) hnot)
    rw [hothers key hnot, hget, if_pos (keyIn_iff.mpr (.inr hname))] at hnone
    exact get?_eq_none_iff.mp hnone hkey
  · intro hnames key hkey
    by_contra hnot
    refine get?_eq_none_iff.mp ?_ hkey
    rw [hothers key hnot, hget]
    split
    · rename_i hin
      exact get?_eq_none_iff.mpr fun hstored =>
        hnot (hnames key hstored ((keyIn_iff.mp hin).resolve_left hnot))
    · rfl

theorem proper_of_get? (hnodup : (keys fields).Nodup)
    (h : ∀ key j, get? fields key = some j → j.Proper) : (Json.obj fields).Proper :=
  ⟨hnodup, (Json.properFields_iff _).mpr fun e he => h e.1 e.2 (get?_of_mem hnodup he)⟩

theorem proper_get? {key : JsString} {j : Json} (h : (Json.obj fields).Proper)
    (hget : get? fields key = some j) : j.Proper :=
  (Json.properFields_iff _).mp h.2 _ (mem_of_get? hget)

mutual

/-- A patch replaces the node by the value exactly if it is patchable. -/
theorem patch_node (current : PropertyRead) (next : Json)
    (hcurrent : ∀ j ∈ current.stored, j.Proper) (hnext : next.Proper) :
    ∃ node, applyAll (patchNode [] current next) current.stored = some node ∧
      (∀ j ∈ node, j.Proper) ∧ (Agrees node next ↔ Patchable current next) := by
  match next with
  | .null | .bool _ | .num _ | .str _ | .arr _ =>
    simp only [patchNode, Patchable]
    exact patch_leaf current hcurrent hnext
  | .obj next =>
    rw [patchNode, Patchable]
    match current with
    | .own (.obj fields) =>
      simp only [PropertyRead.isMapLike, if_true, PropertyRead.keys]
      have hfields : (Json.obj fields).Proper := hcurrent _ rfl
      obtain ⟨fields₁, hdelete, hnodup₁, hget₁⟩ := applyAll_stale next hfields.1
      have hfields₁ : (Json.obj fields₁).Proper := proper_of_get? hnodup₁ fun k j hj => by
        rw [hget₁, Option.ite_none_right_eq_some] at hj
        exact proper_get? hfields hj.2
      have hreads : ∀ key, ∀ j ∈ ((PropertyRead.own (.obj fields)).get key).stored, j.Proper :=
        fun key j hj => proper_get? hfields (PropertyRead.stored_get fields key ▸ hj)
      obtain ⟨node, fields', hrest, hnode, hfields', hothers, hevery⟩ :=
        patch_fields (.own (.obj fields)) next hreads hnext.1 hnext.2 _ fields₁ (.inl rfl) hfields₁
          fun key hkey => by
            rw [hget₁, if_pos (keyIn_iff.mpr (.inl hkey)), PropertyRead.stored_get]
      obtain ⟨value, rfl⟩ := applyAll_some hrest
      obtain rfl : value = .obj fields' := by simpa [HasEntries] using hnode
      refine ⟨_, ?_, fun j hj => Option.some.inj hj ▸ hfields', ?_⟩
      · rw [applyAll_append]
        exact (congrArg (Option.bind · _) hdelete).trans hrest
      · rw [agrees_obj hfields'.1 hnext.1, hevery, patched_keys hget₁ hothers]
        simp
    | .prototype =>
      simp only [PropertyRead.isMapLike, if_true, PropertyRead.keys]
      obtain ⟨node, fields', hedits, hnode, hfields', hothers, hevery⟩ :=
        patch_fields .prototype next (fun key j hj => by
            simp only [PropertyRead.get] at hj
            split at hj <;> cases hj) hnext.1 hnext.2 none [] (.inr ⟨rfl, rfl⟩) ⟨nodup_nil, trivial⟩
          fun key _ => by
            simp only [PropertyRead.get]
            split <;> rfl
      refine ⟨node, hedits, fun j hj => ?_, ?_⟩
      · rcases hnode with rfl | ⟨rfl, -⟩
        · exact Option.some.inj hj ▸ hfields'
        · cases hj
      have hsub : keys fields' ⊆ keys next := fun key hkey => by
        by_contra hnot
        exact get?_eq_none_iff.mp (hothers key hnot) hkey
      rcases hnode with rfl | ⟨rfl, rfl⟩
      · have hne : next ≠ [] := by
          rintro rfl
          cases hedits
        rw [agrees_obj hfields'.1 hnext.1, hevery]
        simp [hsub, hne]
      -- No edit has made the map.
      · refine ⟨fun ⟨_, h, _⟩ => (by cases h), fun ⟨_, hne, hfields⟩ => ?_⟩
        obtain ⟨e, he⟩ := exists_mem_of_ne_nil next (hne trivial)
        obtain ⟨_, h, -⟩ := hevery.mpr hfields e he
        cases h
    | .null | .absent => exact patch_leaf _ hcurrent hnext
    | .own .null | .own (.bool _) | .own (.num _) | .own (.str _) | .own (.arr _) =>
      exact patch_leaf _ hcurrent hnext

theorem patch_fields (current : PropertyRead) (next : List (JsString × Json))
    (hreads : ∀ key, ∀ j ∈ (current.get key).stored, j.Proper) (hnodup : (keys next).Nodup)
    (hnext : Json.ProperFields next) (node : Option Json) (fields : List (JsString × Json))
    (hnode : HasEntries node fields) (hfields : (Json.obj fields).Proper)
    (hsame : ∀ key ∈ keys next, get? fields key = (current.get key).stored) :
    ∃ node' fields', applyAll (patchFields [] current next) node = some node' ∧
      HasEntries node' fields' ∧ (Json.obj fields').Proper ∧
      (∀ key, key ∉ keys next → get? fields' key = get? fields key) ∧
      ((∀ e ∈ next, Agrees (get? fields' e.1) e.2) ↔ PatchableFields current next) := by
  match next with
  | [] => exact ⟨node, fields, rfl, hnode, hfields, fun _ _ => rfl, by simp [PatchableFields]⟩
  | (key, value) :: next =>
    obtain ⟨hfresh, hnodup⟩ := nodup_cons.mp hnodup
    obtain ⟨child, hchild, hproper, hagrees⟩ :=
      patch_node (current.get key) value (hreads key) hnext.1
    rw [← hsame key mem_cons_self] at hchild
    obtain ⟨node₁, fields₁, hedits, hnode₁, hnodup₁, hget₁⟩ :=
      applyAll_under (patchNode [] (current.get key) value) hnode hfields.1 hchild
    have hfields₁ : (Json.obj fields₁).Proper := by
      refine proper_of_get? hnodup₁ fun k j hj => ?_
      rw [hget₁] at hj
      split at hj
      · exact hproper _ hj
      · exact proper_get? hfields hj
    have hsame₁ : ∀ k ∈ keys next, get? fields₁ k = (current.get k).stored := fun k hk => by
      rw [hget₁, if_neg fun heq : k = key => hfresh (heq ▸ hk)]
      exact hsame k (mem_cons_of_mem _ hk)
    obtain ⟨node', fields', hrest, hnode', hfields', hothers, hevery⟩ :=
      patch_fields current next hreads hnodup hnext.2 node₁ fields₁ hnode₁ hfields₁ hsame₁
    refine ⟨node', fields', ?_, hnode', hfields', fun k hk => ?_, ?_⟩
    · rw [patchFields, nil_append, patchNode_under, applyAll_append, hedits]
      exact hrest
    · obtain ⟨hne, hk⟩ := not_or.mp (mt mem_cons.mpr hk)
      rw [hothers k hk, hget₁, if_neg hne]
    · rw [forall_mem_cons, PatchableFields, hevery, hothers key hfresh, hget₁, if_pos rfl, hagrees]

end

/-! ## A second patch -/

mutual

theorem deepEqualJson_of_equal (a b : Json) (h : isDeepEqualJson a b = true) :
    deepEqualJson a b = true := by
  cases a <;> cases b <;> first | exact h | skip
  case arr.arr as bs =>
    simp only [isDeepEqualJson, deepEqualJson, Bool.and_eq_true] at h ⊢
    exact ⟨h.1, everyEntryDeepEqual_of_equal as bs h.2⟩
  case obj.obj as bs =>
    simp only [isDeepEqualJson, deepEqualJson, Bool.and_eq_true] at h ⊢
    exact ⟨h.1, everyKeyDeepEqual_of_equal as bs h.2⟩

theorem everyEntryDeepEqual_of_equal (as bs : List Json) (h : everyItemEqual as bs = true) :
    everyEntryDeepEqual as bs = true := by
  match as, bs with
  | [], _ => rfl
  | a :: as, b :: bs =>
    simp only [everyItemEqual, everyEntryDeepEqual, Bool.and_eq_true] at h ⊢
    exact ⟨deepEqualJson_of_equal a b h.1, everyEntryDeepEqual_of_equal as bs h.2⟩

theorem everyKeyDeepEqual_of_equal (as bs : List (JsString × Json))
    (h : everyFieldEqual as bs = true) : everyKeyDeepEqual as bs = true := by
  match as with
  | [] => rfl
  | (key, a) :: as =>
    simp only [everyFieldEqual, everyKeyDeepEqual, Bool.and_eq_true] at h ⊢
    refine ⟨?_, everyKeyDeepEqual_of_equal as bs h.2⟩
    cases hget : Json.get? key bs with
    | none => simp [hget] at h
    | some b =>
      rw [hget] at h
      exact deepEqualJson_of_equal a b h.1

end

/-- A value that is stored already is not edited. -/
theorem patchNode_agrees (path : List JsString) {stored : Json} :
    ∀ next : Json, stored.Proper → next.Proper → isDeepEqualJson stored next = true →
      patchNode path (.own stored) next = []
  | .obj next, hstored, hnext, h => by
    cases stored with
    | obj fields =>
      obtain ⟨hsub, hevery⟩ := (agrees_obj hstored.1 hnext.1).mp ⟨_, rfl, h⟩
      simp only [patchNode, PropertyRead.isMapLike, if_true, PropertyRead.keys, append_eq_nil_iff,
        map_eq_nil_iff, filter_eq_nil_iff, Bool.not_eq_true', Bool.not_eq_false]
      exact ⟨fun key hkey => keyIn_iff.mpr (.inl (hsub hkey)),
        patchFields_agrees path hstored next hnext.2 hevery⟩
    | _ => cases h
  | .null, _, _, h | .bool _, _, _, h | .num _, _, _, h | .str _, _, _, h | .arr _, _, _, h => by
    simp only [patchNode]
    exact if_pos (deepEqualJson_of_equal _ _ h)
where
  patchFields_agrees (path : List JsString) {fields : List (JsString × Json)}
      (hfields : (Json.obj fields).Proper) : ∀ next, Json.ProperFields next →
      (∀ e ∈ next, Agrees (OrderedMap.get? fields e.1) e.2) →
        patchFields path (.own (.obj fields)) next = []
    | [], _, _ => rfl
    | (key, value) :: next, hnext, hevery => by
      obtain ⟨stored, hget, hequal⟩ := hevery (key, value) mem_cons_self
      have hread : (PropertyRead.own (.obj fields)).get key = .own stored := by
        simp only [PropertyRead.get]
        rw [hget]
      rw [patchFields, hread, patchNode_agrees _ value (proper_get? hfields hget) hnext.1 hequal,
        nil_append]
      exact patchFields_agrees path hfields next hnext.2 fun e he => hevery e (mem_cons_of_mem _ he)

/-! ## The contract -/

/-- The node that a document holds; none for an empty one. -/
def contents : Json → Option Json
  | .null => none
  | root => some root

/-- The library as documented, on the documents in `plain`, which hold a map without aliases or
nothing. It parses what it prints, and an edit sets or deletes the addressed pair. -/
structure YamlLibrary.Faithful (yaml : YamlLibrary) (plain : JsString → Prop) : Prop where
  create : ∀ sections, (Json.obj sections).Proper →
    yaml.toJS (yaml.create sections) = some (.obj sections) ∧ plain (yaml.create sections)
  proper : ∀ text root, plain text → yaml.toJS text = some root → root.Proper
  edit : ∀ text root edits node, plain text → yaml.toJS text = some root →
    applyAll edits (contents root) = some node → (∀ j ∈ node, j.Proper) →
    ∃ output, yaml.edit text edits = some output ∧ plain output ∧
      yaml.toJS output = some (node.getD .null)

namespace FileSpec

variable {spec : FileSpec} {plain : JsString → Prop} {root next : List (JsString × Json)}
  {text : Option JsString} {ns : JsString} {value : Json} {output : JsString}

/-- What is rendered parses back to the root with the section replaced and nothing else changed,
and rendering the section once more changes nothing. -/
def Replaces (spec : FileSpec) (text : Option JsString) (root : List (JsString × Json))
    (ns : JsString) (value : Json) : Prop :=
  ∃ output next, spec.render text ns value = some output ∧ spec.parse output = some next ∧
    OnlyChanges ns root next ∧ Agrees (OrderedMap.get? next ns) value ∧
    ∃ again, spec.render (some output) ns value = some again ∧ spec.parse again = some next

/-- When it does: in YAML by the patch of the stored section, if there is a document; in JSON
unless the namespace is `__proto__` and the root has no such key. -/
def Replaceable (spec : FileSpec) (text : Option JsString) (root : List (JsString × Json))
    (ns : JsString) (value : Json) : Prop :=
  match spec.format with
  | .yaml => ∀ t ∈ text, ∀ j ∈ spec.yaml.toJS t, Patchable ((PropertyRead.own j).get ns) value
  | .json => ns = Setting.protoKey → ns ∈ keys root

/-- Rendering a section that the document has. -/
theorem render_again (hyaml : spec.yaml.Faithful plain) (hformat : spec.format = .yaml)
    (hplain : plain output) (htext : spec.yaml.toJS output = some (.obj next))
    (hvalue : value.Proper) (hagrees : Agrees (OrderedMap.get? next ns) value) :
    ∃ again, spec.render (some output) ns value = some again ∧ spec.parse again = some next := by
  have hproper := hyaml.proper _ _ hplain htext
  obtain ⟨stored, hget, hequal⟩ := hagrees
  obtain ⟨again, hedit, -, hparse⟩ := hyaml.edit output _ [] _ hplain htext rfl
    fun j hj => Option.some.inj hj ▸ hproper
  refine ⟨again, ?_, parse_of_toJS hformat hparse (.inr rfl)⟩
  have hread : (PropertyRead.own (.obj next)).get ns = .own stored := by
    simp only [PropertyRead.get]
    rw [hget]
  simp only [render, hformat, renderYaml, htext, hread,
    patchNode_agrees _ value (proper_get? hproper hget) hvalue hequal, hedit]

theorem replaces_yaml (hyaml : spec.yaml.Faithful plain) (hformat : spec.format = .yaml)
    (hplain : ∀ t ∈ text, plain t) (hvalue : value.Proper) (hread : spec.read text = some root) :
    spec.Replaces text root ns value ↔ spec.Replaceable text root ns value := by
  simp only [Replaceable, hformat]
  cases text with
  | none =>
    refine ⟨fun _ t ht => (by cases ht), fun _ => ?_⟩
    obtain rfl : [] = root := Option.some.inj hread
    have hproper : (Json.obj [(ns, value)]).Proper := ⟨nodup_singleton _, hvalue, trivial⟩
    obtain ⟨htext, hnew⟩ := hyaml.create _ hproper
    have hagrees : Agrees (OrderedMap.get? [(ns, value)] ns) value := by
      simpa [OrderedMap.get?] using agrees_self hvalue
    refine ⟨_, _, by simp only [render, hformat, renderYaml],
      parse_of_toJS hformat htext (.inr rfl), fun key hne => ?_, hagrees,
      render_again hyaml hformat hnew htext hvalue hagrees⟩
    simp [OrderedMap.get?, Ne.symm hne]
  | some text =>
    obtain ⟨j, htext, hroot⟩ := parse_yaml hformat hread
    have hold := hplain text rfl
    have hproper := hyaml.proper _ _ hold htext
    obtain ⟨hentries, hstored, hfields⟩ : HasEntries (contents j) root ∧
        ((PropertyRead.own j).get ns).stored = OrderedMap.get? root ns ∧ (Json.obj root).Proper := by
      rcases hroot with ⟨rfl, rfl⟩ | rfl
      · exact ⟨.inr ⟨rfl, rfl⟩, rfl, nodup_nil, trivial⟩
      · exact ⟨.inl rfl, PropertyRead.stored_get root ns, hproper⟩
    obtain ⟨child, hchild, hchildren, hagrees⟩ := patch_node ((PropertyRead.own j).get ns) value
      (fun k hk => proper_get? hfields (hstored ▸ hk)) hvalue
    rw [hstored] at hchild
    obtain ⟨node, next, hedits, hnode, hnodup, hget⟩ :=
      applyAll_under _ hentries hfields.1 hchild
    have hnext : (Json.obj next).Proper := proper_of_get? hnodup fun k i hi => by
      rw [hget] at hi
      split at hi
      · exact hchildren i hi
      · exact proper_get? hfields hi
    obtain ⟨output, hedit, hnew, houtput⟩ := hyaml.edit text j _ node hold htext hedits
      fun i hi => by
        rcases hnode with rfl | ⟨rfl, -⟩
        · exact Option.some.inj hi ▸ hnext
        · cases hi
    have hrender : spec.render (some text) ns value = some output := by
      simp only [render, hformat, renderYaml, htext, patchNode_under, hedit]
    have hparse : spec.parse output = some next := parse_of_toJS hformat houtput <| by
      rcases hnode with rfl | ⟨rfl, rfl⟩
      · exact .inr rfl
      · exact .inl ⟨rfl, rfl⟩
    have hns : Agrees (OrderedMap.get? next ns) value ↔
        Patchable ((PropertyRead.own j).get ns) value := by rw [hget, if_pos rfl, hagrees]
    constructor
    · rintro ⟨output', next', hrender', hparse', -, hagree, -⟩ t ht i hi
      cases ht
      cases hrender.symm.trans hrender'
      cases hparse.symm.trans hparse'
      cases htext.symm.trans hi
      exact hns.mp hagree
    · intro hpatch
      have hagree := hns.mpr (hpatch text rfl j htext)
      refine ⟨output, next, hrender, hparse, fun key hne => by rw [hget, if_neg hne], hagree, ?_⟩
      rcases hnode with rfl | ⟨rfl, rfl⟩
      · exact render_again hyaml hformat hnew houtput hvalue hagree
      · obtain ⟨_, h, -⟩ := hagree
        cases h

theorem replaces_json (hformat : spec.format = .json) (hvalue : value.Proper)
    (hread : spec.read text = some root) :
    spec.Replaces text root ns value ↔ spec.Replaceable text root ns value := by
  obtain ⟨output, hrender, hparse⟩ := render_json ns hformat hvalue hread
  simp only [Replaceable, hformat]
  constructor
  · rintro ⟨output', next, hrender', hparse', -, ⟨stored, hget, -⟩, -⟩ hproto
    by_contra hnot
    cases hrender.symm.trans hrender'
    cases hparse.symm.trans hparse'
    rw [assign, if_pos ⟨hproto, hnot⟩, get?_eq_none_iff.mpr hnot] at hget
    cases hget
  · intro hown
    have hassign : assign root ns value = set root ns value :=
      if_neg fun ⟨hproto, hnot⟩ => hnot (hown hproto)
    have hget : OrderedMap.get? (set root ns value) ns = some value := by rw [get?_set, if_pos rfl]
    have hmem : ns ∈ keys (set root ns value) := mem_map.mpr ⟨_, mem_of_get? hget, rfl⟩
    have honly := onlyChanges_assign root ns value
    rw [hassign] at hparse honly
    have hread' : spec.read (some output) = some (set root ns value) := hparse
    obtain ⟨again, hagain, hparse'⟩ := render_json ns hformat hvalue hread'
    refine ⟨output, _, hrender, hparse, honly, hget.symm ▸ agrees_self hvalue, again, hagain, ?_⟩
    rw [hparse', assign, if_neg fun h => h.2 hmem,
      set_of_get? (parse_proper hformat hparse).1 hget]

end FileSpec

/-- A library whose documents are JSON texts. -/
def jsonDocs : YamlLibrary :=
  { FileWorld.jsonTexts with
    edit := fun text edits => (FileWorld.jsonTexts.toJS text).bind fun root =>
      (applyAll edits (contents root)).map fun node =>
        ⟨Json.stringifyIndented 0 (node.getD .null) ++ [unit '\n']⟩ }

theorem jsonDocs_faithful : jsonDocs.Faithful fun _ => True where
  create := FileWorld.jsonTexts_lawful.create
  proper text root _ htext := by
    simp only [jsonDocs, FileWorld.jsonTexts] at htext
    split at htext
    · cases htext
      exact trivial
    · exact Json.parse_proper htext
  edit text root edits node _ htext hedits hnode := by
    refine ⟨_, (congrArg (Option.bind · _) htext).trans (congrArg (Option.map _) hedits), trivial, ?_⟩
    have hproper : (node.getD .null).Proper := by
      cases node with
      | none => trivial
      | some root => exact hnode root rfl
    refine (if_neg fun hempty => ?_).trans (Json.parse_indented hproper)
    have hunits : _ ++ [unit '\n'] = [] := congrArg JsString.units hempty
    simp at hunits

def docsSpec : FileSpec := { format := .yaml, yaml := jsonDocs }

/-- One section with one key. -/
def themeOf (key : JsString) : List (JsString × Json) := [("theme", .obj [(key, .null)])]

theorem themeOf_proper (key : JsString) : (Json.obj (themeOf key)).Proper :=
  ⟨nodup_singleton _, ⟨nodup_singleton _, trivial, trivial⟩, trivial⟩

theorem create_themeOf (key : JsString) :
    jsonDocs.toJS (jsonDocs.create (themeOf key)) = some (.obj (themeOf key)) :=
  (jsonDocs_faithful.create _ (themeOf_proper key)).1

end Harness
