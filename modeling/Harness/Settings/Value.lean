-- SUMMARY: The values that settings sections and layers hold, property reads on them, and positions inside them.
import Harness.Json.RoundTrip

/-!
# Settings values

A section is a plain object of JSON data. A property read on it sees what
`Object.prototype` has under names that are no own key, and a read through
`__proto__` sees `Object.prototype` itself.
-/

namespace Harness

open List OrderedMap

/-- A value of a settings layer. `inherited` is what a read finds on `Object.prototype`: one
of its functions, or `Object.prototype` itself under `__proto__`. -/
inductive Setting where
  | undefined
  | null
  | bool (b : Bool)
  | number (n : JsNumber)
  | string (s : JsString)
  | array (items : List Setting)
  | record (fields : List (JsString × Setting))
  | inherited (name : JsString)

namespace Setting

/-- `__proto__`, whose assignment sets a prototype and whose read finds one. -/
def protoKey : JsString := "__proto__"

/-- The property names of `Object.prototype`. -/
def prototypeNames : List JsString :=
  [protoKey, "constructor", "__defineGetter__", "__defineSetter__", "hasOwnProperty",
    "__lookupGetter__", "__lookupSetter__", "isPrototypeOf", "propertyIsEnumerable", "toString",
    "valueOf", "toLocaleString"]

/-- `value === undefined`. -/
def isUndefined : Setting → Bool
  | .undefined => true
  | _ => false

@[simp] theorem isUndefined_iff {v : Setting} : v.isUndefined = true ↔ v = .undefined := by
  cases v <;> simp [isUndefined]

/-- The entries of `Object.entries(value)`, for a plain object. -/
def entries : Setting → OrderedMap JsString Setting
  | .record fields => fields
  | _ => []

/-- What `{}[key]` finds. -/
def inheritedMember (key : JsString) : Setting :=
  if key ∈ prototypeNames then .inherited key else .undefined

/-- `value[key]` on a plain object. `Object.prototype` has a null prototype of its own. -/
def member : Setting → JsString → Setting
  | .record fields, key => (get? fields key).getD (inheritedMember key)
  | .inherited name, key =>
    if name = protoKey then if key = protoKey then .null else inheritedMember key else .undefined
  | _, _ => .undefined

/-- `record[key] = value` on an object literal. Under `__proto__` it sets the prototype, or
does nothing, and adds no own key. -/
def assign (fields : OrderedMap JsString Setting) (key : JsString) (value : Setting) :
    OrderedMap JsString Setting :=
  if key = protoKey then fields else OrderedMap.set fields key value

/-! ## Positions -/

/-- `String(index)`. -/
def indexKey (index : Nat) : JsString := ⟨natText index⟩

/-- The items of an array under their index keys. -/
def indexed (items : List Setting) : OrderedMap JsString Setting :=
  items.zipIdx.map fun e => (indexKey e.2, e.1)

/-- The own properties of a value. -/
def own : Setting → OrderedMap JsString Setting
  | .record fields => fields
  | .array items => indexed items
  | _ => []

/-- The value of an own property, `undefined` when there is none. -/
def ownValue (v : Setting) (key : JsString) : Setting :=
  (get? v.own key).getD .undefined

/-- The value at a position, `undefined` when the position is not there. -/
def at_ (v : Setting) : List JsString → Setting
  | [] => v
  | key :: rest => (v.ownValue key).at_ rest

/-- What a position holds by itself, apart from the positions under it. -/
inductive Content where
  | absent
  | leaf (value : Setting)
  | array (length : Nat)
  | record

def content : Setting → Content
  | .undefined => .absent
  | .array items => .array items.length
  | .record _ => .record
  | .inherited name => if name = protoKey then .record else .leaf (.inherited name)
  | v => .leaf v

@[simp] theorem at__nil (v : Setting) : v.at_ [] = v := rfl

@[simp] theorem at__cons (v : Setting) (key : JsString) (rest : List JsString) :
    v.at_ (key :: rest) = (v.ownValue key).at_ rest := rfl

theorem at__append (v : Setting) (p q : List JsString) : v.at_ (p ++ q) = (v.at_ p).at_ q := by
  induction p generalizing v with
  | nil => rfl
  | cons key rest ih => exact ih _

@[simp] theorem ownValue_undefined (key : JsString) : ownValue .undefined key = .undefined := rfl

@[simp] theorem at__undefined (p : List JsString) : at_ .undefined p = .undefined := by
  induction p with
  | nil => rfl
  | cons key rest ih => exact ih

theorem content_eq_absent {v : Setting} : v.content = .absent ↔ v = .undefined := by
  cases v with
  | inherited name =>
    simp only [content]
    split <;> simp
  | _ => simp [content]

theorem indexKey_injective {i j : Nat} (h : indexKey i = indexKey j) : i = j := by
  have hempty : Delimited [] := fun u rest' heq => nomatch heq
  have htext : natText i = natText j := congrArg JsString.units h
  obtain ⟨d, ds, hi, hdi⟩ := takeDigits_natText i hempty
  obtain ⟨d', ds', hj, hdj⟩ := takeDigits_natText j hempty
  rw [htext, hj] at hi
  obtain ⟨rfl, rfl⟩ : d' = d ∧ ds' = ds := by simpa using hi
  exact hdi.symm.trans hdj

/-! ## Data -/

/-- JSON data: no object repeats a key, and nothing is inherited. -/
inductive Proper : Setting → Prop where
  | undefined : Proper .undefined
  | null : Proper .null
  | bool (b : Bool) : Proper (.bool b)
  | number (n : JsNumber) : Proper (.number n)
  | string (s : JsString) : Proper (.string s)
  | array {items : List Setting} (hitems : ∀ item ∈ items, Proper item) : Proper (.array items)
  | record {fields : List (JsString × Setting)} (hkeys : (OrderedMap.keys fields).Nodup)
    (hfields : ∀ e ∈ fields, Proper e.2) : Proper (.record fields)

theorem nodup_keys_indexed (items : List Setting) : (OrderedMap.keys (indexed items)).Nodup := by
  have hkeys : OrderedMap.keys (indexed items) = (List.range' 0 items.length).map indexKey := by
    rw [← zipIdx_map_snd 0 items, OrderedMap.keys, indexed, map_map, map_map]
    rfl
  rw [hkeys]
  exact List.Nodup.map (fun i j h => indexKey_injective h) nodup_range'

theorem mem_indexed {items : List Setting} {key : JsString} {item : Setting} :
    (key, item) ∈ indexed items ↔ ∃ i, key = indexKey i ∧ items[i]? = some item := by
  simp only [indexed, mem_map, Prod.mk.injEq, Prod.exists, mk_mem_zipIdx_iff_getElem?]
  constructor
  · rintro ⟨item', i, hitem, rfl, rfl⟩
    exact ⟨i, rfl, hitem⟩
  · rintro ⟨i, rfl, hitem⟩
    exact ⟨item, i, hitem, rfl, rfl⟩

theorem get?_indexed (items : List Setting) (i : Nat) :
    get? (indexed items) (indexKey i) = items[i]? := by
  cases hitem : items[i]? with
  | some item =>
    exact get?_of_mem (nodup_keys_indexed items) (mem_indexed.mpr ⟨i, rfl, hitem⟩)
  | none =>
    cases hget : get? (indexed items) (indexKey i) with
    | none => rfl
    | some item =>
      obtain ⟨j, hj, hitem'⟩ := mem_indexed.mp (mem_of_get? hget)
      rw [← indexKey_injective hj, hitem] at hitem'
      cases hitem'

theorem Proper.nodup_own {v : Setting} (h : v.Proper) : (OrderedMap.keys v.own).Nodup := by
  cases h with
  | record hkeys _ => exact hkeys
  | array _ => exact nodup_keys_indexed _
  | _ => exact nodup_nil

theorem Proper.ownValue {v : Setting} (h : v.Proper) (key : JsString) : (v.ownValue key).Proper := by
  unfold Setting.ownValue
  cases hget : get? v.own key with
  | none => exact .undefined
  | some value =>
    have hmem := mem_of_get? hget
    cases h with
    | record _ hfields => exact hfields _ hmem
    | array hitems =>
      obtain ⟨e, he, heq⟩ := mem_map.mp hmem
      cases heq
      exact hitems _ (fst_mem_of_mem_zipIdx he)
    | _ => cases hmem

theorem eq_map_keys {fields : OrderedMap JsString Setting} (h : (OrderedMap.keys fields).Nodup) :
    fields = (OrderedMap.keys fields).map fun key =>
      (key, (get? fields key).getD .undefined) := by
  rw [OrderedMap.keys, map_map]
  conv_lhs => rw [← map_id fields]
  apply map_congr_left
  intro e he
  simp only [Function.comp_apply, get?_of_mem h he, Option.getD_some, id_eq]

/-- Two pieces of data that hold the same at every position are the same. -/
theorem Proper.ext {v w : Setting} (hv : v.Proper) (hw : w.Proper)
    (hcontent : ∀ p, (v.at_ p).content = (w.at_ p).content)
    (hkeys : ∀ p, OrderedMap.keys (v.at_ p).own = OrderedMap.keys (w.at_ p).own) : v = w := by
  have hroot := hcontent []
  induction hv generalizing w with
  | array hitems ih =>
    rename_i items
    cases hw with
    | array hitems' =>
      rename_i items'
      have hlength : items.length = items'.length := by simpa [content] using hroot
      congr 1
      apply ext_getElem hlength
      intro i hi hi'
      have hown : ∀ (l : List Setting) (h : i < l.length),
          (Setting.array l).ownValue (indexKey i) = l[i] := by
        intro l h
        simp [Setting.ownValue, own, get?_indexed, h]
      have hat : ∀ (l : List Setting) (h : i < l.length) p,
          (Setting.array l).at_ (indexKey i :: p) = l[i].at_ p := by
        intro l h p
        rw [at__cons, hown l h]
      have hcontent' := fun p => hcontent (indexKey i :: p)
      have hkeys' := fun p => hkeys (indexKey i :: p)
      simp only [hat items hi, hat items' hi'] at hcontent' hkeys'
      exact ih _ (getElem_mem hi) (hitems' _ (getElem_mem hi')) hcontent' hkeys'
        (hcontent' [])
    | _ => simp [content] at hroot
  | record hnodup hfields ih =>
    rename_i fields
    cases hw with
    | record hnodup' hfields' =>
      rename_i fields'
      have hsame : OrderedMap.keys fields = OrderedMap.keys fields' := hkeys []
      have hlookup : ∀ key, (get? fields key).getD .undefined
          = (get? fields' key).getD .undefined := by
        intro key
        cases hget : get? fields key with
        | none =>
          have hout := get?_eq_none_iff.mp hget
          rw [hsame] at hout
          rw [get?_eq_none_iff.mpr hout]
        | some value =>
          have hown : (Setting.record fields).ownValue key = value := by
            simp [Setting.ownValue, own, hget]
          have hcontent' := fun p => hcontent (key :: p)
          have hkeys' := fun p => hkeys (key :: p)
          simp only [at__cons, hown] at hcontent' hkeys'
          exact ih _ (mem_of_get? hget)
            ((Proper.record hnodup' hfields').ownValue key) hcontent' hkeys' (hcontent' [])
      rw [eq_map_keys hnodup, eq_map_keys hnodup', hsame]
      simp only [hlookup]
    | _ => simp [content] at hroot
  | _ => cases hw <;> simp_all [content]

end Setting

end Harness
