-- SUMMARY: Arbitrary JavaScript values as schemas and candidates: a heap of objects, the tests on them, and the lossless-JSON walk.
import Harness.Json.Value
import Mathlib.Data.Finset.Card
import Mathlib.Data.Nat.Find

/-!
# Values in a heap

Schemas and candidate values are whatever a caller passes: objects may be shared, contain
themselves, have accessors that throw, or be proxies that answer nothing. A value refers to its
objects by their places in a heap.
-/

namespace Harness

open List
namespace Tools

/-! ## The heap -/

abbrev Ref := Nat

inductive Val where
  | undefined
  | null
  | bool (b : Bool)
  | number (n : JsNumber)
  | string (s : JsString)
  /-- A bigint, a symbol or a function. -/
  | other
  | object (ref : Ref)
  deriving DecidableEq

/-- What a property holds: a value, or an accessor that throws. -/
inductive Slot where
  | data (value : Val)
  | throwing
  deriving DecidableEq

structure Property where
  key : JsString
  enumerable : Bool := true
  slot : Slot
  deriving DecidableEq

/-- An object. `plain` says that its prototype is the intrinsic one (or none, for a record);
`symbols` that it has own symbol keys; `extras` counts the own keys of an array other than its
indices and `length`; `mappable` says of an array with another prototype or extra keys that its
`flatMap` is the intrinsic method, in whose place nothing that can be called is found otherwise.
A hole of an array is `none`. -/
inductive Obj where
  | record (plain symbols : Bool) (properties : List Property)
  | array (plain mappable : Bool) (extras : Nat) (items : List (Option Slot))
  /-- A revoked proxy: every operation on it throws. -/
  | revoked
  deriving DecidableEq

abbrev Heap := List Obj

/-- What an operation of the language throws; nothing looks into it. -/
abbrev Throws := Except Unit

def Slot.read : Slot → Throws Val
  | .data value => .ok value
  | .throwing => .error ()

/-- Reading an element of an array; a hole gives `undefined`. -/
def readItem : Option Slot → Throws Val
  | some slot => slot.read
  | none => .ok .undefined

variable (heap : Heap)

def objectAt (ref : Ref) : Obj := heap.getD ref .revoked

/-- `Array.isArray(value)`. -/
def isArray : Val → Throws Bool
  | .object ref =>
    match objectAt heap ref with
    | .array .. => .ok true
    | .record .. => .ok false
    | .revoked => .error ()
  | _ => .ok false

def isPlainJsonRecord : Val → Throws Bool
  | .object ref =>
    match objectAt heap ref with
    | .record plain _ _ => .ok plain
    | .array .. => .ok false
    | .revoked => .error ()
  | _ => .ok false

/-- Whether a record's keys survive JSON projection too. -/
def isJsonSchemaRecord : Val → Throws Bool
  | .object ref =>
    match objectAt heap ref with
    | .record plain symbols properties => .ok (plain && !symbols && properties.all (·.enumerable))
    | .array .. => .ok false
    | .revoked => .error ()
  | _ => .ok false

def isPlainJsonArray : Val → Throws Bool
  | .object ref =>
    match objectAt heap ref with
    | .array plain _ extras items =>
      .ok (plain && items.countP Option.isSome + 1 + extras == items.length + 1 &&
        items.all Option.isSome)
    | .record .. => .ok false
    | .revoked => .error ()
  | _ => .ok false

/-- The own properties of a record. -/
def propertiesOf : Val → List Property
  | .object ref =>
    match objectAt heap ref with
    | .record _ _ properties => properties
    | _ => []
  | _ => []

/-- The elements of an array. -/
def itemsOf : Val → List (Option Slot)
  | .object ref =>
    match objectAt heap ref with
    | .array _ _ _ items => items
    | _ => []
  | _ => []

variable (value : Val)

def ownProperty (key : JsString) : Option Property :=
  (propertiesOf heap value).find? (·.key = key)

/-- `Object.hasOwn(value, key)` on a record. -/
def hasOwn (key : JsString) : Bool := (ownProperty heap value key).isSome

/-- `Object.hasOwn(value, key) ? value[key] : undefined`. -/
def readOwn (key : JsString) : Throws Val :=
  match ownProperty heap value key with
  | some property => property.slot.read
  | none => .ok .undefined

/-- `Object.keys(value)`. -/
def keysOf : List JsString :=
  ((propertiesOf heap value).filter (·.enumerable)).map Property.key

/-- Reading every one of some slots, from the first on. -/
def readAll : List (Option Slot) → Throws (List Val)
  | [] => .ok []
  | item :: items => do
    let value ← readItem item
    let values ← readAll items
    .ok (value :: values)

def readEntries : List Property → Throws (List (JsString × Val))
  | [] => .ok []
  | property :: properties => do
    let value ← property.slot.read
    let entries ← readEntries properties
    .ok ((property.key, value) :: entries)

/-- `Object.entries(value)`. -/
def entriesOf : Throws (List (JsString × Val)) :=
  readEntries ((propertiesOf heap value).filter (·.enumerable))

/-! ## Scalars -/

/-- Lossless finite JSON number, excluding negative zero. -/
def isJsonNumber : Val → Bool
  | .number (.finite _) => true
  | _ => false

/-- `Number.isInteger(value)`; negative zero is an integer. -/
def isInteger : Val → Bool
  | .number (.finite (.int _)) | .number .negZero => true
  | _ => false

/-- Negative zero counts as zero. -/
def Val.unsigned : Val → Val
  | .number .negZero => .number (.finite (.int 0))
  | value => value

/-- The comparison of `Array.prototype.includes`. -/
def sameValueZero (a b : Val) : Bool := a.unsigned = b.unsigned

/-- `a === b`. -/
def strictlyEqual (a b : Val) : Bool := a ≠ .number .nan && sameValueZero a b

/-! ## Lossless JSON -/

/-- The slots of a container in turn; a hole is not lossless. -/
def walkSlots (visit : Val → Throws Bool) : List (Option Slot) → Throws Bool
  | [] => .ok true
  | none :: _ => .ok false
  | some slot :: slots => do
    let value ← slot.read
    if ← visit value then walkSlots visit slots else .ok false

/-- `walkJsonValue` without a snapshot. No path without a repeated object is longer than the heap,
which is the bound. -/
def walkJsonValue : Nat → List Ref → Val → Throws Bool
  | _, _, .null | _, _, .bool _ | _, _, .string _ => .ok true
  | _, _, .number n => .ok (isJsonNumber (.number n))
  | _, _, .undefined | _, _, .other => .ok false
  | 0, _, .object _ => .ok false
  | bound + 1, ancestors, .object ref =>
    if ref ∈ ancestors then .ok false
    else
      match objectAt heap ref with
      | .revoked => .error ()
      | .array plain _ extras items =>
        if !plain || items.countP Option.isSome + 1 + extras != items.length + 1 then .ok false
        else walkSlots (walkJsonValue bound (ref :: ancestors)) items
      | .record plain symbols properties =>
        if !plain || symbols || !properties.all (·.enumerable) then .ok false
        else
          walkSlots (walkJsonValue bound (ref :: ancestors)) (properties.map fun p => some p.slot)

def isJsonValue : Throws Bool := walkJsonValue heap heap.length [] value

/-- Safely test the lossless JSON boundary when a getter may throw. -/
def safelyIsJsonValue : Bool :=
  match isJsonValue heap value with
  | .ok lossless => lossless
  | .error _ => false

/-- A value that survives a round trip through JSON. -/
inductive Lossless : Val → Prop where
  | null : Lossless .null
  | bool (b : Bool) : Lossless (.bool b)
  | string (s : JsString) : Lossless (.string s)
  | number (n : Num) : Lossless (.number (.finite n))
  | array {ref : Ref} {mappable : Bool} {values : List Val} :
      objectAt heap ref = .array true mappable 0 (values.map fun value => some (.data value)) →
      (∀ value ∈ values, Lossless value) → Lossless (.object ref)
  | record {ref : Ref} {fields : List (JsString × Val)} :
      objectAt heap ref = .record true false
        (fields.map fun e => { key := e.1, slot := .data e.2 }) →
      (∀ e ∈ fields, Lossless e.2) → Lossless (.object ref)

/-! ## Reading -/

variable {heap}

theorem readOwn_of_not_hasOwn {value : Val} {key : JsString} (h : hasOwn heap value key = false) :
    readOwn heap value key = .ok .undefined := by
  rw [hasOwn, Option.isSome_eq_false_iff, Option.isNone_iff_eq_none] at h
  rw [readOwn, h]

/-! ## The walk and its meaning -/

theorem walkSlots_true {visit : Val → Throws Bool} {slots : List (Option Slot)} :
    walkSlots visit slots = .ok true ↔
      ∀ slot ∈ slots, ∃ value, slot = some (.data value) ∧ visit value = .ok true := by
  induction slots with
  | nil => simp [walkSlots]
  | cons slot slots ih =>
    rw [forall_mem_cons, ← ih]
    cases slot with
    | none => simp [walkSlots]
    | some slot =>
      cases slot with
      | throwing => simp [walkSlots, Slot.read, bind, Except.bind]
      | data value =>
        cases hvisit : visit value with
        | error e => simp [walkSlots, Slot.read, bind, Except.bind, hvisit]
        | ok lossless => cases lossless <;> simp [walkSlots, Slot.read, bind, Except.bind, hvisit]

/-- Slots that all hold values. -/
theorem exists_values {slots : List (Option Slot)} {P : Val → Prop}
    (h : ∀ slot ∈ slots, ∃ value, slot = some (.data value) ∧ P value) :
    ∃ values : List Val, slots = values.map (fun value => some (.data value))
      ∧ ∀ value ∈ values, P value := by
  induction slots with
  | nil => exact ⟨[], rfl, fun value hmem => absurd hmem not_mem_nil⟩
  | cons slot slots ih =>
    obtain ⟨hslot, hslots⟩ := forall_mem_cons.mp h
    obtain ⟨value, rfl, hvalue⟩ := hslot
    obtain ⟨values, rfl, hvalues⟩ := ih hslots
    exact ⟨value :: values, rfl, forall_mem_cons.mpr ⟨hvalue, hvalues⟩⟩

theorem lossless_of_walk {bound : Nat} {ancestors : List Ref} {value : Val}
    (h : walkJsonValue heap bound ancestors value = .ok true) : Lossless heap value := by
  induction bound generalizing ancestors value with
  | zero =>
    cases value with
    | null => exact .null
    | bool b => exact .bool b
    | string s => exact .string s
    | number n =>
      cases n with
      | finite n => exact .number n
      | _ => cases h
    | undefined => cases h
    | other => cases h
    | object ref => cases h
  | succ bound ih =>
    cases value with
    | null => exact .null
    | bool b => exact .bool b
    | string s => exact .string s
    | number n =>
      cases n with
      | finite n => exact .number n
      | _ => cases h
    | undefined => cases h
    | other => cases h
    | object ref =>
      rw [walkJsonValue] at h
      by_cases hmem : ref ∈ ancestors
      · rw [if_pos hmem] at h
        cases h
      rw [if_neg hmem] at h
      cases hobject : objectAt heap ref with
      | revoked =>
        rw [hobject] at h
        cases h
      | array plain mappable extras items =>
        rw [hobject] at h
        dsimp only at h
        split at h
        · cases h
        rename_i htest
        obtain ⟨values, rfl, hvalues⟩ := exists_values (walkSlots_true.mp h)
        simp only [Bool.or_eq_true, not_or, Bool.not_eq_true', bne_iff_ne, ne_eq, not_not] at htest
        obtain ⟨hplain, hcount⟩ := htest
        obtain rfl : extras = 0 := by
          rw [countP_map, length_map] at hcount
          have hall : values.countP (Option.isSome ∘ fun value => some (Slot.data value)) =
              values.length := countP_eq_length.mpr fun value _ => rfl
          omega
        obtain rfl : plain = true := by simpa using hplain
        exact .array hobject fun value hmem => ih (hvalues value hmem)
      | record plain symbols properties =>
        rw [hobject] at h
        dsimp only at h
        split at h
        · cases h
        rename_i htest
        simp only [Bool.or_eq_true, not_or, Bool.not_eq_true', Bool.not_eq_true,
          Bool.not_eq_false] at htest
        obtain ⟨⟨hplain, hsymbols⟩, hkeys⟩ := htest
        have hfields : ∃ fields : List (JsString × Val),
            properties = fields.map (fun e => { key := e.1, slot := .data e.2 })
              ∧ ∀ e ∈ fields, Lossless heap e.2 := by
          have hslots := walkSlots_true.mp h
          clear hobject h
          induction properties with
          | nil => exact ⟨[], rfl, fun e hmem => absurd hmem not_mem_nil⟩
          | cons property properties ihp =>
            rw [map_cons, forall_mem_cons] at hslots
            rw [all_cons, Bool.and_eq_true] at hkeys
            obtain ⟨fields, rfl, hall⟩ := ihp hkeys.2 hslots.2
            obtain ⟨value, hvalue, hwalk⟩ := hslots.1
            refine ⟨(property.key, value) :: fields, ?_, forall_mem_cons.mpr ⟨ih hwalk, hall⟩⟩
            obtain ⟨key, enumerable, slot⟩ := property
            cases Option.some.inj hvalue
            obtain rfl : enumerable = true := hkeys.1
            rfl
        obtain ⟨fields, rfl, hall⟩ := hfields
        subst hplain hsymbols
        exact .record hobject hall

/-- Lossless with at most `n` containers inside each other. -/
def LosslessIn (heap : Heap) : Nat → Val → Prop
  | _, .null | _, .bool _ | _, .string _ => True
  | _, .number n => isJsonNumber (.number n) = true
  | _, .undefined | _, .other => False
  | 0, .object _ => False
  | n + 1, .object ref =>
    (∃ (mappable : Bool) (values : List Val),
        objectAt heap ref =
          .array true mappable 0 (values.map fun value => some (Slot.data value))
          ∧ ∀ value ∈ values, LosslessIn heap n value)
      ∨ ∃ fields : List (JsString × Val),
        objectAt heap ref =
          .record true false (fields.map fun e => { key := e.1, slot := .data e.2 })
          ∧ ∀ e ∈ fields, LosslessIn heap n e.2

theorem LosslessIn.mono {n m : Nat} {value : Val} (h : LosslessIn heap n value) (hle : n ≤ m) :
    LosslessIn heap m value := by
  induction m generalizing n value with
  | zero =>
    obtain rfl : n = 0 := Nat.le_zero.mp hle
    exact h
  | succ m ih =>
    cases value with
    | object ref =>
      cases n with
      | zero => exact h.elim
      | succ n =>
        have hle' : n ≤ m := Nat.le_of_succ_le_succ hle
        exact h.imp
          (fun ⟨mappable, values, hobject, hall⟩ =>
            ⟨mappable, values, hobject, fun value hmem => ih (hall value hmem) hle'⟩)
          (fun ⟨fields, hobject, hall⟩ =>
            ⟨fields, hobject, fun e hmem => ih (hall e hmem) hle'⟩)
    | _ => cases n <;> exact h

/-- One bound for all members of a list. -/
theorem exists_bound {α : Type} {P : Nat → α → Prop} (hmono : ∀ n m x, P n x → n ≤ m → P m x)
    {xs : List α} (h : ∀ x ∈ xs, ∃ n, P n x) : ∃ n, ∀ x ∈ xs, P n x := by
  induction xs with
  | nil => exact ⟨0, fun x hmem => absurd hmem not_mem_nil⟩
  | cons x xs ih =>
    obtain ⟨⟨n, hn⟩, hrest⟩ := forall_mem_cons.mp h
    obtain ⟨m, hm⟩ := ih hrest
    refine ⟨max n m, forall_mem_cons.mpr ⟨hmono _ _ _ hn (Nat.le_max_left _ _), ?_⟩⟩
    exact fun y hmem => hmono _ _ _ (hm y hmem) (Nat.le_max_right _ _)

theorem Lossless.exists_losslessIn {value : Val} (h : Lossless heap value) :
    ∃ n, LosslessIn heap n value := by
  induction h with
  | null => exact ⟨0, trivial⟩
  | bool b => exact ⟨0, trivial⟩
  | string s => exact ⟨0, trivial⟩
  | number n => exact ⟨0, rfl⟩
  | @array ref mappable values hobject _ ih =>
    obtain ⟨n, hn⟩ := exists_bound (P := LosslessIn heap)
      (fun n m value h hle => LosslessIn.mono h hle) ih
    exact ⟨n + 1, .inl ⟨mappable, values, hobject, hn⟩⟩
  | @record ref fields hobject _ ih =>
    obtain ⟨n, hn⟩ := exists_bound (P := fun n (e : JsString × Val) => LosslessIn heap n e.2)
      (fun n m e h hle => h.mono hle) ih
    exact ⟨n + 1, .inr ⟨fields, hobject, hn⟩⟩

theorem lt_of_objectAt {ref : Ref} (h : objectAt heap ref ≠ .revoked) : ref < heap.length := by
  by_contra hge
  apply h
  have hle : heap.length ≤ ref := Nat.le_of_not_lt hge
  rw [objectAt, getD_eq_getElem?_getD, getElem?_eq_none hle]
  rfl

theorem length_le_of_nodup {refs : List Ref} (h : refs.Nodup) (hlt : ∀ r ∈ refs, r < heap.length) :
    refs.length ≤ heap.length := by
  rw [← toFinset_card_of_nodup h, ← Finset.card_range heap.length]
  apply Finset.card_le_card
  intro r hr
  exact Finset.mem_range.mpr (hlt r (mem_toFinset.mp hr))

/-- Of the containers around a lossless value none is lossless within its depth, so none is met
again. -/
theorem walk_of_losslessIn (n : Nat) : ∀ {value : Val} {ancestors : List Ref} {bound : Nat},
    LosslessIn heap n value → ancestors.Nodup →
    (∀ a ∈ ancestors, a < heap.length ∧ ¬ LosslessIn heap n (.object a)) →
    heap.length ≤ ancestors.length + bound →
    walkJsonValue heap bound ancestors value = .ok true := by
  classical
  induction n using Nat.strongRecOn with
  | _ n ih =>
    intro value ancestors bound h hnodup hancestors hbound
    cases value with
    | null => cases bound <;> rfl
    | bool b => cases bound <;> rfl
    | string s => cases bound <;> rfl
    | number n =>
      cases n with
      | finite n => cases bound <;> rfl
      | _ => cases n <;> cases h
    | undefined => cases n <;> exact h.elim
    | other => cases n <;> exact h.elim
    | object ref =>
      have hnew : ref ∉ ancestors := fun hmem => (hancestors ref hmem).2 h
      -- the least depth at which the object is lossless
      have hex : ∃ m, LosslessIn heap m (.object ref) := ⟨n, h⟩
      have hleast := Nat.find_spec hex
      have hmin : ∀ m < Nat.find hex, ¬ LosslessIn heap m (.object ref) :=
        fun m hm => Nat.find_min hex hm
      have hle : Nat.find hex ≤ n := Nat.find_min' hex h
      generalize Nat.find hex = m at hleast hmin hle
      cases m with
      | zero => exact hleast.elim
      | succ m =>
        have hplace : ref < heap.length := by
          apply lt_of_objectAt
          rcases hleast with ⟨_, _, hobject, _⟩ | ⟨_, hobject, _⟩ <;> rw [hobject] <;> exact nofun
        have hnodup' : (ref :: ancestors).Nodup := nodup_cons.mpr ⟨hnew, hnodup⟩
        have hfull := length_le_of_nodup hnodup'
          (forall_mem_cons.mpr ⟨hplace, fun a ha => (hancestors a ha).1⟩)
        rw [length_cons] at hfull
        obtain ⟨bound, rfl⟩ : ∃ b, bound = b + 1 := ⟨bound - 1, by omega⟩
        have hinner : ∀ {value : Val}, LosslessIn heap m value →
            walkJsonValue heap bound (ref :: ancestors) value = .ok true := by
          intro value hvalue
          apply ih m (Nat.lt_of_succ_le hle) hvalue hnodup'
          · refine forall_mem_cons.mpr ⟨⟨hplace, hmin m (Nat.lt_succ_self m)⟩, ?_⟩
            exact fun a ha => ⟨(hancestors a ha).1, fun hlow =>
              (hancestors a ha).2 (hlow.mono (Nat.le_of_succ_le hle))⟩
          · rw [length_cons]
            omega
        rw [walkJsonValue, if_neg hnew]
        rcases hleast with ⟨mappable, values, hobject, hall⟩ | ⟨fields, hobject, hall⟩
        · have hcount : (values.map fun value => some (Slot.data value)).countP Option.isSome =
              values.length := by
            rw [countP_map]
            exact countP_eq_length.mpr fun value _ => rfl
          rw [hobject]
          dsimp only
          rw [hcount, length_map, if_neg (by simp), walkSlots_true]
          intro slot hslot
          obtain ⟨value, hmem, rfl⟩ := mem_map.mp hslot
          exact ⟨value, rfl, hinner (hall value hmem)⟩
        · rw [hobject]
          dsimp only
          rw [if_neg (by simp), walkSlots_true]
          intro slot hslot
          obtain ⟨property, hproperty, rfl⟩ := mem_map.mp hslot
          obtain ⟨e, hmem, rfl⟩ := mem_map.mp hproperty
          exact ⟨e.2, rfl, hinner (hall e hmem)⟩

theorem safelyIsJsonValue_iff {value : Val} :
    safelyIsJsonValue heap value = true ↔ Lossless heap value := by
  constructor
  · intro h
    unfold safelyIsJsonValue at h
    split at h
    · rename_i lossless hwalk
      subst h
      exact lossless_of_walk hwalk
    · cases h
  · intro h
    obtain ⟨n, hn⟩ := h.exists_losslessIn
    have hwalk : isJsonValue heap value = .ok true :=
      walk_of_losslessIn n hn nodup_nil (fun a ha => absurd ha not_mem_nil)
        (Nat.le_add_left _ _)
    rw [safelyIsJsonValue, hwalk]

end Tools

end Harness
