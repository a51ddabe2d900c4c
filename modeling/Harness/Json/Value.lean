-- SUMMARY: JavaScript strings, numbers and lossless JSON values, and the snapshot boundary of `core/session/src/json.ts`.
import Harness.Lib.Outcome
import Mathlib.Algebra.Order.Ring.Int

/-!
# Lossless JSON values

The value domain that durable session data lives in. `JsValue` is what a caller
can hand over, `Json` is what `snapshotJsonValue` lets through.
-/

namespace Harness

/-! ## Strings and numbers -/

/-- A JavaScript string: any sequence of UTF-16 code units, lone surrogates included. -/
structure JsString where
  units : List UInt16
  deriving DecidableEq

/-- The UTF-16 code units of one scalar value. -/
def utf16 (c : Char) : List UInt16 :=
  let n := c.toNat
  if n < 0x10000 then [n.toUInt16]
  else [(0xD800 + (n - 0x10000) / 0x400).toUInt16, (0xDC00 + (n - 0x10000) % 0x400).toUInt16]

def JsString.ofString (s : String) : JsString := ⟨s.toList.flatMap utf16⟩

instance : Coe String JsString := ⟨JsString.ofString⟩

/-- Render for a diagnostic; code units outside the scalar values print as U+FFFD. -/
def JsString.toString (s : JsString) : String :=
  String.ofList (s.units.map fun u => Char.ofNat u.toNat)

instance : ToString JsString := ⟨JsString.toString⟩

/-- A finite number other than negative zero. An integral value is held as such; any
other value is held by its shortest decimal, `mantissa * 10 ^ -(scale + 1)`. -/
inductive Num where
  | int (value : Int)
  | frac (mantissa : Int) (scale : Nat) (reduced : mantissa % 10 ≠ 0)
  deriving DecidableEq

/-- `Number.MAX_SAFE_INTEGER`. -/
def maxSafeInteger : Nat := 9007199254740991

/-- `Number.isSafeInteger` on a mathematical integer. -/
def isSafeInt (z : Int) : Bool := decide (-(maxSafeInteger : Int) ≤ z ∧ z ≤ maxSafeInteger)

/-- The value of a safe integer, `none` for every other number. -/
def Num.asSafeInteger : Num → Option Int
  | .int z => if isSafeInt z then some z else none
  | .frac .. => none

/-- `Math.trunc` on a finite number. -/
def Num.trunc : Num → Int
  | .int z => z
  | .frac m s _ => m.tdiv (10 ^ (s + 1))

/-- `n < 0`. -/
def Num.isNegative : Num → Bool
  | .int z => decide (z < 0)
  | .frac m _ _ => decide (m < 0)

/-- Every JavaScript number. -/
inductive JsNumber where
  | nan
  | infinity (negative : Bool)
  | negZero
  | finite (n : Num)
  deriving DecidableEq

/-! ## Values -/

/-- A lossless JSON value. Object fields stand in enumeration order. -/
inductive Json where
  | null
  | bool (b : Bool)
  | num (n : Num)
  | str (s : JsString)
  | arr (items : List Json)
  | obj (fields : List (JsString × Json))

/-- A JavaScript value as the snapshot walk meets it. An object graph is unfolded
until a reference leads back to an object that is still being walked. -/
inductive JsValue where
  | undefined
  | null
  | bool (b : Bool)
  | number (n : JsNumber)
  | str (s : JsString)
  | bigint
  | symbol
  | function
  | array (plainPrototype : Bool) (extraKeys : Nat) (items : List (Option JsValue))
  | object (plainPrototype : Bool) (hiddenKeys : Bool) (fields : List (JsString × JsValue))
  | ancestor

mutual

/-- Detach a value that round-trips through JSON, or `none` when it does not. -/
def snapshotJsonValue : JsValue → Option Json
  | .null => some .null
  | .bool b => some (.bool b)
  | .str s => some (.str s)
  | .number (.finite n) => some (.num n)
  | .number _ => none
  | .array plain extraKeys items =>
    -- own keys are the present indices, `length` and the extra keys
    if !plain || (items.countP Option.isSome + 1 + extraKeys != items.length + 1) then none
    else (snapshotItems items).map .arr
  | .object plain hiddenKeys fields =>
    if !plain || hiddenKeys then none else (snapshotFields fields).map .obj
  | .undefined | .bigint | .symbol | .function | .ancestor => none

def snapshotItems : List (Option JsValue) → Option (List Json)
  | [] => some []
  | none :: _ => none
  | some v :: rest => do
    let j ← snapshotJsonValue v
    let js ← snapshotItems rest
    return j :: js

def snapshotFields : List (JsString × JsValue) → Option (List (JsString × Json))
  | [] => some []
  | (k, v) :: rest => do
    let j ← snapshotJsonValue v
    let js ← snapshotFields rest
    return (k, j) :: js

end

namespace Json

/-- `record[key]` on an own property; `none` is `undefined`. -/
def get? (key : JsString) : List (JsString × Json) → Option Json
  | [] => none
  | (k, v) :: rest => if k = key then some v else get? key rest

/-- `Object.hasOwn(record, key)`. -/
def hasOwn (fields : List (JsString × Json)) (key : JsString) : Bool := (get? key fields).isSome

/-- `typeof value === 'number' && Number.isSafeInteger(value)`. -/
def asSafeInteger : Json → Option Int
  | .num n => n.asSafeInteger
  | _ => none

theorem get?_eq_some_mem {key : JsString} {fields : List (JsString × Json)} {v : Json}
    (h : get? key fields = some v) : (key, v) ∈ fields := by
  induction fields with
  | nil => simp [get?] at h
  | cons kv rest ih =>
    obtain ⟨k, w⟩ := kv
    simp only [get?] at h
    split at h
    · cases h
      simp_all
    · exact List.mem_cons_of_mem _ (ih h)

theorem get?_of_mem {key : JsString} {fields : List (JsString × Json)} {v : Json}
    (hnodup : (fields.map Prod.fst).Nodup) (hmem : (key, v) ∈ fields) :
    get? key fields = some v := by
  induction fields with
  | nil => cases hmem
  | cons kv rest ih =>
    obtain ⟨k, w⟩ := kv
    simp only [List.map_cons, List.nodup_cons] at hnodup
    rcases List.mem_cons.mp hmem with heq | hrest
    · cases heq
      simp [get?]
    have hne : k ≠ key := fun h =>
      hnodup.1 (h ▸ List.mem_map_of_mem (f := Prod.fst) hrest)
    simpa [get?, hne] using ih hnodup.2 hrest

end Json

end Harness
