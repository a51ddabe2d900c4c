-- SUMMARY: `JSON.parse`, a recursive-descent reader of JSON texts.
import Harness.Json.Stringify
import Harness.Lib.OrderedMap

/-!
# `JSON.parse`

A text is read left to right. Each reader answers what it read and what follows.
Numerals are read exactly; on the numerals that `JSON.stringify` writes this is what
the nearest double denotes. A text that spells negative zero has no lossless value and
is refused. The recursion is on fuel, and the length of the text is always enough.
-/

namespace Harness

/-! ## Lexical elements -/

def isSpace (u : UInt16) : Bool := u = 0x20 || u = 0x09 || u = 0x0A || u = 0x0D

def skipSpace (text : Text) : Text := text.dropWhile isSpace

def digitValue (u : UInt16) : Option Nat :=
  if 0x30 ≤ u.toNat ∧ u.toNat ≤ 0x39 then some (u.toNat - 0x30) else none

/-- The value of a hexadecimal digit. -/
def hexValue (u : UInt16) : Option Nat :=
  if 0x30 ≤ u.toNat ∧ u.toNat ≤ 0x39 then some (u.toNat - 0x30)
  else if 0x41 ≤ u.toNat ∧ u.toNat ≤ 0x46 then some (u.toNat - 0x41 + 10)
  else if 0x61 ≤ u.toNat ∧ u.toNat ≤ 0x66 then some (u.toNat - 0x61 + 10)
  else none

/-- The code unit of four hexadecimal digits. -/
def hexUnit (a b c d : UInt16) : Option UInt16 :=
  match hexValue a, hexValue b, hexValue c, hexValue d with
  | some a, some b, some c, some d => some (UInt16.ofNat (a * 4096 + b * 256 + c * 16 + d))
  | _, _, _, _ => none

def escapedUnit (u : UInt16) : Option UInt16 :=
  if u = unit '"' then some (unit '"')
  else if u = unit '\\' then some (unit '\\')
  else if u = unit '/' then some (unit '/')
  else if u = unit 'b' then some 0x08
  else if u = unit 't' then some 0x09
  else if u = unit 'n' then some 0x0A
  else if u = unit 'f' then some 0x0C
  else if u = unit 'r' then some 0x0D
  else none

/-- Put a unit before what a reader has read. -/
def consUnit (u : UInt16) (read : Option (List UInt16 × Text)) : Option (List UInt16 × Text) :=
  read.map fun (us, rest) => (u :: us, rest)

/-- The rest of a string, up to its closing quote. -/
def readUnits : Text → Option (List UInt16 × Text)
  | [] => none
  | u :: rest =>
    if u = unit '"' then some ([], rest)
    else if u = unit '\\' then
      match rest with
      | [] => none
      | v :: rest =>
        if v = unit 'u' then
          match rest with
          | a :: b :: c :: d :: rest =>
            match hexUnit a b c d with
            | none => none
            | some code => consUnit code (readUnits rest)
          | _ => none
        else
          match escapedUnit v with
          | none => none
          | some code => consUnit code (readUnits rest)
    else if u.toNat < 0x20 then none
    else consUnit u (readUnits rest)

/-! ## Numbers -/

/-- The digits a text begins with. -/
def takeDigits : Text → List Nat × Text
  | [] => ([], [])
  | u :: rest =>
    match digitValue u with
    | none => ([], u :: rest)
    | some d => (d :: (takeDigits rest).1, (takeDigits rest).2)

/-- The number that digits spell, most significant first. -/
def digitsNat (ds : List Nat) : Nat := Nat.ofDigits 10 ds.reverse

/-- The integer part: one digit, or digits that do not begin with zero. -/
def readWhole (text : Text) : Option (List Nat × Text) :=
  match takeDigits text with
  | ([], _) => none
  | (d :: ds, rest) => if d = 0 && !ds.isEmpty then none else some (d :: ds, rest)

/-- The fraction part, which may be absent. -/
def readFraction : Text → Option (List Nat × Text)
  | [] => some ([], [])
  | u :: rest =>
    if u = unit '.' then
      match takeDigits rest with
      | ([], _) => none
      | (d :: ds, rest) => some (d :: ds, rest)
    else some ([], u :: rest)

def readSign : Text → Bool × Text
  | [] => (false, [])
  | u :: rest =>
    if u = unit '-' then (true, rest)
    else if u = unit '+' then (false, rest)
    else (false, u :: rest)

/-- The exponent part, which may be absent. -/
def readExponent : Text → Option (Int × Text)
  | [] => some (0, [])
  | u :: rest =>
    if u = unit 'e' || u = unit 'E' then
      let (negative, rest) := readSign rest
      match takeDigits rest with
      | ([], _) => none
      | (d :: ds, rest) =>
        some (if negative then -(digitsNat (d :: ds) : Int) else digitsNat (d :: ds), rest)
    else some (0, u :: rest)

def signed (negative : Bool) (n : Nat) : Int := if negative then -(n : Int) else n

theorem signed_emod_ten {negative : Bool} {n : Nat} (h : n % 10 ≠ 0) :
    signed negative n % 10 ≠ 0 := by
  unfold signed
  split <;> omega

/-- The number `m * 10 ^ -scale`, by its shortest decimal. -/
def Num.ofScaled (negative : Bool) : Nat → Nat → Num
  | m, 0 => .int (signed negative m)
  | m, scale + 1 =>
    if h : m % 10 = 0 then ofScaled negative (m / 10) scale
    else .frac (signed negative m) scale (signed_emod_ten h)

/-- The number `m * 10 ^ e`. -/
def Num.ofDecimal (negative : Bool) (m : Nat) (e : Int) : Num :=
  if 0 ≤ e then .int (signed negative (m * 10 ^ e.toNat))
  else .ofScaled negative m (-e).toNat

/-- A numeral after its sign. -/
def readMagnitude (negative : Bool) (text : Text) : Option (Num × Text) :=
  match readWhole text with
  | none => none
  | some (whole, text) =>
    match readFraction text with
    | none => none
    | some (fraction, text) =>
      match readExponent text with
      | none => none
      | some (e, text) =>
        let m := digitsNat (whole ++ fraction)
        if negative && m == 0 then none
        else some (.ofDecimal negative m (e - fraction.length), text)

def readNumber : Text → Option (Num × Text)
  | [] => none
  | u :: rest =>
    if u = unit '-' then readMagnitude true rest else readMagnitude false (u :: rest)

/-! ## Values -/

def readWord (word text : Text) : Option Text :=
  if word.isPrefixOf text then some (text.drop word.length) else none

/-- The text after one code unit. -/
def readUnit (u : UInt16) : Text → Option Text
  | [] => none
  | v :: rest => if v = u then some rest else none

def readKey (text : Text) : Option (JsString × Text) :=
  match readUnit (unit '"') (skipSpace text) with
  | none => none
  | some text =>
    match readUnits text with
    | none => none
    | some (units, text) => (readUnit (unit ':') (skipSpace text)).map fun rest => (⟨units⟩, rest)

namespace Json

/-- A value that is neither a string, an array nor an object. -/
def parseScalar (text : Text) : Option (Json × Text) :=
  match readWord (['n', 'u', 'l', 'l'].map unit) text with
  | some rest => some (.null, rest)
  | none =>
    match readWord (['t', 'r', 'u', 'e'].map unit) text with
    | some rest => some (.bool true, rest)
    | none =>
      match readWord (['f', 'a', 'l', 's', 'e'].map unit) text with
      | some rest => some (.bool false, rest)
      | none => (readNumber text).map fun (n, rest) => (.num n, rest)

mutual

def parseValue : Nat → Text → Option (Json × Text)
  | 0, _ => none
  | fuel + 1, text =>
    match skipSpace text with
    | [] => none
    | u :: rest =>
      if u = unit '"' then (readUnits rest).map fun (units, rest) => (.str ⟨units⟩, rest)
      else if u = unit '[' then
        match readUnit (unit ']') (skipSpace rest) with
        | some rest => some (.arr [], rest)
        | none =>
          match parseValue fuel rest with
          | none => none
          | some (item, rest) =>
            (parseItems fuel rest).map fun (items, rest) => (.arr (item :: items), rest)
      else if u = unit '\x7b' then
        match readUnit (unit '\x7d') (skipSpace rest) with
        | some rest => some (.obj [], rest)
        | none =>
          match readKey rest with
          | none => none
          | some (key, rest) =>
            match parseValue fuel rest with
            | none => none
            | some (value, rest) =>
              (parseFields fuel [(key, value)] rest).map fun (fields, rest) => (.obj fields, rest)
      else parseScalar (u :: rest)

/-- The items after the first, and the closing bracket. -/
def parseItems : Nat → Text → Option (List Json × Text)
  | 0, _ => none
  | fuel + 1, text =>
    match readUnit (unit ']') (skipSpace text) with
    | some rest => some ([], rest)
    | none =>
      match readUnit (unit ',') (skipSpace text) with
      | none => none
      | some rest =>
        match parseValue fuel rest with
        | none => none
        | some (item, rest) =>
          (parseItems fuel rest).map fun (items, rest) => (item :: items, rest)

/-- The fields after those in `fields`, and the closing brace. A key that comes again
keeps its place and takes the new value. -/
def parseFields : Nat → List (JsString × Json) → Text → Option (List (JsString × Json) × Text)
  | 0, _, _ => none
  | fuel + 1, fields, text =>
    match readUnit (unit '\x7d') (skipSpace text) with
    | some rest => some (fields, rest)
    | none =>
      match readUnit (unit ',') (skipSpace text) with
      | none => none
      | some rest =>
        match readKey rest with
        | none => none
        | some (key, rest) =>
          match parseValue fuel rest with
          | none => none
          | some (value, rest) => parseFields fuel (OrderedMap.set fields key value) rest

end

/-- `JSON.parse(text)`. -/
def parse (text : Text) : Option Json :=
  match parseValue (text.length + 1) text with
  | none => none
  | some (value, rest) => if (skipSpace rest).isEmpty then some value else none

end Json

end Harness
