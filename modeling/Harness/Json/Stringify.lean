-- SUMMARY: `JSON.stringify` on lossless JSON values, down to the code units of strings and numerals.
import Mathlib.Data.Nat.Digits.Defs
import Harness.Json.Value

/-!
# `JSON.stringify`

The compact spelling of a value: no white space, fields in enumeration order,
strings quoted as `QuoteJSONString` does and numbers as `Number::toString`.
-/

namespace Harness

/-- The code units of a text. -/
abbrev Text := List UInt16

/-- The code unit of an ASCII character. -/
def unit (c : Char) : UInt16 := UInt16.ofNat c.toNat

/-! ## Strings -/

def isLeadSurrogate (u : UInt16) : Bool := decide (0xD800 ≤ u.toNat ∧ u.toNat ≤ 0xDBFF)

def isTrailSurrogate (u : UInt16) : Bool := decide (0xDC00 ≤ u.toNat ∧ u.toNat ≤ 0xDFFF)

/-- One lower-case hexadecimal digit. -/
def hexDigit (d : Nat) : UInt16 :=
  if d < 10 then UInt16.ofNat (0x30 + d) else UInt16.ofNat (0x61 + (d - 10))

/-- `UnicodeEscape`: a backslash, `u` and four digits. -/
def unicodeEscape (u : UInt16) : Text :=
  [unit '\\', unit 'u', hexDigit (u.toNat / 4096), hexDigit (u.toNat / 256 % 16),
    hexDigit (u.toNat / 16 % 16), hexDigit (u.toNat % 16)]

/-- One code unit that is no surrogate, inside quotes. -/
def quoteUnit (u : UInt16) : Text :=
  if u = 0x08 then [unit '\\', unit 'b']
  else if u = 0x09 then [unit '\\', unit 't']
  else if u = 0x0A then [unit '\\', unit 'n']
  else if u = 0x0C then [unit '\\', unit 'f']
  else if u = 0x0D then [unit '\\', unit 'r']
  else if u = unit '"' then [unit '\\', unit '"']
  else if u = unit '\\' then [unit '\\', unit '\\']
  else if u.toNat < 0x20 then unicodeEscape u
  else [u]

/-- The body of a quoted string. A surrogate pair stays, a lone surrogate is escaped. -/
def quoteUnits : Text → Text
  | [] => []
  | u :: rest =>
    if isLeadSurrogate u then
      match rest with
      | [] => unicodeEscape u
      | v :: rest' =>
        if isTrailSurrogate v then u :: v :: quoteUnits rest'
        else unicodeEscape u ++ quoteUnits (v :: rest')
    else if isTrailSurrogate u then unicodeEscape u ++ quoteUnits rest
    else quoteUnit u ++ quoteUnits rest

/-- `QuoteJSONString`. -/
def quote (s : JsString) : Text := unit '"' :: (quoteUnits s.units ++ [unit '"'])

/-! ## Numbers -/

/-- Decimal digits, most significant first; none for zero. -/
def decimals (n : Nat) : List Nat := (Nat.digits 10 n).reverse

def digitUnits (ds : List Nat) : Text := ds.map fun d => UInt16.ofNat (0x30 + d)

/-- The digits of a natural number, `0` included. -/
def natText (n : Nat) : Text := if n = 0 then [unit '0'] else digitUnits (decimals n)

/-- The sign and digits of an exponent. -/
def exponentText (e : Int) : Text :=
  (if e < 0 then unit '-' else unit '+') :: natText e.natAbs

/-- The decimal point at position `n` of `digits`, by the cases of `Number::toString`. -/
def placePoint (digits : List Nat) (n : Int) : Text :=
  if (digits.length : Int) ≤ n ∧ n ≤ 21 then
    digitUnits (digits ++ List.replicate (n.toNat - digits.length) 0)
  else if 0 < n ∧ n ≤ 21 then
    digitUnits (digits.take n.toNat) ++ unit '.' :: digitUnits (digits.drop n.toNat)
  else if -6 < n ∧ n ≤ 0 then
    unit '0' :: unit '.' :: digitUnits (List.replicate (-n).toNat 0 ++ digits)
  else
    match digits with
    | [] => []
    | [d] => digitUnits [d] ++ unit 'e' :: exponentText (n - 1)
    | d :: ds => digitUnits [d] ++ unit '.' :: digitUnits ds ++ unit 'e' :: exponentText (n - 1)

/-- The decimal digits without the trailing zeros. -/
def significant (n : Nat) : List Nat := ((Nat.digits 10 n).dropWhile (· == 0)).reverse

/-- The spelling of a positive number. -/
def Num.magnitudeText : Num → Text
  | .int z =>
    placePoint (significant z.natAbs) (decimals z.natAbs).length
  | .frac m s _ =>
    let digits := decimals m.natAbs
    placePoint digits (digits.length - (s + 1))

/-- `Number::toString`. -/
def Num.toText (n : Num) : Text :=
  if n = .int 0 then [unit '0']
  else if n.isNegative then unit '-' :: n.magnitudeText
  else n.magnitudeText

/-! ## Values -/

namespace Json

mutual

/-- `JSON.stringify(value)`. -/
def stringify : Json → Text
  | .null => ['n', 'u', 'l', 'l'].map unit
  | .bool true => ['t', 'r', 'u', 'e'].map unit
  | .bool false => ['f', 'a', 'l', 's', 'e'].map unit
  | .num n => n.toText
  | .str s => quote s
  | .arr [] => [unit '[', unit ']']
  | .arr (item :: items) => unit '[' :: (stringify item ++ stringifyItems items)
  | .obj [] => [unit '\x7b', unit '\x7d']
  | .obj ((key, value) :: fields) =>
    unit '\x7b' :: (quote key ++ unit ':' :: (stringify value ++ stringifyFields fields))

/-- The items after the first, and the closing bracket. -/
def stringifyItems : List Json → Text
  | [] => [unit ']']
  | item :: items => unit ',' :: (stringify item ++ stringifyItems items)

/-- The fields after the first, and the closing brace. -/
def stringifyFields : List (JsString × Json) → Text
  | [] => [unit '\x7d']
  | (key, value) :: fields =>
    unit ',' :: (quote key ++ unit ':' :: (stringify value ++ stringifyFields fields))

end

end Json

/-! ## `String(value)` -/

mutual

/-- `String(value)`. -/
def Json.display : Json → String
  | .null => "null"
  | .bool b => toString b
  | .num n => JsString.toString ⟨n.toText⟩
  | .str s => s.toString
  | .arr items => ",".intercalate (displayItems items)
  | .obj _ => "[object Object]"

/-- The entries of a joined array; `null` joins as nothing. -/
def Json.displayItems : List Json → List String
  | [] => []
  | .null :: items => "" :: displayItems items
  | item :: items => item.display :: displayItems items

end

/-- `String(value)` of a property of a parsed value. -/
def templateText (property : Option Json) : String := (property.map Json.display).getD "undefined"

end Harness
