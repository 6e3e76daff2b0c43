import Tdb.Library.Binary64
import Tdb.Library.Case
import Tdb.Library.Json

namespace Tdb.Web

open Tdb.Library

-- What JSON.parse makes of a text.
abbrev Value := Json Double

-- The parts of the script's language that are left to the browser or to tables.
structure Browser where
  tables : CaseTables
  upperCase : Char → List Char
  otherToString : ℚ → String
  fractionToString16 : ℚ → String
  textToNumber : String → Double

def decimal (d : Decimal) : Double :=
  .round ((if d.negative then -1 else 1) * (d.mantissa : ℚ) * 10 ^ d.exponent)

def parseJson (text : String) : Option Value :=
  Json.parse decimal text

namespace Value

-- A member of the value itself. Reading a member of `null` throws.
def member (v : Value) (key : String) : Option Value :=
  match v with
  | .obj fields => fields.lookup key
  | _ => none

-- `Object.entries`. No register has a number for its name, so the names are in their order.
def entries : Value → List (String × Value)
  | .obj fields => fields
  | .arr items => items.zipIdx.map fun (item, i) => (toString i, item)
  | .str s => s.toList.zipIdx.map fun (c, i) => (toString i, .str (String.singleton c))
  | _ => []

-- The names that every object answers to.
def inherited : List String :=
  ["constructor", "hasOwnProperty", "isPrototypeOf", "propertyIsEnumerable", "toLocaleString",
    "toString", "valueOf", "__defineGetter__", "__defineSetter__", "__lookupGetter__",
    "__lookupSetter__", "__proto__"]

-- `===`. Two texts give two objects, which are never the same.
def same : Value → Value → Bool
  | .null, .null => true
  | .bool b, .bool c => b == c
  | .num m, .num n => m.same n
  | .str s, .str t => s == t
  | _, _ => false

def truthy : Value → Bool
  | .null => false
  | .bool b => b
  | .num (.finite q) => q.val ≠ 0
  | .num (.infinite _) => true
  | .num .nan => false
  | .str s => s ≠ ""
  | .arr _ => true
  | .obj _ => true

end Value

section Text

-- What the browser writes for fractions and for numbers of more than 21 digits.
variable (otherToString : ℚ → String)

-- `String(d)`. A whole number has as few digits before its zeros as tell the double.
def numberToString : Double → String
  | .finite q =>
      if q.val.den = 1 ∧ q.val.num.natAbs < 10 ^ 21 then
        (if q.val < 0 then "-" else "") ++
          String.ofList (Nat.toDigits 10 (Double.shortest q.val.num.natAbs))
      else
        otherToString q
  | .infinite negative => if negative then "-Infinity" else "Infinity"
  | .nan => "NaN"

variable (browser : Browser)

-- A whole number has its exact digits.
def numberToString16 : Double → String
  | .finite q =>
      if q.val.den = 1 then
        (if q.val < 0 then "-" else "") ++ String.ofList (Nat.toDigits 16 q.val.num.natAbs)
      else
        browser.fractionToString16 q
  | .infinite negative => if negative then "-Infinity" else "Infinity"
  | .nan => "NaN"

-- The length of a text is that of its UTF-16 form.
def padStart (text : String) (width : Nat) : String :=
  let length := (text.toList.map fun c => if c.toNat < 0x10000 then 1 else 2).sum
  String.ofList (List.replicate (width - length) '0') ++ text

def toUpperCase (text : String) : String :=
  String.ofList (text.toList.flatMap fun c =>
    if c.toNat < 0x80 then [c.toUpper] else browser.upperCase c)

end Text

section Conversions

variable (browser : Browser)

namespace Value

mutual

-- `String(v)`. A member of the name `toString` hides the method of an object, which then has no
-- text: there is a TypeError.
def toText : Value → Option String
  | .null => some "null"
  | .bool b => some (if b then "true" else "false")
  | .num d => some (numberToString browser.otherToString d)
  | .str s => some s
  | .arr items => (itemTexts items).map (",".intercalate ·)
  | .obj fields => if (fields.lookup "toString").isSome then none else some "[object Object]"

-- An array joins its items, and `null` is left empty.
def itemTexts : List Value → Option (List String)
  | [] => some []
  | .null :: items => (itemTexts items).map ("" :: ·)
  | item :: items =>
      match toText item, itemTexts items with
      | some text, some texts => some (text :: texts)
      | _, _ => none

end

-- `Number(v)`. Arrays and objects are taken by their text.
def toNumber : Value → Option Double
  | .null => some (.ofNat 0)
  | .bool b => some (.ofNat b.toNat)
  | .num d => some d
  | v => (v.toText browser).map browser.textToNumber

end Value

-- `v.toString(16)`, which `null` does not have.
def toString16 : Value → Option String
  | .null => none
  | .num d => some (numberToString16 browser d)
  | v => v.toText browser

-- What is not there is not a number.
def operand : Option Value → Option Double
  | none => some .nan
  | some v => v.toNumber browser

-- `a - b`
def minus (a b : Option Value) : Option Double :=
  match operand browser a, operand browser b with
  | some m, some n => some (m.sub n)
  | _, _ => none

end Conversions

end Tdb.Web
