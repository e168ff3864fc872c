import LaneKernel.Document.Node
import LaneKernel.Text.Integer

/-!
# Values of scalars

What a scalar means where a text, a number or a truth value is wanted.  An
unquoted scalar in one of the number notations is a number; a number with a
fraction counts with its integral part.
-/

namespace LaneKernel.Document

/-- A decimal number: the sign, all digits as one number, and the power of ten
that it is multiplied with. -/
structure Decimal where
  negative : Bool
  digits : Nat
  exponent : Int
deriving DecidableEq, Repr

/-- Digits, optionally a point and more digits, and optionally an exponent. -/
def Decimal.parse? (text : List Char) : Option Decimal := do
  let (sign, body) := Text.splitSign text
  let (whole, rest) := body.span Char.isDigit
  let (fraction, rest) := match rest with
    | '.' :: behind => behind.span Char.isDigit
    | _ => ([], rest)
  if whole.isEmpty && fraction.isEmpty then none
  else
    let exponent ← match rest with
      | [] => some 0
      | mark :: power =>
          if mark = 'e' ∨ mark = 'E' then
            let (sign, digits) := Text.splitSign power
            (Text.naturalIn? 10 digits).map fun value =>
              if sign = some .minus then -(value : Int) else value
          else none
    let digits ← Text.naturalIn? 10 (whole ++ fraction)
    return ⟨sign = some .minus, digits, exponent - fraction.length⟩

/-- Powers of ten beyond which every number is too large, or too small to
count. -/
def exponentLimit : Int := 4000

/-- The integral part of a decimal number, taken through the nearest
floating-point number; none above the 64-bit range, and the least integer below
it. -/
def Decimal.integral? (number : Decimal) : Option Int :=
  let scale := number.exponent + (Nat.toDigits 10 number.digits).length
  if number.digits = 0 ∨ scale < -exponentLimit then some 0
  else if exponentLimit < scale then none
  else
    let magnitude :=
      Float.ofScientific number.digits (number.exponent < 0)
        number.exponent.natAbs
    if magnitude.isInf then none
    else if magnitude < 9223372036854775808.0 then
      let whole := magnitude.toUInt64.toNat
      some (if number.negative then -(whole : Int) else whole)
    else if number.negative ∨ magnitude == 9223372036854775808.0 then
      some Text.leastInt
    else none

/-- The unquoted texts of an infinite number below the range. -/
def leastTexts : List String := ["-.inf", "-.Inf", "-.INF"]

/-- A signed number in a given base. -/
def signedIn? (base : Nat) (text : List Char) : Option Int := do
  let (sign, digits) := Text.splitSign text
  Text.signed? sign (← Text.naturalIn? base digits)

/-- An unquoted scalar that begins like a number; underscores in it do not
count. -/
def number? (text : List Char) : Option Int :=
  let bare := text.filter (· ≠ '_')
  let (sign, digits) := Text.splitSign bare
  match Text.natural? digits with
  | some magnitude =>
      match Text.signed? sign magnitude with
      | some value => some value
      | none =>
          if magnitude < 0x10000000000000000 ∧ sign.isNone then none
          else (Decimal.parse? bare).bind Decimal.integral?
  | none =>
      match Decimal.parse? bare with
      | some number => number.integral?
      | none =>
          match bare with
          | '0' :: 'b' :: rest => signedIn? 2 rest
          | '-' :: '0' :: 'b' :: rest => signedIn? 2 ('-' :: rest)
          | '0' :: 'o' :: rest => signedIn? 8 rest
          | '-' :: '0' :: 'o' :: rest => signedIn? 8 ('-' :: rest)
          | _ => none

/-- Whether a text begins like a number. -/
def startsNumber : List Char → Bool
  | [] => false
  | character :: _ =>
      character.isDigit || character = '+' || character = '-' || character = '.'

namespace Node

/-- The integer of a scalar. -/
def integer? : Node → Option Int64
  | scalar text quoted =>
      if quoted then none
      else if leastTexts.contains text then some (Int64.ofInt Text.leastInt)
      else if startsNumber text.toList then
        (number? text.toList).map Int64.ofInt
      else none
  | _ => none

/-- The truth value of a scalar.  The longer list of words counts in quotes
too. -/
def boolean? : Node → Option Bool
  | scalar text quoted =>
      if !quoted && ["true", "True", "TRUE"].contains text then some true
      else if !quoted && ["false", "False", "FALSE"].contains text then
        some false
      else if ["y", "Y", "yes", "Yes", "YES", "on", "On", "ON"].contains
        text then some true
      else if ["n", "N", "no", "No", "NO", "off", "Off", "OFF"].contains
        text then some false
      else none
  | _ => none

/-- The text of a scalar, whatever it means. -/
def text? : Node → Option String
  | scalar text _ => some text
  | _ => none

end Node

end LaneKernel.Document
