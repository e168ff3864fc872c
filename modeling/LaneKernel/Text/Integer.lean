import LaneKernel.Text.Number

/-!
# Integers in several bases

The notations of an integer: a sign, and digits whose base is shown by how they
start.  Options also admit an underscore between two digits.
-/

namespace LaneKernel.Text

/-- The value of a digit in a base up to sixteen. -/
def digitIn? (base : Nat) (character : Char) : Option Nat := do
  let value ← hexDigit? character
  if value < base then some value else none

/-- At least one digit of a base and nothing else. -/
def naturalIn? (base : Nat) (digits : List Char) : Option Nat :=
  if digits.isEmpty then none
  else digits.foldlM
    (fun value character => (digitIn? base character).map (base * value + ·)) 0

/-- The base that the digits show by how they start, and the digits behind the
base mark: `0x` for sixteen, `0o` for eight, `0b` for two; a leading zero alone
is an octal digit. -/
def splitBase : List Char → Nat × List Char
  | '0' :: mark :: rest =>
      if mark = 'x' ∨ mark = 'X' then (16, rest)
      else if mark = 'o' ∨ mark = 'O' then (8, rest)
      else if mark = 'b' ∨ mark = 'B' then (2, rest)
      else (8, '0' :: mark :: rest)
  | digits => (10, digits)

/-- A number in the base that its digits show. -/
def natural? (digits : List Char) : Option Nat :=
  let (base, digits) := splitBase digits
  naturalIn? base digits

/-- A sign. -/
inductive Sign where
  | plus
  | minus
deriving DecidableEq, Repr

/-- The sign in front of a number, if there is one, and what stands behind
it. -/
def splitSign : List Char → Option Sign × List Char
  | '-' :: rest => (some .minus, rest)
  | '+' :: rest => (some .plus, rest)
  | rest => (none, rest)

/-- The least 64-bit integer. -/
def leastInt : Int := -0x8000000000000000

/-- A magnitude with a sign, if it is a 64-bit integer. -/
def signed? (sign : Option Sign) (magnitude : Nat) : Option Int :=
  let value : Int := if sign = some .minus then -magnitude else magnitude
  if leastInt ≤ value ∧ value < 0x8000000000000000 then some value else none

/-- Whether every underscore stands between two digits; a base mark counts as a
digit.  `mayFollow` tells whether an underscore may come next. -/
def separates (mayFollow : Bool) : List Char → Bool
  | [] => true
  | '_' :: character :: rest =>
      mayFollow && character ≠ '_' && separates true (character :: rest)
  | ['_'] => false
  | _ :: rest => separates true rest

/-- A number with underscores between its digits. -/
def separated? (digits : List Char) : Option Nat :=
  let (base, bare) := splitBase digits
  if separates (bare.length < digits.length) bare then
    naturalIn? base (bare.filter (· ≠ '_'))
  else none

/-- A 64-bit integer as an option value. -/
def int64? (text : List Char) : Option Int64 := do
  let (sign, digits) := splitSign text
  (signed? sign (← separated? digits)).map Int64.ofInt

/-- A 64-bit number without a sign as an option value. -/
def uint64? (text : List Char) : Option UInt64 := do
  let magnitude ← separated? text
  if magnitude < 0x10000000000000000 then some (UInt64.ofNat magnitude)
  else none

end LaneKernel.Text
