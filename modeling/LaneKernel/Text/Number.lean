/-!
# Numbers as text

Hexadecimal and padded renderings used by listings, error texts and images.  All
digits are lower case; a sign stands in front of the base mark.
-/

namespace LaneKernel.Text

/-- The text made of `count` copies of `fill`. -/
def replicate (count : Nat) (fill : Char) : String :=
  String.ofList (List.replicate count fill)

/-- The text extended on the left with `fill` to at least `width` characters. -/
def padLeft (width : Nat) (fill : Char) (text : String) : String :=
  replicate (width - text.length) fill ++ text

/-- The text extended on the right with `fill` to at least `width`
characters. -/
def padRight (width : Nat) (fill : Char) (text : String) : String :=
  text ++ replicate (width - text.length) fill

/-- The hexadecimal digits of a number, without leading zeros. -/
def hexDigits (number : Nat) : String :=
  String.ofList (Nat.toDigits 16 number)

/-- The hexadecimal digits of a number, at least `width` of them. -/
def hexPadded (width number : Nat) : String :=
  padLeft width '0' (hexDigits number)

/-- A number with its base mark: `0x1f`. -/
def hex (number : Nat) : String :=
  "0x" ++ hexDigits number

/-- A signed number with its base mark: `-0x1f`. -/
def hexSigned (number : Int) : String :=
  if number < 0 then "-" ++ hex number.natAbs else hex number.natAbs

/-- A byte string as two digits a byte, in memory order. -/
def hexBytes (bytes : Array UInt8) : String :=
  bytes.foldl (fun text byte => text ++ hexPadded 2 byte.toNat) ""

/-- The value of one hexadecimal digit of either case. -/
def hexDigit? (digit : Char) : Option Nat :=
  if '0' ≤ digit ∧ digit ≤ '9' then some (digit.toNat - '0'.toNat)
  else if 'a' ≤ digit ∧ digit ≤ 'f' then some (digit.toNat - 'a'.toNat + 10)
  else if 'A' ≤ digit ∧ digit ≤ 'F' then some (digit.toNat - 'A'.toNat + 10)
  else none

/-- The bytes written as pairs of digits; the first pair that is none ends the
string. -/
def bytesOfHex (digits : List Char) : Array UInt8 :=
  go digits #[]
where
  go : List Char → Array UInt8 → Array UInt8
    | high :: low :: rest, bytes =>
        match hexDigit? high, hexDigit? low with
        | some h, some l => go rest (bytes.push (UInt8.ofNat (16 * h + l)))
        | _, _ => bytes
    | _, bytes => bytes

/-- The number that a string of hexadecimal digits writes, `0` for any other
text. -/
def natOfHex (digits : List Char) : Nat :=
  digits.foldl (fun value digit => 16 * value + (hexDigit? digit).getD 0) 0

/-- A decimal integer: an optional sign and at least one digit, nothing else. -/
def decimal? (text : List Char) : Option Int :=
  match text with
  | '-' :: digits => (natural? digits).map fun value => -(value : Int)
  | '+' :: digits => (natural? digits).map fun value => (value : Int)
  | digits => (natural? digits).map fun value => (value : Int)
where
  /-- At least one decimal digit and nothing else. -/
  natural? (digits : List Char) : Option Nat :=
    if digits.isEmpty ∨ digits.any fun digit => ¬ digit.isDigit then none
    else some (digits.foldl
      (fun value digit => 10 * value + (digit.toNat - '0'.toNat)) 0)

end LaneKernel.Text
