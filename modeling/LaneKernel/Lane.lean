/-!
# Arithmetic on sized lanes

A lane of `size` bytes lives in the low bytes of a 64-bit word.  Signed and
saturating operations read only those bytes.  Shift counts that reach the width
of the word shift everything out.
-/

namespace LaneKernel.Lane

/-- Left shift that gives zero once the count reaches the width. -/
def shiftLeft (value : UInt64) (count : Nat) : UInt64 :=
  if count < 64 then value <<< UInt64.ofNat count else 0

/-- Right shift that gives zero once the count reaches the width. -/
def shiftRight (value : UInt64) (count : Nat) : UInt64 :=
  if count < 64 then value >>> UInt64.ofNat count else 0

/-- Keeps the low `size` bytes. -/
def truncate (value : UInt64) (size : Nat) : UInt64 :=
  if size ≥ 8 then value else value &&& (shiftLeft 1 (8 * size) - 1)

/-- The low `size` bytes as a signed number. -/
def signExtend (value : UInt64) (size : Nat) : Int64 :=
  let count := 64 - 8 * size
  if count ≥ 64 then 0
  else (value <<< UInt64.ofNat count).toInt64 >>> Int64.ofNat count

/-- The least and the greatest signed number of `size` bytes. -/
def signedRange (size : Nat) : Int64 × Int64 :=
  if size ≥ 8 then (Int64.minValue, Int64.maxValue)
  else
    let high := (shiftLeft 1 (8 * size - 1)).toInt64 - 1
    (-high - 1, high)

/-- Signed addition that stops at the ends of the range. -/
def addSaturatingSigned (a b : UInt64) (size : Nat) : UInt64 :=
  let x := signExtend a size
  let y := signExtend b size
  let (low, high) := signedRange size
  let sum := x + y
  if size ≥ 8 then
    if x > 0 ∧ y > 0 ∧ sum < 0 then high.toUInt64
    else if x < 0 ∧ y < 0 ∧ sum ≥ 0 then low.toUInt64
    else sum.toUInt64
  else truncate (min (max sum low) high).toUInt64 size

/-- Signed subtraction that stops at the ends of the range. -/
def subSaturatingSigned (a b : UInt64) (size : Nat) : UInt64 :=
  let x := signExtend a size
  let y := signExtend b size
  let (low, high) := signedRange size
  let difference := x - y
  if size ≥ 8 then
    if x ≥ 0 ∧ y < 0 ∧ difference < 0 then high.toUInt64
    else if x < 0 ∧ y > 0 ∧ difference ≥ 0 then low.toUInt64
    else difference.toUInt64
  else truncate (min (max difference low) high).toUInt64 size

/-- Unsigned addition that stops at the greatest number of the size. -/
def addSaturatingUnsigned (a b : UInt64) (size : Nat) : UInt64 :=
  let x := truncate a size
  let y := truncate b size
  let limit := truncate (0 - 1) size
  let sum := x + y
  if sum < x ∨ sum > limit then limit else sum

/-- Unsigned subtraction that stops at zero. -/
def subSaturatingUnsigned (a b : UInt64) (size : Nat) : UInt64 :=
  let x := truncate a size
  let y := truncate b size
  if x < y then 0 else x - y

/-- The lane of all ones for a true condition, of all zeros for a false one. -/
def mask (condition : Bool) (size : Nat) : UInt64 :=
  if condition then truncate (0 - 1) size else 0

/-- Copies the low `size` bytes into `count` neighbouring lanes; there is always
a first lane. -/
def replicate (value : UInt64) (size count : Nat) : UInt64 :=
  let lane := truncate value size
  (List.range (count - 1)).foldl
    (fun lanes index => lanes ||| shiftLeft lane (8 * size * (index + 1))) lane

/-- The sizes for operations on bit patterns: all that are not negative. -/
def patternSize? (size : Int) : Option Nat :=
  if 0 ≤ size then some size.toNat else none

/-- The sizes whose lanes can be extended with their sign: those that fit the
word. -/
def extensionSize? (size : Int) : Option Nat :=
  if 0 ≤ size ∧ size ≤ 8 then some size.toNat else none

/-- The sizes with a range of signed numbers. -/
def signedSize? (size : Int) : Option Nat :=
  if 1 ≤ size ∧ size ≤ 8 then some size.toNat else none

/-- The mnemonic letter of an element size, empty for a size without one. -/
def sizeSuffix (size : Int) : String :=
  if size = 1 then "b"
  else if size = 2 then "w"
  else if size = 4 then "l"
  else if size = 8 then "q"
  else ""

/-- A mnemonic stem with the letter of the element size. -/
def sizedName (stem : String) (size : Int) : String := stem ++ sizeSuffix size

/-- The element sizes that operands can have. -/
def validSize (size : Int) :
    Bool := size == 1 || size == 2 || size == 4 || size == 8

end LaneKernel.Lane
