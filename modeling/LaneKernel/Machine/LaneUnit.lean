import LaneKernel.Insn
import LaneKernel.Machine.VectorRegister

/-!
# The lane unit

What the machine computes in one lane, and on whole registers lane by lane.
-/

namespace LaneKernel

namespace LaneUnit

/-- All ones for a true condition, all zeros for a false one. -/
def allOnes (condition : Bool) : UInt64 := if condition then 0 - 1 else 0

/-- Signed addition that stops at the ends of the range. -/
def addSigned (a b : Int64) (size : Nat) : Int64 :=
  let (low, high) := Lane.signedRange size
  let sum := a + b
  if size = 8 then
    if a > 0 ∧ b > 0 ∧ sum < 0 then high
    else if a < 0 ∧ b < 0 ∧ sum ≥ 0 then low
    else sum
  else min (max sum low) high

/-- Signed subtraction that stops at the ends of the range. -/
def subSigned (a b : Int64) (size : Nat) : Int64 :=
  let (low, high) := Lane.signedRange size
  let difference := a - b
  if size = 8 then
    if a ≥ 0 ∧ b < 0 ∧ difference < 0 then high
    else if a < 0 ∧ b > 0 ∧ difference ≥ 0 then low
    else difference
  else min (max difference low) high

/-- Unsigned addition that stops at the greatest number of the size. -/
def addUnsigned (a b : UInt64) (size : Nat) : UInt64 :=
  let limit := Lane.truncate (0 - 1) size
  let sum := a + b
  if sum < a ∨ sum > limit then limit else sum

/-- Signed average, rounded up, formed without overflow. -/
def averageSigned (a b : Int64) :
    Int64 := (a >>> 1) + (b >>> 1) + ((a ||| b) &&& 1)

/-- Unsigned average, rounded up, formed without overflow. -/
def averageUnsigned (a b : UInt64) :
    UInt64 := (a >>> 1) + (b >>> 1) + ((a ||| b) &&& 1)

end LaneUnit

open LaneUnit in
/-- The operation on one lane of `size` bytes; the low bytes of the result
count. -/
def LaneOp.compute (op : LaneOp) (size : Nat) (a b : UInt64) : UInt64 :=
  let sa := Lane.signExtend a size
  let sb := Lane.signExtend b size
  match op with
  | .addv => a + b
  | .subv => a - b
  | .maxS => (max sa sb).toUInt64
  | .maxU => max a b
  | .minS => (min sa sb).toUInt64
  | .minU => min a b
  | .ceq => allOnes (a == b)
  | .cltS => allOnes (sa < sb)
  | .cltU => allOnes (a < b)
  | .addsS => (addSigned sa sb size).toUInt64
  | .addsU => addUnsigned a b size
  | .averS => (averageSigned sa sb).toUInt64
  | .averU => averageUnsigned a b
  | .subsS => (subSigned sa sb size).toUInt64
  | .subsU => if a > b then a - b else 0
  | .mulv => a * b

/-- The operation on every lane. -/
def LaneOp.apply (op : LaneOp) (size : Nat) (ws wt : VectorRegister) :
    VectorRegister :=
  .ofLanes size fun index =>
    Lane.truncate (op.compute size (ws.lane size index) (wt.lane size index))
      size

/-- The operation on every lane, of eight bytes when `double` and of four
otherwise. -/
def FloatOp.apply (op : FloatOp) (double : Bool) (ws wt : VectorRegister) :
    VectorRegister :=
  if double then .ofLanes 8 fun index =>
    op.double (ws.lane 8 index) (wt.lane 8 index)
  else .ofLanes 4 fun index =>
    (op.single (ws.lane 4 index).toUInt32 (wt.lane 4 index).toUInt32).toUInt64

/-- The operation on one byte. -/
def BitOp.compute (op : BitOp) (a b : UInt8) : UInt8 :=
  match op with
  | .and => a &&& b
  | .or => a ||| b
  | .nor => ~~~(a ||| b)
  | .xor => a ^^^ b

/-- Moves the lanes inside each group of four: the two bits of the pattern at a
lane's place in its group say from where. -/
def VectorRegister.shuffle (register : VectorRegister) (size : Nat)
    (pattern : UInt8) :
    VectorRegister :=
  .ofLanes size fun index =>
    let choice := (pattern.toNat >>> (2 * (index % 4))) % 4
    register.lane size (index / 4 * 4 + choice)

end LaneKernel
