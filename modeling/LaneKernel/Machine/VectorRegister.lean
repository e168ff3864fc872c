import LaneKernel.Lane

/-!
# Vector registers

A vector register is sixteen bytes in memory order.  For an element size it is
seen as that many little-endian lanes.
-/

namespace LaneKernel

abbrev VectorRegister := Vector UInt8 16

namespace VectorRegister

def zero : VectorRegister := Vector.replicate 16 0

/-- The value of `count` bytes from a position on, low byte first. -/
def value (register : VectorRegister) (position : Nat) : Nat → UInt64
  | 0 => 0
  | count + 1 =>
      (register.toArray.getD position 0).toUInt64
        ||| Lane.shiftLeft (register.value (position + 1) count) 8

/-- Lane number `index` for lanes of `size` bytes. -/
def lane (register : VectorRegister) (size index : Nat) : UInt64 :=
  register.value (index * size) size

/-- The register whose lanes of `size` bytes are the low bytes of the given
values. -/
def ofLanes (size : Nat) (values : Nat → UInt64) : VectorRegister :=
  Vector.ofFn fun place =>
    (Lane.shiftRight (values (place.val / size))
      (8 * (place.val % size))).toUInt8

/-- The register with one lane replaced. -/
def setLane (register : VectorRegister) (size index : Nat) (word : UInt64) :
    VectorRegister :=
  Vector.ofFn fun place =>
    if place.val / size = index then
      (Lane.shiftRight word (8 * (place.val % size))).toUInt8
    else register.get place

/-- The bytes, each changed on its own. -/
def mapBytes (register : VectorRegister) (change : UInt8 → UInt8) :
    VectorRegister :=
  register.map change

/-- The bytes of two registers, put together place by place. -/
def zipBytes (left right : VectorRegister) (combine : UInt8 → UInt8 → UInt8) :
    VectorRegister :=
  left.zipWith combine right

/-- Sixteen bytes from a position on; missing bytes are zero. -/
def ofBytes (bytes : Array UInt8) (position : Nat) : VectorRegister :=
  Vector.ofFn fun place => bytes.getD (position + place.val) 0

end VectorRegister

end LaneKernel
