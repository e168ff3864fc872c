import LaneKernel.Lane
import LaneKernel.Text.Number

/-!
# Flat memory

A contiguous little-endian stretch of bytes that starts at an address.
-/

namespace LaneKernel

structure FlatMemory where
  base : UInt32 := 0
  data : Array UInt8 := #[]
deriving DecidableEq, Repr, Inhabited

/-- An access outside the memory. -/
structure OutsideMemory where
  size : Int
  address : UInt32
deriving DecidableEq, Repr

def OutsideMemory.message (access : OutsideMemory) : String :=
  "ir: access of " ++ toString access.size ++ " bytes at "
    ++ Text.hex access.address.toNat
    ++ " outside memory"

namespace FlatMemory

/-- The position of an access of `size` bytes in the data, if all of it is
inside. -/
def position? (memory : FlatMemory) (address : UInt32) (size : Nat) :
    Option Nat :=
  if address < memory.base ∨
    address.toNat - memory.base.toNat + size > memory.data.size then none
  else some (address.toNat - memory.base.toNat)

/-- The value of `size` bytes from a position on, low byte first; at most eight
bytes count. -/
def valueAt (data : Array UInt8) (position : Nat) : Nat → UInt64
  | 0 => 0
  | size + 1 =>
      (data.getD position 0).toUInt64 |||
        Lane.shiftLeft (valueAt data (position + 1) size) 8

/-- Writes the low `size` bytes of a value from a position on, low byte
first. -/
def writeAt (data : Array UInt8) (position : Nat) (value : UInt64) :
    Nat → Array UInt8
  | 0 => data
  | size + 1 =>
      writeAt (data.setIfInBounds position value.toUInt8) (position + 1)
        (value >>> 8) size

def load (memory : FlatMemory) (address : UInt32) (size : Nat) :
    Except OutsideMemory UInt64 :=
  match memory.position? address size with
  | some position => .ok (valueAt memory.data position size)
  | none => .error ⟨size, address⟩

/-- Stores at a position that is known to be inside. -/
def storeAt : FlatMemory → Nat → UInt64 → Nat → FlatMemory
  | ⟨base, data⟩, position, value, size =>
    ⟨base, writeAt data position value size⟩

def store (memory : FlatMemory) (address : UInt32) (size : Nat)
    (value : UInt64) : FlatMemory × Option OutsideMemory :=
  match memory.position? address size with
  | some position => (memory.storeAt position value size, none)
  | none => (memory, some ⟨size, address⟩)

end FlatMemory

end LaneKernel
