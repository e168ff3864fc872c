import LaneKernel.FlatMemory

/-!
# Machine memory

One stretch of bytes at a base address.  Accesses give the number of bytes as a
signed number; the bounds are checked on the sum modulo `2 ^ 64`, so a negative
size passes when it leads back inside and is then refused as a size.
-/

namespace LaneKernel

structure Ram where
  base : UInt32
  bytes : Array UInt8
deriving DecidableEq, Repr

/-- Why an access was refused. -/
inductive RamError where
  | outOfBounds (write : Bool) (offset : UInt32) (size : Int) (length : Nat)
  | invalidSize (write : Bool) (size : Int)
  | noMemory (address : UInt32)
deriving DecidableEq, Repr

def RamError.message : RamError → String
  | outOfBounds write offset size length =>
      "memory " ++ (if write then "write" else "read")
        ++ " out of bounds: offset="
        ++ Text.hex offset.toNat ++ " size=" ++ toString size ++ " len="
        ++ toString length
  | invalidSize write size =>
      "invalid " ++ (if write then "write" else "read") ++ " size: " ++
        toString size
  | noMemory address => "no memory at address " ++ Text.hex address.toNat

namespace Ram

/-- Zeroed memory. -/
def zeroed (base size : UInt32) : Ram := ⟨base, Array.replicate size.toNat 0⟩

def size (ram : Ram) : Nat := ram.bytes.size

/-- Whether `size` bytes from an offset on end inside the memory, counted modulo
`2 ^ 64`. -/
def within (ram : Ram) (offset : UInt32) (size : Int) : Bool :=
  (offset.toNat + size) % 0x10000000000000000 ≤ ram.size

/-- The widths of scalar accesses. -/
def accessSize (size : Int) : Bool := Lane.validSize size

/-- Why an access at an offset is refused. -/
def offsetError? (ram : Ram) (write : Bool) (offset : UInt32) (size : Int) :
    Option RamError :=
  if !ram.within offset size then some (.outOfBounds write offset size ram.size)
  else if !accessSize size then some (.invalidSize write size)
  else none

/-- The offset of an access at an address. -/
def offset (ram : Ram) (address : UInt32) (size : Int) :
    Except RamError UInt32 :=
  if address < ram.base ∨ ¬ ram.within (address - ram.base) size then
    .error (.noMemory address)
  else .ok (address - ram.base)

/-- Reads at an offset. -/
def readOffset (ram : Ram) (offset : UInt32) (size : Int) :
    Except RamError UInt64 :=
  match ram.offsetError? false offset size with
  | some cause => .error cause
  | none => .ok (FlatMemory.valueAt ram.bytes offset.toNat size.toNat)

/-- Writes the low bytes of a value from a position on. -/
def writeAt : Ram → Nat → UInt64 → Nat → Ram
  | ⟨base, bytes⟩, position, value, size =>
    ⟨base, FlatMemory.writeAt bytes position value size⟩

/-- Writes at an offset. -/
def writeOffset (ram : Ram) (offset : UInt32) (size : Int) (value : UInt64) :
    Ram × Option RamError :=
  match ram.offsetError? true offset size with
  | some cause => (ram, some cause)
  | none => (ram.writeAt offset.toNat value size.toNat, none)

/-- Reads a little-endian value at an address. -/
def read (ram : Ram) (address : UInt32) (size : Int) : Except RamError UInt64 :=
  match ram.offset address size with
  | .error cause => .error cause
  | .ok offset => ram.readOffset offset size

/-- Writes a little-endian value at an address. -/
def write (ram : Ram) (address : UInt32) (size : Int) (value : UInt64) :
    Ram × Option RamError :=
  match ram.offset address size with
  | .error cause => (ram, some cause)
  | .ok offset => ram.writeOffset offset size value

/-- The bytes of a stretch of addresses. -/
def slice (ram : Ram) (address length : UInt32) :
    Except RamError (Array UInt8) :=
  match ram.offset address length.toNat with
  | .error cause => .error cause
  | .ok offset =>
      .ok (ram.bytes.extract offset.toNat (offset.toNat + length.toNat))

/-- Overwrites bytes from a position on. -/
def copyAt (bytes : Array UInt8) (position : Nat) : List UInt8 → Array UInt8
  | [] => bytes
  | byte :: rest =>
      copyAt (bytes.setIfInBounds position byte) (position + 1) rest

/-- Overwrites bytes from a position on, keeping the base. -/
def loadAt : Ram → Nat → Array UInt8 → Ram
  | ⟨base, bytes⟩, position, data => ⟨base, copyAt bytes position data.toList⟩

/-- Copies bytes to an address. -/
def loadBytes (ram : Ram) (address : UInt32) (data : Array UInt8) :
    Ram × Option RamError :=
  match ram.offset address data.size with
  | .error cause => (ram, some cause)
  | .ok offset => (ram.loadAt offset.toNat data, none)

end Ram

end LaneKernel
