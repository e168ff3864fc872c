import LaneKernel.AsmError

/-!
# Scalar instruction words

The immediate and the register format of the 32-bit words, the range checks of
their fields, and the functions that read the fields back.  `IType.encode` and
`RType.encode` refuse every field that does not fit, so that no field spills
into its neighbour.
-/

namespace LaneKernel

namespace Reg

/-- The five-bit number of a general purpose register. -/
def generalField : Reg → Except AsmError UInt32
  | gp index => .ok (UInt32.ofNat index.val)
  | other => .error (.badRegister other .general)

/-- The five-bit number of a vector register. -/
def vectorField : Reg → Except AsmError UInt32
  | vec index => .ok (UInt32.ofNat index.val)
  | other => .error (.badRegister other .vector)

/-- The five-bit number of a register of the given bank. -/
def field (bank : Bank) (register : Reg) : Except AsmError UInt32 :=
  match bank with
  | .general => register.generalField
  | .vector => register.vectorField

end Reg

namespace Word

def opcode (word : UInt32) : UInt32 := word >>> 26
def rs (word : UInt32) : UInt32 := (word >>> 21) &&& 0x1f
def rt (word : UInt32) : UInt32 := (word >>> 16) &&& 0x1f
def rd (word : UInt32) : UInt32 := (word >>> 11) &&& 0x1f
def shiftAmount (word : UInt32) : UInt32 := (word >>> 6) &&& 0x1f
def function (word : UInt32) : UInt32 := word &&& 0x3f

/-- The low half of the word, zero extended. -/
def unsignedImmediate (word : UInt32) : UInt32 := word &&& 0xffff

/-- The low half of the word, sign extended. -/
def signedImmediate (word : UInt32) :
    UInt32 := word.toUInt16.toInt16.toInt32.toUInt32

/-- The word `value` as four bytes, low byte first. -/
def bytes (value : UInt32) : Array UInt8 :=
  #[value.toUInt8, (value >>> 8).toUInt8, (value >>> 16).toUInt8,
    (value >>> 24).toUInt8]

/-- The word whose bytes, low byte first, stand at `position`; missing bytes
count as zero. -/
def ofBytes (bytes : Array UInt8) (position : Nat) : UInt32 :=
  (bytes.getD position 0).toUInt32
    ||| (bytes.getD (position + 1) 0).toUInt32 <<< 8
    ||| (bytes.getD (position + 2) 0).toUInt32 <<< 16
    ||| (bytes.getD (position + 3) 0).toUInt32 <<< 24

/-- The array `bytes` with the word at `position` replaced, low byte first. -/
def write (bytes : Array UInt8) (position : Nat) (value : UInt32) :
    Array UInt8 :=
  (((bytes.setIfInBounds position value.toUInt8).setIfInBounds
    (position + 1) (value >>> 8).toUInt8).setIfInBounds
    (position + 2) (value >>> 16).toUInt8).setIfInBounds
    (position + 3) (value >>> 24).toUInt8

/-- A signed 16-bit immediate as the low half of a word. -/
def signed16 (value : Int) : Except AsmError UInt32 :=
  if value < -0x8000 ∨ value > 0x7fff then
    .error (.outOfRange (.signed16 value))
  else .ok (UInt32.ofNat (value % 0x10000).toNat)

/-- An unsigned 16-bit immediate as the low half of a word. -/
def unsigned16 (value : Int) : Except AsmError UInt32 :=
  if value < 0 ∨ value > 0xffff then .error (.outOfRange (.unsigned16 value))
  else .ok (UInt32.ofNat value.toNat)

/-- The word distance from the delay slot of a branch at `position` to `target`,
as the low half of a word. -/
def branchOffset (position target : Nat) : Except AsmError UInt32 :=
  let distance : Int := (target : Int) - (position + 4)
  if distance % 4 ≠ 0 then .error (.outOfRange (.branchAlignment distance))
  else
    let words := distance / 4
    if words < -0x8000 ∨ words > 0x7fff then
      .error (.outOfRange (.branchWords words))
    else .ok (UInt32.ofNat (words % 0x10000).toNat)

/-- Checks that an operation code fits a field of the given number of bits. -/
def checkField (name : String) (value : UInt32) (bits : Nat) :
    Except AsmError Unit :=
  if value.toNat ≥ 1 <<< bits then
    .error (.outOfRange (.field name value bits))
  else .ok ()

/-- The immediate format: a major opcode, two registers and sixteen bits. -/
structure IType where
  op : UInt32 := 0
  rs : Reg
  rt : Reg
  imm : UInt32 := 0
deriving DecidableEq, Repr

/-- The register format of the general arithmetic group. -/
structure RType where
  rs : Reg
  rt : Reg
  rd : Reg
  shamt : UInt32 := 0
  funct : UInt32 := 0
deriving DecidableEq, Repr

def IType.encode (fields : IType) : Except AsmError UInt32 := do
  if fields.op > 0x3f then throw (.outOfRange (.opcode fields.op))
  let rs ← fields.rs.generalField
  let rt ← fields.rt.generalField
  return fields.op <<< 26 ||| rs <<< 21 ||| rt <<< 16 |||
    (fields.imm &&& 0xffff)

def RType.encode (fields : RType) : Except AsmError UInt32 := do
  if fields.shamt > 31 then throw (.outOfRange (.shiftAmount fields.shamt))
  if fields.funct > 0x3f then throw (.outOfRange (.function fields.funct))
  let rs ← fields.rs.generalField
  let rt ← fields.rt.generalField
  let rd ← fields.rd.generalField
  return rs <<< 21 ||| rt <<< 16 ||| rd <<< 11 ||| fields.shamt <<< 6 |||
    fields.funct

end Word

end LaneKernel
