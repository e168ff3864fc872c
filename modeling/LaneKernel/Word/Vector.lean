import LaneKernel.Word.Scalar

/-!
# Vector instruction words

The eight formats of the vector extension share the major opcode `0x1e`; their
minor opcode stands in the low six bits (four for loads and stores).  As for the
scalar words, encoders refuse fields that do not fit.
-/

namespace LaneKernel.Word

/-- The major opcode `0x1e` of every vector instruction, in its place. -/
def vectorOpcode : UInt32 := 0x78000000

def minorByteImmediate : UInt32 := 0x00
def minorShuffle : UInt32 := 0x02
def minorBroadcastImmediate : UInt32 := 0x07
def minorAddGroup : UInt32 := 0x0e
def minorCompareGroup : UInt32 := 0x0f
def minorSaturateAddGroup : UInt32 := 0x10
def minorSaturateSubGroup : UInt32 := 0x11
def minorMultiplyGroup : UInt32 := 0x12
def minorElement : UInt32 := 0x19
def minorFloat : UInt32 := 0x1b
def minorWhole : UInt32 := 0x1e
def minorLoad : UInt32 := 0x08
def minorStore : UInt32 := 0x09

def minor (word : UInt32) : UInt32 := word &&& 0x3f
def format (word : UInt32) : Nat := ((word >>> 21) &&& 3).toNat
/-- The bytes of an element of a format. -/
def elementSize (format : Nat) : Nat := 1 <<< format

def wt (word : UInt32) : UInt32 := (word >>> 16) &&& 0x1f
def ws (word : UInt32) : UInt32 := (word >>> 11) &&& 0x1f
def wd (word : UInt32) : UInt32 := (word >>> 6) &&& 0x1f

/-- The low ten bits, read as a signed number. -/
def signed10 (bits : UInt32) : Int :=
  let value := (bits &&& 0x3ff).toNat
  if value < 512 then (value : Int) else (value : Int) - 1024

/-- Splits the combined format and lane field of the element format into the
element size in bytes and the lane. -/
def splitElementIndex (index : UInt32) : Option (Nat × Nat) :=
  if index &&& 0x30 = 0x00 then some (1, (index &&& 0xf).toNat)
  else if index &&& 0x38 = 0x20 then some (2, (index &&& 0x7).toNat)
  else if index &&& 0x3c = 0x30 then some (4, (index &&& 0x3).toNat)
  else if index &&& 0x3e = 0x38 then some (8, (index &&& 0x1).toNat)
  else none

/-- Ten bit immediate. -/
structure I10 where
  op : UInt32 := 0
  df : DataFormat := .byte
  s10 : Int := 0
  wd : Reg
  minor : UInt32 := 0
deriving DecidableEq, Repr

/-- Vector load and store; the offset counts elements. -/
structure MI10 where
  s10 : Int := 0
  rs : Reg
  wd : Reg
  minor : UInt32 := 0
  df : DataFormat := .byte
deriving DecidableEq, Repr

/-- Two registers, the source in either bank. -/
structure TwoR where
  op : UInt32 := 0
  df : DataFormat := .byte
  src : Reg
  srcBank : Bank := .vector
  wd : Reg
deriving DecidableEq, Repr

/-- Three vector registers with an integer operation. -/
structure ThreeR where
  op : UInt32 := 0
  df : DataFormat := .byte
  wt : Reg
  ws : Reg
  wd : Reg
  minor : UInt32 := 0
deriving DecidableEq, Repr

/-- One element; either side may be a general purpose register. -/
structure ELM where
  op : UInt32 := 0
  df : DataFormat := .byte
  lane : Int := 0
  src : Reg
  srcBank : Bank := .vector
  dst : Reg
  dstBank : Bank := .vector
deriving DecidableEq, Repr

/-- Eight bit immediate. -/
structure I8 where
  op : UInt32 := 0
  imm : UInt8 := 0
  ws : Reg
  wd : Reg
  minor : UInt32 := 0
deriving DecidableEq, Repr

/-- Three vector registers with a floating point operation. -/
structure ThreeRF where
  op : UInt32 := 0
  double : Bool := false
  wt : Reg
  ws : Reg
  wd : Reg
  minor : UInt32 := 0
deriving DecidableEq, Repr

/-- Three vector registers with a bitwise operation on the whole register. -/
structure VEC where
  op : UInt32 := 0
  wt : Reg
  ws : Reg
  wd : Reg
deriving DecidableEq, Repr

/-- A signed ten bit field. -/
def signed10Field (value : Int) : Except AsmError UInt32 :=
  if value < -512 ∨ value > 511 then .error (.outOfRange (.signed10 value))
  else .ok (UInt32.ofNat (value % 1024).toNat)

def I10.encode (fields : I10) : Except AsmError UInt32 := do
  checkField "operation" fields.op 3
  checkField "minor opcode" fields.minor 6
  let imm ← signed10Field fields.s10
  let wd ← fields.wd.vectorField
  return vectorOpcode ||| fields.op <<< 23 ||| fields.df.bits <<< 21
    ||| imm <<< 11
    ||| wd <<< 6 ||| fields.minor

def MI10.encode (fields : MI10) : Except AsmError UInt32 := do
  checkField "minor opcode" fields.minor 4
  let imm ← signed10Field fields.s10
  let rs ← fields.rs.generalField
  let wd ← fields.wd.vectorField
  return vectorOpcode ||| imm <<< 16 ||| rs <<< 11 ||| wd <<< 6
    ||| fields.minor <<< 2
    ||| fields.df.bits

def TwoR.encode (fields : TwoR) : Except AsmError UInt32 := do
  checkField "operation" fields.op 8
  let src ← fields.src.field fields.srcBank
  let wd ← fields.wd.vectorField
  return vectorOpcode ||| fields.op <<< 18 ||| fields.df.bits <<< 16
    ||| src <<< 11
    ||| wd <<< 6 ||| minorWhole

def ThreeR.encode (fields : ThreeR) : Except AsmError UInt32 := do
  checkField "operation" fields.op 3
  checkField "minor opcode" fields.minor 6
  let wt ← fields.wt.vectorField
  let ws ← fields.ws.vectorField
  let wd ← fields.wd.vectorField
  return vectorOpcode ||| fields.op <<< 23 ||| fields.df.bits <<< 21
    ||| wt <<< 16
    ||| ws <<< 11 ||| wd <<< 6 ||| fields.minor

/-- The combined format and lane field of the element format. -/
def elementIndex (df : DataFormat) (lane : Int) : Except AsmError UInt32 :=
  if df.size = 0 then .error .zeroElementSize
  else if lane < 0 ∨ lane ≥ Int.tdiv 16 df.size then
    .error (.outOfRange (.lane lane df))
  else
    let n := UInt32.ofNat lane.toNat
    .ok (match df.tag.toNat with
      | 0 => n
      | 1 => 0x20 ||| n
      | 2 => 0x30 ||| n
      | _ => 0x38 ||| n)

def ELM.encode (fields : ELM) : Except AsmError UInt32 := do
  checkField "operation" fields.op 4
  let index ← elementIndex fields.df fields.lane
  let src ← fields.src.field fields.srcBank
  let dst ← fields.dst.field fields.dstBank
  return vectorOpcode ||| fields.op <<< 22 ||| index <<< 16 ||| src <<< 11
    ||| dst <<< 6
    ||| minorElement

/-- The copy of a whole register, which is the element format with a reserved
index. -/
def encodeMove (wd ws : Reg) : Except AsmError UInt32 := do
  let src ← ws.vectorField
  let dst ← wd.vectorField
  return vectorOpcode ||| (0x00be0000 : UInt32) ||| src <<< 11 ||| dst <<< 6 |||
    minorElement

def I8.encode (fields : I8) : Except AsmError UInt32 := do
  checkField "operation" fields.op 2
  checkField "minor opcode" fields.minor 6
  let ws ← fields.ws.vectorField
  let wd ← fields.wd.vectorField
  return vectorOpcode ||| fields.op <<< 24 ||| fields.imm.toUInt32 <<< 16
    ||| ws <<< 11
    ||| wd <<< 6 ||| fields.minor

def ThreeRF.encode (fields : ThreeRF) : Except AsmError UInt32 := do
  checkField "operation" fields.op 4
  checkField "minor opcode" fields.minor 6
  let wt ← fields.wt.vectorField
  let ws ← fields.ws.vectorField
  let wd ← fields.wd.vectorField
  let df : UInt32 := if fields.double then 1 else 0
  return vectorOpcode ||| fields.op <<< 22 ||| df <<< 21 ||| wt <<< 16
    ||| ws <<< 11
    ||| wd <<< 6 ||| fields.minor

def VEC.encode (fields : VEC) : Except AsmError UInt32 := do
  checkField "operation" fields.op 5
  let wt ← fields.wt.vectorField
  let ws ← fields.ws.vectorField
  let wd ← fields.wd.vectorField
  return vectorOpcode ||| fields.op <<< 21 ||| wt <<< 16 ||| ws <<< 11 |||
    wd <<< 6 ||| minorWhole

end LaneKernel.Word
