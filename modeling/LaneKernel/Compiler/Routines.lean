import LaneKernel.Compiler.Rule
import LaneKernel.Compiler.Staging
import LaneKernel.Executor
import LaneKernel.Opcode

/-!
# Emission routines

The routines of the standard rules.  Routines that need no label are functions
to a fragment; `Routine.ofPure` turns them into routines of any state.
-/

namespace LaneKernel

/-- A routine that needs neither labels nor a state. -/
abbrev PureRoutine := EmitSite → RuleParam → Instruction →
    Except CompileError Fragment

/-- A pure routine as a routine of any state. -/
def Routine.ofPure {σ : Type} (routine : PureRoutine) : Routine σ :=
  fun site param instruction label =>
    ExceptT.mk (pure ((routine site param instruction).map fun code =>
      (code, label)))

namespace Routines

open Asm Contract

/-- The range of a constant load offset, in elements: the signed ten bit field
of vector loads. -/
def minOffset : Int := -512
def maxOffset : Int := 511

/-- The format of the rule's width. -/
def dataFormat (param : RuleParam) : Except CompileError DataFormat :=
  match DataFormat.ofSize? param.width with
  | some format => .ok format
  | none =>
      .error (.ofProgram (.assembly (.outOfRange (.elementSize param.width))))

/-- The byte offset of a load that reads a constant number of elements away. -/
def loadOffset (site : EmitSite) (param : RuleParam)
    (instruction : Instruction) : Except CompileError Int :=
  if !param.loadsAtOffset then .ok 0
  else
    match instruction.source? 1 with
    | none => .error .missingOperand
    | some index =>
        let distance := site.var index
        if distance.role ≠ .const then
          .error (.parameterOffset instruction.opcode)
        else
          let elements := (Lane.signExtend distance.value.toUInt64 4).toInt
          if elements < minOffset ∨ elements > maxOffset then
            .error (.loadOffset instruction.opcode elements)
          else .ok (elements * (site.var instruction.firstSource).size)

/-- Whether a byte offset fits the field of a vector load of the given width. -/
def fitsVectorOffset (offset width : Int) : Bool :=
  let elements := Int.tdiv offset width
  minOffset ≤ elements && elements ≤ maxOffset

/-- Whether the tail bytes of an array may be moved as aligned words. -/
def wordAligned (site : EmitSite) (index : VarIndex) (offset : Int) : Bool :=
  (site.var index).aligned && offset % 4 == 0

/-- Loads a vector, or the tail bytes, from an array. -/
def load {σ : Type} : Routine σ := fun site param instruction => do
  let (df, wd, pointer, offset) ← (do
    let df ← dataFormat param
    let wd ← site.vectorReg instruction.target
    let pointer ← site.pointerReg instruction.firstSource
    let offset ← loadOffset site param instruction
    return (df, wd, pointer, offset) : Except CompileError _)
  if site.inTail then
    let first ← EmitM.takeLabels Staging.labelCount
    return Staging.load wd pointer offset
      (wordAligned site instruction.firstSource offset) first
  let total := site.offset + offset
  if fitsVectorOffset total param.width then
    return insn (.ld df wd pointer total)
  return addiu scratch pointer total ++ insn (.ld df wd scratch 0)

/-- Stores a vector, or the tail bytes, to an array. -/
def store {σ : Type} : Routine σ := fun site param instruction => do
  let (df, pointer, ws) ← (do
    let df ← dataFormat param
    let pointer ← site.pointerReg instruction.target
    let ws ← site.vectorReg instruction.firstSource
    return (df, pointer, ws) : Except CompileError _)
  if site.inTail then
    let first ← EmitM.takeLabels Staging.labelCount
    return Staging.store ws pointer
      (wordAligned site instruction.target 0) first
  return insn (.st df ws pointer site.offset)

/-- Writes a register into the upper word of both double word lanes. -/
def insertHigh (wd rs : Reg) : Fragment :=
  insn (.insert .word wd 1 rs) ++ insn (.insert .word wd 3 rs)

/-- Broadcasts a constant. -/
def broadcastConst (df : DataFormat) (wd : Reg) (width : Nat) (value : UInt64) :
    Fragment :=
  let value := Lane.truncate value width
  let signed := (Lane.signExtend value width).toInt
  if -512 ≤ signed ∧ signed ≤ 511 then insn (.ldi df wd signed)
  else if width < 8 then
    loadImm scratch value.toUInt32 ++ insn (.fill df wd scratch)
  else
    loadImm scratch value.toUInt32 ++ insn (.fill .word wd scratch)
      ++ loadImm scratch (value >>> 32).toUInt32 ++ insertHigh wd scratch

/-- Broadcasts a parameter; one that is not declared with eight bytes has no
high word. -/
def broadcastParam (df : DataFormat) (wd : Reg) (width : Nat) (index : VarIndex)
    (size : Int) :
    Fragment :=
  let low := lw scratch executor (Executor.paramSlotOffset index)
  if width < 8 then low ++ insn (.fill df wd scratch)
  else if size = 8 then
    low ++ insn (.fill .word wd scratch)
      ++ lw scratch executor
        (Executor.paramSlotOffset (index + Executor.highWordDistance))
      ++ insertHigh wd scratch
  else low ++ insn (.fill .word wd scratch) ++ insertHigh wd .zero

/-- Broadcasts a constant or parameter into every lane. -/
def loadParam : PureRoutine := fun site param instruction => do
  let df ← dataFormat param
  let wd ← site.vectorReg instruction.target
  let index := instruction.firstSource
  let declaration := site.var index
  let width := param.width.toNat
  match declaration.role with
  | .const => return broadcastConst df wd width declaration.value.toUInt64
  | .param => return broadcastParam df wd width index declaration.size
  | _ => throw (.broadcast instruction.opcode index)

/-- The registers of a two operand instruction, the sources swapped if the rule
says so. -/
def binaryRegs (site : EmitSite) (param : RuleParam)
    (instruction : Instruction) : Except CompileError (Reg × Reg × Reg) :=
  match instruction.src with
  | [first, second] => do
      let wd ← site.vectorReg instruction.target
      let ws ← site.vectorReg first
      let wt ← site.vectorReg second
      return if param.swapsOperands then (wd, wt, ws) else (wd, ws, wt)
  | _ => .error (.wantsTwoSources instruction.opcode)

/-- A lane operation chosen by the semantics of the rule. -/
def lanes (choose : Semantics → Option LaneOp) : PureRoutine :=
  fun site param instruction =>
  match choose param.kind with
  | none => .error (.semantics instruction.opcode param.kind)
  | some op => do
      let df ← dataFormat param
      let (wd, ws, wt) ← binaryRegs site param instruction
      return insn (.lanes op df wd ws wt)

/-- A floating point operation. -/
def float (op : FloatOp) : PureRoutine := fun site param instruction =>
  if param.width ≠ 4 ∧ param.width ≠ 8 then
    .error (.floatWidth instruction.opcode param.width)
  else do
    let (wd, ws, wt) ← binaryRegs site param instruction
    return insn (.float op (param.width == 8) wd ws wt)

/-- A lane operation, or its floating point counterpart for floating
semantics. -/
def lanesOrFloat (op : FloatOp) (choose : Semantics → Option LaneOp) :
    PureRoutine :=
  fun site param instruction =>
    if param.kind = .floating then float op site param instruction
    else lanes choose site param instruction

def add : PureRoutine := lanesOrFloat .add fun
  | .wrapping => some .addv
  | .signed => some .addsS
  | .unsigned => some .addsU
  | _ => none

def sub : PureRoutine := lanesOrFloat .sub fun
  | .wrapping => some .subv
  | .signed => some .subsS
  | .unsigned => some .subsU
  | _ => none

def mul : PureRoutine := lanes fun
  | .wrapping => some .mulv
  | _ => none

def max : PureRoutine := lanes fun
  | .signed => some .maxS
  | .unsigned => some .maxU
  | _ => none

def min : PureRoutine := lanes fun
  | .signed => some .minS
  | .unsigned => some .minU
  | _ => none

def average : PureRoutine := lanes fun
  | .signed => some .averS
  | .unsigned => some .averU
  | _ => none

def compareEqual : PureRoutine := lanes fun
  | .bitwise | .wrapping => some .ceq
  | _ => none

/-- Less-than; greater-than rules swap the operands. -/
def compareLess : PureRoutine := lanes fun
  | .signed => some .cltS
  | .unsigned => some .cltU
  | _ => none

/-- A bitwise operation on the whole register. -/
def bits (op : BitOp) : PureRoutine := fun site param instruction => do
  let (wd, ws, wt) ← binaryRegs site param instruction
  if param.invertsSecond then
    return insn (.byteImm .xor vectorScratch wt 0xff) ++
      insn (.bits op wd ws vectorScratch)
  return insn (.bits op wd ws wt)

/-- A copy between registers; nothing is needed within one register. -/
def copy : PureRoutine := fun site _ instruction => do
  let wd ← site.vectorReg instruction.target
  let ws ← site.vectorReg instruction.firstSource
  return if wd = ws then [] else insn (.moveV wd ws)

end Routines

end LaneKernel
