import LaneKernel.Instruction
import LaneKernel.Program.Error

/-!
# Kernel programs

A program is a table of declarations and a list of instructions.  The building
operations refuse what the declarations do not allow and leave the program as it
was; `Program.validate` checks besides that every temporary is written before it
is read.
-/

namespace LaneKernel

structure Program where
  name : String := ""
  vars : Vector Variable 64 := Vector.replicate 64 {}
  code : Array Instruction := #[]
  /-- The kernel is repeated for every row of its arrays. -/
  twoD : Bool := false
deriving DecidableEq, Repr

namespace Program

/-- A program without declarations and instructions. -/
def named (name : String) : Program := { name := name }

instance : Inhabited Program := ⟨named ""⟩

/-- The declaration of a slot; a slot outside the table is undeclared. -/
def var (program : Program) (index : VarIndex) : Variable :=
  if h : 0 ≤ index ∧ index < 64 then
    program.vars.get ⟨index.toNat, (Int.toNat_lt h.1).2 h.2⟩
  else {}

/-- Overwrites the declaration of a slot; a slot outside the table is
ignored. -/
def setVar (program : Program) (index : VarIndex) (declaration : Variable) :
    Program :=
  if h : 0 ≤ index ∧ index < 64 then
    { program with
      vars := program.vars.set index.toNat declaration
        ((Int.toNat_lt h.1).2 h.2) }
  else program

/-- Declares an array, accumulator, parameter or temporary; the role follows
from the index. -/
def declare (program : Program) (index : VarIndex) (size : Int) :
    Except ProgramError Program :=
  if index < 0 ∨ index ≥ Var.count then .error (.variableIndex index)
  else if Var.roleOf index = .none then .error (.noRole index)
  else if Var.roleOf index = .const then .error (.needsValue index)
  else if !Lane.validSize size then .error (.badSize index size)
  else if (program.var index).declared then .error (.declaredTwice index)
  else
    .ok (program.setVar index
      { name := Var.nameOf index, role := Var.roleOf index, size := size })

/-- Declares a constant. -/
def declareConst (program : Program) (index : VarIndex) (size : Int)
    (value : Int64) : Except ProgramError Program :=
  if Var.roleOf index ≠ .const then .error (.notConst index)
  else if !Lane.validSize size then .error (.badSize index size)
  else if (program.var index).declared then .error (.declaredTwice index)
  else
    .ok (program.setVar index
      { name := Var.nameOf index, role := .const, size := size,
        value := value })

/-- Promises that a declared array is aligned. -/
def setAligned (program : Program) (index : VarIndex) :
    Except ProgramError Program :=
  if (program.var index).role.isArray then
    .ok (program.setVar index { program.var index with aligned := true })
  else .error (.notAlignable index)

/-- Checks that an operand is declared and no accumulator. -/
def checkOperand (program : Program) (opcode : String) (index : VarIndex) :
    Except ProgramError Unit :=
  if !(program.var index).declared then .error (.undeclared opcode index)
  else if (program.var index).role = .accumulator then
    .error (.accumulator opcode index)
  else .ok ()

/-- Checks one source; `place` counts the sources from zero. -/
def checkSource (program : Program) (name : String) (opcode : Opcode)
    (width : Nat) (place : Nat) (index : VarIndex) : Except ProgramError Unit :=
  let source := program.var index
  if source.role = .dest then .error (.readsDest name source.name)
  else if opcode.kind = .loadOffset ∧ place = 1 then
    if source.role.isScalar then .ok ()
    else .error (.offsetOperand name source.name)
  else if source.role.isScalar then .ok ()
  else if source.size ≠ width then
    .error (.sourceSize name source.name source.size width)
  else .ok ()

/-- Checks the sources from `place` on. -/
def checkSources (program : Program) (name : String) (opcode : Opcode)
    (width : Nat) : Nat → List VarIndex → Except ProgramError Unit
  | _, [] => .ok ()
  | place, index :: rest => do
      program.checkSource name opcode width place index
      program.checkSources name opcode width (place + 1) rest

/-- Checks that the opcode's memory operand has the right role. -/
def checkKind (program : Program) (name : String) (opcode : Opcode)
    (dest source : VarIndex) : Except ProgramError Unit :=
  match opcode.kind with
  | .load | .loadOffset =>
      if (program.var source).role = .source then .ok ()
      else .error (.wantsSourceArray name)
  | .loadParam =>
      if (program.var source).role.isScalar then .ok ()
      else .error (.wantsScalar name)
  | .store =>
      if (program.var dest).role = .dest then .ok ()
        else .error (.wantsDestArray name)
  | .arith _ => .ok ()

/-- Checks an instruction against the declarations.  Constants and parameters
are broadcast, so their declared size is free. -/
def checkInstruction (program : Program) (instruction : Instruction) :
    Except ProgramError Unit :=
  let name := instruction.opcode
  match Opcode.lookup? name with
  | none => .error (.unknownOpcode name)
  | some opcode =>
      match instruction.dest with
      | [target] => do
          let lanes := instruction.lanes
          let width := opcode.size * lanes
          if instruction.src.length ≠ opcode.sources then
            throw (.sources name opcode.sources instruction.src.length)
          if instruction.x2 && instruction.x4 then throw (.bothLaneFlags name)
          if !Lane.validSize width then throw (.laneWidth lanes name width)
          instruction.operands.forM (program.checkOperand name)
          let dest := program.var target
          if dest.role = .source ∨ dest.role.isScalar then
            throw (.readOnly name dest.name)
          if dest.size ≠ width then
            throw (.destSize name dest.name dest.size width)
          program.checkSources name opcode width 0 instruction.src
          program.checkKind name opcode target instruction.firstSource
      | _ => .error (.destinations name)

/-- Appends an instruction. -/
def appendInstruction (program : Program) (instruction : Instruction) :
    Except ProgramError Program := do
  program.checkInstruction instruction
  return { program with code := program.code.push instruction }

/-- Appends an instruction whose first operand is the destination. -/
def append (program : Program) (opcode : String) (operands : List VarIndex) :
    Except ProgramError Program :=
  match operands with
  | [] => .error (.noOperands opcode)
  | dest :: sources => program.appendInstruction ⟨opcode, 0, [dest], sources⟩

/-- Checks the instructions in order; `written` holds the destinations so
far. -/
def validateFrom (program : Program) (written : List VarIndex) :
    List Instruction → Except ProgramError Unit
  | [] => .ok ()
  | instruction :: rest => do
      program.checkInstruction instruction
      match instruction.src.find? fun index =>
          (program.var index).role == .temp && !written.contains index with
      | some index => throw (.readBeforeWritten index)
      | none =>
          let target := instruction.target
          let written := if written.contains target then written
            else target :: written
          program.validateFrom written rest

/-- Checks every instruction, and that every temporary is written before it is
read. -/
def validate (program : Program) : Except ProgramError Unit :=
  if program.code.isEmpty then .error (.empty program.name)
  else program.validateFrom [] program.code.toList

/-- The declared arrays in index order. -/
def arrays (program : Program) : List VarIndex :=
  Var.indices.filter fun index => (program.var index).role.isArray

/-- One line of the declarations. -/
def declarationText (index : VarIndex) (declaration : Variable) : String :=
  "  ." ++ declaration.role.name ++ " " ++ Var.nameOf index ++ " size="
    ++ toString declaration.size
    ++ (if declaration.role = .const then
      " value=" ++ toString declaration.value.toInt else "")
    ++ (if declaration.aligned then " aligned" else "") ++ "\n"

/-- One line of the code. -/
def instructionText (instruction : Instruction) : String :=
  "  " ++ (if instruction.invariant then "[inv] " else "") ++
    instruction.text ++ "\n"

/-- The program as text: its name, the declarations in index order, the
instructions. -/
def text (program : Program) : String :=
  let declared := Var.indices.filter fun index => (program.var index).declared
  "program " ++ program.name ++ "\n"
    ++ String.join
      (declared.map fun index => declarationText index (program.var index))
    ++ String.join (program.code.toList.map instructionText)

end Program

end LaneKernel
