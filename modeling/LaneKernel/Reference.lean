import LaneKernel.Executor
import LaneKernel.FlatMemory
import LaneKernel.Program.Basic

/-!
# The reference interpreter

Runs a program one element at a time, row after row.  This is the meaning that
compiled code is compared with: arrays are addressed through the executor
exactly as compiled code addresses them.
-/

namespace LaneKernel.Reference

/-- Why an interpretation stopped. -/
inductive Error where
  | invalid (cause : ProgramError)
  | access (instruction : Instruction) (row element : Nat)
      (cause : OutsideMemory)
deriving DecidableEq, Repr

def Error.message : Error → String
  | invalid cause => cause.message
  | access instruction row element cause =>
      "ir: " ++ instruction.text ++ " (row " ++ toString row ++ ", element "
        ++ toString element
        ++ "): " ++ cause.message

def Error.classes : Error → List ErrorClass
  | invalid _ => [.invalidProgram]
  | access _ _ _ _ => []

/-- What changes while a program runs: the temporaries and the memory. -/
structure State where
  values : Vector UInt64 64
  memory : FlatMemory

/-- The element that an instruction works on. -/
structure Site where
  program : Program
  executor : Executor
  row : Nat
  element : Nat

namespace Site

/-- The address of an element of an array, `distance` elements away from the
current one. -/
def address (site : Site) (index : VarIndex) (distance : Int) : UInt32 :=
  let start := site.executor.array index
  let rowStart :=
    if site.program.twoD then
      start + site.executor.paramWord index * UInt32.ofNat site.row
    else start
  rowStart
    + UInt32.ofInt ((site.element + distance) * (site.program.var index).size)

/-- The value of a constant or parameter. -/
def scalar (site : Site) (index : VarIndex) : UInt64 :=
  let declaration := site.program.var index
  if declaration.role = .const then declaration.value.toUInt64
  else site.executor.param index declaration.size

/-- The value of a temporary. -/
def value (state : State) (index : VarIndex) : UInt64 :=
  match Executor.place? 64 index with
  | some place => state.values.get place
  | none => 0

/-- An operand for lanes of `size` bytes; constants and parameters fill every
lane. -/
def read (site : Site) (state : State) (index : VarIndex) (size lanes : Nat) :
    Except OutsideMemory UInt64 :=
  let declaration := site.program.var index
  match declaration.role with
  | .source => state.memory.load (site.address index 0) declaration.size.toNat
  | .const | .param => .ok (Lane.replicate (site.scalar index) size lanes)
  | _ => .ok (value state index)

/-- Sets a temporary. -/
def setValue : State → VarIndex → UInt64 → State
  | ⟨values, memory⟩, index, word =>
      match Executor.place? 64 index with
      | some place =>
          ⟨values.set place.val word (Executor.place_lt place), memory⟩
      | none => ⟨values, memory⟩

/-- Stores at an address and keeps the temporaries. -/
def storeMemory : State → UInt32 → Nat → UInt64 → State × Option OutsideMemory
  | ⟨values, memory⟩, address, size, word =>
      let (memory, fault) := memory.store address size word
      (⟨values, memory⟩, fault)

/-- Writes a result, cut to the size of the variable. -/
def write (site : Site) (state : State) (index : VarIndex) (word : UInt64) :
    State × Option OutsideMemory :=
  let declaration := site.program.var index
  let size := declaration.size.toNat
  let word := Lane.truncate word size
  if declaration.role = .dest then
    storeMemory state (site.address index 0) size word
  else (setValue state index word, none)

/-- The value that an instruction computes. -/
def result (site : Site) (state : State) (opcode : Opcode)
    (instruction : Instruction) : Except OutsideMemory UInt64 :=
  let lanes := instruction.lanes
  let first := instruction.firstSource
  match opcode.kind with
  | .load | .store | .loadParam => site.read state first opcode.size lanes
  | .loadOffset =>
      let distance :=
        (Lane.signExtend (site.scalar ((instruction.source? 1).getD 0)) 4).toInt
      state.memory.load (site.address first distance)
        (site.program.var first).size.toNat
  | .arith op => do
      let a ← site.read state first opcode.size lanes
      let b ← match op.arity, instruction.source? 1 with
        | 2, some second => site.read state second opcode.size lanes
        | _, _ => pure 0
      return op.evalLanes opcode.size a b lanes

/-- Runs one instruction. -/
def step (site : Site) (state : State) (opcode : Opcode)
    (instruction : Instruction) : State × Option OutsideMemory :=
  match site.result state opcode instruction with
  | .ok word => site.write state instruction.target word
  | .error fault => (state, some fault)

/-- Runs the instructions for one element, up to the first failing access. -/
def runCode (site : Site) (state : State) : List (Opcode × Instruction) →
    State × Option Error
  | [] => (state, none)
  | (opcode, instruction) :: rest =>
      match site.step state opcode instruction with
      | (next, none) => site.runCode next rest
      | (next, some fault) =>
          (next, some (.access instruction site.row site.element fault))

end Site

/-- Runs `count` elements of a row from `element` on. -/
def runElements (program : Program) (executor : Executor)
    (code : List (Opcode × Instruction)) (row : Nat) :
    Nat → Nat → State → State × Option Error
  | 0, _, state => (state, none)
  | count + 1, element, state =>
      match Site.runCode ⟨program, executor, row, element⟩ state code with
      | (next, none) =>
          runElements program executor code row count (element + 1) next
      | stopped => stopped

/-- Runs `count` rows from `row` on. -/
def runRows (program : Program) (executor : Executor)
    (code : List (Opcode × Instruction)) (elements : Nat) :
    Nat → Nat → State → State × Option Error
  | 0, _, state => (state, none)
  | count + 1, row, state =>
      match runElements program executor code row elements 0 state with
      | (next, none) =>
          runRows program executor code elements count (row + 1) next
      | stopped => stopped

/-- The first aligned array whose promise the executor breaks. -/
def checkAligned (program : Program) (executor : Executor) :
    Except ProgramError Unit :=
  program.arrays.forM fun index =>
    if !(program.var index).aligned then .ok ()
    else if executor.array index % arrayAlignment ≠ 0 then
      .error (.misalignedArray index (executor.array index))
    else if program.twoD ∧ executor.paramWord index % arrayAlignment ≠ 0 then
      .error (.misalignedStride index (executor.paramWord index).toInt32)
    else .ok ()

/-- The instructions of a program with their opcodes. -/
def resolveCode (program : Program) : List (Opcode × Instruction) :=
  program.code.toList.filterMap fun instruction =>
    (Opcode.lookup? instruction.opcode).map fun opcode => (opcode, instruction)

/-- The number of rows of a run. -/
def rowCount (program : Program) (executor : Executor) : Nat :=
  if program.twoD then
    (executor.paramWord Executor.rowCountSlot).toInt32.toInt.toNat else 1

/-- Runs a program on a memory.  Writes in front of a failing access stay. -/
def run (program : Program) (executor : Executor) (memory : FlatMemory) :
    FlatMemory × Option Error :=
  match (do program.validate; checkAligned program executor : Except
    ProgramError Unit) with
  | .error cause => (memory, some (.invalid cause))
  | .ok () =>
      let (state, stopped) :=
        runRows program executor (resolveCode program) executor.n.toInt.toNat
          (rowCount program executor) 0 ⟨Vector.replicate 64 0, memory⟩
      (state.memory, stopped)

end LaneKernel.Reference
