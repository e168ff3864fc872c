import LaneKernel.Program.Basic

/-!
# Lowering

`Program.lower` brings a program into the form that the compiler takes: arrays
are touched by load and store opcodes only, constants and parameters by `loadp`
only, and every other opcode works on temporaries.  Broadcasts whose temporary
has no other writer are marked invariant.
-/

namespace LaneKernel

/-- The state of a lowering: the program built so far and the temporaries that
already hold a source array or a broadcast at an element size and lane count. -/
structure Lowering where
  out : Program
  loaded : List (VarIndex × VarIndex) := []
  broadcast : List ((VarIndex × Nat × Nat) × VarIndex) := []

namespace Lowering

/-- Appends an instruction without a check. -/
def emit (state : Lowering) (opcode : String) (flags : UInt8) (dest : VarIndex)
    (src : List VarIndex) : Lowering :=
  { state with
    out := { state.out with
      code := state.out.code.push ⟨opcode, flags, [dest], src⟩ } }

/-- The slots of the temporaries. -/
def tempSlots : List VarIndex :=
  (List.range Var.tempCount).map fun number =>
    Int.ofNat (Var.firstTemp + number)

/-- Declares the first free temporary. -/
def newTemp (state : Lowering) (size : Nat) :
    Except ProgramError (VarIndex × Lowering) :=
  match tempSlots.find? fun index => !(state.out.var index).declared with
  | some index => do
      let out ← state.out.declare index size
      return (index, { state with out := out })
  | none => .error (.tooManyTemps state.out.name)

/-- A temporary that holds an operand for lanes of `size` bytes.  Sources are
loaded whole, constants and parameters are broadcast into every lane, and
temporaries are used as they are. -/
def operand (state : Lowering) (index : VarIndex) (size lanes : Nat) :
    Except ProgramError (VarIndex × Lowering) :=
  let width := size * lanes
  match (state.out.var index).role with
  | .source =>
      match state.loaded.lookup index with
      | some temp => .ok (temp, state)
      | none => do
          let (temp, state) ← state.newTemp width
          let state := state.emit (Lane.sizedName "load" width) 0 temp [index]
          return (temp, { state with loaded := (index, temp) :: state.loaded })
  | .const | .param =>
      match state.broadcast.lookup (index, size, lanes) with
      | some temp => .ok (temp, state)
      | none => do
          let (temp, state) ← state.newTemp width
          let state :=
            state.emit (Lane.sizedName "loadp" size)
              (Instruction.laneFlags lanes) temp [index]
          return (temp, { state with
            broadcast := ((index, size, lanes), temp) :: state.broadcast })
  | _ => .ok (index, state)

/-- Temporaries for a list of operands, in order. -/
def operands (state : Lowering) (size lanes : Nat) :
    List VarIndex → Except ProgramError (List VarIndex × Lowering)
  | [] => .ok ([], state)
  | index :: rest => do
      let (temp, state) ← state.operand index size lanes
      let (temps, state) ← state.operands size lanes rest
      return (temp :: temps, state)

/-- Writes the result of an instruction to its destination: directly to a
temporary, through a new temporary and a store to an array. -/
def writeResult (state : Lowering) (instruction : Instruction) (width : Nat)
    (src : List VarIndex) : Except ProgramError Lowering :=
  let dest := instruction.target
  if (state.out.var dest).role = .dest then do
    let (temp, state) ← state.newTemp width
    let state := state.emit instruction.opcode instruction.flags temp src
    return state.emit (Lane.sizedName "store" width) 0 dest [temp]
  else .ok (state.emit instruction.opcode instruction.flags dest src)

/-- Lowers one instruction of a valid program. -/
def lower (state : Lowering) (instruction : Instruction) :
    Except ProgramError Lowering :=
  match Opcode.lookup? instruction.opcode with
  | none => .error (.unknownOpcode instruction.opcode)
  | some opcode =>
      let lanes := instruction.lanes
      let width := opcode.size * lanes
      match opcode.kind with
      | .load | .loadOffset | .loadParam =>
          state.writeResult instruction width instruction.src
      | .store => do
          let (temp, state) ←
              state.operand instruction.firstSource opcode.size lanes
          return state.emit instruction.opcode instruction.flags
            instruction.target [temp]
      | .arith _ => do
          let (temps, state) ← state.operands opcode.size lanes instruction.src
          state.writeResult instruction width temps

end Lowering

namespace Program

/-- How many instructions of a list write to a slot. -/
def writers (code : List Instruction) (index : VarIndex) : Nat :=
  code.countP fun instruction => instruction.target == index

/-- Whether an instruction broadcasts a constant or parameter. -/
def isBroadcast (instruction : Instruction) : Bool :=
  match Opcode.lookup? instruction.opcode with
  | some opcode => opcode.kind == .loadParam
  | none => false

/-- Marks the broadcasts whose temporary is written nowhere else. -/
def markInvariants (code : List Instruction) : List Instruction :=
  code.map fun instruction =>
    if isBroadcast instruction && writers code instruction.target == 1 then
      { instruction with
        flags := instruction.flags ||| Instruction.flagInvariant }
    else instruction

/-- The lowered program. -/
def lower (program : Program) : Except ProgramError Program := do
  program.validate
  let state ← program.code.toList.foldlM Lowering.lower
      { out := { program with code := #[] } }
  return { state.out with
    code := (markInvariants state.out.code.toList).toArray }

end Program

end LaneKernel
