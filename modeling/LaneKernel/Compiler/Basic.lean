import LaneKernel.CodeBuffer
import LaneKernel.Compiler.Hoisting
import LaneKernel.Compiler.Standard
import LaneKernel.Lowering

/-!
# The kernel compiler

A compiled kernel is a function on an executor record.  Its loop has three
regions: the first moves the bytes of a row that do not fill a vector through
the frame, the second runs the unrolled body over whole vectors, and the third
finishes the vectors that the unrolled body leaves over.  A kernel on rows
repeats all three for every row.
-/

namespace LaneKernel

structure CompileOptions where
  /-- The main loop holds the body `2 ^ unroll` times. -/
  unroll : Int := 0
  /-- Pads the code to a multiple of sixteen bytes. -/
  clean : Bool := false
  listing : Bool := false
deriving DecidableEq, Repr, Inhabited

/-- A compiled kernel. -/
structure CompiledKernel where
  code : MachineCode
  frameSize : Nat
  /-- Every register that was handed out. -/
  registers : List Reg
  /-- The registers that the entry code saves. -/
  saved : List Reg
deriving DecidableEq, Repr, Inhabited

/-- Everything that is decided before code is emitted. -/
structure CompilePlan (σ : Type) where
  /-- The lowered program. -/
  program : Program
  /-- The binary logarithm of the element size. -/
  shift : Nat
  invariants : List (BodyStep σ)
  body : List (BodyStep σ)
  /-- The arrays that a load or store touches, in index order. -/
  walked : List VarIndex
  pointers : List (VarIndex × Reg)
  vectors : List (VarIndex × Reg)
  /-- Every register that was handed out, in ascending order. -/
  registers : List Reg
  frame : Frame

namespace Compiler

variable {σ : Type}

def maxUnroll : Int := 2

/-- The declared accumulators. -/
def accumulators (program : Program) : List VarIndex :=
  ((List.range Var.accumulatorCount).map fun number =>
    Int.ofNat (Var.firstAccumulator + number)).filter fun index =>
      (program.var index).declared

/-- The variable that gives the element size: the first destination, else the
first source. -/
def alignmentVariable (program : Program) : Except CompileError VarIndex :=
  if (program.var Var.firstDest).declared then .ok Var.firstDest
  else if (program.var Var.firstSource).declared then .ok Var.firstSource
  else .error (.noAlignmentVariable program.name)

/-- The binary logarithm of the element size that every array has. -/
def elementShift (program : Program) : Except CompileError Nat := do
  let align ← alignmentVariable program
  let size := (program.var align).size
  program.arrays.forM fun index =>
    if (program.var index).size ≠ size then
      .error (.elementSizes index (program.var index).size align size)
    else .ok ()
  if size = 1 then return 0
  else if size = 2 then return 1
  else if size = 4 then return 2
  else if size = 8 then return 3
  else throw (.elementSize size)

/-- An instruction with its rule. -/
def matchRule (rules : Registry σ) (instruction : Instruction) :
    Except CompileError (BodyStep σ) :=
  match rules.lookup? instruction.opcode with
  | none => .error (.noRule instruction.opcode)
  | some rule =>
      let opcode := Opcode.lookup? instruction.opcode
      .ok ⟨instruction, rule, opcode.any Opcode.isLoad,
        opcode.any Opcode.isStore⟩

/-- The arrays that the steps touch, in index order. -/
def walkedArrays (program : Program) (steps : List (BodyStep σ)) :
    List VarIndex :=
  let touched := steps.filterMap fun step =>
    if step.isLoad then some step.instruction.firstSource
    else if step.isStore then some step.instruction.target
    else none
  program.arrays.filter touched.contains

/-- The declared temporaries in index order. -/
def declaredTemps (program : Program) : List VarIndex :=
  Lowering.tempSlots.filter fun index => (program.var index).declared

/-- Everything that is decided before code is emitted. -/
def plan (rules : Registry σ) (program : Program) (options : CompileOptions) :
    Except CompileError (CompilePlan σ) := do
  if options.unroll < 0 ∨ options.unroll > maxUnroll then
    throw (.unrollShift options.unroll)
  program.validate.mapError fun cause =>
    (CompileError.invalid cause).asProgramError
  match accumulators program with
  | index :: _ => throw (.accumulator index)
  | [] => pure ()
  let lowered ← program.lower.mapError fun cause =>
      (CompileError.invalid cause).asProgramError
  let shift ← elementShift lowered
  let steps ← lowered.code.toList.mapM (matchRule rules)
  let walked := walkedArrays lowered steps
  let (pointers, file) ←
    RegisterFile.fresh.allocEach Contract.pointerOrder "pointer" walked
  let (vectors, file) ←
    file.allocEach Contract.vectorOrder "vector" (declaredTemps lowered)
  let frame ← Frame.layout (file.saved false) (file.saved true)
  return {
    program := lowered
    shift := shift
    invariants := steps.filter fun step => step.instruction.invariant
    body := BodyStep.hoistLoads
      (steps.filter fun step => !step.instruction.invariant)
    walked := walked
    pointers := pointers
    vectors := vectors
    registers := file.used
    frame := frame }

def labelTail : Label := 1
def labelMain : Label := 2
def labelMainLoop : Label := 3
def labelRest : Label := 4
def labelRestLoop : Label := 5
def labelRestEnd : Label := 6
def labelRow : Label := 7
def labelEnd : Label := 8
/-- The first label that routines get. -/
def firstFreeLabel : Label := 16

/-- The bytes of a vector. -/
def blockBytes : Nat := 16

/-- How often the main loop holds the body. -/
def copies (unroll : Nat) : Nat := 1 <<< unroll

/-- The site that routines see. -/
def site (plan : CompilePlan σ) (inTail : Bool) (offset : Nat) : EmitSite where
  var := plan.program.var
  pointers := plan.pointers
  vectors := plan.vectors
  inTail := inTail
  offset := offset

/-- The code of steps in order; an error names the instruction. -/
def emitSteps (site : EmitSite) : List (BodyStep σ) → EmitM σ Fragment
  | [] => return []
  | step :: rest => do
      let code ← fun label =>
        ExceptT.adapt (CompileError.atInstruction step.instruction.text)
          (step.rule.emit site step.rule.param step.instruction label)
      let more ← emitSteps site rest
      return code ++ more

/-- The unrolled copies of the body from number `copy` on. -/
def emitCopies (plan : CompilePlan σ) : Nat → Nat → EmitM σ Fragment
  | 0, _ => return []
  | count + 1, copy => do
      let code ← emitSteps (site plan false (blockBytes * copy)) plan.body
      let more ← emitCopies plan count (copy + 1)
      return code ++ more

section Pieces

open Asm Contract

/-- Code for every walked array. -/
def forWalked (plan : CompilePlan σ) (code : VarIndex → Reg → Fragment) :
    Fragment :=
  plan.pointers.flatMap fun (index, pointer) => code index pointer

/-- Moves every pointer past a number of bytes. -/
def advanceBy (plan : CompilePlan σ) (bytes : Nat) : Fragment :=
  forWalked plan fun _ pointer => addiu pointer pointer bytes

/-- Moves every pointer past the tail bytes. -/
def advanceByTail (plan : CompilePlan σ) : Fragment :=
  forWalked plan fun _ pointer => addu pointer pointer tailBytes

/-- Loads the array addresses. -/
def loadPointers (plan : CompilePlan σ) : Fragment :=
  forWalked plan fun index pointer =>
    lw pointer executor (Executor.arraySlotOffset index)

/-- The head of the loop over rows. -/
def rowHead (plan : CompilePlan σ) : Fragment :=
  if plan.program.twoD then
    lw rows executor (Executor.paramSlotOffset Executor.rowCountSlot)
      ++ blez rows labelEnd
      ++ mark labelRow
  else []

/-- Moves every pointer from the end of a row to the start of the next and
repeats while rows remain. -/
def rowEnd (plan : CompilePlan σ) : Fragment :=
  if plan.program.twoD then
    lw tailBytes executor Executor.countOffset
      ++ sll tailBytes tailBytes plan.shift
      ++ forWalked plan (fun index pointer =>
        lw scratch executor (Executor.paramSlotOffset index)
          ++ subu scratch scratch tailBytes ++ addu pointer pointer scratch)
      ++ addiu rows rows (-1) ++ bnez rows labelRow
  else []

/-- Computes how many bytes and vectors each region handles. -/
def splitCount (plan : CompilePlan σ) (unroll : Nat) : Fragment :=
  lw tailBytes executor Executor.countOffset ++ blez tailBytes labelEnd
    ++ sll tailBytes tailBytes plan.shift ++ srl blocks tailBytes 4
    ++ (if unroll > 0 then
      andi leftover blocks (copies unroll - 1) ++ srl blocks blocks unroll
    else [])
    ++ andi tailBytes tailBytes (blockBytes - 1) ++ beqz tailBytes labelMain

/-- The loop with the code of its three regions. -/
def loop (plan : CompilePlan σ) (unroll : Nat) (tail main rest : Fragment) :
    Fragment :=
  rowHead plan ++ splitCount plan unroll
    ++ mark labelTail ++ tail ++ advanceByTail plan
    ++ mark labelMain ++ beqz blocks labelRest ++ mark labelMainLoop
    ++ main ++ advanceBy plan (blockBytes * copies unroll)
    ++ addiu blocks blocks (-1) ++ bnez blocks labelMainLoop ++ mark labelRest
    ++ (if unroll > 0 then
      beqz leftover labelRestEnd ++ mark labelRestLoop ++ rest
        ++ advanceBy plan blockBytes
        ++ addiu leftover leftover (-1) ++ bnez leftover labelRestLoop
    else [])
    ++ mark labelRestEnd ++ rowEnd plan ++ mark labelEnd

end Pieces

/-- The code of the whole kernel. -/
def emitKernel (plan : CompilePlan σ) (unroll : Nat) : EmitM σ Fragment := do
  let invariants ← emitSteps (site plan false 0) plan.invariants
  let tail ← emitSteps (site plan true 0) plan.body
  let main ← emitCopies plan (copies unroll) 0
  let rest ← if unroll > 0 then emitSteps (site plan false 0) plan.body
      else pure []
  return plan.frame.prologue ++ loadPointers plan ++ invariants
    ++ loop plan unroll tail main rest ++ plan.frame.epilogue

/-- Assembles the code of a kernel. -/
def assemble (fragment : Fragment) (options : CompileOptions) :
    Except AsmError MachineCode :=
  match (CodeBuffer.empty options.listing).emit fragment with
  | (_, some cause) => .error cause
  | (buffer, none) =>
      let padded := if options.clean then (buffer.alignTo? 16).getD buffer
        else buffer
      match padded.resolve with
      | (_, some cause) => .error cause
      | (resolved, none) => resolved.finish

/-- The compiled kernel of a plan. -/
def finish (plan : CompilePlan σ) (options : CompileOptions)
    (fragment : Fragment) : Except CompileError CompiledKernel := do
  let code ← (assemble fragment options).mapError fun cause =>
    (CompileError.assembly cause).asProgramError
  return {
    code := code
    frameSize := plan.frame.size
    registers := plan.registers
    saved := plan.frame.saved }

/-- Compiles a program with the given rules, whose routines start from `state`.
The state that the routines leave is returned in any case. -/
def compile (rules : Registry σ) (program : Program) (options : CompileOptions)
    (state : σ) : Except CompileError CompiledKernel × σ :=
  match plan rules program options with
  | .error cause => (.error cause, state)
  | .ok plan =>
      match (((emitKernel plan options.unroll.toNat).run
        firstFreeLabel).run).run state with
      | (.error cause, state) => (.error cause.asProgramError, state)
      | (.ok (fragment, _), state) => (finish plan options fragment, state)

/-- Compiles a program that may be missing with rules that may be missing. -/
def compile? (rules : Option (Registry σ)) (program : Option Program)
    (options : CompileOptions) (state : σ) :
    Except CompileError CompiledKernel × σ :=
  match program, rules with
  | none, _ => (.error .missingProgram, state)
  | some _, none => (.error .missingRegistry, state)
  | some program, some rules => compile rules program options state

end Compiler

/-- The program compiled with the standard rules. -/
def Program.compile (program : Program) (options : CompileOptions) :
    Except CompileError CompiledKernel :=
  (Compiler.compile Registry.standard program options ()).1

end LaneKernel
