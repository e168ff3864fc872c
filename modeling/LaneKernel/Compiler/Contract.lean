import LaneKernel.Compiler.Error
import LaneKernel.Fragment

/-!
# Register contract and stack frame

Which registers have a fixed part in every kernel, in which order the others are
handed out and by which search, which of them the caller expects back, and where
the frame keeps them.
-/

namespace LaneKernel

namespace Contract

def executor : Reg := .a0
/-- Vectors left over by the unrolled loop. -/
def leftover : Reg := .t0
/-- Iterations of the main loop. -/
def blocks : Reg := .t1
/-- Bytes that do not fill a vector. -/
def tailBytes : Reg := .t2
def scratch : Reg := .t3
def rows : Reg := .t4
/-- Tail bytes still to be moved. -/
def remaining : Reg := .t5
def memoryWalk : Reg := .t6
def stagingWalk : Reg := .t7
def vectorScratch : Reg := .vec 15

/-- Array pointers are assigned from this list in order. -/
def pointerOrder : List Reg :=
  [.a1, .a2, .a3, .v0, .v1, .t8, .t9, .s0, .s1, .s2, .s3, .s4, .s5, .s6, .s7]

/-- Temporaries are assigned from this list in order. -/
def vectorOrder : List Reg :=
  ((List.range 31).filter (· ≠ 15)).map fun index => .vec (Fin.ofNat 32 index)

/-- Whether a kernel must give the register back to its caller as it was. -/
def calleeSaved : Reg → Bool
  | .gp index => (16 ≤ index.val && index.val ≤ 23) || index.val == 30
  | .vec index => 20 ≤ index.val && index.val ≤ 30
  | .unknown _ => false

/-- Whether the register has a fixed part and is never handed out. -/
def reserved (register : Reg) : Bool :=
  [.zero, .at', .k0, .k1, .globalPointer, .sp, .fp, .ra, executor, leftover,
    blocks, tailBytes, scratch, rows, remaining, memoryWalk, stagingWalk,
    vectorScratch, .vec 31].contains register

/-- All registers of both banks, in ascending order. -/
def allRegisters : List Reg :=
  (List.range 32).map (fun index => .gp (Fin.ofNat 32 index))
    ++ (List.range 32).map (fun index => .vec (Fin.ofNat 32 index))

end Contract

/-- What the compiler keeps of a register. -/
structure RegisterState where
  /-- The register may be handed out at all. -/
  valid : Bool
  calleeSave : Bool
  allocated : Bool := false
  used : Bool := false
deriving DecidableEq, Repr

/-- The state of every register of both banks. -/
structure RegisterFile where
  state : Reg → RegisterState

namespace RegisterFile

open Contract

/-- No register is handed out yet. -/
def fresh : RegisterFile where
  state register := {
    valid := pointerOrder.contains register || vectorOrder.contains register
    calleeSave := calleeSaved register }

/-- Whether a register can be handed out now. -/
def isFree (file : RegisterFile) (register : Reg) : Bool :=
  (file.state register).valid && !(file.state register).allocated

/-- Notes that a register is handed out. -/
def take (file : RegisterFile) (register : Reg) : RegisterFile where
  state other :=
    if other = register then
      { file.state other with allocated := true, used := true }
    else file.state other

/-- Hands out the first free register of an order. -/
def alloc (file : RegisterFile) (order : List Reg) (what : String) :
    Except CompileError (Reg × RegisterFile) :=
  match order.find? file.isFree with
  | some register => .ok (register, file.take register)
  | none => .error (.outOfRegisters what)

/-- Hands out a register of an order to each variable of a list. -/
def allocEach (file : RegisterFile) (order : List Reg) (what : String) :
    List VarIndex → Except CompileError (List (VarIndex × Reg) × RegisterFile)
  | [] => .ok ([], file)
  | index :: rest => do
      let (register, file) ← file.alloc order what
      let (pairs, file) ← file.allocEach order what rest
      return ((index, register) :: pairs, file)

/-- Every register that was handed out, in ascending order. -/
def used (file : RegisterFile) : List Reg :=
  allRegisters.filter fun register => (file.state register).used

/-- The registers of one bank that were handed out and that the caller expects
back, in ascending order. -/
def saved (file : RegisterFile) (vector : Bool) : List Reg :=
  file.used.filter fun register =>
    (file.state register).calleeSave && register.isVector == vector

end RegisterFile

/-- Where a frame keeps the saved registers, in bytes from the adjusted stack
pointer. -/
structure Frame where
  size : Nat
  generalSaves : List Reg
  vectorSaves : List Reg
  vectorOffset : Nat
deriving DecidableEq, Repr

namespace Frame

def fpSlot : Nat := 0
def argumentSlot : Nat := 4
/-- Sixteen bytes through which partial vectors are moved. -/
def staging : Nat := 16
def saves : Nat := 32
def maxSize : Nat := 0x7ff0

/-- The least multiple of sixteen that is not below a number. -/
def alignUp (value : Nat) : Nat := (value + 15) / 16 * 16

def layout (general vector : List Reg) : Except CompileError Frame :=
  let vectorOffset := alignUp (saves + 4 * general.length)
  let size := alignUp (vectorOffset + 16 * vector.length)
  if size > maxSize then .error (.frameTooLarge size)
  else .ok ⟨size, general, vector, vectorOffset⟩

def generalSlot (index : Nat) : Nat := saves + 4 * index

def vectorSlot (frame : Frame) (index : Nat) :
    Nat := frame.vectorOffset + 16 * index

/-- The saved registers, general ones first. -/
def saved (frame : Frame) : List Reg := frame.generalSaves ++ frame.vectorSaves

open Asm in
/-- Code at the entry of a kernel. -/
def prologue (frame : Frame) : Fragment :=
  addiu .sp .sp (-(frame.size : Int)) ++ sw .fp .sp fpSlot ++ move .fp .sp
    ++ sw Contract.executor .sp argumentSlot
    ++ frame.generalSaves.zipIdx.flatMap (fun (register, index) =>
      sw register .sp (generalSlot index))
    ++ frame.vectorSaves.zipIdx.flatMap (fun (register, index) =>
      insn (.st .double register .sp (frame.vectorSlot index)))

open Asm in
/-- Code at the exit of a kernel, in the reverse order of the entry. -/
def epilogue (frame : Frame) : Fragment :=
  frame.vectorSaves.zipIdx.reverse.flatMap (fun (register, index) =>
      insn (.ld .double register .sp (frame.vectorSlot index)))
    ++ frame.generalSaves.zipIdx.reverse.flatMap (fun (register, index) =>
      lw register .sp (generalSlot index))
    ++ lw .fp .sp fpSlot ++ addiu .sp .sp frame.size ++ insn (.jr .ra) ++ nop

end Frame

end LaneKernel
