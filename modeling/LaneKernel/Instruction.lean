import LaneKernel.Opcode
import LaneKernel.Variable

/-!
# Kernel instructions

An instruction names an opcode, its destination and its sources.  Two flags pack
several lanes of the opcode's size into one element; the third marks an
instruction whose value is the same for every element.
-/

namespace LaneKernel

structure Instruction where
  opcode : String
  flags : UInt8 := 0
  dest : List VarIndex := []
  src : List VarIndex := []
deriving DecidableEq, Repr, Inhabited

namespace Instruction

def flagInvariant : UInt8 := 1
def flagX2 : UInt8 := 2
def flagX4 : UInt8 := 4

def invariant (instruction : Instruction) :
    Bool := instruction.flags &&& flagInvariant != 0
def x2 (instruction : Instruction) : Bool := instruction.flags &&& flagX2 != 0
def x4 (instruction : Instruction) : Bool := instruction.flags &&& flagX4 != 0

/-- The number of lanes packed into an element. -/
def lanes (instruction : Instruction) : Nat :=
  if instruction.x4 then 4 else if instruction.x2 then 2 else 1

/-- The flag that packs the given number of lanes. -/
def laneFlags (lanes : Nat) : UInt8 :=
  if lanes = 2 then flagX2 else if lanes = 4 then flagX4 else 0

/-- Destination and sources, in the order in which they are written. -/
def operands (instruction : Instruction) : List VarIndex :=
  instruction.dest ++ instruction.src

/-- The destination; an instruction of a valid program has exactly one. -/
def target (instruction : Instruction) : VarIndex := instruction.dest.headD 0

/-- The source at a place, if there is one. -/
def source? (instruction : Instruction) (place : Nat) : Option VarIndex :=
  instruction.src[place]?

/-- The first source; an instruction of a valid program has one. -/
def firstSource (instruction : Instruction) : VarIndex :=
  instruction.src.headD 0

/-- The instruction as it is written in programs. -/
def text (instruction : Instruction) : String :=
  let lanes := (if instruction.x2 then "x2 " else "") ++
    (if instruction.x4 then "x4 " else "")
  let names := instruction.operands.map Var.nameOf
  lanes ++ instruction.opcode ++
    (if names.isEmpty then "" else " " ++ ", ".intercalate names)

end Instruction

end LaneKernel
