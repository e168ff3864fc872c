import LaneKernel.Insn

/-!
# Code fragments

A fragment is a list of items: instructions of one word, branches to labels, and
label marks.  Putting fragments side by side is appending their lists.  The
pseudo-instructions at the end of the module are fragments of one or two words.
-/

namespace LaneKernel

/-- A label identifies a code position.  Ids below `Label.capacity` are
usable. -/
abbrev Label := Int

namespace Label

def capacity : Int := 256

def valid (label : Label) : Bool := 0 ≤ label && label < capacity

/-- The name in listings and error texts. -/
def name (label : Label) : String := "L" ++ toString label

end Label

/-- The comparison a conditional branch makes; all but the first two compare
with zero. -/
inductive Condition where
  | eq | ne | lez | gtz | ltz | gez
  | unknown (tag : UInt8)
deriving DecidableEq, Repr

namespace Condition

def ofTag (tag : UInt8) : Condition :=
  match tag.toNat with
  | 0 => eq | 1 => ne | 2 => lez | 3 => gtz | 4 => ltz | 5 => gez
  | _ => unknown tag

def mnemonic : Condition → String
  | eq => "beq" | ne => "bne" | lez => "blez" | gtz => "bgtz"
  | ltz => "bltz" | gez => "bgez" | unknown _ => ""

end Condition

/-- One element of a fragment. -/
inductive Item where
  | insn (instruction : Insn)
  /-- A branch and the `nop` of its delay slot. -/
  | branch (condition : Condition) (ra rb : Reg) (label : Label)
  | mark (label : Label)
deriving DecidableEq, Repr

abbrev Fragment := List Item

namespace Item

/-- The branch word with an empty offset field. -/
def branchWord (condition : Condition) (ra rb : Reg) : Except AsmError UInt32 :=
  match condition with
  | .eq => Word.IType.encode ⟨0x04, ra, rb, 0⟩
  | .ne => Word.IType.encode ⟨0x05, ra, rb, 0⟩
  | .lez => Word.IType.encode ⟨0x06, ra, .zero, 0⟩
  | .gtz => Word.IType.encode ⟨0x07, ra, .zero, 0⟩
  | .ltz => Word.IType.encode ⟨0x01, ra, .gp 0, 0⟩
  | .gez => Word.IType.encode ⟨0x01, ra, .gp 1, 0⟩
  | .unknown tag => .error (.unknownCondition tag)

def branchText (condition : Condition) (ra rb : Reg) (label : Label) : String :=
  match condition with
  | .eq | .ne =>
      condition.mnemonic ++ " " ++ ra.name ++ ", " ++ rb.name ++ ", " ++
        label.name
  | _ => condition.mnemonic ++ " " ++ ra.name ++ ", " ++ label.name

/-- Whether the item stops the assembler before anything is emitted. -/
def crashes : Item → Bool
  | insn instruction => instruction.crashes
  | _ => false

/-- Emission into a sink that keeps labels only and is known by `sinkName`:
labels are always free, and everything else is refused once its operands are
known to be good. -/
def emitInto (sinkName : String) : Item → Except AsmError Unit
  | insn instruction => do
      let _ ← instruction.encode
      throw (.unexpectedSink sinkName)
  | branch _ _ _ _ => .error (.unexpectedSink sinkName)
  | mark label => if label.valid then .ok () else .error (.labelOutside label)

end Item

namespace Fragment

def crashes (fragment : Fragment) : Bool := fragment.any Item.crashes

/-- Emission of all items into a sink that keeps labels only. -/
def emitInto (sinkName : String) (fragment : Fragment) : Except AsmError Unit :=
  fragment.forM (Item.emitInto sinkName)

end Fragment

namespace Asm

def insn (instruction : Insn) : Fragment := [.insn instruction]
def mark (label : Label) : Fragment := [.mark label]
def branch (condition : Condition) (ra rb : Reg) (label : Label) : Fragment :=
  [.branch condition ra rb label]

def beqz (ra : Reg) (label : Label) : Fragment := branch .eq ra .zero label
def bnez (ra : Reg) (label : Label) : Fragment := branch .ne ra .zero label
def blez (ra : Reg) (label : Label) : Fragment := branch .lez ra .zero label
def jump (label : Label) : Fragment := branch .eq .zero .zero label

def addiu (rt rs : Reg) (imm : Int) : Fragment :=
  insn (.signedImm .addiu rt rs imm)
def sltiu (rt rs : Reg) (imm : Int) : Fragment :=
  insn (.signedImm .sltiu rt rs imm)
def andi (rt rs : Reg) (imm : Int) : Fragment :=
  insn (.unsignedImm .andi rt rs imm)
def addu (rd rs rt : Reg) : Fragment := insn (.alu .addu rd rs rt)
def subu (rd rs rt : Reg) : Fragment := insn (.alu .subu rd rs rt)
def sll (rd rt : Reg) (amount : Int) : Fragment :=
  insn (.shift .sll rd rt amount)
def srl (rd rt : Reg) (amount : Int) : Fragment :=
  insn (.shift .srl rd rt amount)
def move (rd rs : Reg) : Fragment := insn (.move rd rs)
def lw (rt base : Reg) (offset : Int) : Fragment :=
  insn (.mem .lw rt base offset)
def sw (rt base : Reg) (offset : Int) : Fragment :=
  insn (.mem .sw rt base offset)
def lbu (rt base : Reg) (offset : Int) : Fragment :=
  insn (.mem .lbu rt base offset)
def sb (rt base : Reg) (offset : Int) : Fragment :=
  insn (.mem .sb rt base offset)
def nop : Fragment := insn .nop

/-- Sets `rt` to a 32-bit constant with the fewest words. -/
def loadImm (rt : Reg) (value : UInt32) : Fragment :=
  let signed := value.toInt32.toInt
  if -0x8000 ≤ signed ∧ signed ≤ 0x7fff then addiu rt .zero signed
  else if value ≤ 0xffff then insn (.unsignedImm .ori rt .zero value.toNat)
  else if value &&& 0xffff = 0 then insn (.lui rt (value >>> 16).toNat)
  else
    [.insn (.lui rt (value >>> 16).toNat),
      .insn (.unsignedImm .ori rt rt (value &&& 0xffff).toNat)]

/-- An integer brought into the signed 64-bit range. -/
def wrap64 (value : Int) : Int := Int.bmod value 0x10000000000000000

/-- Loads a word from any byte address. -/
def loadUnaligned (rt base : Reg) (offset : Int) : Fragment :=
  [.insn (.mem .lwr rt base offset),
    .insn (.mem .lwl rt base (wrap64 (offset + 3)))]

/-- Stores a word to any byte address. -/
def storeUnaligned (rt base : Reg) (offset : Int) : Fragment :=
  [.insn (.mem .swr rt base offset),
    .insn (.mem .swl rt base (wrap64 (offset + 3)))]

end Asm

end LaneKernel
