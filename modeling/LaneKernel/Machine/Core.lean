import LaneKernel.Machine.LaneUnit
import LaneKernel.Machine.Operation
import LaneKernel.Machine.Ram

/-!
# The processor core

Registers, program counters and memory, and the effect of one instruction on
them.  `npc` follows `pc`; a taken branch writes its target there, so the
instruction behind it still runs.
-/

namespace LaneKernel

/-- A condition on which the processor traps. -/
inductive Cause where
  | addressErrorLoad
  | addressErrorStore
  | busError
  | reservedInstruction
deriving DecidableEq, Repr

/-- The number of the cause in the processor's cause register. -/
def Cause.code : Cause → Nat
  | addressErrorLoad => 4
  | addressErrorStore => 5
  | busError => 7
  | reservedInstruction => 10

structure Exception where
  cause : Cause
  pc : UInt32
  value : UInt32
deriving DecidableEq, Repr

def Exception.message (exception : Exception) : String :=
  "exception: cause=" ++ toString exception.cause.code ++ " pc="
    ++ Text.hex exception.pc.toNat
    ++ " value=" ++ Text.hex exception.value.toNat

structure Core where
  gpr : Vector UInt32 32
  vec : Vector VectorRegister 32
  pc : UInt32
  npc : UInt32
  ram : Ram

namespace Core

/-- A core with all registers zero. -/
def reset (ram : Ram) : Core :=
  ⟨Vector.replicate 32 0, Vector.replicate 32 VectorRegister.zero, 0, 0, ram⟩

/-- Starts execution at an address. -/
def setPc (core : Core) (pc : UInt32) :
    Core := { core with pc := pc, npc := pc + 4 }

/-- A general purpose register; register zero reads as zero. -/
def reg (core : Core) (index : RegNum) : UInt32 :=
  if index = 0 then 0 else core.gpr.get index

/-- A vector register. -/
def vector (core : Core) (index : RegNum) : VectorRegister := core.vec.get index

/-- Writes a general purpose register; writes to register zero are lost. -/
def setReg : Core → RegNum → UInt32 → Core
  | ⟨gpr, vec, pc, npc, ram⟩, index, word =>
      if index = 0 then ⟨gpr, vec, pc, npc, ram⟩
      else ⟨gpr.set index.val word index.isLt, vec, pc, npc, ram⟩

/-- Writes a vector register. -/
def setVector : Core → RegNum → VectorRegister → Core
  | ⟨gpr, vec, pc, npc, ram⟩, index, register =>
      ⟨gpr, vec.set index.val register index.isLt, pc, npc, ram⟩

/-- Changes the memory. -/
def mapRam : Core → (Ram → Ram) → Core
  | ⟨gpr, vec, pc, npc, ram⟩, change => ⟨gpr, vec, pc, npc, change ram⟩

def setNpc (core : Core) (target : UInt32) : Core := { core with npc := target }

/-- One for a true condition, zero for a false one. -/
def boolWord (condition : Bool) : UInt32 := if condition then 1 else 0

end Core

def RegisterFn.compute (fn : RegisterFn) (a b : UInt32) : UInt32 :=
  match fn with
  | addu => a + b
  | subu => a - b
  | and => a &&& b
  | or => a ||| b
  | xor => a ^^^ b
  | nor => ~~~(a ||| b)
  | slt => Core.boolWord (a.toInt32 < b.toInt32)
  | sltu => Core.boolWord (a < b)

def ShiftOp.compute (op : ShiftOp) (value amount : UInt32) : UInt32 :=
  match op with
  | sll => value <<< amount
  | srl => value >>> amount
  | sra => (value.toInt32 >>> amount.toInt32).toUInt32

def SignedImmOp.compute (op : SignedImmOp) (a imm : UInt32) : UInt32 :=
  match op with
  | addiu => a + imm
  | slti => Core.boolWord (a.toInt32 < imm.toInt32)
  | sltiu => Core.boolWord (a < imm)

def UnsignedImmOp.compute (op : UnsignedImmOp) (a imm : UInt32) : UInt32 :=
  match op with
  | andi => a &&& imm
  | ori => a ||| imm
  | xori => a ^^^ imm

/-- Whether a branch is taken. -/
def Condition.holds (condition : Condition) (a b : Int32) : Bool :=
  match condition with
  | eq => a == b
  | ne => a != b
  | lez => a ≤ 0
  | gtz => a > 0
  | ltz => a < 0
  | gez => a ≥ 0
  | unknown _ => false

namespace MemOp

/-- The number of bytes of an access. -/
def width : MemOp → Nat
  | lb | lbu | sb => 1
  | lh | lhu | sh => 2
  | _ => 4

/-- The register value of a loaded value. -/
def extend (op : MemOp) (value : UInt64) : UInt32 :=
  match op with
  | lb => (Lane.signExtend value 1).toUInt64.toUInt32
  | lh => (Lane.signExtend value 2).toUInt64.toUInt32
  | _ => value.toUInt32

end MemOp

namespace Core

/-- The bytes that a left or right part access touches, as distances from the
aligned word, with the register byte that each of them belongs to. -/
def partBytes (left : Bool) (address : UInt32) : List (UInt32 × UInt32) :=
  let place := address &&& 3
  if left then
    ([0, 1, 2, 3].filter (· ≤ place)).map fun distance =>
      (distance, 3 - place + distance)
  else ([0, 1, 2, 3].filter (place ≤ ·)).map fun distance =>
    (distance, distance - place)

/-- Replaces one byte of a word. -/
def setByte (word place : UInt32) (byte : UInt8) : UInt32 :=
  (word &&& ~~~(0xff <<< (8 * place))) ||| byte.toUInt32 <<< (8 * place)

/-- Fills bytes of a word from memory; fails with the address of the first byte
that is missing. -/
def loadPart (ram : Ram) (aligned : UInt32) : List (UInt32 × UInt32) → UInt32 →
    Except UInt32 UInt32
  | [], word => .ok word
  | (distance, place) :: rest, word =>
      match ram.read (aligned + distance) 1 with
      | .ok byte => loadPart ram aligned rest (setByte word place byte.toUInt8)
      | .error _ => .error (aligned + distance)

/-- Writes bytes of a word to memory; stops at the address of the first byte
that is missing. -/
def storePart (aligned word : UInt32) : List (UInt32 × UInt32) → Ram →
    Ram × Option UInt32
  | [], ram => (ram, none)
  | (distance, place) :: rest, ram =>
      match ram.write (aligned + distance) 1
        (word >>> (8 * place)).toUInt64 with
      | (next, none) => storePart aligned word rest next
      | (next, some _) => (next, some (aligned + distance))

/-- Writes bytes of a word to the memory of a core. -/
def storePartIn : Core → UInt32 → UInt32 → List (UInt32 × UInt32) →
    Core × Option UInt32
  | ⟨gpr, vec, pc, npc, ram⟩, aligned, word, parts =>
      let (ram, missing) := storePart aligned word parts ram
      (⟨gpr, vec, pc, npc, ram⟩, missing)

/-- A scalar load or store of the instruction at `pc`. -/
def executeMem (core : Core) (pc : UInt32) (op : MemOp) (rt base : RegNum)
    (offset : UInt32) : Core × Option Exception :=
  let address := core.reg base + offset
  let aligned := address &&& ~~~3
  let busError (value : UInt32) : Option Exception :=
    some ⟨.busError, pc, value⟩
  match op with
  | .lwl | .lwr =>
      match loadPart core.ram aligned (partBytes (op == .lwl) address)
        (core.reg rt) with
      | .ok word => (core.setReg rt word, none)
      | .error missing => (core, busError missing)
  | .swl | .swr =>
      let word := core.reg rt
      match core.storePartIn aligned word (partBytes (op == .swl) address) with
      | (core, none) => (core, none)
      | (core, some missing) => (core, busError missing)
  | .sb | .sh | .sw =>
      if address % UInt32.ofNat op.width ≠ 0 then
        (core, some ⟨.addressErrorStore, pc, address⟩)
      else
        match core.ram.offset address op.width with
        | .error _ => (core, busError address)
        | .ok place =>
            let word := core.reg rt
            (core.mapRam fun ram =>
              ram.writeAt place.toNat word.toUInt64 op.width, none)
  | _ =>
      if address % UInt32.ofNat op.width ≠ 0 then
        (core, some ⟨.addressErrorLoad, pc, address⟩)
      else
        match core.ram.read address op.width with
        | .ok value => (core.setReg rt (op.extend value), none)
        | .error _ => (core, busError address)

/-- Where a taken branch at `pc` goes: `offset` words behind its delay slot. -/
def branchTarget (pc offset : UInt32) :
    UInt32 := pc + 4 + (offset <<< (2 : UInt32))

/-- A signed number of bytes as an address distance. -/
def distance (offset : Int) : UInt32 := UInt32.ofInt offset

/-- Executes a decoded instruction that was fetched from `pc`. -/
def perform (core : Core) (pc : UInt32) (operation : Operation) :
    Core × Option Exception :=
  match operation with
  | .alu fn rd rs rt =>
      (core.setReg rd (fn.compute (core.reg rs) (core.reg rt)), none)
  | .shift op rd rt amount =>
      (core.setReg rd (op.compute (core.reg rt) amount), none)
  | .jump rs => (core.setNpc (core.reg rs), none)
  | .branch condition rs rt offset =>
      if condition.holds (core.reg rs).toInt32 (core.reg rt).toInt32 then
        (core.setNpc (branchTarget pc offset), none)
      else (core, none)
  | .signedImm op rt rs imm =>
      (core.setReg rt (op.compute (core.reg rs) imm), none)
  | .unsignedImm op rt rs imm =>
      (core.setReg rt (op.compute (core.reg rs) imm), none)
  | .lui rt imm => (core.setReg rt (imm <<< 16), none)
  | .mem op rt base offset => core.executeMem pc op rt base offset
  | .lanes op size wd ws wt =>
      (core.setVector wd (op.apply size (core.vector ws) (core.vector wt)),
        none)
  | .float op double wd ws wt =>
      (core.setVector wd (op.apply double (core.vector ws) (core.vector wt)),
        none)
  | .bits op wd ws wt =>
      (core.setVector wd
        ((core.vector ws).zipBytes (core.vector wt) op.compute), none)
  | .byteImm op wd ws imm =>
      (core.setVector wd
        ((core.vector ws).mapBytes fun byte => op.compute byte imm), none)
  | .shuffle size wd ws pattern =>
      (core.setVector wd ((core.vector ws).shuffle size pattern), none)
  | .moveV wd ws => (core.setVector wd (core.vector ws), none)
  | .broadcast size wd imm =>
      let word := UInt64.ofInt imm
      (core.setVector wd (.ofLanes size fun _ => word), none)
  | .fill size wd rs =>
      let word := (core.reg rs).toUInt64
      (core.setVector wd (.ofLanes size fun _ => word), none)
  | .loadV wd base offset =>
      let address := core.reg base + distance offset
      match core.ram.offset address 16 with
      | .ok place =>
          (core.setVector wd (.ofBytes core.ram.bytes place.toNat), none)
      | .error _ => (core, some ⟨.busError, pc, address⟩)
  | .storeV wd base offset =>
      let address := core.reg base + distance offset
      match core.ram.offset address 16 with
      | .ok place =>
          let register := core.vector wd
          (core.mapRam fun ram => ram.loadAt place.toNat register.toArray, none)
      | .error _ => (core, some ⟨.busError, pc, address⟩)
  | .copySigned size lane rd ws =>
      (core.setReg rd
        (Lane.signExtend ((core.vector ws).lane size lane)
          size).toUInt64.toUInt32, none)
  | .copyUnsigned size lane rd ws =>
      (core.setReg rd ((core.vector ws).lane size lane).toUInt32, none)
  | .insert size lane wd rs =>
      (core.setVector wd
        ((core.vector wd).setLane size lane (core.reg rs).toUInt64), none)

/-- Executes the word that was fetched from `pc`; the program counters are
already past it. -/
def execute (core : Core) (pc word : UInt32) : Core × Option Exception :=
  match Operation.decode? word with
  | some operation => core.perform pc operation
  | none => (core, some ⟨.reservedInstruction, pc, word⟩)

end Core

end LaneKernel
