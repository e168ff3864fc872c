import LaneKernel.FloatOp
import LaneKernel.Word.Vector

/-!
# Single-word instructions

`Insn` holds the instructions that occupy one word, with their operands as
written.  `Insn.encode` gives the word or says which operand has no encoding,
and `Insn.text` the line of a listing.
-/

namespace LaneKernel

/-- Three register operations of the general bank. -/
inductive AluOp where
  | addu | subu | and | or | xor
deriving DecidableEq, Repr

inductive ShiftOp where
  | sll | srl | sra
deriving DecidableEq, Repr

/-- Operations with a sign extended immediate. -/
inductive SignedImmOp where
  | addiu | slti | sltiu
deriving DecidableEq, Repr

/-- Operations with a zero extended immediate. -/
inductive UnsignedImmOp where
  | andi | ori | xori
deriving DecidableEq, Repr

/-- Scalar loads and stores. -/
inductive MemOp where
  | lb | lbu | lh | lhu | lw | lwl | lwr | sb | sh | sw | swl | swr
deriving DecidableEq, Repr

/-- Integer operations on the lanes of two vectors. -/
inductive LaneOp where
  | addv | subv | maxS | maxU | minS | minU | ceq | cltS | cltU
  | addsS | addsU | averS | averU | subsS | subsU | mulv
deriving DecidableEq, Repr

/-- Bitwise operations, on whole vectors and with a byte immediate. -/
inductive BitOp where
  | and | or | nor | xor
deriving DecidableEq, Repr

namespace AluOp

def name : AluOp → String
  | addu => "addu" | subu => "subu" | and => "and" | or => "or" | xor => "xor"

def function : AluOp → UInt32
  | addu => 0x21 | subu => 0x23 | and => 0x24 | or => 0x25 | xor => 0x26

def all : List AluOp := [addu, subu, and, or, xor]

end AluOp

namespace ShiftOp

def name : ShiftOp → String
  | sll => "sll" | srl => "srl" | sra => "sra"

def function : ShiftOp → UInt32
  | sll => 0x00 | srl => 0x02 | sra => 0x03

def all : List ShiftOp := [sll, srl, sra]

end ShiftOp

namespace SignedImmOp

def name : SignedImmOp → String
  | addiu => "addiu" | slti => "slti" | sltiu => "sltiu"

def opcode : SignedImmOp → UInt32
  | addiu => 0x09 | slti => 0x0a | sltiu => 0x0b

def all : List SignedImmOp := [addiu, slti, sltiu]

end SignedImmOp

namespace UnsignedImmOp

def name : UnsignedImmOp → String
  | andi => "andi" | ori => "ori" | xori => "xori"

def opcode : UnsignedImmOp → UInt32
  | andi => 0x0c | ori => 0x0d | xori => 0x0e

def all : List UnsignedImmOp := [andi, ori, xori]

end UnsignedImmOp

namespace MemOp

def name : MemOp → String
  | lb => "lb" | lbu => "lbu" | lh => "lh" | lhu => "lhu" | lw => "lw"
  | lwl => "lwl" | lwr => "lwr"
  | sb => "sb" | sh => "sh" | sw => "sw" | swl => "swl" | swr => "swr"

def opcode : MemOp → UInt32
  | lb => 0x20 | lh => 0x21 | lwl => 0x22 | lw => 0x23 | lbu => 0x24
  | lhu => 0x25 | lwr => 0x26
  | sb => 0x28 | sh => 0x29 | swl => 0x2a | sw => 0x2b | swr => 0x2e

def all : List MemOp := [lb, lbu, lh, lhu, lw, lwl, lwr, sb, sh, sw, swl, swr]

end MemOp

namespace LaneOp

def name : LaneOp → String
  | addv => "addv" | subv => "subv"
  | maxS => "max_s" | maxU => "max_u" | minS => "min_s" | minU => "min_u"
  | ceq => "ceq" | cltS => "clt_s" | cltU => "clt_u"
  | addsS => "adds_s" | addsU => "adds_u"
  | averS => "aver_s" | averU => "aver_u"
  | subsS => "subs_s" | subsU => "subs_u" | mulv => "mulv"

/-- The operation field. -/
def code : LaneOp → UInt32
  | addv => 0 | subv => 1 | maxS => 2 | maxU => 3 | minS => 4 | minU => 5
  | ceq => 0 | cltS => 2 | cltU => 3
  | addsS => 2 | addsU => 3 | averS => 6 | averU => 7
  | subsS => 0 | subsU => 1
  | mulv => 0

/-- The minor opcode of the operation's group. -/
def minor : LaneOp → UInt32
  | addv | subv | maxS | maxU | minS | minU => Word.minorAddGroup
  | ceq | cltS | cltU => Word.minorCompareGroup
  | addsS | addsU | averS | averU => Word.minorSaturateAddGroup
  | subsS | subsU => Word.minorSaturateSubGroup
  | mulv => Word.minorMultiplyGroup

def all : List LaneOp :=
  [addv, subv, maxS, maxU, minS, minU, ceq, cltS, cltU, addsS, addsU, averS,
    averU, subsS, subsU, mulv]

end LaneOp

namespace FloatOp

def name : FloatOp → String
  | add => "fadd" | sub => "fsub" | mul => "fmul" | div => "fdiv"

def code : FloatOp → UInt32
  | add => 0 | sub => 1 | mul => 2 | div => 3

def all : List FloatOp := [add, sub, mul, div]

end FloatOp

namespace BitOp

/-- The mnemonic on whole vectors. -/
def vectorName : BitOp → String
  | and => "and.v" | or => "or.v" | nor => "nor.v" | xor => "xor.v"

/-- The mnemonic with a byte immediate. -/
def byteName : BitOp → String
  | and => "andi.b" | or => "ori.b" | nor => "nori.b" | xor => "xori.b"

def code : BitOp → UInt32
  | and => 0 | or => 1 | nor => 2 | xor => 3

def all : List BitOp := [and, or, nor, xor]

end BitOp

/-- An instruction of one word, with the operands as the programmer writes
them. -/
inductive Insn where
  | nop
  | alu (op : AluOp) (rd rs rt : Reg)
  | move (rd rs : Reg)
  | shift (op : ShiftOp) (rd rt : Reg) (amount : Int)
  | jr (rs : Reg)
  | signedImm (op : SignedImmOp) (rt rs : Reg) (imm : Int)
  | unsignedImm (op : UnsignedImmOp) (rt rs : Reg) (imm : Int)
  | lui (rt : Reg) (imm : Int)
  | mem (op : MemOp) (rt base : Reg) (offset : Int)
  | lanes (op : LaneOp) (df : DataFormat) (wd ws wt : Reg)
  | float (op : FloatOp) (double : Bool) (wd ws wt : Reg)
  | bits (op : BitOp) (wd ws wt : Reg)
  | byteImm (op : BitOp) (wd ws : Reg) (imm : UInt8)
  | moveV (wd ws : Reg)
  | ldi (df : DataFormat) (wd : Reg) (imm : Int)
  | fill (df : DataFormat) (wd rs : Reg)
  | ld (df : DataFormat) (wd base : Reg) (offset : Int)
  | st (df : DataFormat) (wd base : Reg) (offset : Int)
  | copyS (df : DataFormat) (rd ws : Reg) (lane : Int)
  | copyU (df : DataFormat) (rd ws : Reg) (lane : Int)
  | insert (df : DataFormat) (wd : Reg) (lane : Int) (rs : Reg)
  | shf (df : DataFormat) (wd ws : Reg) (pattern : UInt8)
deriving DecidableEq, Repr

namespace Insn

private def operands (registers : List Reg) : String :=
  ", ".intercalate (registers.map Reg.name)

/-- The line that a listing shows. -/
def text : Insn → String
  | nop => "nop"
  | alu op rd rs rt => op.name ++ " " ++ operands [rd, rs, rt]
  | move rd rs => "move " ++ operands [rd, rs]
  | shift op rd rt amount =>
      op.name ++ " " ++ operands [rd, rt] ++ ", " ++ toString amount
  | jr rs => "jr " ++ rs.name
  | signedImm op rt rs imm =>
      op.name ++ " " ++ operands [rt, rs] ++ ", " ++ toString imm
  | unsignedImm op rt rs imm =>
      op.name ++ " " ++ operands [rt, rs] ++ ", " ++ Text.hex imm.toNat
  | lui rt imm => "lui " ++ rt.name ++ ", " ++ Text.hex imm.toNat
  | mem op rt base offset =>
      op.name ++ " " ++ rt.name ++ ", " ++ toString offset ++ "(" ++
        base.name ++ ")"
  | lanes op df wd ws wt =>
      op.name ++ "." ++ df.suffix ++ " " ++ operands [wd, ws, wt]
  | float op double wd ws wt =>
      op.name ++ (if double then ".d " else ".w ") ++ operands [wd, ws, wt]
  | bits op wd ws wt => op.vectorName ++ " " ++ operands [wd, ws, wt]
  | byteImm op wd ws imm =>
      op.byteName ++ " " ++ operands [wd, ws] ++ ", " ++ Text.hex imm.toNat
  | moveV wd ws => "move.v " ++ operands [wd, ws]
  | ldi df wd imm =>
      "ldi." ++ df.suffix ++ " " ++ wd.name ++ ", " ++ toString imm
  | fill df wd rs => "fill." ++ df.suffix ++ " " ++ operands [wd, rs]
  | ld df wd base offset =>
      "ld." ++ df.suffix ++ " " ++ wd.name ++ ", " ++ toString offset ++ "(" ++
        base.name ++ ")"
  | st df wd base offset =>
      "st." ++ df.suffix ++ " " ++ wd.name ++ ", " ++ toString offset ++ "(" ++
        base.name ++ ")"
  | copyS df rd ws lane =>
      "copy_s." ++ df.suffix ++ " " ++ rd.name ++ ", " ++ ws.name ++ "[" ++
        toString lane ++ "]"
  | copyU df rd ws lane =>
      "copy_u." ++ df.suffix ++ " " ++ rd.name ++ ", " ++ ws.name ++ "[" ++
        toString lane ++ "]"
  | insert df wd lane rs =>
      "insert." ++ df.suffix ++ " " ++ wd.name ++ "[" ++ toString lane ++
        "], " ++ rs.name
  | shf df wd ws pattern =>
      "shf." ++ df.suffix ++ " " ++ operands [wd, ws] ++ ", " ++
        Text.hex pattern.toNat

/-- The word of an instruction whose immediate has already been checked. -/
def memWord (minor : UInt32) (df : DataFormat) (wd base : Reg) (offset : Int) :
    Except AsmError UInt32 :=
  Word.MI10.encode ⟨Int.tdiv offset df.size, base, wd, minor, df⟩

/-- An error of an operand is reported behind the text of the instruction. -/
def named (text : String) (word : Except AsmError UInt32) :
    Except AsmError UInt32 :=
  word.mapError (AsmError.within text)

/-- A vector load or store: the byte offset counts whole elements. -/
def encodeVectorMem (name : String) (minor : UInt32) (text : String)
    (df : DataFormat) (wd base : Reg) (offset : Int) : Except AsmError UInt32 :=
  if df.size = 0 then .error .zeroElementSize
  else if Int.tmod offset df.size ≠ 0 then
    .error (.within (name ++ "." ++ df.suffix)
      (.outOfRange (.offsetMultiple offset df.size)))
  else named text (memWord minor df wd base offset)

/-- The word of an instruction, or which operand has no encoding.  A shift
amount is taken modulo `2 ^ 32` before its range is checked. -/
def encode (instruction : Insn) : Except AsmError UInt32 :=
  let text := instruction.text
  match instruction with
  | nop => .ok 0
  | alu op rd rs rt =>
      named text (Word.RType.encode ⟨rs, rt, rd, 0, op.function⟩)
  | move rd rs =>
      named text (Word.RType.encode ⟨rs, .zero, rd, 0, AluOp.addu.function⟩)
  | shift op rd rt amount =>
      named text
        (Word.RType.encode ⟨.zero, rt, rd, UInt32.ofInt amount, op.function⟩)
  | jr rs => named text (Word.RType.encode ⟨rs, .zero, .zero, 0, 0x08⟩)
  | signedImm op rt rs imm => do
      let value ← named op.name (Word.signed16 imm)
      named text (Word.IType.encode ⟨op.opcode, rs, rt, value⟩)
  | unsignedImm op rt rs imm => do
      let value ← named op.name (Word.unsigned16 imm)
      named text (Word.IType.encode ⟨op.opcode, rs, rt, value⟩)
  | lui rt imm => do
      let value ← named "lui" (Word.unsigned16 imm)
      named text (Word.IType.encode ⟨0x0f, .zero, rt, value⟩)
  | mem op rt base offset => do
      let value ← named op.name (Word.signed16 offset)
      named text (Word.IType.encode ⟨op.opcode, base, rt, value⟩)
  | lanes op df wd ws wt =>
      named text (Word.ThreeR.encode ⟨op.code, df, wt, ws, wd, op.minor⟩)
  | float op double wd ws wt =>
      named text (Word.ThreeRF.encode ⟨op.code, double, wt, ws, wd,
        Word.minorFloat⟩)
  | bits op wd ws wt => named text (Word.VEC.encode ⟨op.code, wt, ws, wd⟩)
  | byteImm op wd ws imm =>
      named text (Word.I8.encode ⟨op.code, imm, ws, wd,
        Word.minorByteImmediate⟩)
  | moveV wd ws => named text (Word.encodeMove wd ws)
  | ldi df wd imm =>
      named text (Word.I10.encode ⟨6, df, imm, wd,
        Word.minorBroadcastImmediate⟩)
  | fill df wd rs => named text (Word.TwoR.encode ⟨0xc0, df, rs, .general, wd⟩)
  | ld df wd base offset =>
      encodeVectorMem "ld" Word.minorLoad text df wd base offset
  | st df wd base offset =>
      encodeVectorMem "st" Word.minorStore text df wd base offset
  | copyS df rd ws lane =>
      named text (Word.ELM.encode ⟨2, df, lane, ws, .vector, rd, .general⟩)
  | copyU df rd ws lane =>
      named text (Word.ELM.encode ⟨3, df, lane, ws, .vector, rd, .general⟩)
  | insert df wd lane rs =>
      named text (Word.ELM.encode ⟨4, df, lane, rs, .general, wd, .vector⟩)
  | shf df wd ws pattern =>
      if df = .double then .error (.within "shf" (.outOfRange .doubleShuffle))
      else
        named text
          (Word.I8.encode ⟨df.tag.toUInt32, pattern, ws, wd, Word.minorShuffle⟩)

/-- Whether the element size of the format does not exist, which stops the
assembler before anything is emitted. -/
def crashes (instruction : Insn) : Bool :=
  match instruction.encode with
  | .ok _ => false
  | .error cause => cause.isCrash

end Insn

end LaneKernel
