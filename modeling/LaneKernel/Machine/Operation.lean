import LaneKernel.Fragment

/-!
# Decoded instructions

`Operation` is what the machine executes: every instruction with its registers
as numbers and its immediates extended.  `Operation.decode?` reads it from a
word and gives none for the words that are reserved.
-/

namespace LaneKernel

/-- Three register operations that the machine knows. -/
inductive RegisterFn where
  | addu | subu | and | or | xor | nor | slt | sltu
deriving DecidableEq, Repr

def RegisterFn.ofCode? (code : UInt32) : Option RegisterFn :=
  match code.toNat with
  | 0x21 => some addu
  | 0x23 => some subu
  | 0x24 => some and
  | 0x25 => some or
  | 0x26 => some xor
  | 0x27 => some nor
  | 0x2a => some slt
  | 0x2b => some sltu
  | _ => none

/-- The lane operation of a minor opcode and an operation field, as the lane
unit tells them apart. -/
def LaneOp.ofCode? (minor code : UInt32) : Option LaneOp :=
  match minor.toNat, code.toNat with
  | 0x0e, 0 => some addv
  | 0x0e, 1 => some subv
  | 0x0e, 2 => some maxS
  | 0x0e, 3 => some maxU
  | 0x0e, 4 => some minS
  | 0x0e, 5 => some minU
  | 0x0f, 0 => some ceq
  | 0x0f, 2 => some cltS
  | 0x0f, 3 => some cltU
  | 0x10, 2 => some addsS
  | 0x10, 3 => some addsU
  | 0x10, 6 => some averS
  | 0x10, 7 => some averU
  | 0x11, 0 => some subsS
  | 0x11, 1 => some subsU
  | 0x12, 0 => some mulv
  | _, _ => none

def FloatOp.ofCode? (code : UInt32) : Option FloatOp :=
  match code.toNat with
  | 0 => some add
  | 1 => some sub
  | 2 => some mul
  | 3 => some div
  | _ => none

def BitOp.ofCode? (code : UInt32) : Option BitOp :=
  match code.toNat with
  | 0 => some and
  | 1 => some or
  | 2 => some nor
  | 3 => some xor
  | _ => none

/-- The number of a register in its bank. -/
abbrev RegNum := Fin 32

namespace Word

/-- A five-bit field as a register number. -/
def register (field : UInt32) : RegNum := Fin.ofNat 32 field.toNat

end Word

inductive Operation where
  | alu (fn : RegisterFn) (rd rs rt : RegNum)
  | shift (op : ShiftOp) (rd rt : RegNum) (amount : UInt32)
  | jump (rs : RegNum)
  | branch (condition : Condition) (rs rt : RegNum) (offset : UInt32)
  | signedImm (op : SignedImmOp) (rt rs : RegNum) (imm : UInt32)
  | unsignedImm (op : UnsignedImmOp) (rt rs : RegNum) (imm : UInt32)
  | lui (rt : RegNum) (imm : UInt32)
  | mem (op : MemOp) (rt base : RegNum) (offset : UInt32)
  | lanes (op : LaneOp) (size : Nat) (wd ws wt : RegNum)
  | float (op : FloatOp) (double : Bool) (wd ws wt : RegNum)
  | bits (op : BitOp) (wd ws wt : RegNum)
  | byteImm (op : BitOp) (wd ws : RegNum) (imm : UInt8)
  | shuffle (size : Nat) (wd ws : RegNum) (pattern : UInt8)
  | moveV (wd ws : RegNum)
  | broadcast (size : Nat) (wd : RegNum) (imm : Int)
  | fill (size : Nat) (wd rs : RegNum)
  | loadV (wd base : RegNum) (offset : Int)
  | storeV (wd base : RegNum) (offset : Int)
  | copySigned (size lane : Nat) (rd ws : RegNum)
  | copyUnsigned (size lane : Nat) (rd ws : RegNum)
  | insert (size lane : Nat) (wd rs : RegNum)
deriving DecidableEq, Repr

namespace Operation

open Word in
/-- The arithmetic group, told apart by the function field. -/
def decodeRegister (word : UInt32) : Option Operation :=
  match (function word).toNat with
  | 0x00 =>
      some (.shift .sll (register (rd word)) (register (rt word))
        (shiftAmount word))
  | 0x02 =>
      some (.shift .srl (register (rd word)) (register (rt word))
        (shiftAmount word))
  | 0x03 =>
      some (.shift .sra (register (rd word)) (register (rt word))
        (shiftAmount word))
  | 0x08 => some (.jump (register (rs word)))
  | _ =>
      (RegisterFn.ofCode? (function word)).map fun fn =>
        .alu fn (register (rd word)) (register (rs word)) (register (rt word))

open Word in
/-- The element format. -/
def decodeElement (word : UInt32) : Option Operation :=
  let op := ((word >>> 22) &&& 0xf).toNat
  let index := (word >>> 16) &&& 0x3f
  let src := register (ws word)
  let dst := register (wd word)
  if op = 2 ∧ index = 0x3e then some (.moveV dst src)
  else
    match splitElementIndex index with
    | none => none
    | some (size, lane) =>
        if size = 8 then none
        else
          match op with
          | 2 => some (.copySigned size lane dst src)
          | 3 =>
              if size = 4 then none else some (.copyUnsigned size lane dst src)
          | 4 => some (.insert size lane dst src)
          | _ => none

open Word in
/-- The whole register operations and the fill, which share a minor opcode. -/
def decodeWhole (word : UInt32) : Option Operation :=
  match BitOp.ofCode? ((word >>> 21) &&& 0x1f) with
  | some op =>
      some (.bits op (register (wd word)) (register (ws word))
        (register (wt word)))
  | none =>
      let size := elementSize ((word >>> 16) &&& 3).toNat
      if (word >>> 18) &&& 0xff = 0xc0 ∧ size ≠ 8 then
        some (.fill size (register (wd word)) (register (ws word)))
      else none

open Word in
/-- The eight bit immediates. -/
def decodeByteImm (word : UInt32) : Option Operation :=
  let imm := (word >>> 16).toUInt8
  let op := (word >>> 24) &&& 3
  if (minor word).toNat = 0x02 then
    if op = 3 then none
    else some (.shuffle (elementSize op.toNat) (register (wd word))
      (register (ws word)) imm)
  else
    (BitOp.ofCode? op).map fun op =>
      .byteImm op (register (wd word)) (register (ws word)) imm

open Word in
/-- The vector extension, told apart by the minor opcode. -/
def decodeVector (word : UInt32) : Option Operation :=
  let code := (minor word).toNat
  if code = 0x00 ∨ code = 0x02 then decodeByteImm word
  else if code = 0x07 then
    if (word >>> 23) &&& 7 = 6 then
      some (.broadcast (elementSize (format word)) (register (wd word))
        (signed10 (word >>> 11)))
    else none
  else if 0x0e ≤ code ∧ code ≤ 0x12 then
    (LaneOp.ofCode? (minor word) ((word >>> 23) &&& 7)).map fun op =>
      .lanes op (elementSize (format word)) (register (wd word))
        (register (ws word)) (register (wt word))
  else if code = 0x19 then decodeElement word
  else if code = 0x1b then
    (FloatOp.ofCode? ((word >>> 22) &&& 0xf)).map fun op =>
      .float op ((word >>> 21) &&& 1 == 1) (register (wd word))
        (register (ws word)) (register (wt word))
  else if code = 0x1e then decodeWhole word
  else
    let offset := signed10 (word >>> 16) * elementSize (word &&& 3).toNat
    if word &&& 0x3c = 0x20 then
      some (.loadV (register (wd word)) (register (ws word)) offset)
    else if word &&& 0x3c = 0x24 then
      some (.storeV (register (wd word)) (register (ws word)) offset)
    else none

open Word in
/-- The operation of a word; reserved words have none. -/
def decode? (word : UInt32) : Option Operation :=
  let s := register (rs word)
  let t := register (rt word)
  let signed := signedImmediate word
  let unsigned := unsignedImmediate word
  match (opcode word).toNat with
  | 0x00 => decodeRegister word
  | 0x01 =>
      match (rt word).toNat with
      | 0 => some (.branch .ltz s t signed)
      | 1 => some (.branch .gez s t signed)
      | _ => none
  | 0x04 => some (.branch .eq s t signed)
  | 0x05 => some (.branch .ne s t signed)
  | 0x06 => some (.branch .lez s t signed)
  | 0x07 => some (.branch .gtz s t signed)
  | 0x09 => some (.signedImm .addiu t s signed)
  | 0x0a => some (.signedImm .slti t s signed)
  | 0x0b => some (.signedImm .sltiu t s signed)
  | 0x0c => some (.unsignedImm .andi t s unsigned)
  | 0x0d => some (.unsignedImm .ori t s unsigned)
  | 0x0e => some (.unsignedImm .xori t s unsigned)
  | 0x0f => some (.lui t unsigned)
  | 0x1e => decodeVector word
  | 0x20 => some (.mem .lb t s signed)
  | 0x21 => some (.mem .lh t s signed)
  | 0x22 => some (.mem .lwl t s signed)
  | 0x23 => some (.mem .lw t s signed)
  | 0x24 => some (.mem .lbu t s signed)
  | 0x25 => some (.mem .lhu t s signed)
  | 0x26 => some (.mem .lwr t s signed)
  | 0x28 => some (.mem .sb t s signed)
  | 0x29 => some (.mem .sh t s signed)
  | 0x2a => some (.mem .swl t s signed)
  | 0x2b => some (.mem .sw t s signed)
  | 0x2e => some (.mem .swr t s signed)
  | _ => none

end Operation

end LaneKernel
