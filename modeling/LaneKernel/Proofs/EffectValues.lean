import LaneKernel.Proofs.Constants
import LaneKernel.Proofs.LaneValues

/-!
# Instructions in numbers

`Insn.effect` names the register that an instruction sets and computes what it
sets it to with the functions of the machine.  Here that word or vector is
described without them: by the number that a word or a lane holds, by its bits,
and by the floating point numbers whose patterns stand in its lanes.  The main
statements are `Insn.general_number`, `Insn.general_loaded`, `Insn.vector_lane`,
`Insn.vector_bit` and `Insn.vector_float`.
-/

namespace LaneKernel

namespace Word

/-- The word is the pattern of a number. -/
def Holds (word : UInt32) (number : Int) : Prop :=
  (word.toNat : Int) = number % 2 ^ 32

theorem holds_of_toNat_eq {word : UInt32} {number : Nat}
    (same : word.toNat = number) : Holds word number := by
  have bound := word.toNat_lt
  unfold Holds
  omega

theorem holds_signed {value : Int32} {number : Int}
    (same : value.toInt = number) : Holds value.toUInt32 number := by
  have pattern : value.toInt = Int.bmod value.toUInt32.toNat (2 ^ 32) :=
    BitVec.toInt_eq_toNat_bmod value.toBitVec
  have bound := value.toUInt32.toNat_lt
  rw [Int.bmod_def] at pattern
  unfold Holds
  omega

theorem holds_boolWord (condition : Bool) :
    Holds (Core.boolWord condition) (if condition then 1 else 0) := by
  cases condition <;> rfl

end Word

open Word

namespace RegisterFn

/-- The number that an operation on two words gives. -/
def number (fn : RegisterFn) (a b : UInt32) : Int :=
  match fn with
  | addu => a.toNat + b.toNat
  | subu => a.toNat - b.toNat
  | and => (a.toNat &&& b.toNat : Nat)
  | or => (a.toNat ||| b.toNat : Nat)
  | xor => (a.toNat ^^^ b.toNat : Nat)
  | nor => 2 ^ 32 - 1 - (a.toNat ||| b.toNat : Nat)
  | slt => if a.toInt32.toInt < b.toInt32.toInt then 1 else 0
  | sltu => if a.toNat < b.toNat then 1 else 0

theorem holds_compute (fn : RegisterFn) (a b : UInt32) :
    Holds (fn.compute a b) (fn.number a b) := by
  cases fn
  case addu =>
    have isSum := UInt32.toNat_add a b
    simp only [compute, number, Holds]
    omega
  case subu =>
    have bound := b.toNat_lt
    have isDifference := UInt32.toNat_sub a b
    simp only [compute, number, Holds]
    omega
  case and => exact holds_of_toNat_eq (UInt32.toNat_and a b)
  case or => exact holds_of_toNat_eq (UInt32.toNat_or a b)
  case xor => exact holds_of_toNat_eq (UInt32.toNat_xor a b)
  case nor =>
    have isNot := UInt32.toNat_not (a ||| b)
    have bound := (a ||| b).toNat_lt
    rw [number, ← UInt32.toNat_or]
    simp only [compute, Holds, isNot, UInt32.size]
    omega
  case slt =>
    simpa [compute, number, Int32.lt_iff_toInt_lt] using
      holds_boolWord (a.toInt32 < b.toInt32)
  case sltu =>
    simpa [compute, number, UInt32.lt_iff_toNat_lt] using holds_boolWord (a < b)

end RegisterFn

namespace ShiftOp

/-- The number that a shift gives; the arithmetic one rounds down. -/
def number (op : ShiftOp) (value : UInt32) (count : Nat) : Int :=
  match op with
  | sll => value.toNat * 2 ^ count
  | srl => value.toNat / 2 ^ count
  | sra => value.toInt32.toInt / 2 ^ count

theorem toInt_shiftRight (value : Int32) {amount : UInt32}
    (small : amount.toNat < 32) :
    (value >>> amount.toInt32).toInt = value.toInt / 2 ^ amount.toNat := by
  have isAmount :
      amount.toInt32.toBitVec.smod 32 = BitVec.ofNat 32 amount.toNat := by
    have every : ∀ count < 32,
        (UInt32.ofNat count).toInt32.toBitVec.smod 32 =
          BitVec.ofNat 32 count := by
      decide
    simpa using every amount.toNat small
  change (value >>> amount.toInt32).toBitVec.toInt = _
  rw [Int32.toBitVec_shiftRight, isAmount, BitVec.sshiftRight_eq',
    BitVec.toNat_ofNat, Nat.mod_eq_of_lt (by omega), BitVec.toInt_sshiftRight,
    Int.shiftRight_eq_div_pow]
  rfl

theorem holds_compute (op : ShiftOp) (value : UInt32) {amount : UInt32}
    (small : amount.toNat < 32) :
    Holds (op.compute value amount) (op.number value amount.toNat) := by
  cases op with
  | sll =>
      have isShifted := UInt32.toNat_shiftLeft value amount
      rw [Nat.mod_eq_of_lt small, Nat.shiftLeft_eq] at isShifted
      simp only [compute, number, Holds, isShifted]
      push_cast
      rfl
  | srl =>
      have isShifted := UInt32.toNat_shiftRight value amount
      rw [Nat.mod_eq_of_lt small, Nat.shiftRight_eq_div_pow] at isShifted
      exact_mod_cast holds_of_toNat_eq isShifted
  | sra => exact holds_signed (toInt_shiftRight _ small)

end ShiftOp

namespace SignedImmOp

/-- The number that an operation with a signed immediate gives. -/
def number (op : SignedImmOp) (a : UInt32) (imm : Int) : Int :=
  match op with
  | addiu => a.toNat + imm
  | slti => if a.toInt32.toInt < imm then 1 else 0
  | sltiu => if (a.toNat : Int) < imm % 2 ^ 32 then 1 else 0

theorem holds_compute (op : SignedImmOp) (a : UInt32) {imm : Int}
    (near : -0x8000 ≤ imm ∧ imm ≤ 0x7fff) :
    Holds (op.compute a (Core.distance imm)) (op.number a imm) := by
  have isImm : ((Core.distance imm).toNat : Int) = imm % 2 ^ 32 := by
    rw [Core.distance, toNat_ofInt]
    omega
  cases op with
  | addiu =>
      have isSum := UInt32.toNat_add a (Core.distance imm)
      simp only [compute, number, Holds]
      omega
  | slti =>
      simpa [compute, number, Int32.lt_iff_toInt_lt,
        Core.toInt_distance near] using
          holds_boolWord (a.toInt32 < (Core.distance imm).toInt32)
  | sltiu =>
      rw [number, ← isImm]
      simpa [compute, UInt32.lt_iff_toNat_lt] using
        holds_boolWord (a < Core.distance imm)

end SignedImmOp

namespace UnsignedImmOp

/-- The number that an operation with an unsigned immediate gives. -/
def number (op : UnsignedImmOp) (a : UInt32) (imm : Int) : Int :=
  match op with
  | andi => (a.toNat &&& imm.toNat : Nat)
  | ori => (a.toNat ||| imm.toNat : Nat)
  | xori => (a.toNat ^^^ imm.toNat : Nat)

theorem toNat_imm {imm : Int} (bounds : 0 ≤ imm ∧ imm ≤ 0xffff) :
    (UInt32.ofNat imm.toNat).toNat = imm.toNat := by
  rw [UInt32.toNat_ofNat']
  omega

theorem holds_compute (op : UnsignedImmOp) (a : UInt32) {imm : Int}
    (bounds : 0 ≤ imm ∧ imm ≤ 0xffff) :
    Holds (op.compute a (UInt32.ofNat imm.toNat)) (op.number a imm) := by
  obtain ⟨word, isWord⟩ : ∃ word, word = UInt32.ofNat imm.toNat := ⟨_, rfl⟩
  have isImm := toNat_imm bounds
  rw [← isWord] at isImm ⊢
  cases op with
  | andi =>
      rw [number, ← isImm]
      exact holds_of_toNat_eq (UInt32.toNat_and a word)
  | ori =>
      rw [number, ← isImm]
      exact holds_of_toNat_eq (UInt32.toNat_or a word)
  | xori =>
      rw [number, ← isImm]
      exact holds_of_toNat_eq (UInt32.toNat_xor a word)

end UnsignedImmOp

namespace MemOp

/-- The number that a load of a whole value gives. -/
def number (op : MemOp) (value : UInt64) : Int :=
  match op with
  | lb => Lane.signedValue value 1
  | lh => Lane.signedValue value 2
  | _ => value.toNat

theorem holds_signExtend {size : Nat} (valid : Lane.validSize ↑size = true)
    (word : UInt64) :
    Holds (Lane.signExtend word size).toUInt64.toUInt32
      (Lane.signedValue word size) := by
  have isWord := Lane.toNat_toUInt64 (Lane.signExtend word size)
  rw [Lane.toInt_signExtend valid] at isWord
  unfold Holds
  rw [UInt64.toNat_toUInt32]
  omega

theorem holds_extend (op : MemOp) (value : UInt64) :
    Holds (op.extend value) (op.number value) := by
  cases op
  case lb => exact holds_signExtend (by decide) value
  case lh => exact holds_signExtend (by decide) value
  all_goals
    simp only [extend, number, Holds, UInt64.toNat_toUInt32]
    omega

end MemOp

namespace BitOp

/-- The operation on one bit. -/
def bit (op : BitOp) (a b : Bool) : Bool :=
  match op with
  | and => a && b
  | or => a || b
  | nor => !(a || b)
  | xor => a ^^ b

theorem testBit_compute (op : BitOp) (a b : UInt8) {place : Nat}
    (inside : place < 8) :
    (op.compute a b).toNat.testBit place =
      op.bit (a.toNat.testBit place) (b.toNat.testBit place) := by
  cases op with
  | and => simp [compute, bit, UInt8.toNat_and, Nat.testBit_and]
  | or => simp [compute, bit, UInt8.toNat_or, Nat.testBit_or]
  | xor => simp [compute, bit, UInt8.toNat_xor, Nat.testBit_xor]
  | nor =>
      change (~~~(a ||| b).toBitVec).getLsbD place =
        !(a.toBitVec.getLsbD place || b.toBitVec.getLsbD place)
      simp [inside]

end BitOp

namespace FloatOp

/-- The operation on single precision numbers. -/
def onSingles (op : FloatOp) (a b : Float32) : Float32 :=
  match op with
  | add => a + b
  | sub => a - b
  | mul => a * b
  | div => a / b

/-- The operation on double precision numbers. -/
def onDoubles (op : FloatOp) (a b : Float) : Float :=
  match op with
  | add => a + b
  | sub => a - b
  | mul => a * b
  | div => a / b

theorem single_eq (op : FloatOp) (x y : UInt32) :
    op.single x y = (op.onSingles (.ofBits x) (.ofBits y)).toBits := by
  cases op <;> rfl

theorem double_eq (op : FloatOp) (x y : UInt64) :
    op.double x y = (op.onDoubles (.ofBits x) (.ofBits y)).toBits := by
  cases op <;> rfl

end FloatOp

theorem DataFormat.Named.validSize {df : DataFormat} (named : df.Named) :
    Lane.validSize ↑df.bytes = true := by
  rcases named.cases with rfl | rfl | rfl | rfl <;> decide

/-- Bit number `place` of a register, the low bit of the first byte first. -/
def VectorRegister.bit (register : VectorRegister) (place : Nat) : Bool :=
  (register.byte (place / 8)).toNat.testBit (place % 8)

namespace Insn

/-- The number that an instruction leaves in the general register that it sets,
unless it loads it. -/
def number? (core : Core) : Insn → Option Int
  | alu op _ rs rt =>
      some (op.registerFn.number (core.reg rs.index) (core.reg rt.index))
  | move _ rs => some (core.reg rs.index).toNat
  | shift op _ rt amount => some (op.number (core.reg rt.index) amount.toNat)
  | signedImm op _ rs imm => some (op.number (core.reg rs.index) imm)
  | unsignedImm op _ rs imm => some (op.number (core.reg rs.index) imm)
  | lui _ imm => some (imm * 2 ^ 16)
  | copyS df _ ws lane =>
      some (Lane.signedValue ((core.vector ws.index).lane df.bytes lane.toNat)
        df.bytes)
  | copyU df _ ws lane =>
      some ((core.vector ws.index).lane df.bytes lane.toNat).toNat
  | _ => none

/-- The number that an instruction leaves in a lane of the vector register that
it sets, with the size of the lanes. -/
def lane? (core : Core) (index : Nat) : Insn → Option (Nat × Int)
  | lanes op df _ ws wt =>
      some (df.bytes,
        op.number df.bytes ((core.vector ws.index).lane df.bytes index)
          ((core.vector wt.index).lane df.bytes index))
  | ldi df _ imm => some (df.bytes, imm)
  | fill df _ rs => some (df.bytes, (core.reg rs.index).toNat)
  | insert df wd lane rs =>
      some (df.bytes, if index = lane.toNat then (core.reg rs.index).toNat
        else ((core.vector wd.index).lane df.bytes index).toNat)
  | shf df _ ws pattern =>
      some (df.bytes, ((core.vector ws.index).lane df.bytes
        (index / 4 * 4 + pattern.toNat / 4 ^ (index % 4) % 4)).toNat)
  | _ => none

/-- The bit that an instruction that works on bits leaves in the vector register
that it sets. -/
def bit? (core : Core) (place : Nat) : Insn → Option Bool
  | bits op _ ws wt =>
      some (op.bit ((core.vector ws.index).bit place)
        ((core.vector wt.index).bit place))
  | byteImm op _ ws imm =>
      some (op.bit ((core.vector ws.index).bit place)
        (imm.toNat.testBit (place % 8)))
  | moveV _ ws => some ((core.vector ws.index).bit place)
  | _ => none

variable {core : Core} {instruction : Insn}

/-- An instruction sets its general register to the pattern of its number. -/
theorem general_number {number : Int} (fits : instruction.encodable = true)
    (isNumber : instruction.number? core = some number) :
    ∃ register value, instruction.generalTarget = some register ∧
      instruction.effect core = .general register value ∧
        Holds value number := by
  unfold encodable at fits
  cases instruction <;> cases isNumber
  all_goals simp only [Bool.and_eq_true, decide_eq_true_eq, and_assoc] at fits
  case alu op rd rs rt =>
    exact ⟨_, _, rfl, rfl, op.registerFn.holds_compute _ _⟩
  case move rd rs => exact ⟨_, _, rfl, rfl, holds_of_toNat_eq rfl⟩
  case shift op rd rt amount =>
    have isAmount : (UInt32.ofInt amount).toNat = amount.toNat := by
      rw [toNat_ofInt]
      omega
    have holds := op.holds_compute (core.reg rt.index)
      (show (UInt32.ofInt amount).toNat < 32 by omega)
    rw [isAmount] at holds
    exact ⟨_, _, rfl, rfl, holds⟩
  case signedImm op rt rs imm =>
    exact ⟨_, _, rfl, rfl, op.holds_compute _ fits.2.2⟩
  case unsignedImm op rt rs imm =>
    exact ⟨_, _, rfl, rfl, op.holds_compute _ fits.2.2⟩
  case lui rt imm =>
    refine ⟨_, _, rfl, rfl, ?_⟩
    have isImm := UnsignedImmOp.toNat_imm fits.2
    have isShifted := UInt32.toNat_shiftLeft (UInt32.ofNat imm.toNat) 16
    rw [isImm, Nat.shiftLeft_eq] at isShifted
    change _ = imm.toNat * 2 ^ 16 % 2 ^ 32 at isShifted
    unfold Holds
    omega
  case copyS df rd ws lane =>
    have named : df.Named := (of_decide_eq_true fits.2.2).1
    exact ⟨_, _, rfl, rfl, MemOp.holds_signExtend named.validSize _⟩
  case copyU df rd ws lane =>
    refine ⟨_, _, rfl, rfl, ?_⟩
    unfold Holds
    rw [UInt64.toNat_toUInt32]
    omega

/-- A load of a whole value leaves the number that stands in memory. -/
theorem general_loaded {op : MemOp} {rt base : Reg} {offset : Int}
    {address : UInt32}
    (isAddress : address = core.reg base.index + Core.distance offset)
    (isLoad : op.isStore = false) (whole : op.isPart = false)
    (aligned : address % UInt32.ofNat op.width = 0)
    (present : op.width ≤ core.ram.available address) :
    ∃ value, (mem op rt base offset).effect core = .general rt.index value ∧
      Holds value (op.number
        (FlatMemory.valueAt core.ram.bytes (address - core.ram.base).toNat
          op.width)) := by
  have isStart := MemOp.start_of_whole whole address
  have isCount := MemOp.count_of_whole whole address
  refine ⟨_, ?_, op.holds_extend _⟩
  rw [effect, ← isAddress, MemOp.effect]
  simp [isStart, isCount, isLoad, whole, aligned, present, MemOp.loaded]

/-- An instruction leaves its number in every lane of its vector register. -/
theorem vector_lane {index size : Nat} {number : Int}
    (named : instruction.NamedFormat)
    (isLane : instruction.lane? core index = some (size, number))
    (inside : (index + 1) * size ≤ 16) :
    ∃ register value, instruction.vectorTarget = some register ∧
      instruction.effect core = .vector register value ∧
      Lane.Holds (value.lane size index) size number := by
  cases instruction <;> cases isLane
  case lanes op df wd ws wt =>
    exact ⟨_, _, rfl, rfl,
      VectorRegister.holds_lane_apply _ _ named.validSize inside op⟩
  case ldi df wd =>
    have small := (Lane.size_of_valid named.validSize).2
    refine ⟨_, _, rfl, rfl, ?_⟩
    rw [VectorRegister.lane_ofLanes _ small inside]
    refine Lane.holds_truncate named.validSize ?_
    rw [UInt64.ofInt, UInt64.toNat_ofNat']
    omega
  case fill df wd rs =>
    have small := (Lane.size_of_valid named.validSize).2
    refine ⟨_, _, rfl, rfl, ?_⟩
    rw [VectorRegister.lane_ofLanes _ small inside]
    exact LaneOp.holds_unsigned named.validSize (UInt32.toNat_toUInt64 _)
  case insert df wd lane rs =>
    have small := (Lane.size_of_valid named.validSize).2
    refine ⟨_, _, rfl, rfl, ?_⟩
    rw [VectorRegister.lane_setLane _ _ _ small inside]
    split
    · exact LaneOp.holds_unsigned named.validSize (UInt32.toNat_toUInt64 _)
    · exact Lane.holds_toNat (Lane.toNat_lt_of_fits (Lane.fits_lane _ _ small))
  case shf df wd ws pattern =>
    have small := (Lane.size_of_valid named.validSize).2
    refine ⟨_, _, rfl, rfl, ?_⟩
    rw [VectorRegister.lane_shuffle _ named.validSize inside]
    exact Lane.holds_toNat (Lane.toNat_lt_of_fits (Lane.fits_lane _ _ small))

/-- An instruction that works on bits leaves each of them in its vector
register. -/
theorem vector_bit {place : Nat} {bit : Bool}
    (isBit : instruction.bit? core place = some bit) (inside : place < 128) :
    ∃ register value, instruction.vectorTarget = some register ∧
      instruction.effect core = .vector register value ∧
        value.bit place = bit := by
  have byteInside : place / 8 < 16 := by omega
  have bitInside : place % 8 < 8 := Nat.mod_lt _ (by decide)
  cases instruction <;> cases isBit
  case bits op wd ws wt =>
    refine ⟨_, _, rfl, rfl, ?_⟩
    rw [VectorRegister.bit, VectorRegister.byte_zipBytes _ _ _ byteInside]
    exact op.testBit_compute _ _ bitInside
  case byteImm op wd ws imm =>
    refine ⟨_, _, rfl, rfl, ?_⟩
    rw [VectorRegister.bit, VectorRegister.byte_mapBytes _ _ byteInside]
    exact op.testBit_compute _ _ bitInside
  case moveV wd ws => exact ⟨_, _, rfl, rfl, rfl⟩

/-- A floating point instruction leaves the pattern of its result in every
lane. -/
theorem vector_float (op : FloatOp) (double : Bool) (wd ws wt : Reg) :
    ∃ value, (float op double wd ws wt).effect core = .vector wd.index value ∧
      if double then
        ∀ index < 2, value.lane 8 index =
          (op.onDoubles (.ofBits ((core.vector ws.index).lane 8 index))
            (.ofBits ((core.vector wt.index).lane 8 index))).toBits
      else
        ∀ index < 4, value.lane 4 index =
          (op.onSingles
            (.ofBits ((core.vector ws.index).lane 4 index).toUInt32)
            (.ofBits ((core.vector wt.index).lane 4 index).toUInt32)
          ).toBits.toUInt64 := by
  refine ⟨_, rfl, ?_⟩
  cases double with
  | true =>
      intro index inside
      rw [FloatOp.apply, if_pos rfl,
        VectorRegister.lane_ofLanes _ (by decide) (by omega), FloatOp.double_eq]
      rfl
  | false =>
      intro index inside
      rw [FloatOp.apply, if_neg Bool.false_ne_true,
        VectorRegister.lane_ofLanes _ (by decide) (by omega), FloatOp.single_eq]
      exact (Lane.fits_of_toNat_lt (UInt32.toNat_lt _)).truncate_eq

end Insn

end LaneKernel
