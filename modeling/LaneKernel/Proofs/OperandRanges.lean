import LaneKernel.Proofs.BranchTargets
import LaneKernel.Proofs.Encodable

/-!
# Operands out of range

Which operands the assembler accepts for one instruction.  `Item.InRange` says
which of them fit their fields; each of these gives the word of its operands.
Two kinds of operands that do not fit are accepted all the same: a shift amount
counts modulo `2 ^ 32`, and an element format without a name counts as one of
the four that have one, as `Insn.heard` says; a format so large that its element
size is zero stops the assembler.  Everything else is refused with an error of
its operand.  The main statement is `Item.emit_checked`.
-/

namespace LaneKernel

open Outcome

/-- The named format whose bits an instruction word holds for a format. -/
def DataFormat.masked (df : DataFormat) : DataFormat := ⟨df.tag &&& 3⟩

namespace Insn

/-- Every operand fits its field, and the element format is one of the four. -/
def InRange (instruction : Insn) : Prop :=
  instruction.NamedFormat ∧ instruction.encodable = true

/-- The instruction whose word is given for operands that slip through. -/
def heard : Insn → Insn
  | shift op rd rt amount => shift op rd rt (amount % 0x100000000)
  | lanes op df wd ws wt => lanes op df.masked wd ws wt
  | ldi df wd imm => ldi df.masked wd imm
  | fill df wd rs => fill df.masked wd rs
  | ld df wd base offset =>
      ld df.masked wd base (offset.tdiv df.size * df.masked.size)
  | st df wd base offset =>
      st df.masked wd base (offset.tdiv df.size * df.masked.size)
  | copyS _ rd ws lane => copyS .double rd ws lane
  | copyU _ rd ws lane => copyU .double rd ws lane
  | insert _ wd lane rs => insert .double wd lane rs
  | other => other

/-- Operands that are out of range and accepted all the same. -/
def Slips : Insn → Prop
  | shift _ rd rt amount =>
      rd.isGeneral = true ∧ rt.isGeneral = true ∧ ¬ (0 ≤ amount ∧ amount ≤ 31) ∧
        amount % 0x100000000 ≤ 31
  | lanes _ df wd ws wt =>
      ¬ df.Named ∧ wd.isVector = true ∧ ws.isVector = true ∧ wt.isVector = true
  | ldi df wd imm => ¬ df.Named ∧ wd.isVector = true ∧ -512 ≤ imm ∧ imm ≤ 511
  | fill df wd rs => ¬ df.Named ∧ wd.isVector = true ∧ rs.isGeneral = true
  | ld df wd base offset | st df wd base offset =>
      ¬ df.Named ∧ wd.isVector = true ∧ base.isGeneral = true ∧ df.size ≠ 0 ∧
        offset.tmod df.size = 0 ∧ -512 ≤ offset.tdiv df.size ∧
          offset.tdiv df.size ≤ 511
  | copyS df rd ws lane | copyU df rd ws lane =>
      df = ⟨4⟩ ∧ lane = 0 ∧ rd.isGeneral = true ∧ ws.isVector = true
  | insert df wd lane rs =>
      df = ⟨4⟩ ∧ lane = 0 ∧ wd.isVector = true ∧ rs.isGeneral = true
  | _ => False

/-- The element size counts and is zero. -/
def Sizeless : Insn → Prop
  | ld df _ _ _ | st df _ _ _ | copyS df _ _ _ | copyU df _ _ _
  | insert df _ _ _ => df.size = 0
  | _ => False

end Insn

namespace Item

/-- One instruction that is written as such; a branch names its condition. -/
def IsSingle : Item → Prop
  | insn _ => True
  | branch condition _ _ _ => ∀ tag, condition ≠ .unknown tag
  | mark _ => False

/-- Every operand fits its field. -/
def InRange : Item → Prop
  | insn instruction => instruction.InRange
  | branch condition ra rb label => condition.Takes ra rb ∧ label.valid = true
  | mark _ => False

def Slips : Item → Prop
  | insn instruction => instruction.Slips
  | _ => False

def heard : Item → Item
  | insn instruction => insn instruction.heard
  | other => other

def Sizeless : Item → Prop
  | insn instruction => instruction.Sizeless
  | _ => False

/-- The machine takes the word for the operation of the item and its
operands. -/
def Means (word : UInt32) : Item → Prop
  | insn instruction => Operation.decode? word = instruction.operation?
  | branch condition ra rb _ => ∃ other offset,
      Operation.decode? word = some (.branch condition ra.index other offset) ∧
        ∀ core : Core,
          condition.holds (core.reg ra.index).toInt32 (core.reg other).toInt32 =
            condition.holds (core.reg ra.index).toInt32
            (core.reg rb.index).toInt32
  | mark _ => False

/-- The words of an item: a branch has a word without effect behind it. -/
def code (word : UInt32) : Item → Array UInt8
  | branch _ _ _ _ => Word.bytes word ++ Word.bytes 0
  | _ => Word.bytes word

end Item

/-- The error is about a register of the wrong bank or a number that does not
fit. -/
def AsmError.OfOperand (cause : AsmError) : Prop :=
  .badRegister ∈ cause.classes ∨ .outOfRange ∈ cause.classes

namespace DataFormat

theorem Named.size_pos {df : DataFormat} (named : df.Named) : 0 < df.size := by
  rcases named.cases with rfl | rfl | rfl | rfl <;> decide

theorem masked_named (df : DataFormat) : df.masked.Named := by
  have mask := Nat.and_two_pow_sub_one_eq_mod df.tag.toNat 2
  unfold Named masked
  rw [UInt8.toNat_and]
  change df.tag.toNat &&& (2 ^ 2 - 1) < 4
  omega

@[simp] theorem bits_masked (df : DataFormat) : df.masked.bits = df.bits := by
  unfold bits masked
  rw [UInt8.and_assoc]
  rfl

end DataFormat

namespace Word

/-- A format behind the first five has no lanes. -/
theorem lanes_of_large {df : DataFormat} (large : 4 < df.tag.toNat) :
    Int.tdiv 16 df.size ≤ 0 := by
  unfold DataFormat.size
  split
  case isTrue =>
    have growth : 2 ^ 5 ≤ 2 ^ df.tag.toNat :=
      Nat.pow_le_pow_right (by decide) large
    rw [Int.tdiv_eq_zero_of_lt (by decide) (by omega)]
  case isFalse => split <;> decide

/-- A lane that is accepted exists, or is lane zero of the format behind the
four. -/
theorem lane_of_elementIndex {df : DataFormat} {lane : Int} {index : UInt32}
    (found : elementIndex df lane = .ok index) :
    Insn.hasLane df lane = true ∨ df = ⟨4⟩ ∧ lane = 0 := by
  by_cases named : df.Named
  · obtain ⟨above, below, _⟩ := elementIndex_eq_ok named found
    left
    refine decide_eq_true ⟨named, above, ?_⟩
    rcases named.cases with rfl | rfl | rfl | rfl <;>
      simp [DataFormat.size, DataFormat.byte, DataFormat.half, DataFormat.word,
        DataFormat.double] at below ⊢ <;> omega
  · unfold elementIndex at found
    rw [ite_error_eq_ok, ite_error_eq_ok] at found
    obtain ⟨_, inside, _⟩ := found
    have notNamed : ¬ df.tag.toNat < 4 := named
    rcases Nat.lt_or_eq_of_le (Nat.le_of_not_lt notNamed) with large | isFour
    · have noLanes := lanes_of_large large
      omega
    · obtain ⟨tag⟩ := df
      obtain rfl : tag = 4 := UInt8.toNat_inj.mp isFour.symm
      have oneLane : Int.tdiv 16 (DataFormat.size ⟨4⟩) = 1 := by decide
      exact .inr ⟨rfl, by omega⟩

theorem encodes_element {op : UInt32} {df : DataFormat} {lane : Int}
    {src dst : Reg} {srcBank dstBank : Bank} {word : UInt32}
    (encoded : ELM.encode ⟨op, df, lane, src, srcBank, dst, dstBank⟩ =
      .ok word) :
    (Insn.hasLane df lane = true ∨ df = ⟨4⟩ ∧ lane = 0) ∧
      (∃ source, src = .inBank srcBank source) ∧
        ∃ target, dst = .inBank dstBank target := by
  unfold ELM.encode at encoded
  simp only [bind_eq_ok] at encoded
  obtain ⟨_, _, index, isIndex, srcField, isSrc, dstField, isDst, _⟩ := encoded
  obtain ⟨source, isSource, _⟩ := Reg.field_eq_ok isSrc
  obtain ⟨target, isTarget, _⟩ := Reg.field_eq_ok isDst
  exact ⟨lane_of_elementIndex isIndex, ⟨source, isSource⟩, target, isTarget⟩

end Word

namespace Insn

theorem countable_of_quotient {df : DataFormat} {offset : Int}
    (named : df.Named) (whole : offset.tmod df.size = 0)
    (low : -512 ≤ offset.tdiv df.size) (high : offset.tdiv df.size ≤ 511) :
    countable df offset = true := by
  have positive := named.size_pos
  have product : offset.tdiv df.size * df.size = offset := by
    have division := Int.mul_tdiv_add_tmod offset df.size
    rwa [whole, add_zero, mul_comm] at division
  refine decide_eq_true ⟨named, ?_, ?_, ?_⟩
  · rw [← product]
    exact Int.mul_emod_left _ _
  · calc -512 * df.size ≤ offset.tdiv df.size * df.size :=
          Int.mul_le_mul_of_nonneg_right low positive.le
      _ = offset := product
  · calc offset = offset.tdiv df.size * df.size := product.symm
      _ ≤ 511 * df.size := Int.mul_le_mul_of_nonneg_right high positive.le

theorem encodeVectorMem_accepts {name text : String} {minor : UInt32}
    {df : DataFormat} {wd base : Reg} {offset : Int} {word : UInt32}
    (encoded : encodeVectorMem name minor text df wd base offset = .ok word) :
    wd.isVector = true ∧ base.isGeneral = true ∧ df.size ≠ 0 ∧
      offset.tmod df.size = 0 ∧
      -512 ≤ offset.tdiv df.size ∧ offset.tdiv df.size ≤ 511 := by
  unfold encodeVectorMem memWord at encoded
  rw [ite_error_eq_ok, ite_error_eq_ok] at encoded
  obtain ⟨hasSize, whole, encoded⟩ := encoded
  obtain ⟨s, d, _, isBase, isWd, _, low, high, _⟩ :=
    Word.MI10.encode_eq_ok (named_eq_ok encoded)
  simp only at isBase isWd low high
  subst isBase isWd
  exact ⟨rfl, rfl, hasSize, not_not.mp whole, low, high⟩

/-- Operands with a word are in range or slip through. -/
theorem inRange_or_slips {instruction : Insn} {word : UInt32}
    (encoded : instruction.encode = .ok word) :
    instruction.InRange ∨ instruction.Slips := by
  cases instruction with
  | nop => exact .inl ⟨trivial, rfl⟩
  | alu op rd rs rt =>
      obtain ⟨s, t, d, rfl, rfl, rfl, _⟩ :=
        Word.RType.encode_eq_ok (named_eq_ok encoded)
      exact .inl ⟨trivial, rfl⟩
  | move rd rs =>
      obtain ⟨s, t, d, rfl, _, rfl, _⟩ :=
        Word.RType.encode_eq_ok (named_eq_ok encoded)
      exact .inl ⟨trivial, rfl⟩
  | shift op rd rt amount =>
      obtain ⟨s, t, d, _, rfl, rfl, bound, _⟩ :=
        Word.RType.encode_eq_ok (named_eq_ok encoded)
      rw [Word.toNat_ofInt] at bound
      by_cases inside : 0 ≤ amount ∧ amount ≤ 31
      · exact .inl ⟨trivial, decide_eq_true inside⟩
      · exact .inr ⟨rfl, rfl, inside, by omega⟩
  | jr rs =>
      obtain ⟨s, t, d, rfl, _⟩ := Word.RType.encode_eq_ok (named_eq_ok encoded)
      exact .inl ⟨trivial, rfl⟩
  | signedImm op rt rs imm =>
      simp only [encode, bind_eq_ok] at encoded
      obtain ⟨field, fieldFound, encoded⟩ := encoded
      obtain ⟨s, t, rfl, rfl, low, high, _⟩ :=
        Word.IType.signed_eq_ok (named_eq_ok fieldFound) (named_eq_ok encoded)
      exact .inl ⟨trivial, decide_eq_true ⟨low, high⟩⟩
  | unsignedImm op rt rs imm =>
      simp only [encode, bind_eq_ok] at encoded
      obtain ⟨field, fieldFound, encoded⟩ := encoded
      obtain ⟨s, t, rfl, rfl, low, high, _⟩ :=
        Word.IType.unsigned_eq_ok (named_eq_ok fieldFound) (named_eq_ok encoded)
      exact .inl ⟨trivial, decide_eq_true ⟨low, high⟩⟩
  | lui rt imm =>
      simp only [encode, bind_eq_ok] at encoded
      obtain ⟨field, fieldFound, encoded⟩ := encoded
      obtain ⟨s, t, _, rfl, low, high, _⟩ :=
        Word.IType.unsigned_eq_ok (named_eq_ok fieldFound) (named_eq_ok encoded)
      exact .inl ⟨trivial, decide_eq_true ⟨low, high⟩⟩
  | mem op rt base offset =>
      simp only [encode, bind_eq_ok] at encoded
      obtain ⟨field, fieldFound, encoded⟩ := encoded
      obtain ⟨s, t, rfl, rfl, low, high, _⟩ :=
        Word.IType.signed_eq_ok (named_eq_ok fieldFound) (named_eq_ok encoded)
      exact .inl ⟨trivial, decide_eq_true ⟨low, high⟩⟩
  | lanes op df wd ws wt =>
      obtain ⟨t, s, d, rfl, rfl, rfl, _⟩ :=
        Word.ThreeR.encode_eq_ok (named_eq_ok encoded)
      exact (em df.Named).imp (fun named => ⟨named, rfl⟩) fun unnamed =>
        ⟨unnamed, rfl, rfl, rfl⟩
  | float op double wd ws wt =>
      obtain ⟨t, s, d, rfl, rfl, rfl, _⟩ :=
        Word.ThreeRF.encode_eq_ok (named_eq_ok encoded)
      exact .inl ⟨trivial, rfl⟩
  | bits op wd ws wt =>
      obtain ⟨t, s, d, rfl, rfl, rfl, _⟩ :=
        Word.VEC.encode_eq_ok (named_eq_ok encoded)
      exact .inl ⟨trivial, rfl⟩
  | byteImm op wd ws imm =>
      obtain ⟨s, d, rfl, rfl, _⟩ := Word.I8.encode_eq_ok (named_eq_ok encoded)
      exact .inl ⟨trivial, rfl⟩
  | moveV wd ws =>
      obtain ⟨s, d, rfl, rfl, _⟩ := Word.encodeMove_eq_ok (named_eq_ok encoded)
      exact .inl ⟨trivial, rfl⟩
  | ldi df wd imm =>
      obtain ⟨d, field, rfl, _, _, low, high, _⟩ :=
        Word.I10.encode_eq_ok (named_eq_ok encoded)
      exact (em df.Named).imp (fun named => ⟨named, decide_eq_true ⟨low, high⟩⟩)
        fun unnamed => ⟨unnamed, rfl, low, high⟩
  | fill df wd rs =>
      obtain ⟨s, d, rfl, rfl, _⟩ := Word.TwoR.encode_eq_ok (named_eq_ok encoded)
      exact (em df.Named).imp (fun named => ⟨named, rfl⟩) fun unnamed =>
        ⟨unnamed, rfl, rfl⟩
  | ld df wd base offset | st df wd base offset =>
      obtain ⟨isWd, isBase, hasSize, whole, low, high⟩ :=
        encodeVectorMem_accepts encoded
      refine (em df.Named).imp (fun named => ⟨named, ?_⟩)
        fun unnamed => ⟨unnamed, isWd, isBase, hasSize, whole, low, high⟩
      simp only [encodable, isWd, isBase,
        countable_of_quotient named whole low high, Bool.and_self]
  | copyS df rd ws lane | copyU df rd ws lane | insert df rd lane ws =>
      obtain ⟨isLane, ⟨s, rfl⟩, d, rfl⟩ :=
        Word.encodes_element (named_eq_ok encoded)
      refine isLane.imp (fun has => ⟨(of_decide_eq_true has).1, has⟩) ?_
      rintro ⟨rfl, rfl⟩
      exact ⟨rfl, rfl, rfl, rfl⟩
  | shf df wd ws pattern =>
      simp only [encode, ite_error_eq_ok] at encoded
      obtain ⟨notDouble, encoded⟩ := encoded
      obtain ⟨s, d, rfl, rfl, opBound, _⟩ :=
        Word.I8.encode_eq_ok (named_eq_ok encoded)
      have named : df.Named := by
        rw [UInt8.toNat_toUInt32] at opBound
        exact opBound
      exact .inl ⟨named, decide_eq_true ⟨named, notDouble⟩⟩

theorem inRange_heard {instruction : Insn} (slips : instruction.Slips) :
    instruction.heard.InRange := by
  cases instruction with
  | shift op rd rt amount =>
      obtain ⟨isRd, isRt, _, small⟩ := slips
      refine ⟨trivial, ?_⟩
      simp only [heard, encodable, isRd, isRt, Bool.true_and, decide_eq_true_eq]
      omega
  | lanes op df wd ws wt =>
      obtain ⟨_, isWd, isWs, isWt⟩ := slips
      exact ⟨df.masked_named,
        by simp only [heard, encodable, isWd, isWs, isWt, Bool.and_self]⟩
  | ldi df wd imm =>
      obtain ⟨_, isWd, bounds⟩ := slips
      exact ⟨df.masked_named, by
        simp only [heard, encodable, isWd, bounds, and_self, decide_true,
          Bool.and_self]⟩
  | fill df wd rs =>
      obtain ⟨_, isWd, isRs⟩ := slips
      exact ⟨df.masked_named,
        by simp only [heard, encodable, isWd, isRs, Bool.and_self]⟩
  | ld df wd base offset | st df wd base offset =>
      obtain ⟨_, isWd, isBase, _, _, low, high⟩ := slips
      have positive := df.masked_named.size_pos
      have counts : countable df.masked (offset.tdiv df.size * df.masked.size) =
          true :=
        decide_eq_true ⟨df.masked_named, Int.mul_emod_left _ _,
          Int.mul_le_mul_of_nonneg_right low positive.le,
          Int.mul_le_mul_of_nonneg_right high positive.le⟩
      exact ⟨df.masked_named,
        by simp only [heard, encodable, isWd, isBase, counts, Bool.and_self]⟩
  | copyS df rd ws lane | copyU df rd ws lane | insert df rd lane ws =>
      obtain ⟨_, rfl, isRd, isWs⟩ := slips
      have isNamed : DataFormat.double.Named := by decide
      have has : hasLane .double 0 = true := by decide
      exact ⟨isNamed,
        by simp only [heard, encodable, isRd, isWs, has, Bool.and_self]⟩
  | _ => exact slips.elim

theorem not_inRange_of_slips {instruction : Insn} (slips : instruction.Slips) :
    ¬ instruction.InRange := by
  rintro ⟨isNamed, fits⟩
  cases instruction with
  | shift op rd rt amount =>
      simp only [encodable, Bool.and_eq_true, decide_eq_true_eq] at fits
      exact slips.2.2.1 fits.2
  | lanes _ _ _ _ _ | ldi _ _ _ | fill _ _ _ | ld _ _ _ _ | st _ _ _ _ =>
      exact slips.1 isNamed
  | copyS df _ _ _ | copyU df _ _ _ | insert df _ _ _ =>
      obtain rfl : df = ⟨4⟩ := slips.1
      exact absurd isNamed (show ¬ DataFormat.Named ⟨4⟩ by decide)
  | _ => exact slips

/-- Vector loads and stores hold the quotient of the offset and the bits of the
format. -/
theorem encodeVectorMem_masked {name text otherText : String} {minor : UInt32}
    {df : DataFormat} {wd base : Reg} {offset : Int} {word : UInt32}
    (hasSize : df.size ≠ 0) (whole : offset.tmod df.size = 0)
    (encoded : encodeVectorMem name minor otherText df.masked wd base
      (offset.tdiv df.size * df.masked.size) = .ok word) :
    encodeVectorMem name minor text df wd base offset = .ok word := by
  have positive := df.masked_named.size_pos
  have quotient : (offset.tdiv df.size * df.masked.size).tdiv df.masked.size =
      offset.tdiv df.size := Int.mul_tdiv_cancel _ positive.ne'
  unfold encodeVectorMem memWord at encoded ⊢
  rw [if_neg positive.ne', if_neg (not_not.mpr (Int.mul_tmod_left _ _)),
    quotient] at encoded
  rw [if_neg hasSize, if_neg (not_not.mpr whole)]
  simp only [named, mapError_eq_ok, Word.MI10.encode, DataFormat.bits_masked]
    at encoded ⊢
  exact encoded

/-- Operands that slip through have the word of other operands, which are in
range. -/
theorem encode_of_slips {instruction : Insn} (slips : instruction.Slips) :
    ∃ word, instruction.encode = .ok word ∧
      instruction.heard.encode = .ok word := by
  obtain ⟨word, encoded⟩ := encode_of_encodable (inRange_heard slips).2
  refine ⟨word, ?_, encoded⟩
  cases instruction with
  | shift op rd rt amount =>
      have same : UInt32.ofInt (amount % 0x100000000) =
          UInt32.ofInt amount := by
        apply UInt32.toNat_inj.mp
        rw [Word.toNat_ofInt, Word.toNat_ofInt]
        omega
      simp only [encode, heard, named, mapError_eq_ok, same] at encoded ⊢
      exact encoded
  | lanes op df wd ws wt =>
      simp only [encode, heard, named, mapError_eq_ok, Word.ThreeR.encode,
        DataFormat.bits_masked] at encoded ⊢
      exact encoded
  | ldi df wd imm =>
      simp only [encode, heard, named, mapError_eq_ok, Word.I10.encode,
        DataFormat.bits_masked] at encoded ⊢
      exact encoded
  | fill df wd rs =>
      simp only [encode, heard, named, mapError_eq_ok, Word.TwoR.encode,
        DataFormat.bits_masked] at encoded ⊢
      exact encoded
  | ld df wd base offset | st df wd base offset =>
      obtain ⟨_, _, _, hasSize, whole, _⟩ := slips
      exact encodeVectorMem_masked hasSize whole encoded
  | copyS df rd ws lane | copyU df rd ws lane | insert df rd lane ws =>
      obtain ⟨rfl, rfl, _⟩ := slips
      have same : Word.elementIndex ⟨4⟩ 0 = Word.elementIndex .double 0 := rfl
      simp only [encode, heard, named, mapError_eq_ok, Word.ELM.encode, same]
        at encoded ⊢
      exact encoded
  | _ => exact slips.elim

end Insn

theorem AsmError.OfOperand.within {cause : AsmError}
    (ofOperand : cause.OfOperand) (context : String) :
    (AsmError.within context cause).OfOperand := ofOperand

theorem AsmError.OfOperand.plain {cause : AsmError}
    (ofOperand : cause.OfOperand) : cause.Plain := by
  induction cause with
  | within context cause induction => exact induction ofOperand
  | zeroElementSize => simp [OfOperand, classes] at ofOperand
  | _ => rfl

namespace Word

variable {register : Reg}

theorem generalField_refuses :
    FailsOnly AsmError.OfOperand register.generalField := by
  cases register with
  | gp number => exact failsOnly_ok _
  | vec number | unknown tag =>
      exact failsOnly_error (.inl (List.mem_singleton_self _))

theorem vectorField_refuses :
    FailsOnly AsmError.OfOperand register.vectorField := by
  cases register with
  | vec number => exact failsOnly_ok _
  | gp number | unknown tag =>
      exact failsOnly_error (.inl (List.mem_singleton_self _))

theorem field_refuses (bank : Bank) :
    FailsOnly AsmError.OfOperand (register.field bank) := by
  cases bank with
  | general => exact generalField_refuses
  | vector => exact vectorField_refuses

theorem outOfRange_ofOperand (fault : RangeFault) :
    AsmError.OfOperand (.outOfRange fault) :=
  .inr (List.mem_singleton_self _)

theorem checkField_refuses (name : String) (value : UInt32) (bits : Nat) :
    FailsOnly AsmError.OfOperand (checkField name value bits) :=
  failsOnly_ite_error (fun _ => outOfRange_ofOperand _) fun _ => failsOnly_ok _

theorem signed16_refuses (value : Int) :
    FailsOnly AsmError.OfOperand (signed16 value) :=
  failsOnly_ite_error (fun _ => outOfRange_ofOperand _) fun _ => failsOnly_ok _

theorem unsigned16_refuses (value : Int) :
    FailsOnly AsmError.OfOperand (unsigned16 value) :=
  failsOnly_ite_error (fun _ => outOfRange_ofOperand _) fun _ => failsOnly_ok _

theorem signed10Field_refuses (value : Int) :
    FailsOnly AsmError.OfOperand (signed10Field value) :=
  failsOnly_ite_error (fun _ => outOfRange_ofOperand _) fun _ => failsOnly_ok _

theorem elementIndex_refuses {df : DataFormat} (hasSize : df.size ≠ 0)
    (lane : Int) : FailsOnly AsmError.OfOperand (elementIndex df lane) := by
  unfold elementIndex
  rw [if_neg hasSize]
  exact failsOnly_ite_error (fun _ => outOfRange_ofOperand _) fun _ =>
    failsOnly_ok _

theorem IType.encode_refuses (fields : IType) :
    FailsOnly AsmError.OfOperand fields.encode :=
  failsOnly_refuse (fun _ => outOfRange_ofOperand _) fun _ =>
    generalField_refuses.bind fun _ _ => generalField_refuses.bind fun _ _ =>
      failsOnly_ok _

theorem RType.encode_refuses (fields : RType) :
    FailsOnly AsmError.OfOperand fields.encode :=
  failsOnly_refuse (fun _ => outOfRange_ofOperand _) fun _ =>
    failsOnly_refuse (fun _ => outOfRange_ofOperand _) fun _ =>
      generalField_refuses.bind fun _ _ => generalField_refuses.bind fun _ _ =>
        generalField_refuses.bind fun _ _ => failsOnly_ok _

theorem I10.encode_refuses (fields : I10) :
    FailsOnly AsmError.OfOperand fields.encode :=
  (checkField_refuses _ _ _).bind fun _ _ =>
    (checkField_refuses _ _ _).bind fun _ _ =>
    (signed10Field_refuses _).bind fun _ _ =>
      vectorField_refuses.bind fun _ _ => failsOnly_ok _

theorem MI10.encode_refuses (fields : MI10) :
    FailsOnly AsmError.OfOperand fields.encode :=
  (checkField_refuses _ _ _).bind fun _ _ =>
    (signed10Field_refuses _).bind fun _ _ =>
    generalField_refuses.bind fun _ _ => vectorField_refuses.bind fun _ _ =>
      failsOnly_ok _

theorem TwoR.encode_refuses (fields : TwoR) :
    FailsOnly AsmError.OfOperand fields.encode :=
  (checkField_refuses _ _ _).bind fun _ _ => (field_refuses _).bind fun _ _ =>
    vectorField_refuses.bind fun _ _ => failsOnly_ok _

theorem ThreeR.encode_refuses (fields : ThreeR) :
    FailsOnly AsmError.OfOperand fields.encode :=
  (checkField_refuses _ _ _).bind fun _ _ =>
    (checkField_refuses _ _ _).bind fun _ _ =>
    vectorField_refuses.bind fun _ _ => vectorField_refuses.bind fun _ _ =>
      vectorField_refuses.bind fun _ _ => failsOnly_ok _

theorem ELM.encode_refuses (fields : ELM) (hasSize : fields.df.size ≠ 0) :
    FailsOnly AsmError.OfOperand fields.encode :=
  (checkField_refuses _ _ _).bind fun _ _ =>
    (elementIndex_refuses hasSize _).bind fun _ _ =>
    (field_refuses _).bind fun _ _ => (field_refuses _).bind fun _ _ =>
      failsOnly_ok _

theorem encodeMove_refuses (wd ws : Reg) :
    FailsOnly AsmError.OfOperand (encodeMove wd ws) :=
  vectorField_refuses.bind fun _ _ => vectorField_refuses.bind fun _ _ =>
    failsOnly_ok _

theorem I8.encode_refuses (fields : I8) :
    FailsOnly AsmError.OfOperand fields.encode :=
  (checkField_refuses _ _ _).bind fun _ _ =>
    (checkField_refuses _ _ _).bind fun _ _ =>
    vectorField_refuses.bind fun _ _ => vectorField_refuses.bind fun _ _ =>
      failsOnly_ok _

theorem ThreeRF.encode_refuses (fields : ThreeRF) :
    FailsOnly AsmError.OfOperand fields.encode :=
  (checkField_refuses _ _ _).bind fun _ _ =>
    (checkField_refuses _ _ _).bind fun _ _ =>
    vectorField_refuses.bind fun _ _ => vectorField_refuses.bind fun _ _ =>
      vectorField_refuses.bind fun _ _ => failsOnly_ok _

theorem VEC.encode_refuses (fields : VEC) :
    FailsOnly AsmError.OfOperand fields.encode :=
  (checkField_refuses _ _ _).bind fun _ _ => vectorField_refuses.bind fun _ _ =>
    vectorField_refuses.bind fun _ _ => vectorField_refuses.bind fun _ _ =>
      failsOnly_ok _

end Word

namespace Insn

theorem named_refuses {text : String} {outcome : Except AsmError UInt32}
    (refuses : FailsOnly AsmError.OfOperand outcome) :
    FailsOnly AsmError.OfOperand (named text outcome) := by
  apply FailsOnly.mapError
  exact refuses

theorem encodeVectorMem_refuses {df : DataFormat} (hasSize : df.size ≠ 0)
    (name text : String) (minor : UInt32) (wd base : Reg) (offset : Int) :
    FailsOnly AsmError.OfOperand
      (encodeVectorMem name minor text df wd base offset) := by
  unfold encodeVectorMem
  rw [if_neg hasSize]
  exact failsOnly_ite_error (fun _ => (Word.outOfRange_ofOperand _).within _)
    fun _ =>
    named_refuses (Word.MI10.encode_refuses _)

/-- An instruction whose element size counts and is not zero is refused for its
operands only. -/
theorem encode_refuses {instruction : Insn} (hasSize : ¬ instruction.Sizeless) :
    FailsOnly AsmError.OfOperand instruction.encode := by
  cases instruction with
  | nop => exact failsOnly_ok _
  | alu op rd rs rt => exact named_refuses (Word.RType.encode_refuses _)
  | move rd rs => exact named_refuses (Word.RType.encode_refuses _)
  | shift op rd rt amount => exact named_refuses (Word.RType.encode_refuses _)
  | jr rs => exact named_refuses (Word.RType.encode_refuses _)
  | signedImm op rt rs imm | mem op rt rs imm =>
      exact (named_refuses (Word.signed16_refuses imm)).bind fun _ _ =>
        named_refuses (Word.IType.encode_refuses _)
  | unsignedImm op rt rs imm | lui rt imm =>
      exact (named_refuses (Word.unsigned16_refuses imm)).bind fun _ _ =>
        named_refuses (Word.IType.encode_refuses _)
  | lanes op df wd ws wt => exact named_refuses (Word.ThreeR.encode_refuses _)
  | float op double wd ws wt =>
      exact named_refuses (Word.ThreeRF.encode_refuses _)
  | bits op wd ws wt => exact named_refuses (Word.VEC.encode_refuses _)
  | byteImm op wd ws imm => exact named_refuses (Word.I8.encode_refuses _)
  | moveV wd ws => exact named_refuses (Word.encodeMove_refuses wd ws)
  | ldi df wd imm => exact named_refuses (Word.I10.encode_refuses _)
  | fill df wd rs => exact named_refuses (Word.TwoR.encode_refuses _)
  | ld df wd base offset | st df wd base offset =>
      exact encodeVectorMem_refuses hasSize _ _ _ wd base offset
  | copyS df rd ws lane | copyU df rd ws lane | insert df rd lane ws =>
      exact named_refuses (Word.ELM.encode_refuses _ hasSize)
  | shf df wd ws pattern =>
      exact failsOnly_ite_error
        (fun _ => (Word.outOfRange_ofOperand _).within _) fun _ =>
        named_refuses (Word.I8.encode_refuses _)

/-- An element size of zero stops the assembler, whatever the other operands
are. -/
theorem crashes_of_sizeless {instruction : Insn}
    (noSize : instruction.Sizeless) : instruction.crashes = true := by
  cases instruction with
  | ld df wd base offset | st df wd base offset =>
      simp only [crashes, encode, encodeVectorMem,
        if_pos (show df.size = 0 from noSize)]
      rfl
  | copyS df rd ws lane | copyU df rd ws lane | insert df rd lane ws =>
      have noIndex :
          Word.elementIndex df lane = .error .zeroElementSize := if_pos noSize
      simp only [crashes, encode, Word.ELM.encode, noIndex]
      rfl
  | _ => exact noSize.elim

end Insn

namespace Item

variable {condition : Condition} {ra rb : Reg} {word : UInt32}

theorem takes_of_branchWord (isWord : branchWord condition ra rb = .ok word) :
    condition.Takes ra rb := by
  cases condition with
  | unknown tag => cases isWord
  | eq | ne =>
      unfold branchWord at isWord
      obtain ⟨s, t, rfl, rfl, _⟩ := Word.IType.encode_eq_ok isWord
      exact ⟨rfl, rfl⟩
  | lez | gtz | ltz | gez =>
      unfold branchWord at isWord
      obtain ⟨s, t, rfl, _⟩ := Word.IType.encode_eq_ok isWord
      exact rfl

theorem branchWord_refuses (isKnown : ∀ tag, condition ≠ .unknown tag) :
    FailsOnly AsmError.OfOperand (branchWord condition ra rb) := by
  cases condition with
  | unknown tag => exact absurd rfl (isKnown tag)
  | eq | ne | lez | gtz | ltz | gez =>
      unfold branchWord
      exact Word.IType.encode_refuses _

theorem means_branch (label : Label)
    (isWord : branchWord condition ra rb = .ok word) :
    (Item.branch condition ra rb label).Means word := by
  have nowhere : Word.branchOffset 0 4 = .ok 0 := rfl
  obtain ⟨other, decoded, same, _⟩ := Operation.decode?_branch isWord nowhere
  rw [UInt32.or_zero] at decoded
  exact ⟨other, _, decoded, same⟩

end Item

namespace CodeBuffer

/-- The item is emitted into an empty buffer as a word. -/
structure Emits (listing : Bool) (item : Item) (word : UInt32) : Prop where
  accepted : ((empty listing).emit [item]).2 = none
  text : ((empty listing).emit [item]).1.text = item.code word

theorem emit_insn (buffer : CodeBuffer) (instruction : Insn) :
    buffer.emit [.insn instruction] =
      match instruction.encode with
      | .ok word => (buffer.appendWord word instruction.text, none)
      | .error cause =>
          (buffer, some (if cause.isCrash then .zeroElementSize
            else cause)) := by
  have crashes :
      Fragment.crashes [.insn instruction] = instruction.crashes := by
    simp [Fragment.crashes, Item.crashes]
  unfold emit
  rw [crashes, emitItems, emitItem, Insn.crashes]
  cases instruction.encode with
  | ok word => rfl
  | error cause => cases isCrash : cause.isCrash <;> simp [isCrash]

theorem emits_insn {instruction : Insn} {word : UInt32}
    (encoded : instruction.encode = .ok word) (listing : Bool) :
    Emits listing (.insn instruction) word := by
  have emitted := emit_insn (empty listing) instruction
  rw [encoded] at emitted
  constructor
  · rw [emitted]
  · rw [emitted]
    exact Array.empty_append

theorem emits_branch {condition : Condition} {ra rb : Reg} {label : Label}
    {word : UInt32} (isWord : Item.branchWord condition ra rb = .ok word)
    (isValid : label.valid = true) (listing : Bool) :
    Emits listing (.branch condition ra rb label) word := by
  have emitted : (empty listing).emit [.branch condition ra rb label] =
      ((((empty listing).appendWord word
        (Item.branchText condition ra rb label)).addFixup ⟨0, label⟩).appendWord
          0 Insn.nop.text, none) := by
    change (empty listing).emitItems [.branch condition ra rb label] = _
    exact emitItems_cons.mpr ⟨_, .waiting rfl isValid isWord rfl, rfl⟩
  constructor
  · rw [emitted]
  · rw [emitted]
    change #[] ++ Word.bytes word ++ Word.bytes 0 = _
    rw [Array.empty_append]
    rfl

theorem refuses_branch {condition : Condition} {ra rb : Reg} {label : Label}
    (isKnown : ∀ tag, condition ≠ .unknown tag)
    (outside : ¬ (condition.Takes ra rb ∧ label.valid = true))
    (listing : Bool) :
    ∃ cause, (empty listing).emit [.branch condition ra rb label] =
      (empty listing, some cause) ∧
      cause.OfOperand := by
  obtain ⟨cause, isError, ofOperand⟩ : ∃ cause,
      (empty listing).branchWord condition ra rb label = .error cause ∧
        cause.OfOperand := by
    cases isWord : Item.branchWord condition ra rb with
    | error cause =>
        refine ⟨cause, ?_, Item.branchWord_refuses isKnown cause isWord⟩
        simp only [branchWord, isWord]
        rfl
    | ok word =>
        have notValid : label.valid = false :=
          Bool.eq_false_iff.mpr fun isValid =>
            outside ⟨Item.takes_of_branchWord isWord, isValid⟩
        refine ⟨.outOfRange (.label label), ?_, Word.outOfRange_ofOperand _⟩
        simp only [branchWord, isWord, notValid]
        rfl
  refine ⟨cause, ?_, ofOperand⟩
  change (empty listing).emitItems [.branch condition ra rb label] = _
  rw [emitItems, emitItem, isError]

end CodeBuffer

/-- The operands of an item in an empty buffer are checked: those that fit are
accepted, and all others are reported. -/
def Item.Checked (listing : Bool) (item : Item) : Prop :=
  (((CodeBuffer.empty listing).emit [item]).2 = none ↔ item.InRange) ∧
    (¬ item.InRange →
      ∃ cause, ((CodeBuffer.empty listing).emit [item]).2 = some cause ∧
      cause.OfOperand)

/-- What the assembler makes of one instruction in an empty buffer.  Operands in
range give their word.  Operands that slip through give the word of other
operands, and an element size of zero stops the assembler.  All other operands
are refused. -/
theorem Item.emit_checked {item : Item} (isSingle : item.IsSingle)
    (listing : Bool) :
    (item.InRange → ∃ word, item.Means word ∧
      CodeBuffer.Emits listing item word) ∧
    (item.Slips → ¬ item.InRange ∧ item.heard.InRange ∧
      ∃ word, item.heard.Means word ∧ CodeBuffer.Emits listing item word) ∧
    (item.Sizeless →
      (CodeBuffer.empty listing).emit [item] =
        (.empty listing, some .zeroElementSize)) ∧
    (¬ item.InRange → ¬ item.Slips → ¬ item.Sizeless →
      ∃ cause, (CodeBuffer.empty listing).emit [item] =
        (.empty listing, some cause) ∧
        cause.OfOperand) := by
  cases item with
  | mark label => exact isSingle.elim
  | branch condition ra rb label =>
      refine ⟨?_, False.elim, False.elim, fun outside _ _ =>
        CodeBuffer.refuses_branch isSingle outside listing⟩
      rintro ⟨takes, isValid⟩
      obtain ⟨word, isWord⟩ := takes.branchWord
      exact ⟨word, means_branch label isWord,
        CodeBuffer.emits_branch isWord isValid listing⟩
  | insn instruction =>
      refine ⟨?_, ?_, ?_, ?_⟩
      · rintro ⟨named, fits⟩
        obtain ⟨word, encoded⟩ := Insn.encode_of_encodable fits
        exact ⟨word, Insn.decode?_encode named encoded,
          CodeBuffer.emits_insn encoded listing⟩
      · intro slips
        have inRange := Insn.inRange_heard slips
        obtain ⟨word, encoded, isHeard⟩ := Insn.encode_of_slips slips
        exact ⟨Insn.not_inRange_of_slips slips, inRange, word,
          Insn.decode?_encode inRange.1 isHeard,
          CodeBuffer.emits_insn encoded listing⟩
      · intro noSize
        have crashes := Insn.crashes_of_sizeless noSize
        simp [CodeBuffer.emit, Fragment.crashes, Item.crashes, crashes]
      · intro outside noSlip hasSize
        have refuses := Insn.encode_refuses hasSize
        rw [CodeBuffer.emit_insn]
        cases encoded : instruction.encode with
        | ok word =>
            exact absurd (Insn.inRange_or_slips encoded)
              (not_or.mpr ⟨outside, noSlip⟩)
        | error cause =>
            have ofOperand := refuses cause encoded
            have isPlain : cause.isCrash = false := ofOperand.plain
            exact ⟨cause, by simp only [isPlain]; rfl, ofOperand⟩

/-- A shift by the largest amount, and one by `2 ^ 32`, which is taken for a
shift by zero. -/
theorem Item.emit_checked_sll :
    (Item.insn (.shift .sll .t0 .t1 31)).IsSingle ∧
    (∃ word, (Item.insn (.shift .sll .t0 .t1 31)).Means word ∧
      CodeBuffer.Emits true (.insn (.shift .sll .t0 .t1 31)) word) ∧
    ∃ word, (Item.insn (.shift .sll .t0 .t1 0)).Means word ∧
      CodeBuffer.Emits true (.insn (.shift .sll .t0 .t1 0x100000000)) word := by
  have isSingle : ∀ amount, (Item.insn (.shift .sll .t0 .t1 amount)).IsSingle :=
    fun _ => trivial
  have slips : (Item.insn (.shift .sll .t0 .t1 0x100000000)).Slips :=
    ⟨rfl, rfl, by decide, by decide⟩
  exact ⟨trivial, (Item.emit_checked (isSingle 31) true).1 ⟨trivial, rfl⟩,
    ((Item.emit_checked (isSingle _) true).2.1 slips).2.2⟩

/-- A shift amount that is too large by `2 ^ 32` is accepted. -/
theorem Item.not_checked_sll :
    ¬ (Item.insn (.shift .sll .t0 .t0 0x100000000)).Checked false := by
  rintro ⟨accepts, _⟩
  have fits := (accepts.mp rfl).2
  cases fits

end LaneKernel
