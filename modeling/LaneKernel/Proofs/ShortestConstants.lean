import LaneKernel.Proofs.AtomicEmission
import LaneKernel.Proofs.Constants
import LaneKernel.Proofs.LaneRules

/-!
# The shortest code for a constant

The code that puts a constant into a register is emitted into every buffer; its
words set the register and change nothing else.  It has two words only if no
instruction makes the constant of register zero.  The main statement is
`Asm.loadImm_shortest`.
-/

namespace LaneKernel

namespace Insn

/-- Sets a register from register zero alone. -/
inductive SetsConstant (target : Reg) : Insn → Prop where
  | addiu (imm : Int) : SetsConstant target (.signedImm .addiu target .zero imm)
  | ori (imm : Int) : SetsConstant target (.unsignedImm .ori target .zero imm)
  | lui (imm : Int) : SetsConstant target (.lui target imm)

variable {instruction : Insn} {word value : UInt32} {target : RegNum}

theorem execute_general {core : Core} {pc : UInt32}
    (encoded : instruction.encode = .ok word)
    (regular : instruction.NamedFormat ∧ ¬ instruction.Unsupported)
    (isEffect : instruction.effect core = .general target value) :
    core.execute pc word = (core.setReg target value, none) := by
  rw [execute_of_encode core pc regular.1 regular.2 encoded, isEffect]
  rfl

theorem effect_addiu_zero (core : Core) (rt : Reg) (imm : Int) :
    (signedImm .addiu rt .zero imm).effect core =
      .general rt.index (Core.distance imm) :=
  congrArg (Effect.general rt.index) (UInt32.zero_add _)

theorem effect_ori_zero (core : Core) (rt : Reg) (imm : Int) :
    (unsignedImm .ori rt .zero imm).effect core =
      .general rt.index (UInt32.ofNat imm.toNat) :=
  congrArg (Effect.general rt.index) (UInt32.zero_or)

/-- What one of the instructions leaves is a short constant. -/
theorem SetsConstant.short (sets : instruction.SetsConstant (.gp target))
    (nonzero : target ≠ 0) (encoded : instruction.encode = .ok word)
    (core : Core) (pc : UInt32) :
    Asm.Short ((core.execute pc word).1.reg target) := by
  obtain ⟨_, fits⟩ :=
    (inRange_or_slips encoded).resolve_right (by cases sets <;> exact id)
  cases sets with
  | addiu imm =>
      simp only [encodable, Bool.and_eq_true, decide_eq_true_eq] at fits
      rw [execute_general encoded ⟨trivial, id⟩ (effect_addiu_zero core _ imm)]
      rw [Reg.index_gp, Core.reg_setReg_same _ _ _ nonzero]
      exact .inl (by rw [Core.toInt_distance fits.2]; exact fits.2)
  | ori imm =>
      simp only [encodable, Bool.and_eq_true, decide_eq_true_eq] at fits
      rw [execute_general encoded ⟨trivial, id⟩ (effect_ori_zero core _ imm)]
      rw [Reg.index_gp, Core.reg_setReg_same _ _ _ nonzero]
      refine .inr (.inl ?_)
      rw [UInt32.toNat_ofNat']
      omega
  | lui imm =>
      simp only [encodable, Bool.and_eq_true, decide_eq_true_eq] at fits
      rw [@execute_general _ _ _ _ core pc encoded ⟨trivial, id⟩ rfl]
      rw [Reg.index_gp, Core.reg_setReg_same _ _ _ nonzero]
      refine .inr (.inr ?_)
      rw [Asm.toNat_shiftLeft_half (by omega)]
      exact Nat.mul_mod_left _ _

end Insn

/-- Code is emitted into a buffer as words that set a register and change
nothing else. -/
structure Fragment.Sets (code : Fragment) (buffer : CodeBuffer)
    (target : RegNum) (value : UInt32) (words : List (UInt32 × String)) :
    Prop where
  emitted : buffer.emit code = (buffer.extend { words := words }, none)
  executed : ∀ (core : Core) (pc : UInt32),
    core.executeAll pc (words.map Prod.fst) = (core.setReg target value, none)

namespace Asm

variable {buffer : CodeBuffer} {target : RegNum} {value : UInt32}

theorem sets_single {instruction : Insn} (fits : instruction.encodable = true)
    (regular : instruction.Regular)
    (isEffect : ∀ core, instruction.effect core = .general target value) :
    ∃ word, Fragment.Sets [.insn instruction] buffer target value
      [(word, instruction.text)] := by
  obtain ⟨word, encoded⟩ := Insn.encode_of_encodable fits
  refine ⟨word, ?_, ?_⟩
  · rw [CodeBuffer.emit_insn, encoded, CodeBuffer.extend_word]
  · intro core pc
    rw [List.map_singleton, Core.executeAll,
      Insn.execute_general encoded regular (isEffect core)]
    rfl

/-- The halves of a value are put into a register one after the other. -/
theorem sets_both (nonzero : target ≠ 0) {high low : Nat}
    (highSmall : high ≤ 0xffff) (lowSmall : low ≤ 0xffff)
    (isValue : UInt32.ofNat high <<< 16 ||| UInt32.ofNat low = value) :
    ∃ words : List (UInt32 × String), words.length = 2 ∧
      Fragment.Sets [.insn (.lui (.gp target) high),
        .insn (.unsignedImm .ori (.gp target) (.gp target) low)] buffer target
          value words := by
  have isGeneral : (Reg.gp target).isGeneral = true := rfl
  obtain ⟨first, isFirst⟩ :=
    Insn.encode_of_encodable (Insn.encodable_lui isGeneral highSmall)
  obtain ⟨second, isSecond⟩ :=
    Insn.encode_of_encodable (Insn.encodable_ori isGeneral isGeneral lowSmall)
  refine ⟨_, rfl, CodeBuffer.emit_pair isFirst isSecond, ?_⟩
  intro core pc
  have upper : core.execute pc first =
      (core.setReg target (UInt32.ofNat high <<< 16), none) :=
    Insn.execute_general isFirst ⟨trivial, id⟩ rfl
  have lower : (core.setReg target (UInt32.ofNat high <<< 16)).execute (pc + 4)
      second = ((core.setReg target (UInt32.ofNat high <<< 16)).setReg target
        value, none) := by
    apply Insn.execute_general isSecond ⟨trivial, id⟩
    rw [← isValue]
    exact congrArg
      (fun word => Effect.general target (word ||| UInt32.ofNat low))
      (Core.reg_setReg_same core target _ nonzero)
  rw [Core.setReg_setReg] at lower
  simp only [List.map_cons, List.map_nil, Core.executeAll, upper, lower]

/-- The words for a constant are emitted into every buffer, set their register
to the constant and change nothing else.  There is one of them, or there are two
and no single instruction makes the constant of register zero. -/
theorem loadImm_shortest (nonzero : target ≠ 0) (value : UInt32)
    (buffer : CodeBuffer) :
    ∃ words : List (UInt32 × String),
      (loadImm (.gp target) value).Sets buffer target value words ∧
      (words.length = 1 ∨ words.length = 2 ∧
        ∀ instruction : Insn, instruction.SetsConstant (.gp target) →
          ∀ word, instruction.encode = .ok word → ∀ (core : Core) (pc : UInt32),
            (core.execute pc word).1.reg target ≠ value) := by
  have isGeneral : (Reg.gp target).isGeneral = true := rfl
  have isZero : Reg.zero.isGeneral = true := rfl
  have code := loadImm_code (.gp target) value
  generalize loadImm (.gp target) value = fragment at code ⊢
  cases code with
  | @signed imm near isValue =>
      obtain ⟨word, sets⟩ :=
        @sets_single buffer target value
        (.signedImm .addiu (.gp target) .zero imm)
          (Insn.encodable_addiu isGeneral isZero near) ⟨trivial, id⟩
        fun core => isValue ▸ Insn.effect_addiu_zero core (.gp target) imm
      exact ⟨_, sets, .inl rfl⟩
  | @lower half small isValue =>
      obtain ⟨word, sets⟩ :=
        @sets_single buffer target value
        (.unsignedImm .ori (.gp target) .zero half)
          (Insn.encodable_ori isGeneral isZero small) ⟨trivial, id⟩
        fun core => isValue ▸ Insn.effect_ori_zero core (.gp target) half
      exact ⟨_, sets, .inl rfl⟩
  | @upper half small isValue =>
      obtain ⟨word, sets⟩ :=
        @sets_single buffer target value (.lui (.gp target) half)
        (Insn.encodable_lui isGeneral small) ⟨trivial, id⟩ fun core =>
          isValue ▸ rfl
      exact ⟨_, sets, .inl rfl⟩
  | both highSmall lowSmall isValue long =>
      obtain ⟨words, two, sets⟩ := sets_both nonzero highSmall lowSmall isValue
      refine ⟨words, sets, .inr ⟨two, ?_⟩⟩
      rintro instruction isConstant word encoded core pc rfl
      exact long (isConstant.short nonzero encoded core pc)

/-- The least constant whose lower half would be taken for a negative one needs
two words. -/
theorem loadImm_shortest_wide : (8 : RegNum) ≠ 0 ∧
    ∃ words : List (UInt32 × String),
      (loadImm .t0 0x00018000).Sets (.empty true) 8 0x00018000 words ∧
        words.length = 2 ∧
        ∀ instruction : Insn, instruction.SetsConstant .t0 →
          ∀ word, instruction.encode = .ok word → ∀ (core : Core) (pc : UInt32),
            (core.execute pc word).1.reg 8 ≠ 0x00018000 := by
  have nonzero : (8 : RegNum) ≠ 0 := by decide
  obtain ⟨words, sets, isLength⟩ :=
    loadImm_shortest nonzero 0x00018000 (.empty true)
  have isSize : ((CodeBuffer.empty true).emit
      (loadImm (.gp 8) 0x00018000)).1.size = 8 := by
    decide +kernel
  rcases isLength with one | ⟨two, long⟩
  · obtain ⟨⟨word, line⟩, rfl⟩ := List.length_eq_one_iff.mp one
    rw [sets.emitted, CodeBuffer.extend_word, CodeBuffer.size_appendWord]
      at isSize
    cases isSize
  · exact ⟨nonzero, words, sets, two, long⟩

end Asm

end LaneKernel
