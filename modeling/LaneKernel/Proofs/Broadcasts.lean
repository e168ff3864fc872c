import LaneKernel.Proofs.Constants
import LaneKernel.Proofs.LaneArithmetic
import LaneKernel.Proofs.Record
import LaneKernel.Compiler.Routines

/-!
# Broadcasts

The code that fills every lane of a vector with a constant or a parameter.
Eight-byte lanes are filled with the low word first; the high word is then put
into the upper half of both lanes.
-/

namespace LaneKernel

namespace Lane

theorem byte_toUInt64 (word : UInt32) (index : Nat) :
    (byte word.toUInt64 index).toNat =
      word.toNat / 2 ^ (8 * index) % 2 ^ 8 := by
  rw [toNat_byte, UInt32.toNat_toUInt64]

theorem byte_toUInt64_of_ge (word : UInt32) {index : Nat} (beyond : 4 ≤ index) :
    byte word.toUInt64 index = 0 := by
  apply UInt8.toNat_inj.mp
  have small : word.toNat < 2 ^ (8 * index) :=
    Nat.lt_of_lt_of_le word.toNat_lt
      (Nat.pow_le_pow_right (by decide) (by omega))
  rw [byte_toUInt64, Nat.div_eq_of_lt small]
  rfl

theorem byte_low (word : UInt64) {index : Nat} (inside : index < 4) :
    byte word.toUInt32.toUInt64 index = byte word index := by
  apply UInt8.toNat_inj.mp
  rw [toNat_byte, toNat_byte, UInt32.toNat_toUInt64, UInt64.toNat_toUInt32]
  match index, inside with
  | 0, _ | 1, _ | 2, _ | 3, _ => omega

theorem byte_high (word : UInt64) {index : Nat} (inside : index < 4) :
    byte (word >>> 32).toUInt32.toUInt64 index = byte word (index + 4) := by
  rw [byte_low _ inside]
  exact byte_shiftRight word 4 index

theorem byte_halves (low high : UInt32) {index : Nat} (inside : index < 8) :
    byte (low.toUInt64 ||| high.toUInt64 <<< 32) index =
      if index < 4 then byte low.toUInt64 index
      else byte high.toUInt64 (index - 4) := by
  have shifted : byte (high.toUInt64 <<< 32) index =
      if index < 4 then 0 else byte high.toUInt64 (index - 4) :=
    byte_shiftLeft high.toUInt64 4 index inside
  rw [byte_or, shifted]
  split
  · exact UInt8.or_zero
  · rw [byte_toUInt64_of_ge low (by omega)]
    exact UInt8.zero_or

theorem ofInt_toInt (number : Int64) :
    UInt64.ofInt number.toInt = number.toUInt64 := by
  have isBits : BitVec.ofInt 64 number.toBitVec.toInt = number.toBitVec :=
    BitVec.ofInt_toInt
  have isNat := congrArg BitVec.toNat isBits
  rw [BitVec.toNat_ofInt] at isNat
  apply UInt64.toNat_inj.mp
  change (UInt64.ofNat (number.toInt % 2 ^ 64).toNat).toNat =
    number.toBitVec.toNat
  rw [← isNat, UInt64.toNat_ofNat']
  exact Nat.mod_eq_of_lt (by omega)

end Lane

namespace VectorRegister

/-- The vector with the same word in every lane. -/
def filled (size : Nat) (word : UInt64) : VectorRegister :=
  .ofLanes size fun _ => word

theorem byte_filled (size : Nat) (word : UInt64) {index : Nat}
    (inside : index < 16) :
    (filled size word).byte index = Lane.byte word (index % size) :=
  byte_ofLanes _ _ inside

theorem filled_congr {size : Nat} {first second : UInt64} (positive : 0 < size)
    (same : ∀ index < size, Lane.byte first index = Lane.byte second index) :
    filled size first = filled size second := by
  apply ext_byte
  intro index inside
  rw [byte_filled _ _ inside, byte_filled _ _ inside]
  exact same _ (Nat.mod_lt _ positive)

theorem byte_setLane (register : VectorRegister) (size number : Nat)
    (word : UInt64) {index : Nat} (inside : index < 16) :
    (register.setLane size number word).byte index =
      if index / size = number then Lane.byte word (index % size)
      else register.byte index := by
  unfold setLane
  rw [byte_ofFn _ inside, byte_eq_get register ⟨index, inside⟩]
  rfl

/-- Lanes of four bytes whose odd ones are replaced are lanes of eight bytes. -/
theorem setLane_filled {low high word : UInt64}
    (isLow : ∀ index < 4, Lane.byte low index = Lane.byte word index)
    (isHigh : ∀ index < 4, Lane.byte high index = Lane.byte word (index + 4)) :
    ((filled 4 low).setLane 4 1 high).setLane 4 3 high = filled 8 word := by
  apply ext_byte
  intro index inside
  rw [byte_setLane _ _ _ _ inside, byte_setLane _ _ _ _ inside,
    byte_filled _ _ inside, byte_filled _ _ inside,
    isLow _ (Nat.mod_lt _ (by decide)), isHigh _ (Nat.mod_lt _ (by decide))]
  split
  · congr 1
    omega
  · split
    · congr 1
      omega
    · congr 1
      omega

end VectorRegister

section Constants

variable {setting : Setting} {goal : Goal} {rest : Fragment} {core : Core}
  {log : List Access}

open Asm

theorem Leads.ori {target first : Reg} {imm : Int}
    (continues : Leads setting goal rest
      (core.setReg target.index
        (core.reg first.index ||| UInt32.ofNat imm.toNat)) log) :
    Leads setting goal (.insn (.unsignedImm .ori target first imm) :: rest)
      core log :=
  .general ⟨trivial, id⟩ rfl rfl continues

theorem Leads.lui {target : Reg} {imm : Int}
    (continues : Leads setting goal rest
      (core.setReg target.index (UInt32.ofNat imm.toNat <<< 16)) log) :
    Leads setting goal (.insn (.lui target imm) :: rest) core log :=
  .general ⟨trivial, id⟩ rfl rfl continues

/-- The code for a constant sets the register to it. -/
theorem Leads.loadImm {target : Reg} {value : UInt32}
    (nonzero : target.index ≠ 0)
    (continues : Leads setting goal rest (core.setReg target.index value) log) :
    Leads setting goal (loadImm target value ++ rest) core log := by
  have code := loadImm_code target value
  generalize Asm.loadImm target value = fragment at code ⊢
  cases code with
  | signed near isValue =>
      apply Leads.addiu
      rw [← isValue] at continues
      rwa [show core.reg (Reg.zero).index = 0 from rfl, UInt32.zero_add]
  | lower small isValue =>
      apply Leads.ori
      rw [← isValue] at continues
      rwa [show core.reg (Reg.zero).index = 0 from rfl, UInt32.zero_or,
        Int.toNat_natCast]
  | upper small isValue =>
      apply Leads.lui
      rwa [Int.toNat_natCast, isValue]
  | both highSmall lowSmall isValue =>
      apply Leads.lui
      apply Leads.ori
      rwa [Core.reg_setReg_same _ _ _ nonzero, Core.setReg_setReg,
        Int.toNat_natCast, Int.toNat_natCast, isValue]

end Constants

section Filling

variable {setting : Setting} {goal : Goal} {rest : Fragment} {core : Core}
  {log : List Access} {df : DataFormat} {wd : Reg}

open Asm Contract Routines

theorem Leads.fill (isNamed : df.Named) (single : df ≠ .double) {source : Reg}
    (continues : Leads setting goal rest
      (core.setVector wd.index
        (.filled df.bytes (core.reg source.index).toUInt64)) log) :
    Leads setting goal (Asm.insn (.fill df wd source) ++ rest) core log :=
  .vector ⟨isNamed, single⟩ rfl rfl continues

/-- What a broadcast leaves behind. -/
structure Broadcast (wd : Reg) (size : Nat) (word : UInt64)
    (before after : Core) : Prop where
  keeps : before.Keeps [scratch.index] [wd.index] after
  ram : after.ram = before.ram
  filled : after.vector wd.index = .filled size word

theorem Leads.fillNarrow (isNamed : df.Named) (single : df ≠ .double)
    {before : Core} {word : UInt64}
    (keeps : before.Keeps [scratch.index] [wd.index] core)
    (sameRam : core.ram = before.ram) (isLow : ∀ index < df.bytes,
      Lane.byte (core.reg scratch.index).toUInt64 index = Lane.byte word index)
    (continues : ∀ next, Broadcast wd df.bytes word before next →
      Leads setting goal rest next log) :
    Leads setting goal (Asm.insn (.fill df wd scratch) ++ rest) core log := by
  apply Leads.fill isNamed single
  apply continues
  refine ⟨keeps.setVector List.mem_cons_self _, sameRam, ?_⟩
  rw [Core.vector_setVector, if_pos rfl]
  exact VectorRegister.filled_congr (Nat.two_pow_pos _) isLow

theorem Leads.insertHigh {before : Core} {source : Reg} {low word : UInt64}
    (keeps : before.Keeps [scratch.index] [wd.index] core)
    (sameRam : core.ram = before.ram)
    (isFilled : core.vector wd.index = .filled 4 low)
    (isLow : ∀ index < 4, Lane.byte low index = Lane.byte word index)
    (isHigh : ∀ index < 4,
      Lane.byte (core.reg source.index).toUInt64 index =
        Lane.byte word (index + 4))
    (continues : ∀ next, Broadcast wd 8 word before next →
      Leads setting goal rest next log) :
    Leads setting goal (Routines.insertHigh wd source ++ rest) core log := by
  have regular : ∀ lane, (Insn.insert .word wd lane source).Regular :=
    fun lane => ⟨show DataFormat.word.Named by decide,
      show DataFormat.word ≠ .double by decide⟩
  apply Leads.vector (regular 1) rfl rfl
  apply Leads.vector (regular 3) rfl rfl
  apply continues
  refine ⟨(keeps.setVector List.mem_cons_self _).setVector List.mem_cons_self _,
    sameRam, ?_⟩
  rw [← VectorRegister.setLane_filled isLow isHigh, ← isFilled,
    Core.vector_setVector, if_pos rfl, Core.vector_setVector, if_pos rfl,
    Core.reg_setVector]
  rfl

theorem DataFormat.bytes_of_named (isNamed : df.Named) :
    (df.bytes = 1 ∨ df.bytes = 2 ∨ df.bytes = 4) ∧ df ≠ .double ∨
      df.bytes = 8 := by
  have below : df.tag.toNat < 4 := isNamed
  have bytes : df.bytes = 2 ^ df.tag.toNat := rfl
  rw [bytes]
  by_cases isDouble : df = .double
  · subst isDouble
    exact .inr rfl
  · have notThree : df.tag.toNat ≠ 3 := by
      intro isThree
      apply isDouble
      obtain ⟨tag⟩ := df
      exact congrArg DataFormat.mk (UInt8.toNat_inj.mp isThree)
    refine .inl ⟨?_, isDouble⟩
    obtain ⟨tag, isTag⟩ : ∃ tag, tag = df.tag.toNat := ⟨_, rfl⟩
    rw [← isTag] at below notThree ⊢
    have within : tag < 3 := by omega
    match tag, within with
    | 0, _ | 1, _ | 2, _ => decide

/-- The code of a constant fills the lanes with it. -/
theorem Leads.broadcastConst (isNamed : df.Named) {value : UInt64}
    (continues : ∀ next, Broadcast wd df.bytes value core next →
      Leads setting goal rest next log) :
    Leads setting goal (Routines.broadcastConst df wd df.bytes value ++ rest)
      core log := by
  have sizes := DataFormat.bytes_of_named isNamed
  have small : df.bytes ≤ 8 := by omega
  have cut : ∀ index < df.bytes,
      Lane.byte (Lane.truncate value df.bytes) index =
        Lane.byte value index := by
    intro index inside
    rw [Lane.byte_truncate, if_pos inside]
  have nonzero : scratch.index ≠ 0 := by decide
  unfold Routines.broadcastConst
  simp only
  split
  · apply Leads.vector
      (show (Insn.ldi df wd _).Regular from ⟨isNamed, id⟩) rfl rfl
    apply continues
    refine ⟨(Core.Keeps.refl core).setVector List.mem_cons_self _, rfl, ?_⟩
    rw [Core.vector_setVector, if_pos rfl]
    apply VectorRegister.filled_congr (Nat.two_pow_pos _)
    intro index inside
    rw [Lane.ofInt_toInt, Lane.byte_signExtend _ small inside]
    exact cut index inside
  · split
    case isTrue narrow =>
      have single : df ≠ .double := by
        rintro rfl
        exact absurd narrow (by decide)
      rw [List.append_assoc]
      apply Leads.loadImm nonzero
      apply Leads.fillNarrow isNamed single
        ((Core.Keeps.refl core).setReg List.mem_cons_self _)
        (Core.ram_setReg ..) _ continues
      intro index inside
      rw [Core.reg_setReg_same _ _ _ nonzero, Lane.byte_low _ (by omega)]
      exact cut index inside
    case isFalse wide =>
      have isEight : df.bytes = 8 := by omega
      rw [isEight] at cut continues ⊢
      simp only [List.append_assoc]
      apply Leads.loadImm nonzero
      apply Leads.fill (by decide) (by decide)
      apply Leads.loadImm nonzero
      have isLow : ∀ index < 4,
          Lane.byte (Lane.truncate value 8).toUInt32.toUInt64 index =
            Lane.byte value index := by
        intro index inside
        rw [Lane.byte_low _ inside, cut index (by omega)]
      refine Leads.insertHigh ?_ (by simp) ?_ isLow ?_ continues
      · exact (((Core.Keeps.refl core).setReg List.mem_cons_self _).setVector
          List.mem_cons_self _).setReg List.mem_cons_self _
      · simp only [Core.vector_setReg, Core.vector_setVector, if_true]
        rw [Core.reg_setReg_same _ _ _ nonzero]
        rfl
      · intro index inside
        rw [Core.reg_setReg_same _ _ _ nonzero, Lane.byte_high _ inside,
          cut _ (by omega)]

/-- The low bytes of a parameter are the ones of its first word. -/
theorem Executor.byte_param_low (executor : Executor) (index size : Int)
    {place : Nat} (inside : place < 4) :
    Lane.byte (executor.paramWord index).toUInt64 place =
      Lane.byte (executor.param index size) place := by
  unfold Executor.param
  simp only
  split
  · rw [Lane.byte_halves _ _ (by omega), if_pos inside]
  · rfl

/-- The code of a parameter fills the lanes with it. -/
theorem Leads.broadcastParam {executor : Executor} {start : UInt32}
    {index : Int} {size : Int} (record : Record setting executor start core)
    (isNamed : df.Named) (bounds : 0 ≤ index ∧ index + 8 < 64)
    (continues : ∀ next logged, log <:+ logged →
      Broadcast wd df.bytes (executor.param index size) core next →
      Leads setting goal rest next logged) :
    Leads setting goal (Routines.broadcastParam df wd df.bytes index size ++
      rest) core log := by
  have sizes := DataFormat.bytes_of_named isNamed
  have nonzero : scratch.index ≠ 0 := by decide
  have loaded : core.Keeps [scratch.index] [wd.index]
      (core.setReg scratch.index (executor.paramWord index)) :=
    (Core.Keeps.refl core).setReg List.mem_cons_self _
  unfold Routines.broadcastParam
  simp only
  split
  case isTrue narrow =>
    have single : df ≠ .double := by
      rintro rfl
      exact absurd narrow (by decide)
    rw [List.append_assoc]
    apply record.loadParam ⟨bounds.1, by omega⟩
    intro logged later
    apply Leads.fillNarrow isNamed single loaded (Core.ram_setReg ..) _
      fun next => continues next logged later
    intro place inside
    rw [Core.reg_setReg_same _ _ _ nonzero]
    exact executor.byte_param_low index size (by omega)
  case isFalse wide =>
    have isEight : df.bytes = 8 := by omega
    rw [isEight] at continues
    split
    case isTrue whole =>
      simp only [List.append_assoc]
      apply record.loadParam ⟨bounds.1, by omega⟩
      intro logged later
      apply Leads.fill (by decide) (by decide)
      apply ((record.setReg (by decide) _).setVector _ _).loadParam
        ⟨Int.add_nonneg bounds.1 (by decide), bounds.2⟩
      intro more further
      refine Leads.insertHigh ?_ (by simp) ?_
        (fun place inside => executor.byte_param_low index size inside) ?_
        fun next => continues next more (later.trans further)
      · exact (loaded.setVector List.mem_cons_self _).setReg
          List.mem_cons_self _
      · simp only [Core.vector_setReg, Core.vector_setVector, if_true]
        rw [Core.reg_setReg_same _ _ _ nonzero]
        rfl
      · intro place inside
        rw [Core.reg_setReg_same _ _ _ nonzero]
        unfold Executor.param
        rw [if_pos whole, Lane.byte_halves _ _ (by omega), if_neg (by omega),
          Nat.add_sub_cancel]
        rfl
    case isFalse half =>
      simp only [List.append_assoc]
      apply record.loadParam ⟨bounds.1, by omega⟩
      intro logged later
      apply Leads.fill (by decide) (by decide)
      refine Leads.insertHigh (loaded.setVector List.mem_cons_self _)
        (by simp) ?_ (fun place inside =>
          executor.byte_param_low index size inside) ?_
        fun next => continues next logged later
      · rw [Core.vector_setVector, if_pos rfl,
          Core.reg_setReg_same _ _ _ nonzero]
        rfl
      · intro place inside
        unfold Executor.param
        rw [if_neg half,
          Lane.byte_toUInt64_of_ge (executor.paramWord index) (by omega)]
        exact Lane.byte_zero place

end Filling

end LaneKernel
