import LaneKernel.Machine.Core
import LaneKernel.Proofs.Encodable

/-!
# Code for constants

A constant is put into a register by one instruction if one half of it is enough
to say it, and half by half otherwise.  `Asm.ConstantCode` lists the forms of
this code together with what its immediates make, and `Asm.loadImm_code` is
where the case distinction of `Asm.loadImm` is gone through.
-/

namespace LaneKernel

namespace Core

theorem distance_toInt (word : UInt32) :
    distance word.toInt32.toInt = word := by
  apply UInt32.toNat_inj.mp
  have bound := word.toNat_lt
  have isInt : word.toInt32.toInt = (word.toNat : Int).bmod (2 ^ 32) :=
    BitVec.toInt_eq_toNat_bmod _
  unfold distance
  rw [isInt, Word.toNat_ofInt, Int.bmod_def]
  split <;> omega

theorem toInt_distance {imm : Int} (near : -0x8000 ≤ imm ∧ imm ≤ 0x7fff) :
    (distance imm).toInt32.toInt = imm := by
  have isInt : (distance imm).toInt32.toInt =
      ((distance imm).toNat : Int).bmod (2 ^ 32) :=
    BitVec.toInt_eq_toNat_bmod _
  rw [isInt, distance, Word.toNat_ofInt, Int.bmod_def]
  split <;> omega

end Core

namespace Insn

variable {target source : Reg} (isTarget : target.isGeneral = true)

include isTarget

theorem encodable_addiu {imm : Int} (isSource : source.isGeneral = true)
    (near : -0x8000 ≤ imm ∧ imm ≤ 0x7fff) :
    (signedImm .addiu target source imm).encodable = true := by
  simp only [encodable, isTarget, isSource, near, and_self, Bool.and_self,
    decide_true]

theorem encodable_ori {half : Nat} (isSource : source.isGeneral = true)
    (small : half ≤ 0xffff) :
    (unsignedImm .ori target source half).encodable = true := by
  simp only [encodable, isTarget, isSource, Bool.true_and, decide_eq_true_eq]
  omega

theorem encodable_lui {half : Nat} (small : half ≤ 0xffff) :
    (lui target half).encodable = true := by
  simp only [encodable, isTarget, Bool.true_and, decide_eq_true_eq]
  omega

end Insn

namespace Asm

/-- The constants that a single instruction makes of register zero: those that
one half of a word says, sign-extended, zero-extended or as the upper half. -/
def Short (value : UInt32) : Prop :=
  (-0x8000 ≤ value.toInt32.toInt ∧ value.toInt32.toInt ≤ 0x7fff) ∨
    value.toNat ≤ 0xffff ∨
    value.toNat % 0x10000 = 0

/-- The forms that the code for a constant has, each with the value of its
immediates. -/
inductive ConstantCode (target : Reg) (value : UInt32) : Fragment → Prop where
  | signed {imm : Int} : -0x8000 ≤ imm ∧ imm ≤ 0x7fff →
      Core.distance imm = value →
      ConstantCode target value [.insn (.signedImm .addiu target .zero imm)]
  | lower {half : Nat} : half ≤ 0xffff → UInt32.ofNat half = value →
      ConstantCode target value [.insn (.unsignedImm .ori target .zero half)]
  | upper {half : Nat} : half ≤ 0xffff → UInt32.ofNat half <<< 16 = value →
      ConstantCode target value [.insn (.lui target half)]
  | both {high low : Nat} : high ≤ 0xffff → low ≤ 0xffff →
      UInt32.ofNat high <<< 16 ||| UInt32.ofNat low = value → ¬ Short value →
      ConstantCode target value
        [.insn (.lui target high), .insn (.unsignedImm .ori target target low)]

theorem toNat_upper (value : UInt32) :
    (value >>> 16).toNat = value.toNat / 0x10000 := by
  rw [UInt32.toNat_shiftRight, Nat.shiftRight_eq_div_pow]
  rfl

theorem toNat_lower (value : UInt32) :
    (value &&& 0xffff).toNat = value.toNat % 0x10000 :=
  Word.toNat_and_mask value 0xffff 16 rfl

theorem toNat_shiftLeft_half {half : Nat} (small : half ≤ 0xffff) :
    (UInt32.ofNat half <<< 16).toNat = half * 0x10000 := by
  have isHalf : (UInt32.ofNat half).toNat = half := by
    rw [UInt32.toNat_ofNat']
    omega
  have fits : (UInt32.ofNat half).toNat * 2 ^ 16 < 2 ^ 32 := by omega
  exact (Word.toNat_shiftLeft_field _ 16 16 rfl (by decide) fits).trans
    (congrArg (· * 0x10000) isHalf)

theorem halves_eq (value : UInt32) :
    UInt32.ofNat (value >>> 16).toNat <<< 16 |||
      UInt32.ofNat (value &&& 0xffff).toNat = value := by
  have bound := value.toNat_lt
  have upper : (UInt32.ofNat (value >>> 16).toNat <<< 16).toNat =
      value.toNat / 0x10000 * 0x10000 := by
    rw [toNat_shiftLeft_half (by rw [toNat_upper]; omega), toNat_upper]
  apply UInt32.toNat_inj.mp
  rw [Word.toNat_or_low _ _ 16 (by rw [upper]; omega)
    (by rw [UInt32.ofNat_toNat, toNat_lower]; omega), upper, UInt32.ofNat_toNat,
    toNat_lower]
  omega

/-- The code for a constant has one of the forms. -/
theorem loadImm_code (target : Reg) (value : UInt32) :
    ConstantCode target value (loadImm target value) := by
  have bound := value.toNat_lt
  have upperSmall : (value >>> 16).toNat ≤ 0xffff := by
    rw [toNat_upper]
    omega
  have lowerSmall : (value &&& 0xffff).toNat ≤ 0xffff := by
    rw [toNat_lower]
    omega
  have isWhole := halves_eq value
  unfold loadImm
  dsimp only
  split
  case isTrue near => exact .signed near (Core.distance_toInt value)
  case isFalse notNear =>
    split
    case isTrue low =>
      exact .lower (UInt32.le_iff_toNat_le.mp low) UInt32.ofNat_toNat
    case isFalse notLow =>
      split
      case isTrue noLower =>
        rw [noLower] at isWhole
        exact .upper upperSmall ((UInt32.or_zero).symm.trans isWhole)
      case isFalse someLower =>
        refine .both upperSmall lowerSmall isWhole ?_
        rintro (near | low | noLower)
        · exact notNear near
        · exact notLow (UInt32.le_iff_toNat_le.mpr low)
        · exact someLower
            (UInt32.toNat_inj.mp ((toNat_lower value).trans noLower))

end Asm

end LaneKernel
