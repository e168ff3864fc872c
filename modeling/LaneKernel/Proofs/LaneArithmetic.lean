import LaneKernel.Opcode
import LaneKernel.Proofs.Bytes

/-!
# The lane unit computes the opcodes

The machine and the reference interpreter define the arithmetic of a lane
independently of each other.  On lanes of the same size they agree up to the
bytes above the lane, which neither keeps.
-/

namespace LaneKernel

namespace Lane

/-- The word has no bytes above its size. -/
def Fits (word : UInt64) (size : Nat) : Prop := ∀ index, size ≤ index →
    byte word index = 0

theorem Fits.truncate_eq {word : UInt64} {size : Nat} (fits : Fits word size) :
    truncate word size = word :=
  truncate_eq_self fits

theorem fits_truncate (word : UInt64) (size : Nat) :
    Fits (truncate word size) size := by
  intro index beyond
  rw [byte_truncate, if_neg (by omega)]

theorem truncate_truncate (word : UInt64) (size : Nat) :
    truncate (truncate word size) size = truncate word size :=
  (fits_truncate word size).truncate_eq

theorem fits_lane (register : VectorRegister) {size : Nat} (number : Nat)
    (small : size ≤ 8) : Fits (register.lane size number) size := by
  intro index beyond
  rw [VectorRegister.byte_lane _ _ _ _ small, if_neg (by omega)]

theorem truncate_congr {first second : UInt64} {size : Nat}
    (same : ∀ index < size, byte first index = byte second index) :
    truncate first size = truncate second size := by
  apply ext_byte
  intro index _
  rw [byte_truncate, byte_truncate]
  split
  case isTrue inside => exact same index inside
  case isFalse => rfl

theorem truncate_signExtend (word : UInt64) {size : Nat} (small : size ≤ 8) :
    truncate (signExtend word size).toUInt64 size = truncate word size :=
  truncate_congr fun _ inside => byte_signExtend word small inside

theorem toNat_lt_of_fits {word : UInt64} {size : Nat} (fits : Fits word size) :
    word.toNat < 2 ^ (8 * size) := by
  apply Nat.lt_pow_two_of_testBit
  intro place beyond
  rcases Nat.lt_or_ge place 64 with inside | outside
  · have zero := fits (place / 8) (by omega)
    have bit := testBit_byte word (place / 8) (place % 8)
    rw [zero, show 8 * (place / 8) + place % 8 = place by omega] at bit
    simpa [show place % 8 < 8 by omega] using bit.symm
  · exact Nat.testBit_lt_two_pow (Nat.lt_of_lt_of_le word.toNat_lt
      (Nat.pow_le_pow_right (by decide) outside))

end Lane

open Lane LaneUnit

namespace LaneUnit

variable {size : Nat} {a b : UInt64}

theorem addSigned_eq (a b : UInt64) (size : Nat) (small : size ≤ 8) :
    truncate (addSigned (signExtend a size) (signExtend b size) size).toUInt64
      size = truncate (addSaturatingSigned a b size) size := by
  unfold addSigned addSaturatingSigned
  simp only
  by_cases whole : size = 8
  · subst whole
    simp only [if_true, ge_iff_le, Nat.le_refl]
    split
    · rfl
    · split <;> rfl
  · rw [if_neg whole, if_neg (by omega), truncate_truncate]

theorem subSigned_eq (a b : UInt64) (size : Nat) (small : size ≤ 8) :
    truncate (subSigned (signExtend a size) (signExtend b size) size).toUInt64
      size = truncate (subSaturatingSigned a b size) size := by
  unfold subSigned subSaturatingSigned
  simp only
  by_cases whole : size = 8
  · subst whole
    simp only [if_true, ge_iff_le, Nat.le_refl]
    split
    · rfl
    · split <;> rfl
  · rw [if_neg whole, if_neg (by omega), truncate_truncate]

theorem addUnsigned_eq (first : Fits a size) (second : Fits b size) :
    addUnsigned a b size = addSaturatingUnsigned a b size := by
  unfold addUnsigned addSaturatingUnsigned
  rw [first.truncate_eq, second.truncate_eq]

theorem subUnsigned_eq (first : Fits a size) (second : Fits b size) :
    (if a > b then a - b else 0) = subSaturatingUnsigned a b size := by
  unfold subSaturatingUnsigned
  rw [first.truncate_eq, second.truncate_eq]
  by_cases less : a < b
  · rw [if_neg (fun greater => UInt64.lt_asymm less greater), if_pos less]
  · rw [if_neg less]
    by_cases greater : a > b
    · rw [if_pos greater]
    · have same : a = b :=
        UInt64.le_antisymm (UInt64.not_lt.mp greater) (UInt64.not_lt.mp less)
      rw [if_neg greater, same, UInt64.sub_self]

/-- The average of the halves, with the bit that both halves lost. -/
theorem toNat_averageUnsigned (a b : UInt64) :
    (averageUnsigned a b).toNat = (a.toNat + b.toNat + 1) / 2 := by
  have firstBound := a.toNat_lt
  have secondBound := b.toNat_lt
  have lowBit : ((a ||| b) &&& 1).toNat = (a.toNat ||| b.toNat) % 2 := by
    rw [UInt64.toNat_and, UInt64.toNat_or]
    exact Nat.and_one_is_mod _
  have parity : (a.toNat ||| b.toNat) % 2 = 1 ↔ a.toNat % 2 = 1 ∨
      b.toNat % 2 = 1 :=
    Nat.or_mod_two_eq_one
  have half : ∀ word : UInt64, (word >>> 1).toNat = word.toNat / 2 := by
    intro word
    rw [UInt64.toNat_shiftRight]
    exact Nat.shiftRight_one _
  unfold averageUnsigned
  rw [UInt64.toNat_add, UInt64.toNat_add, half, half, lowBit]
  omega

theorem averageUnsigned_eq (small : size ≤ 4) (first : Fits a size)
    (second : Fits b size) : averageUnsigned a b = (a + b + 1) >>> 1 := by
  have power : 2 ^ (8 * size) ≤ 2 ^ 32 :=
    Nat.pow_le_pow_right (by decide) (by omega)
  have firstBound := toNat_lt_of_fits first
  have secondBound := toNat_lt_of_fits second
  have isSum : (a + b + 1).toNat = a.toNat + b.toNat + 1 := by
    simp only [UInt64.toNat_add, UInt64.toNat_one]
    omega
  apply UInt64.toNat_inj.mp
  rw [toNat_averageUnsigned, UInt64.toNat_shiftRight, isSum]
  exact (Nat.shiftRight_one _).symm

theorem toInt_shiftRight (number : Int64) {count : Nat} (small : count < 64) :
    (number >>> Int64.ofNat count).toInt = number.toInt / 2 ^ count := by
  have amount : (Int64.ofNat count).toBitVec.smod 64 =
      BitVec.ofNat 64 count := by
    have every : ∀ count < 64, (Int64.ofNat count).toBitVec.smod 64 =
        BitVec.ofNat 64 count := by
      decide
    exact every count small
  change (number >>> Int64.ofNat count).toBitVec.toInt = _
  rw [Int64.toBitVec_shiftRight, amount, BitVec.sshiftRight_eq',
    BitVec.toNat_ofNat, Nat.mod_eq_of_lt (by omega), BitVec.toInt_sshiftRight,
    Int.shiftRight_eq_div_pow]
  rfl

theorem toInt_signExtend_bounds (word : UInt64) {size : Nat}
    (positive : 0 < size) (small : size ≤ 4) :
    -2 ^ 31 ≤ (signExtend word size).toInt ∧
      (signExtend word size).toInt < 2 ^ 31 := by
  unfold signExtend
  rw [if_neg (by omega), toInt_shiftRight _ (by omega)]
  have low := Int64.le_toInt (word <<< UInt64.ofNat (64 - 8 * size)).toInt64
  have high := Int64.toInt_lt (word <<< UInt64.ofNat (64 - 8 * size)).toInt64
  have power : (2 : Int) ^ 32 ≤ 2 ^ (64 - 8 * size) := by
    exact_mod_cast Nat.pow_le_pow_right (show 0 < 2 by decide)
      (show 32 ≤ 64 - 8 * size by omega)
  constructor
  · apply (Int.le_ediv_iff_mul_le (by omega)).mpr
    omega
  · apply Int.ediv_lt_of_lt_mul (by omega)
    omega

theorem toInt_emod_two (number : Int64) :
    number.toInt % 2 = (number.toBitVec.toNat % 2 : Nat) := by
  change number.toBitVec.toInt % 2 = _
  rw [BitVec.toInt_eq_toNat_bmod, Int.bmod_def]
  split <;> omega

theorem toInt_lowBit (a b : Int64) :
    ((a ||| b) &&& 1).toInt =
      ((a.toBitVec.toNat ||| b.toBitVec.toNat) % 2 : Nat) := by
  have isBit : ((a ||| b) &&& 1).toBitVec.toNat =
      (a.toBitVec.toNat ||| b.toBitVec.toNat) % 2 := by
    rw [Int64.toBitVec_and, Int64.toBitVec_or, BitVec.toNat_and,
      BitVec.toNat_or]
    exact Nat.and_one_is_mod _
  change ((a ||| b) &&& 1).toBitVec.toInt = _
  rw [BitVec.toInt_eq_toNat_bmod, isBit, Int.bmod_def]
  split <;> omega

/-- The signed average, which no pair of numbers makes overflow. -/
theorem toInt_averageSigned (a b : Int64) :
    (averageSigned a b).toInt = (a.toInt + b.toInt + 1) / 2 := by
  have firstLow := Int64.le_toInt a
  have firstHigh := Int64.toInt_lt a
  have secondLow := Int64.le_toInt b
  have secondHigh := Int64.toInt_lt b
  have half : ∀ number : Int64, (number >>> 1).toInt = number.toInt / 2 := by
    intro number
    exact toInt_shiftRight number (show 1 < 64 by decide)
  have parity : (a.toBitVec.toNat ||| b.toBitVec.toNat) % 2 = 1 ↔
      a.toBitVec.toNat % 2 = 1 ∨ b.toBitVec.toNat % 2 = 1 :=
    Nat.or_mod_two_eq_one
  have firstParity := toInt_emod_two a
  have secondParity := toInt_emod_two b
  unfold averageSigned
  rw [Int64.toInt_add, Int64.toInt_add, half, half, toInt_lowBit,
    Int.bmod_add_bmod]
  rw [Int.bmod_eq_of_le] <;> omega

theorem averageSigned_eq (a b : UInt64) (positive : 0 < size)
    (small : size ≤ 4) :
    averageSigned (signExtend a size) (signExtend b size) =
      (signExtend a size + signExtend b size + 1) >>> 1 := by
  have firstBound := toInt_signExtend_bounds a positive small
  have secondBound := toInt_signExtend_bounds b positive small
  have one : (1 : Int64).toInt = 1 := rfl
  have isSum : (signExtend a size + signExtend b size + 1).toInt =
      (signExtend a size).toInt + (signExtend b size).toInt + 1 := by
    rw [Int64.toInt_add, Int64.toInt_add, one, Int.bmod_add_bmod]
    apply Int.bmod_eq_of_le <;> omega
  apply Int64.toInt_inj.mp
  rw [toInt_averageSigned, ← isSum]
  exact (toInt_shiftRight _ (show 1 < 64 by decide)).symm

end LaneUnit

/-- The lane operation of an opcode that has one with its operands in order. -/
def ArithOp.laneOp? : ArithOp → Option LaneOp
  | add => some .addv | sub => some .subv
  | addSS => some .addsS | addUS => some .addsU
  | subSS => some .subsS | subUS => some .subsU
  | cmpEq => some .ceq | mulLow => some .mulv
  | maxS => some .maxS | maxU => some .maxU
  | minS => some .minS | minU => some .minU
  | avgS => some .averS | avgU => some .averU
  | _ => none

theorem truncate_mask (condition : Bool) (size : Nat) :
    truncate (allOnes condition) size =
      truncate (Lane.mask condition size) size := by
  unfold allOnes Lane.mask
  split
  · rw [truncate_truncate]
  · rfl

/-- The lane unit computes what the opcode says, in the bytes of the lane. -/
theorem LaneOp.truncate_compute {op : ArithOp} {laneOp : LaneOp} {size : Nat}
    {a b : UInt64} (isLane : op.laneOp? = some laneOp) (positive : 0 < size)
    (small : size ≤ 8) (narrow : op ∈ Opcode.narrowOps → size ≤ 4)
    (first : Fits a size) (second : Fits b size) :
    truncate (laneOp.compute size a b) size =
      truncate (op.eval size a b) size := by
  cases op with
  | add | sub =>
      cases isLane
      exact (truncate_truncate _ size).symm
  | addSS =>
      cases isLane
      exact addSigned_eq a b size small
  | subSS =>
      cases isLane
      exact subSigned_eq a b size small
  | addUS =>
      cases isLane
      exact congrArg (truncate · size) (addUnsigned_eq first second)
  | subUS =>
      cases isLane
      exact congrArg (truncate · size) (subUnsigned_eq first second)
  | cmpEq =>
      cases isLane
      exact truncate_mask _ size
  | mulLow =>
      cases isLane
      exact (truncate_truncate _ size).symm
  | maxU | minU =>
      cases isLane
      rfl
  | maxS =>
      cases isLane
      have isMax : compute .maxS size a b =
          (if signExtend a size ≤ signExtend b size then
          signExtend b size else signExtend a size).toUInt64 := rfl
      rw [isMax, ArithOp.eval]
      by_cases less : signExtend a size ≤ signExtend b size
      · rw [if_pos less]
        split
        case isTrue greater =>
          rw [← Int64.le_antisymm less greater, truncate_signExtend a small]
        case isFalse => exact truncate_signExtend b small
      · rw [if_neg less, if_pos (Int64.le_of_lt (Int64.not_le.mp less)),
          truncate_signExtend a small]
  | minS =>
      cases isLane
      have isMin : compute .minS size a b =
          (if signExtend a size ≤ signExtend b size then
          signExtend a size else signExtend b size).toUInt64 := rfl
      rw [isMin, ArithOp.eval]
      split
      · exact truncate_signExtend a small
      · exact truncate_signExtend b small
  | avgS =>
      cases isLane
      simp only [compute, ArithOp.eval]
      rw [averageSigned_eq a b positive (narrow (by decide)), truncate_truncate]
  | avgU =>
      cases isLane
      simp only [compute, ArithOp.eval]
      rw [averageUnsigned_eq (narrow (by decide)) first second]
  | copy | and | andNot | or | xor | cmpGtS | float _ => cases isLane

namespace VectorRegister

theorem ext_byte {first second : VectorRegister}
    (same : ∀ index < 16, first.byte index = second.byte index) :
    first = second := by
  apply Vector.ext
  intro index inside
  have here := same index inside
  rw [byte_eq_get _ ⟨index, inside⟩, byte_eq_get _ ⟨index, inside⟩] at here
  exact here

/-- The operation of an opcode on every lane of `size` bytes. -/
def computed (op : ArithOp) (size : Nat) (first second : VectorRegister) :
    VectorRegister :=
  .ofLanes size fun number =>
    truncate (op.eval size (first.lane size number) (second.lane size number))
      size

variable {size : Nat} (first second : VectorRegister)

theorem apply_eq_computed {op : ArithOp} {laneOp : LaneOp}
    (isLane : op.laneOp? = some laneOp) (positive : 0 < size) (small : size ≤ 8)
    (narrow : op ∈ Opcode.narrowOps → size ≤ 4) :
    laneOp.apply size first second = computed op size first second := by
  unfold LaneOp.apply computed
  congr 1
  funext number
  exact LaneOp.truncate_compute isLane positive small narrow
    (fits_lane first number small) (fits_lane second number small)

theorem less_eq_computed : LaneOp.cltS.apply size second first =
    computed .cmpGtS size first second := by
  unfold LaneOp.apply computed
  congr 1
  funext number
  exact truncate_mask _ size

theorem float_eq_computed (op : FloatOp) (double : Bool) :
    op.apply double first second =
      computed (.float op) (if double then 8 else 4) first second := by
  unfold FloatOp.apply computed
  cases double with
  | true => rfl
  | false =>
      simp only [Bool.false_eq_true, if_false, ArithOp.eval, if_true]
      congr 1
      funext number
      apply (truncate_eq_self _).symm
      intro index beyond
      apply UInt8.toNat_inj.mp
      rw [toNat_byte, UInt32.toNat_toUInt64]
      have bound :=
        (op.single (first.lane 4 number).toUInt32
          (second.lane 4 number).toUInt32).toNat_lt
      have power : 2 ^ 32 ≤ 2 ^ (8 * index) :=
        Nat.pow_le_pow_right (by decide) (by omega)
      rw [Nat.div_eq_of_lt (Nat.lt_of_lt_of_le bound power)]
      rfl

theorem byte_computed (op : ArithOp) (positive : 0 < size) {index : Nat}
    (inside : index < 16) :
    (computed op size first second).byte index =
      Lane.byte (op.eval size (first.lane size (index / size))
        (second.lane size (index / size))) (index % size) := by
  unfold computed
  rw [byte_ofLanes _ _ inside, byte_truncate, if_pos (Nat.mod_lt _ positive)]

theorem byte_lane_div (positive : 0 < size) (small : size ≤ 8) (index : Nat) :
    Lane.byte (first.lane size (index / size)) (index % size) =
      first.byte index := by
  rw [byte_lane _ _ _ _ small, if_pos (Nat.mod_lt _ positive), Nat.mul_comm,
    Nat.div_add_mod]

theorem byte_zipBytes (combine : UInt8 → UInt8 → UInt8) {index : Nat}
    (inside : index < 16) :
    (first.zipBytes second combine).byte index =
      combine (first.byte index) (second.byte index) := by
  rw [byte_eq_get _ ⟨index, inside⟩, byte_eq_get _ ⟨index, inside⟩,
    byte_eq_get _ ⟨index, inside⟩]
  exact Vector.getElem_zipWith ..

theorem byte_mapBytes (change : UInt8 → UInt8) {index : Nat}
    (inside : index < 16) :
    (first.mapBytes change).byte index = change (first.byte index) := by
  rw [byte_eq_get _ ⟨index, inside⟩, byte_eq_get _ ⟨index, inside⟩]
  exact Vector.getElem_map ..

theorem bits_eq_computed {op : ArithOp} {bitOp : BitOp}
    (isBits : (op, bitOp) ∈
      [(ArithOp.and, BitOp.and), (.or, .or), (.xor, .xor)])
    (positive : 0 < size) (small : size ≤ 8) :
    first.zipBytes second bitOp.compute = computed op size first second := by
  apply ext_byte
  intro index inside
  rw [byte_zipBytes _ _ _ inside, byte_computed _ _ _ positive inside]
  simp only [List.mem_cons, Prod.mk.injEq, List.not_mem_nil, or_false] at isBits
  rcases isBits with ⟨rfl, rfl⟩ | ⟨rfl, rfl⟩ | ⟨rfl, rfl⟩
  · rw [ArithOp.eval, byte_and, byte_lane_div _ positive small,
      byte_lane_div _ positive small]
    rfl
  · rw [ArithOp.eval, byte_or, byte_lane_div _ positive small,
      byte_lane_div _ positive small]
    rfl
  · rw [ArithOp.eval, byte_xor, byte_lane_div _ positive small,
      byte_lane_div _ positive small]
    rfl

theorem andNot_eq_computed (positive : 0 < size) (small : size ≤ 8) :
    first.zipBytes (second.mapBytes fun byte => BitOp.xor.compute byte 0xff)
      BitOp.and.compute = computed .andNot size first second := by
  apply ext_byte
  intro index inside
  have part := Nat.mod_lt index positive
  have complement : ∀ byte : UInt8, byte ^^^ 0xff = ~~~byte := by
    intro byte
    apply UInt8.toBitVec_inj.mp
    rw [UInt8.toBitVec_xor, UInt8.toBitVec_not]
    exact BitVec.xor_allOnes
  rw [byte_zipBytes _ _ _ inside, byte_mapBytes _ _ inside,
    byte_computed _ _ _ positive inside, ArithOp.eval, byte_truncate,
    if_pos part, byte_and, byte_not _ (by omega),
    byte_lane_div _ positive small, byte_lane_div _ positive small,
    ← complement]
  rfl

theorem copy_eq_computed (positive : 0 < size) (small : size ≤ 8) :
    first = computed .copy size first second := by
  apply ext_byte
  intro index inside
  rw [byte_computed _ _ _ positive inside, ArithOp.eval,
    byte_lane_div _ positive small]

end VectorRegister

end LaneKernel
