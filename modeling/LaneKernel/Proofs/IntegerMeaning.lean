import LaneKernel.Proofs.LaneRules
import LaneKernel.Proofs.Lowered
import Mathlib.Data.Nat.Bitwise

/-!
# Lane arithmetic on integers

The reference arithmetic works on 64-bit words.  Here every integer operation
gets its meaning as a number that is computed, without a bound, from the signed
or unsigned numbers in the lanes.  A result is the pattern of that number in a
lane, for all words, whatever stands above the lanes.
-/

namespace LaneKernel

namespace Lane

/-- The number in the low `size` bytes of a word. -/
def unsignedValue (word : UInt64) (size : Nat) :
    Nat := word.toNat % 2 ^ (8 * size)

/-- The same bytes as a signed number. -/
def signedValue (word : UInt64) (size : Nat) :
    Int := Int.bmod word.toNat (2 ^ (8 * size))

/-- A number brought into a range. -/
def clamp (low high number : Int) : Int := max low (min number high)

/-- A number brought into the signed range of a lane. -/
def clampSigned (size : Nat) (number : Int) : Int :=
  clamp (-2 ^ (8 * size - 1)) (2 ^ (8 * size - 1) - 1) number

/-- A number brought into the unsigned range of a lane. -/
def clampUnsigned (size : Nat) (number : Int) :
    Int := clamp 0 (2 ^ (8 * size) - 1) number

/-- The word is the pattern of a number in a lane of `size` bytes, with nothing
above the lane. -/
def Holds (word : UInt64) (size : Nat) (number : Int) : Prop :=
  (word.toNat : Int) = number % 2 ^ (8 * size)

section Words

theorem toInt_toInt64 (word : UInt64) :
    word.toInt64.toInt = Int.bmod word.toNat (2 ^ 64) :=
  BitVec.toInt_eq_toNat_bmod word.toBitVec

theorem toNat_toUInt64 (number : Int64) :
    (number.toUInt64.toNat : Int) = number.toInt % 2 ^ 64 := by
  have same : number.toInt = Int.bmod number.toUInt64.toNat (2 ^ 64) :=
    BitVec.toInt_eq_toNat_bmod number.toBitVec
  have bound := number.toUInt64.toNat_lt
  simp only [Int.bmod_def] at same
  omega

theorem toNat_and_not (a b : UInt64) :
    (a &&& ~~~b).toNat = a.toNat.ldiff b.toNat := by
  apply Nat.eq_of_testBit_eq
  intro index
  rw [Nat.testBit_ldiff]
  by_cases within : index < 64
  · change (a.toBitVec &&& ~~~b.toBitVec).getLsbD index =
      (a.toBitVec.getLsbD index && !b.toBitVec.getLsbD index)
    simp [within]
  · have isHigh :
        ∀ word : UInt64, word.toNat.testBit index = false := fun word =>
      Nat.testBit_lt_two_pow (Nat.lt_of_lt_of_le word.toNat_lt
        (Nat.pow_le_pow_right (by decide) (Nat.le_of_not_lt within)))
    simp [isHigh]

theorem toNat_max (first second : UInt64) :
    (max first second).toNat = max first.toNat second.toNat := by
  change (if first ≤ second then second else first).toNat = _
  simp only [UInt64.le_iff_toNat_le]
  split <;> omega

theorem toNat_min (first second : UInt64) :
    (min first second).toNat = min first.toNat second.toNat := by
  change (if first ≤ second then first else second).toNat = _
  simp only [UInt64.le_iff_toNat_le]
  split <;> omega

theorem toInt_max (first second : Int64) :
    (max first second).toInt = max first.toInt second.toInt := by
  change (if first ≤ second then second else first).toInt = _
  simp only [Int64.le_iff_toInt_le]
  split <;> omega

theorem toInt_min (first second : Int64) :
    (min first second).toInt = min first.toInt second.toInt := by
  change (if first ≤ second then first else second).toInt = _
  simp only [Int64.le_iff_toInt_le]
  split <;> omega

end Words

variable {size : Nat} (valid : validSize ↑size = true)

include valid

theorem toNat_truncate (word : UInt64) :
    (truncate word size).toNat = word.toNat % 2 ^ (8 * size) := by
  have bound := word.toNat_lt
  rcases validSize_iff.mp valid with rfl | rfl | rfl | rfl
  · exact (UInt64.toNat_and _ _).trans (Nat.and_two_pow_sub_one_eq_mod _ 8)
  · exact (UInt64.toNat_and _ _).trans (Nat.and_two_pow_sub_one_eq_mod _ 16)
  · exact (UInt64.toNat_and _ _).trans (Nat.and_two_pow_sub_one_eq_mod _ 32)
  · exact (Nat.mod_eq_of_lt bound).symm

theorem toInt_signExtend (word : UInt64) :
    (signExtend word size).toInt = signedValue word size := by
  have amount : 64 - 8 * size < 64 := by
    have := validSize_iff.mp valid
    omega
  have isShifted : (signExtend word size).toInt =
      (word <<< UInt64.ofNat (64 - 8 * size)).toInt64.toInt /
        2 ^ (64 - 8 * size) := by
    unfold signExtend
    simp only [if_neg (Nat.not_le.mpr amount)]
    exact LaneUnit.toInt_shiftRight _ amount
  have isWord : (word <<< UInt64.ofNat (64 - 8 * size)).toNat =
      word.toNat * 2 ^ (64 - 8 * size) % 2 ^ 64 := by
    rw [UInt64.toNat_shiftLeft, UInt64.toNat_ofNat', Nat.shiftLeft_eq]
    congr 3
    omega
  rw [isShifted, toInt_toInt64, isWord]
  simp only [signedValue, Int.bmod_def]
  rcases validSize_iff.mp valid with rfl | rfl | rfl | rfl <;> omega

theorem signedValue_bounds (word : UInt64) :
    -2 ^ (8 * size - 1) ≤ signedValue word size ∧
      signedValue word size < 2 ^ (8 * size - 1) := by
  simp only [signedValue, Int.bmod_def]
  rcases validSize_iff.mp valid with rfl | rfl | rfl | rfl <;> omega

/-- A number wrapped to a word and cut to a lane is the pattern of the
number. -/
theorem holds_truncate {word : UInt64} {number : Int}
    (wrapped : (word.toNat : Int) = number % 2 ^ 64) :
    Holds (truncate word size) size number := by
  rw [Holds, toNat_truncate valid]
  rcases validSize_iff.mp valid with rfl | rfl | rfl | rfl <;> omega

theorem toInt_signedRange :
    (signedRange size).1.toInt = -2 ^ (8 * size - 1) ∧
      (signedRange size).2.toInt = 2 ^ (8 * size - 1) - 1 := by
  rcases validSize_iff.mp valid with rfl | rfl | rfl | rfl <;> decide

/-- Narrow lanes compute in a word that is wide enough; the widest lane is
clamped after the fact, where `high` and `low` tell from the wrapped number on
which side the exact one left the range. -/
theorem holds_saturated {exact : Int} {wrapped : Int64} {high low : Prop}
    [Decidable high] [Decidable low]
    (isWrapped : wrapped.toInt = Int.bmod exact (2 ^ 64))
    (narrow : size < 8 → -2 ^ 32 ≤ exact ∧ exact ≤ 2 ^ 32)
    (isHigh : size = 8 → (high ↔ 2 ^ 63 ≤ exact))
    (isLow : size = 8 → (low ↔ exact < -2 ^ 63)) :
    Holds (if size ≥ 8 then
        if high then (signedRange size).2.toUInt64
        else if low then (signedRange size).1.toUInt64 else wrapped.toUInt64
      else truncate (min (max wrapped (signedRange size).1)
        (signedRange size).2).toUInt64 size)
      size (clampSigned size exact) := by
  obtain ⟨isLeast, isGreatest⟩ := toInt_signedRange valid
  by_cases whole : size ≥ 8
  · obtain rfl : size = 8 := by
      have := validSize_iff.mp valid
      omega
    rw [if_pos whole]
    simp only [Holds, clampSigned, clamp]
    by_cases above : high
    · have bound := (isHigh rfl).mp above
      rw [if_pos above, toNat_toUInt64, isGreatest]
      omega
    · have notAbove := mt (isHigh rfl).mpr above
      rw [if_neg above]
      by_cases below : low
      · have bound := (isLow rfl).mp below
        rw [if_pos below, toNat_toUInt64, isLeast]
        omega
      · have notBelow := mt (isLow rfl).mpr below
        rw [if_neg below, toNat_toUInt64, isWrapped, Int.bmod_def]
        omega
  · have noWrap : wrapped.toInt = exact := by
      have bounds := narrow (Nat.lt_of_not_le whole)
      rw [isWrapped]
      apply Int.bmod_eq_of_le <;> omega
    have ordered : (-2 ^ (8 * size - 1) : Int) ≤ 2 ^ (8 * size - 1) - 1 := by
      rcases validSize_iff.mp valid with rfl | rfl | rfl | rfl <;> decide
    have clamped :
        (min (max wrapped (signedRange size).1) (signedRange size).2).toInt =
        clampSigned size exact := by
      rw [toInt_min, toInt_max, isLeast, isGreatest, noWrap]
      simp only [clampSigned, clamp]
      omega
    rw [if_neg whole, ← clamped]
    exact holds_truncate valid (toNat_toUInt64 _)

theorem signedValue_narrow (narrow : size < 8) (word : UInt64) :
    -2 ^ 31 ≤ signedValue word size ∧ signedValue word size < 2 ^ 31 := by
  have sizes := validSize_iff.mp valid
  rw [← toInt_signExtend valid]
  exact LaneUnit.toInt_signExtend_bounds word (by omega) (by omega)

theorem holds_addSaturatingSigned (a b : UInt64) :
    Holds (addSaturatingSigned a b size) size
      (clampSigned size (signedValue a size + signedValue b size)) := by
  have isX := toInt_signExtend valid a
  have isY := toInt_signExtend valid b
  have xBounds := signedValue_bounds valid a
  have yBounds := signedValue_bounds valid b
  have isSum := Int64.toInt_add (signExtend a size) (signExtend b size)
  rw [isX, isY] at isSum
  apply holds_saturated valid isSum
  · intro narrow
    have := signedValue_narrow valid narrow a
    have := signedValue_narrow valid narrow b
    omega
  · rintro rfl
    simp only [gt_iff_lt, Int64.lt_iff_toInt_lt, isX, isY, isSum,
      Int64.toInt_zero, Int.bmod_def]
    omega
  · rintro rfl
    simp only [ge_iff_le, Int64.lt_iff_toInt_lt, Int64.le_iff_toInt_le, isX,
      isY, isSum, Int64.toInt_zero, Int.bmod_def]
    omega

theorem holds_subSaturatingSigned (a b : UInt64) :
    Holds (subSaturatingSigned a b size) size
      (clampSigned size (signedValue a size - signedValue b size)) := by
  have isX := toInt_signExtend valid a
  have isY := toInt_signExtend valid b
  have xBounds := signedValue_bounds valid a
  have yBounds := signedValue_bounds valid b
  have isDifference := Int64.toInt_sub (signExtend a size) (signExtend b size)
  rw [isX, isY] at isDifference
  apply holds_saturated valid isDifference
  · intro narrow
    have := signedValue_narrow valid narrow a
    have := signedValue_narrow valid narrow b
    omega
  · rintro rfl
    simp only [ge_iff_le, Int64.lt_iff_toInt_lt, Int64.le_iff_toInt_le, isX,
      isY, isDifference, Int64.toInt_zero, Int.bmod_def]
    omega
  · rintro rfl
    simp only [gt_iff_lt, ge_iff_le, Int64.lt_iff_toInt_lt,
      Int64.le_iff_toInt_le, isX, isY, isDifference, Int64.toInt_zero,
      Int.bmod_def]
    omega

theorem toNat_ones :
    ((truncate (0 - 1) size).toNat : Int) = 2 ^ (8 * size) - 1 := by
  rw [toNat_truncate valid]
  rcases validSize_iff.mp valid with rfl | rfl | rfl | rfl <;> decide

theorem unsignedValue_eq (word : UInt64) :
    unsignedValue word size = (truncate word size).toNat :=
  (toNat_truncate valid word).symm

theorem addSaturatingUnsigned_eq (a b : UInt64) :
    ((addSaturatingUnsigned a b size).toNat : Int) =
      clampUnsigned size
        ((unsignedValue a size : Int) + unsignedValue b size) := by
  have isLimit := toNat_ones valid
  have power : (2 : Int) ^ (8 * size) ≤ 2 ^ 64 := by
    rcases validSize_iff.mp valid with rfl | rfl | rfl | rfl <;> decide
  rw [unsignedValue_eq valid, unsignedValue_eq valid]
  unfold addSaturatingUnsigned clampUnsigned clamp
  dsimp only
  have xBound := (truncate a size).toNat_lt
  have yBound := (truncate b size).toNat_lt
  have isSum := UInt64.toNat_add (truncate a size) (truncate b size)
  split
  case isTrue beyond =>
    simp only [gt_iff_lt, UInt64.lt_iff_toNat_lt, isSum] at beyond
    omega
  case isFalse within =>
    simp only [gt_iff_lt, UInt64.lt_iff_toNat_lt, isSum, not_or] at within
    omega

theorem subSaturatingUnsigned_eq (a b : UInt64) :
    ((subSaturatingUnsigned a b size).toNat : Int) =
      clampUnsigned size
        ((unsignedValue a size : Int) - unsignedValue b size) := by
  have xBound : ((truncate a size).toNat : Int) < 2 ^ (8 * size) := by
    rw [toNat_truncate valid]
    exact_mod_cast Nat.mod_lt _ (Nat.two_pow_pos _)
  rw [unsignedValue_eq valid, unsignedValue_eq valid]
  unfold subSaturatingUnsigned clampUnsigned clamp
  dsimp only
  split
  case isTrue below =>
    rw [UInt64.lt_iff_toNat_lt] at below
    rw [UInt64.toNat_zero]
    omega
  case isFalse above =>
    rw [UInt64.toNat_sub_of_le _ _ (UInt64.not_lt.mp above)]
    rw [UInt64.lt_iff_toNat_lt] at above
    omega

theorem holds_mask (condition : Bool) :
    Holds (mask condition size) size
      (if condition then 2 ^ (8 * size) - 1 else 0) := by
  have power : (0 : Int) < 2 ^ (8 * size) := Int.pow_pos (by decide)
  cases condition with
  | true =>
    simp only [Holds, mask, if_true, toNat_ones valid]
    exact (Int.emod_eq_of_lt (by omega) (by omega)).symm
  | false => simp [Holds, mask]

omit valid

theorem holds_toNat {word : UInt64} (small : word.toNat < 2 ^ (8 * size)) :
    Holds word size word.toNat := by
  have bound : (word.toNat : Int) < 2 ^ (8 * size) := by exact_mod_cast small
  exact (Int.emod_eq_of_lt (Int.natCast_nonneg _) bound).symm

theorem unsignedValue_of_lt {word : UInt64}
    (small : word.toNat < 2 ^ (8 * size)) :
    unsignedValue word size = word.toNat :=
  Nat.mod_eq_of_lt small

theorem holds_clampUnsigned {word : UInt64} {number : Int}
    (same : (word.toNat : Int) = clampUnsigned size number) :
    Holds word size (clampUnsigned size number) := by
  have power : (0 : Int) < 2 ^ (8 * size) := Int.pow_pos (by decide)
  rw [← same]
  apply holds_toNat
  unfold clampUnsigned clamp at same
  have bound : (word.toNat : Int) < 2 ^ (8 * size) := by omega
  exact_mod_cast bound

theorem holds_signedValue {word : UInt64}
    (small : word.toNat < 2 ^ (8 * size)) :
    Holds word size (signedValue word size) := by
  have same : signedValue word size % 2 ^ (8 * size) =
      (word.toNat : Int) % 2 ^ (8 * size) := by
    have := Int.bmod_emod (x := (word.toNat : Int)) (m := 2 ^ (8 * size))
    exact_mod_cast this
  rw [Holds, same]
  exact holds_toNat small

end Lane

namespace ArithOp

/-- The number that an integer operation gives for the numbers in two lanes: `x`
and `y` are the signed ones, `u` and `v` the unsigned ones. -/
def number? (op : ArithOp) (size : Nat) (a b : UInt64) : Option Int :=
  let x := Lane.signedValue a size
  let y := Lane.signedValue b size
  let u := Lane.unsignedValue a size
  let v := Lane.unsignedValue b size
  match op with
  | copy => some u
  | add => some (u + v)
  | sub => some (u - v)
  | mulLow => some (u * v)
  | addSS => some (Lane.clampSigned size (x + y))
  | subSS => some (Lane.clampSigned size (x - y))
  | addUS => some (Lane.clampUnsigned size (u + v))
  | subUS => some (Lane.clampUnsigned size (u - v))
  | and => some (u &&& v : Nat)
  | or => some (u ||| v : Nat)
  | xor => some (u ^^^ v : Nat)
  | andNot => some (u.ldiff v)
  | cmpEq => some (if u = v then 2 ^ (8 * size) - 1 else 0)
  | cmpGtS => some (if x > y then 2 ^ (8 * size) - 1 else 0)
  | maxS => some (max x y)
  | minS => some (min x y)
  | maxU => some (max u v : Nat)
  | minU => some (min u v : Nat)
  | avgS => some ((x + y + 1) / 2)
  | avgU => some ((u + v + 1) / 2)
  | float _ => none

variable {size : Nat} {a b : UInt64}

theorem holds_of_toNat_eq {word : UInt64} {number : Nat}
    (same : word.toNat = number) (small : number < 2 ^ (8 * size)) :
    Lane.Holds word size number := by
  subst same
  exact Lane.holds_toNat small

variable (valid : Lane.validSize ↑size = true)
  (aSmall : a.toNat < 2 ^ (8 * size)) (bSmall : b.toNat < 2 ^ (8 * size))

include valid

theorem holds_averageSigned (narrow : size ≤ 4) :
    Lane.Holds (avgS.eval size a b) size
      ((Lane.signedValue a size + Lane.signedValue b size + 1) / 2) := by
  have isX := Lane.toInt_signExtend valid a
  have isY := Lane.toInt_signExtend valid b
  have xBounds := Lane.signedValue_narrow valid (by omega) a
  have yBounds := Lane.signedValue_narrow valid (by omega) b
  have isSum : (Lane.signExtend a size + Lane.signExtend b size + 1).toInt =
      Lane.signedValue a size + Lane.signedValue b size + 1 := by
    have one : (1 : Int64).toInt = 1 := rfl
    rw [Int64.toInt_add, Int64.toInt_add, isX, isY, one, Int.bmod_add_bmod]
    apply Int.bmod_eq_of_le <;> omega
  have isHalf := LaneUnit.toInt_shiftRight
    (Lane.signExtend a size + Lane.signExtend b size + 1)
    (show 1 < 64 by decide)
  rw [isSum] at isHalf
  have wrapped := Lane.toNat_toUInt64
    ((Lane.signExtend a size + Lane.signExtend b size + 1) >>> Int64.ofNat 1)
  rw [isHalf] at wrapped
  exact Lane.holds_truncate valid wrapped

omit valid
include aSmall bSmall

theorem holds_averageUnsigned (narrow : size ≤ 4) :
    Lane.Holds (avgU.eval size a b) size
      (((a.toNat : Int) + b.toNat + 1) / 2) := by
  have power : 2 ^ (8 * size) ≤ 2 ^ 32 :=
    Nat.pow_le_pow_right (by decide) (by omega)
  have isHalf : (avgU.eval size a b).toNat = (a.toNat + b.toNat + 1) / 2 := by
    have isSum : (a + b + 1).toNat = a.toNat + b.toNat + 1 := by
      simp only [UInt64.toNat_add, UInt64.toNat_one]
      omega
    change ((a + b + 1) >>> 1).toNat = _
    rw [UInt64.toNat_shiftRight, isSum]
    exact Nat.shiftRight_one _
  exact_mod_cast holds_of_toNat_eq isHalf (by omega)

include valid

/-- Each operation on two lanes leaves the number that it is meant to give. -/
theorem holds_eval (op : ArithOp) (narrow : op ∈ Opcode.narrowOps → size ≤ 4)
    {number : Int} (meant : op.number? size a b = some number) :
    Lane.Holds (op.eval size a b) size number := by
  have isX := Lane.toInt_signExtend valid a
  have isY := Lane.toInt_signExtend valid b
  cases op
  case float => simp [number?] at meant
  all_goals
    simp only [number?, Lane.unsignedValue_of_lt aSmall,
      Lane.unsignedValue_of_lt bSmall, Option.some.injEq] at meant
    subst meant
  case copy => exact Lane.holds_toNat aSmall
  case add | mulLow =>
    apply Lane.holds_truncate valid
    simp [UInt64.toNat_add, UInt64.toNat_mul]
  case sub =>
    have bound := b.toNat_lt
    have isDifference := UInt64.toNat_sub a b
    apply Lane.holds_truncate valid
    omega
  case addSS => exact Lane.holds_addSaturatingSigned valid a b
  case subSS => exact Lane.holds_subSaturatingSigned valid a b
  case avgS => exact holds_averageSigned valid (narrow (by decide))
  case avgU => exact holds_averageUnsigned aSmall bSmall (narrow (by decide))
  case cmpEq =>
    have isMask := Lane.holds_mask valid (a == b)
    simpa [eval, UInt64.toNat_inj] using isMask
  case cmpGtS =>
    have isMask :=
      Lane.holds_mask valid (Lane.signExtend a size > Lane.signExtend b size)
    simpa [eval, Int64.lt_iff_toInt_lt, isX, isY] using isMask
  case and =>
    exact holds_of_toNat_eq (UInt64.toNat_and a b) (Nat.and_lt_two_pow _ bSmall)
  case or =>
    exact holds_of_toNat_eq (UInt64.toNat_or a b)
      (Nat.or_lt_two_pow aSmall bSmall)
  case xor =>
    exact holds_of_toNat_eq (UInt64.toNat_xor a b)
      (Nat.xor_lt_two_pow aSmall bSmall)
  case andNot =>
    apply Lane.holds_truncate valid
    rw [Lane.toNat_and_not]
    have bound := (a &&& ~~~b).toNat_lt
    rw [Lane.toNat_and_not] at bound
    omega
  case addUS =>
    have isSum := Lane.addSaturatingUnsigned_eq valid a b
    rw [Lane.unsignedValue_of_lt aSmall, Lane.unsignedValue_of_lt bSmall]
      at isSum
    exact Lane.holds_clampUnsigned isSum
  case subUS =>
    have isDifference := Lane.subSaturatingUnsigned_eq valid a b
    rw [Lane.unsignedValue_of_lt aSmall, Lane.unsignedValue_of_lt bSmall]
      at isDifference
    exact Lane.holds_clampUnsigned isDifference
  case maxS =>
    have isLarger : maxS.eval size a b =
        if Lane.signedValue b size ≤ Lane.signedValue a size then a else b := by
      simp [eval, Int64.le_iff_toInt_le, isX, isY]
    rw [isLarger]
    split
    case isTrue above =>
      simpa [max_eq_left above] using Lane.holds_signedValue aSmall
    case isFalse below =>
      simpa [max_eq_right (le_of_not_ge below)] using
      Lane.holds_signedValue bSmall
  case minS =>
    have isSmaller : minS.eval size a b =
        if Lane.signedValue a size ≤ Lane.signedValue b size then a else b := by
      simp [eval, Int64.le_iff_toInt_le, isX, isY]
    rw [isSmaller]
    split
    case isTrue below =>
      simpa [min_eq_left below] using Lane.holds_signedValue aSmall
    case isFalse above =>
      simpa [min_eq_right (le_of_not_ge above)] using
      Lane.holds_signedValue bSmall
  case maxU =>
    exact holds_of_toNat_eq (Lane.toNat_max a b) (max_lt aSmall bSmall)
  case minU =>
    exact holds_of_toNat_eq (Lane.toNat_min a b) (min_lt_of_left_lt aSmall)

omit valid aSmall bSmall in
theorem exists_number {op : ArithOp} (isInteger : ∀ float, op ≠ .float float) :
    ∃ number, op.number? size a b = some number := by
  cases op
  case float float => exact absurd rfl (isInteger float)
  all_goals exact ⟨_, rfl⟩

end ArithOp

/-- Saturating arithmetic clamps the exact sum and difference, for all words.
On operands in range every integer operation leaves the number that it is meant
to give, and nothing above the lane that a write would cut. -/
theorem Lane.arithmetic_exact {size : Nat} (valid : Lane.validSize ↑size = true)
    (a b : UInt64) :
    Lane.Holds (Lane.addSaturatingSigned a b size) size
        (Lane.clampSigned size
          (Lane.signedValue a size + Lane.signedValue b size)) ∧
      Lane.Holds (Lane.subSaturatingSigned a b size) size
        (Lane.clampSigned size
          (Lane.signedValue a size - Lane.signedValue b size)) ∧
      ((Lane.addSaturatingUnsigned a b size).toNat : Int) =
        Lane.clampUnsigned size
          ((Lane.unsignedValue a size : Int) + Lane.unsignedValue b size) ∧
      ((Lane.subSaturatingUnsigned a b size).toNat : Int) =
        Lane.clampUnsigned size
          ((Lane.unsignedValue a size : Int) - Lane.unsignedValue b size) ∧
      ∀ op : ArithOp, ⟨.arith op, size⟩ ∈ Opcode.all →
        (∀ float, op ≠ .float float) →
        a.toNat < 2 ^ (8 * size) → b.toNat < 2 ^ (8 * size) →
        ∃ number, op.number? size a b = some number ∧
          Lane.Holds (op.eval size a b) size number ∧
          (op.eval size a b).toNat < 2 ^ (8 * size) ∧
          Lane.truncate (op.eval size a b) size = op.eval size a b := by
  refine ⟨holds_addSaturatingSigned valid a b,
    holds_subSaturatingSigned valid a b, addSaturatingUnsigned_eq valid a b,
    subSaturatingUnsigned_eq valid a b, ?_⟩
  intro op isOpcode isInteger aSmall bSmall
  obtain ⟨number, meant⟩ := ArithOp.exists_number isInteger
  have narrow := ((Opcode.sizes_of_mem isOpcode).2 op rfl).1
  have fits := ArithOp.fits_eval isOpcode (fits_of_toNat_lt aSmall)
    (fits_of_toNat_lt bSmall)
  exact ⟨number, meant, ArithOp.holds_eval valid aSmall bSmall op narrow meant,
    toNat_lt_of_fits fits, fits.truncate_eq⟩

/-- Zero less the least number of the widest lane is the greatest one. -/
theorem Lane.arithmetic_exact_least :
    Lane.validSize ((8 : Nat) : Int) = true ∧
      Lane.Holds (Lane.subSaturatingSigned 0 0x8000000000000000 8) 8
        (2 ^ 63 - 1) ∧
      ∃ number, ArithOp.subSS.number? 8 0 0x8000000000000000 = some number ∧
        Lane.Holds (ArithOp.subSS.eval 8 0 0x8000000000000000) 8 number ∧
        (ArithOp.subSS.eval 8 0 0x8000000000000000).toNat < 2 ^ (8 * 8) ∧
        Lane.truncate (ArithOp.subSS.eval 8 0 0x8000000000000000) 8 =
          ArithOp.subSS.eval 8 0 0x8000000000000000 := by
  have valid : Lane.validSize ((8 : Nat) : Int) = true := by decide
  obtain ⟨_, difference, _, _, operations⟩ :=
    Lane.arithmetic_exact valid 0 0x8000000000000000
  have exact : Lane.clampSigned 8
      (Lane.signedValue 0 8 - Lane.signedValue 0x8000000000000000 8) =
        2 ^ 63 - 1 := by decide
  rw [exact] at difference
  exact ⟨valid, difference,
    operations .subSS (by decide) (by simp) (by decide) (by decide)⟩

end LaneKernel
