import LaneKernel.Proofs.IntegerMeaning

/-!
# The numbers that the lane unit computes

The lane unit works on words and cuts its results to the lanes.  Here each of
its operations is read as one on the signed or unsigned numbers in the lanes,
for every element size; a lane of the result holds the number that comes out.
-/

namespace LaneKernel

open Lane

namespace Lane

variable {size : Nat} {word : UInt64} {number : Int}

theorem size_of_valid (valid : validSize ↑size = true) :
    0 < size ∧ size ≤ 8 := by
  have := validSize_iff.mp valid
  omega

theorem Holds.truncate (holds : Holds word size number) :
    Holds (truncate word size) size number := by
  have power : (0 : Int) < 2 ^ (8 * size) := Int.pow_pos (by decide)
  have below := Int.emod_lt_of_pos number power
  have fits : Fits word size := by
    refine fits_of_toNat_lt ?_
    unfold Holds at holds
    rw [← holds] at below
    exact_mod_cast below
  rwa [fits.truncate_eq]

end Lane

namespace LaneOp

/-- The number that an operation gives for the numbers in two lanes: `x` and `y`
are the signed ones, `u` and `v` the unsigned ones. -/
def number (op : LaneOp) (size : Nat) (a b : UInt64) : Int :=
  let x := signedValue a size
  let y := signedValue b size
  let u := unsignedValue a size
  let v := unsignedValue b size
  match op with
  | addv => u + v
  | subv => u - v
  | mulv => u * v
  | maxS => max x y
  | minS => min x y
  | maxU => max u v
  | minU => min u v
  | ceq => if u = v then 2 ^ (8 * size) - 1 else 0
  | cltS => if x < y then 2 ^ (8 * size) - 1 else 0
  | cltU => if u < v then 2 ^ (8 * size) - 1 else 0
  | addsS => clampSigned size (x + y)
  | subsS => clampSigned size (x - y)
  | addsU => clampUnsigned size (u + v)
  | subsU => clampUnsigned size (u - v)
  | averS => (x + y + 1) / 2
  | averU => (u + v + 1) / 2

variable {size : Nat} {a b : UInt64} (valid : validSize ↑size = true)

include valid

theorem holds_allOnes (condition : Bool) :
    Holds (truncate (LaneUnit.allOnes condition) size) size
      (if condition then 2 ^ (8 * size) - 1 else 0) := by
  rw [truncate_mask]
  exact (holds_mask valid condition).truncate

theorem holds_signed {value : Int64} {number : Int}
    (same : value.toInt = number) :
    Holds (truncate value.toUInt64 size) size number := by
  subst same
  exact holds_truncate valid (toNat_toUInt64 value)

theorem holds_unsigned {value : UInt64} {number : Nat}
    (same : value.toNat = number) :
    Holds (truncate value size) size number := by
  subst same
  refine holds_truncate valid (Int.emod_eq_of_lt (Int.natCast_nonneg _) ?_).symm
  exact_mod_cast value.toNat_lt

/-- A lane of the result holds the number that the operation is meant to
give. -/
theorem holds_compute (op : LaneOp) (aFits : Fits a size)
    (bFits : Fits b size) :
    Holds (truncate (op.compute size a b) size) size (op.number size a b) := by
  have small := (size_of_valid valid).2
  have isX := toInt_signExtend valid a
  have isY := toInt_signExtend valid b
  have isU := unsignedValue_of_lt (toNat_lt_of_fits aFits)
  have isV := unsignedValue_of_lt (toNat_lt_of_fits bFits)
  cases op
  all_goals simp only [number]
  case addv | mulv =>
    rw [isU, isV]
    apply holds_truncate valid
    simp [compute, UInt64.toNat_add, UInt64.toNat_mul]
  case subv =>
    rw [isU, isV]
    have bound := b.toNat_lt
    have isDifference := UInt64.toNat_sub a b
    apply holds_truncate valid
    simp only [compute]
    omega
  case maxS =>
    rw [← isX, ← isY]
    exact holds_signed valid (toInt_max _ _)
  case minS =>
    rw [← isX, ← isY]
    exact holds_signed valid (toInt_min _ _)
  case maxU =>
    rw [isU, isV]
    exact_mod_cast holds_unsigned valid (toNat_max a b)
  case minU =>
    rw [isU, isV]
    exact_mod_cast holds_unsigned valid (toNat_min a b)
  case ceq =>
    rw [isU, isV]
    simpa [compute, UInt64.toNat_inj] using holds_allOnes valid (a == b)
  case cltS =>
    rw [← isX, ← isY]
    simpa [compute, Int64.lt_iff_toInt_lt] using
      holds_allOnes valid (signExtend a size < signExtend b size)
  case cltU =>
    rw [isU, isV]
    simpa [compute, UInt64.lt_iff_toNat_lt] using holds_allOnes valid (a < b)
  case addsS =>
    rw [compute, LaneUnit.addSigned_eq a b size small]
    exact (holds_addSaturatingSigned valid a b).truncate
  case subsS =>
    rw [compute, LaneUnit.subSigned_eq a b size small]
    exact (holds_subSaturatingSigned valid a b).truncate
  case addsU =>
    rw [compute, LaneUnit.addUnsigned_eq aFits bFits]
    exact (holds_clampUnsigned (addSaturatingUnsigned_eq valid a b)).truncate
  case subsU =>
    rw [compute, LaneUnit.subUnsigned_eq aFits bFits]
    exact (holds_clampUnsigned (subSaturatingUnsigned_eq valid a b)).truncate
  case averS =>
    rw [← isX, ← isY]
    exact holds_signed valid (LaneUnit.toInt_averageSigned _ _)
  case averU =>
    rw [isU, isV]
    exact_mod_cast holds_unsigned valid (LaneUnit.toNat_averageUnsigned a b)

end LaneOp

namespace VectorRegister

variable {size index : Nat}

theorem lane_eq_truncate {register : VectorRegister} {word : UInt64}
    (small : size ≤ 8) (same : ∀ place < size,
      register.byte (size * index + place) = Lane.byte word place) :
    register.lane size index = truncate word size := by
  apply Lane.ext_byte
  intro place _
  rw [byte_lane _ _ _ _ small, byte_truncate, Nat.mul_comm]
  split
  case isTrue below => exact same place below
  case isFalse => rfl

theorem lane_ofLanes (values : Nat → UInt64) (small : size ≤ 8)
    (inside : (index + 1) * size ≤ 16) :
    (ofLanes size values).lane size index = truncate (values index) size := by
  rw [Nat.add_mul, Nat.one_mul, Nat.mul_comm] at inside
  refine lane_eq_truncate small fun place below => ?_
  rw [byte_ofLanes _ _ (by omega), (lane_place index below).1,
    (lane_place index below).2]

theorem lane_setLane (register : VectorRegister) (word : UInt64) (number : Nat)
    (small : size ≤ 8) (inside : (index + 1) * size ≤ 16) :
    (register.setLane size number word).lane size index =
      if index = number then truncate word size
      else register.lane size index := by
  rw [Nat.add_mul, Nat.one_mul, Nat.mul_comm] at inside
  have isByte : ∀ place < size,
      (register.setLane size number word).byte (size * index + place) =
        if index = number then Lane.byte word place
        else register.byte (size * index + place) := by
    intro place below
    rw [byte_setLane _ _ _ _ (by omega), (lane_place index below).1,
      (lane_place index below).2]
  split
  case isTrue same =>
    refine lane_eq_truncate small fun place below => ?_
    rw [isByte place below, if_pos same]
  case isFalse other =>
    rw [← (fits_lane register index small).truncate_eq]
    refine lane_eq_truncate small fun place below => ?_
    rw [isByte place below, if_neg other, byte_lane _ _ _ _ small, if_pos below,
      Nat.mul_comm]

variable (register first second : VectorRegister)
  (valid : validSize ↑size = true) (inside : (index + 1) * size ≤ 16)

include valid inside

/-- Every lane of a result is computed from the lanes with its number. -/
theorem holds_lane_apply (op : LaneOp) :
    Holds ((op.apply size first second).lane size index) size
      (op.number size (first.lane size index) (second.lane size index)) := by
  have small := (size_of_valid valid).2
  unfold LaneOp.apply
  rw [lane_ofLanes _ small inside, truncate_truncate]
  exact op.holds_compute valid (fits_lane first index small)
    (fits_lane second index small)

/-- A lane is moved from the place in its group of four that its two bits of the
pattern name. -/
theorem lane_shuffle (pattern : UInt8) :
    (register.shuffle size pattern).lane size index =
      register.lane size
        (index / 4 * 4 + pattern.toNat / 4 ^ (index % 4) % 4) := by
  have small := (size_of_valid valid).2
  have isChoice : pattern.toNat >>> (2 * (index % 4)) =
      pattern.toNat / 4 ^ (index % 4) := by
    rw [Nat.shiftRight_eq_div_pow, Nat.pow_mul]
  unfold shuffle
  rw [lane_ofLanes _ small inside, isChoice]
  exact (fits_lane register _ small).truncate_eq

end VectorRegister

end LaneKernel
