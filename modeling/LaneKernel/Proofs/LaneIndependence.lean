import LaneKernel.Proofs.LaneRules
import LaneKernel.Proofs.Lanes

/-!
# Lanes do not touch each other

An operation on packed lanes computes each lane from the lanes of its operands
with the same number, and leaves nothing above the last lane.  So it does on
copies of two values what it does on the values.  The main statement is
`ArithOp.evalLanes_independent`.
-/

namespace LaneKernel

namespace Lane

variable {size count number : Nat}

theorem lane_inside (below : number < count) {index : Nat}
    (inside : index < size) : size * number + index < size * count := by
  have next : size * (number + 1) ≤ size * count :=
    Nat.mul_le_mul_left size below
  rw [Nat.mul_succ] at next
  omega

theorem fits_part (word : UInt64) (size number : Nat) :
    Fits (part word size number) size :=
  fits_truncate _ size

/-- Each copy of a value is the value. -/
theorem part_replicate (value : UInt64) (packed : size * count ≤ 8)
    (below : number < count) :
    part (replicate value size count) size number = truncate value size := by
  apply ext_byte
  intro index _
  rw [byte_part, byte_truncate]
  split
  case isTrue inside =>
    have place := lane_inside below inside
    rw [byte_replicate value (Nat.zero_lt_of_lt inside)
      (Nat.zero_lt_of_lt below) (by omega), if_pos place,
      (lane_place number inside).2]
  case isFalse => rfl

end Lane

namespace ArithOp

open Lane

variable {op : ArithOp} {size count number : Nat}

/-- A lane of a result is the result of the lanes. -/
theorem part_evalLanes (isOpcode : ⟨.arith op, size⟩ ∈ Opcode.all)
    (several : 1 < count) (packed : size * count ≤ 8) (below : number < count)
    (a b : UInt64) :
    part (op.evalLanes size a b count) size number =
      op.eval size (part a size number) (part b size number) := by
  have fits := fits_eval isOpcode (fits_part a size number)
    (fits_part b size number)
  apply ext_byte
  intro index _
  rw [byte_part]
  split
  case isTrue inside =>
    have place := lane_inside below inside
    rw [byte_evalLanes op a b (size_pos isOpcode) several (by omega),
      if_pos place, (lane_place number inside).1, (lane_place number inside).2]
  case isFalse outside => exact (fits index (Nat.not_lt.mp outside)).symm

/-- Copies of two values give copies of the result. -/
theorem evalLanes_replicate (isOpcode : ⟨.arith op, size⟩ ∈ Opcode.all)
    (several : 1 < count) (packed : size * count ≤ 8) (a b : UInt64) :
    op.evalLanes size (replicate a size count) (replicate b size count) count =
      replicate (op.eval size (truncate a size) (truncate b size)) size
        count := by
  have positive := size_pos isOpcode
  apply ext_byte
  intro index small
  rw [byte_evalLanes op _ _ positive several small,
    byte_replicate _ positive (by omega) small]
  split
  case isTrue inside =>
    have below : index / size < count := by
      rwa [Nat.div_lt_iff_lt_mul positive, Nat.mul_comm]
    rw [part_replicate a packed below, part_replicate b packed below]
  case isFalse => rfl

/-- An operation on several lanes gives each lane the result of the lanes with
its number, whatever the other lanes hold, and leaves nothing above the last
lane.  On copies of two values it gives copies of the result for the values. -/
theorem evalLanes_independent (isOpcode : ⟨.arith op, size⟩ ∈ Opcode.all)
    (several : 2 ≤ count) (packed : count * size ≤ 8) (a b : UInt64) :
    (∀ number < count,
      part (op.evalLanes size a b count) size number =
          op.eval size (part a size number) (part b size number) ∧
        ∀ c d, part c size number = part a size number →
          part d size number = part b size number →
          part (op.evalLanes size c d count) size number =
            part (op.evalLanes size a b count) size number) ∧
      (op.evalLanes size a b count).toNat < 2 ^ (8 * (count * size)) ∧
      op.evalLanes size (replicate a size count)
        (replicate b size count) count =
          replicate (op.eval size (truncate a size) (truncate b size)) size
          count := by
  rw [Nat.mul_comm count] at packed ⊢
  refine ⟨fun number below =>
    ⟨part_evalLanes isOpcode several packed below a b, ?_⟩,
    toNat_lt_of_fits (fits_several isOpcode several a b),
    evalLanes_replicate isOpcode several packed a b⟩
  intro c d sameFirst sameSecond
  rw [part_evalLanes isOpcode several packed below,
    part_evalLanes isOpcode several packed below, sameFirst, sameSecond]

/-- The largest byte and one make zero in each lane, and no carry reaches the
lane above. -/
theorem evalLanes_independent_carry :
    (⟨.arith .add, 1⟩ ∈ Opcode.all ∧ 2 ≤ 4 ∧ 4 * 1 ≤ 8) ∧
      part (add.evalLanes 1 0x00ff 0x0001 4) 1 1 = 0 ∧
      add.evalLanes 1 (replicate 0xff 1 4) (replicate 0x01 1 4) 4 = 0 := by
  have isOpcode : ⟨.arith .add, 1⟩ ∈ Opcode.all := by decide
  obtain ⟨lanes, -, -⟩ :=
    @evalLanes_independent .add 1 4 isOpcode (by decide)
      (by decide) 0x00ff 0x0001
  obtain ⟨-, -, copies⟩ :=
    @evalLanes_independent .add 1 4 isOpcode (by decide) (by decide) 0xff 0x01
  refine ⟨⟨isOpcode, by decide, by decide⟩, ?_, ?_⟩
  · exact (lanes 1 (by decide)).1.trans (by decide)
  · exact copies.trans (by decide)

end ArithOp

end LaneKernel
