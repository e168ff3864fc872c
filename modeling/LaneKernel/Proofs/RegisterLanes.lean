import LaneKernel.Proofs.Broadcasts
import LaneKernel.Proofs.FlatBytes
import LaneKernel.Proofs.Lanes

/-!
# Elements in vector registers

A register holds the elements of a chunk side by side.  What an instruction does
to the register, it does to the lane of every element.
-/

namespace LaneKernel.VectorRegister

open Lane

variable {size lanes number : Nat} (first second : VectorRegister)

theorem part_lane (small : size * lanes ≤ 8) {place : Nat}
    (inside : place < lanes) :
    part (first.lane (size * lanes) number) size place =
      first.lane size (number * lanes + place) := by
  have within : size * (place + 1) ≤ size * lanes :=
    Nat.mul_le_mul_left size inside
  have grows : size * (place + 1) = size * place + size :=
    Nat.mul_succ size place
  have positive : 1 * size ≤ lanes * size :=
    Nat.mul_le_mul_right size (by omega)
  rw [Nat.one_mul, Nat.mul_comm] at positive
  apply Lane.ext_byte
  intro index _
  rw [byte_part, byte_lane _ _ _ _ small,
    byte_lane _ _ _ _ (show size ≤ 8 by omega)]
  by_cases below : index < size
  · rw [if_pos below, if_pos below, if_pos (by omega)]
    congr 1
    rw [Nat.add_mul, Nat.mul_comm size lanes, ← Nat.mul_assoc,
      Nat.mul_comm place size, Nat.add_assoc]
  · rw [if_neg below, if_neg below]

theorem place_in_lane {index : Nat} (positive : 0 < size) :
    (number * (size * lanes) + index) / size = number * lanes + index / size ∧
      (number * (size * lanes) + index) % size = index % size := by
  rw [show number * (size * lanes) + index = index + size * (number * lanes) by
    rw [Nat.mul_left_comm, Nat.add_comm]]
  rw [Nat.add_mul_div_left _ _ positive, Nat.add_mul_mod_self_left,
    Nat.add_comm]
  exact ⟨rfl, rfl⟩

theorem lane_loaded {memory : FlatMemory} {address : UInt32} {word : UInt64}
    (small : size ≤ 8) (loaded : memory.load address size = .ok word)
    (bytes : ∀ index < size,
      first.byte (number * size + index) =
        memory.byteAt (address.toNat + index)) :
    first.lane size number = truncate word size := by
  apply Lane.ext_byte
  intro index _
  rw [byte_lane _ _ _ _ small, byte_truncate]
  by_cases below : index < size
  · rw [if_pos below, if_pos below, bytes index below,
      FlatMemory.byte_load small loaded below]
  · rw [if_neg below, if_neg below]

variable (positive : 0 < size) (several : 0 < lanes) (small : size * lanes ≤ 8)
  (inside : (number + 1) * (size * lanes) ≤ 16)

include positive several small inside

theorem lane_filled (word : UInt64) :
    (filled size word).lane (size * lanes) number =
      truncate (replicate word size lanes) (size * lanes) := by
  rw [Nat.add_mul, Nat.one_mul] at inside
  apply Lane.ext_byte
  intro index isByte
  rw [byte_lane _ _ _ _ small, byte_truncate]
  by_cases below : index < size * lanes
  · rw [if_pos below, if_pos below, byte_replicate _ positive several isByte,
      if_pos below, byte_filled _ _ (by omega), (place_in_lane positive).2]
  · rw [if_neg below, if_neg below]

theorem lane_computed (op : ArithOp) :
    (computed op size first second).lane (size * lanes) number =
      truncate (op.evalLanes size (first.lane (size * lanes) number)
        (second.lane (size * lanes) number) lanes) (size * lanes) := by
  rw [Nat.add_mul, Nat.one_mul] at inside
  apply Lane.ext_byte
  intro index isByte
  rw [byte_lane _ _ _ _ small, byte_truncate]
  by_cases below : index < size * lanes
  case neg => rw [if_neg below, if_neg below]
  have inLanes : index / size < lanes := by
    rw [Nat.div_lt_iff_lt_mul positive, Nat.mul_comm]
    exact below
  rw [if_pos below, if_pos below, byte_computed _ _ _ positive (by omega),
    (place_in_lane positive).1, (place_in_lane positive).2]
  rcases Nat.lt_or_eq_of_le several with many | isOne
  · rw [op.byte_evalLanes _ _ positive many isByte, if_pos below,
      part_lane _ small inLanes, part_lane _ small inLanes]
  · change 1 = lanes at isOne
    subst isOne
    rw [Nat.mul_one] at below ⊢
    rw [Nat.div_eq_of_lt below, Nat.mod_eq_of_lt below, Nat.mul_one,
      Nat.add_zero]
    rfl

end LaneKernel.VectorRegister
