import LaneKernel.Proofs.LaneArithmetic

/-!
# Packed lanes

The bytes of words that hold several lanes: copies of one value, and the results
of an operation that works on each lane.
-/

namespace LaneKernel

namespace Lane

/-- The lane with a number, in the low bytes of a word. -/
def part (word : UInt64) (size number : Nat) : UInt64 :=
  truncate (shiftRight word (8 * size * number)) size

theorem byte_part (word : UInt64) (size number index : Nat) :
    byte (part word size number) index =
      if index < size then byte word (size * number + index) else 0 := by
  unfold part
  rw [byte_truncate, Nat.mul_assoc, byte_shiftRight, Nat.add_comm]

theorem byte_placed (word : UInt64) {size number index : Nat}
    (inside : index < 8) :
    byte (shiftLeft (truncate word size) (8 * size * number)) index =
      if size * number ≤ index ∧ index < size * (number + 1) then
        byte word (index - size * number)
      else 0 := by
  rw [Nat.mul_assoc, byte_shiftLeft _ _ _ inside]
  have next : size * (number + 1) = size * number + size :=
    Nat.mul_succ size number
  by_cases below : index < size * number
  · rw [if_pos below, if_neg (by omega)]
  · rw [if_neg below, byte_truncate]
    by_cases within : index - size * number < size
    · rw [if_pos within, if_pos (by omega)]
    · rw [if_neg within, if_neg (by omega)]

theorem lane_number {size number index : Nat} (positive : 0 < size) :
    (size * number ≤ index ∧ index < size * (number + 1)) ↔
      number = index / size := by
  rw [eq_comm, Nat.div_eq_iff positive, Nat.mul_succ, Nat.mul_comm]
  omega

theorem lane_place {size : Nat} (number : Nat) {index : Nat}
    (inside : index < size) :
    (size * number + index) / size = number ∧
      (size * number + index) % size = index := by
  have positive : 0 < size := Nat.zero_lt_of_lt inside
  rw [Nat.mul_add_div positive, Nat.div_eq_of_lt inside, Nat.mul_add_mod,
    Nat.mod_eq_of_lt inside]
  exact ⟨Nat.add_zero number, rfl⟩

theorem index_sub_lane (size index : Nat) :
    index - size * (index / size) = index % size := by
  have := Nat.div_add_mod index size
  omega

/-- A fold that puts lanes side by side. -/
theorem byte_foldl_placed (values : Nat → UInt64) (start : UInt64)
    {size index : Nat} (positive : 0 < size) (inside : index < 8)
    (first count : Nat)
    (free : ∀ number, first ≤ number → number = index / size →
      byte start index = 0) :
    byte ((List.range' first count).foldl (fun lanes number =>
        lanes ||| shiftLeft (truncate (values number) size) (8 * size * number))
          start) index =
      if first ≤ index / size ∧ index / size < first + count then
        byte (values (index / size)) (index % size)
      else byte start index := by
  induction count generalizing first start with
  | zero => simp
  | succ count induction =>
      rw [List.range'_succ, List.foldl_cons]
      have here : byte (start |||
          shiftLeft (truncate (values first) size) (8 * size * first)) index =
          if first = index / size then
            byte (values (index / size)) (index % size)
          else byte start index := by
        rw [byte_or, byte_placed _ inside]
        simp only [lane_number positive]
        by_cases isFirst : first = index / size
        · rw [if_pos isFirst, if_pos isFirst,
            free first (Nat.le_refl _) isFirst, isFirst, index_sub_lane,
            UInt8.zero_or]
        · rw [if_neg isFirst, if_neg isFirst, UInt8.or_zero]
      rw [induction _ (first + 1), here]
      · by_cases isFirst : first = index / size
        · rw [if_neg (by omega), if_pos isFirst, if_pos (by omega)]
        · rw [if_neg isFirst]
          by_cases later : first + 1 ≤ index / size ∧
            index / size < first + 1 + count
          · rw [if_pos later, if_pos (by omega)]
          · rw [if_neg later, if_neg (by omega)]
      · intro number above isNumber
        rw [here, if_neg (by omega)]
        exact free number (by omega) isNumber

theorem replicate_eq (value : UInt64) (size count : Nat) :
    replicate value size count =
      (List.range' 1 (count - 1)).foldl (fun lanes number =>
        lanes ||| shiftLeft (truncate value size) (8 * size * number))
          (truncate value size) := by
  unfold replicate
  have shifted :
      List.range' 1 (count - 1) = (List.range (count - 1)).map (· + 1) := by
    rw [List.range'_eq_map_range]
    simp only [Nat.add_comm]
  rw [shifted, List.foldl_map]

theorem byte_replicate (value : UInt64) {size count index : Nat}
    (positive : 0 < size) (some : 0 < count) (inside : index < 8) :
    byte (replicate value size count) index =
      if index < size * count then byte value (index % size) else 0 := by
  rw [replicate_eq, byte_foldl_placed (fun _ => value) _ positive inside]
  · have isInside : index < size * count ↔ index / size < count :=
      by
      rw [Nat.div_lt_iff_lt_mul positive, Nat.mul_comm]
    rw [byte_truncate]
    have isFirst : index / size = 0 ↔ index < size :=
      Nat.div_eq_zero_iff_lt positive
    generalize index / size = number at *
    by_cases first : index < size
    · rw [if_neg (by rw [isFirst.mpr first]; omega), if_pos first,
        if_pos (by rw [isInside]; omega), Nat.mod_eq_of_lt first]
    · rw [if_neg first]
      by_cases within : number < count
      · rw [if_pos (by omega), if_pos (isInside.mpr within)]
      · rw [if_neg (by omega), if_neg (mt isInside.mp within)]
  · intro number above isNumber
    rw [byte_truncate, if_neg]
    intro first
    rw [Nat.div_eq_of_lt first] at isNumber
    omega

theorem fits_replicate (value : UInt64) {size count : Nat} (positive : 0 < size)
    (some : 0 < count) : Fits (replicate value size count) (size * count) := by
  intro index beyond
  rcases Nat.lt_or_ge index 8 with inside | outside
  · rw [byte_replicate value positive some inside, if_neg (by omega)]
  · exact byte_of_ge _ outside

end Lane

namespace ArithOp

open Lane

theorem evalLanes_eq (op : ArithOp) (size : Nat) (a b : UInt64) {count : Nat}
    (several : 1 < count) :
    op.evalLanes size a b count =
      (List.range' 0 count).foldl (fun lanes number =>
        lanes ||| shiftLeft
          (truncate (op.eval size (part a size number) (part b size number))
          size) (8 * size * number)) 0 := by
  unfold evalLanes
  rw [if_neg (by omega), Int.toNat_natCast, List.range_eq_range']
  rfl

theorem byte_evalLanes (op : ArithOp) {size count index : Nat} (a b : UInt64)
    (positive : 0 < size) (several : 1 < count) (inside : index < 8) :
    byte (op.evalLanes size a b count) index =
      if index < size * count then
        byte (op.eval size (part a size (index / size))
          (part b size (index / size))) (index % size)
      else 0 := by
  have isInside : index < size * count ↔ index / size < count :=
    by
      rw [Nat.div_lt_iff_lt_mul positive, Nat.mul_comm]
  rw [evalLanes_eq op size a b several, byte_foldl_placed _ _ positive inside]
  · simp only [isInside, byte_zero, Nat.zero_le, Nat.zero_add, true_and]
  · exact fun _ _ _ => byte_zero index

end ArithOp

end LaneKernel
