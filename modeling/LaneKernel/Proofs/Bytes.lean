import LaneKernel.Machine.LaneUnit
import LaneKernel.Proofs.Memory

/-!
# Words as bytes

Lanes, elements and memory all hold little-endian words.  `Lane.byte` takes one
byte out of a word; its lemmas say where each operation on words gets its bytes
from, and two words with the same bytes are the same word.
-/

namespace LaneKernel

namespace Lane

/-- Byte number `index` of a word, the low byte first. -/
def byte (word : UInt64) (index : Nat) :
    UInt8 := (shiftRight word (8 * index)).toUInt8

theorem toNat_byte (word : UInt64) (index : Nat) :
    (byte word index).toNat = word.toNat / 2 ^ (8 * index) % 2 ^ 8 := by
  unfold byte shiftRight
  split
  case isTrue below =>
    rw [UInt64.toNat_toUInt8, UInt64.toNat_shiftRight, UInt64.toNat_ofNat']
    rw [show 8 * index % 2 ^ 64 % 64 = 8 * index by omega,
      Nat.shiftRight_eq_div_pow]
  case isFalse above =>
    have small : word.toNat < 2 ^ (8 * index) :=
      Nat.lt_of_lt_of_le word.toNat_lt
        (Nat.pow_le_pow_right (by decide) (by omega))
    rw [Nat.div_eq_of_lt small]
    rfl

theorem byte_of_ge (word : UInt64) {index : Nat} (beyond : 8 ≤ index) :
    byte word index = 0 := by
  unfold byte shiftRight
  rw [if_neg (by omega)]
  rfl

theorem testBit_byte (word : UInt64) (index place : Nat) :
    (byte word index).toNat.testBit place =
      (decide (place < 8) && word.toNat.testBit (8 * index + place)) := by
  rw [toNat_byte, Nat.testBit_mod_two_pow, Nat.testBit_div_two_pow,
    Nat.add_comm]

theorem ext_byte {first second : UInt64}
    (same : ∀ index < 8, byte first index = byte second index) :
    first = second := by
  apply UInt64.toNat_inj.mp
  apply Nat.eq_of_testBit_eq
  intro place
  rcases Nat.lt_or_ge place 64 with inside | outside
  · have split : 8 * (place / 8) + place % 8 = place := by omega
    have bits := congrArg (fun byte => byte.toNat.testBit (place % 8))
      (same (place / 8) (by omega))
    simp only [testBit_byte, split] at bits
    simpa [show place % 8 < 8 by omega] using bits
  · rw [Nat.testBit_lt_two_pow (Nat.lt_of_lt_of_le first.toNat_lt
      (Nat.pow_le_pow_right (by decide) outside)), Nat.testBit_lt_two_pow
        (Nat.lt_of_lt_of_le second.toNat_lt
          (Nat.pow_le_pow_right (by decide) outside))]

theorem ext_testBit {first second : UInt8}
    (same : ∀ place < 8,
      first.toNat.testBit place = second.toNat.testBit place) :
    first = second := by
  apply UInt8.toNat_inj.mp
  apply Nat.eq_of_testBit_eq
  intro place
  rcases Nat.lt_or_ge place 8 with inside | outside
  · exact same place inside
  · rw [Nat.testBit_lt_two_pow (Nat.lt_of_lt_of_le first.toNat_lt
      (Nat.pow_le_pow_right (by decide) outside)), Nat.testBit_lt_two_pow
        (Nat.lt_of_lt_of_le second.toNat_lt
          (Nat.pow_le_pow_right (by decide) outside))]

theorem byte_or (first second : UInt64) (index : Nat) :
    byte (first ||| second) index = byte first index ||| byte second index := by
  apply ext_testBit
  intro place below
  rw [UInt8.toNat_or, Nat.testBit_or]
  simp only [testBit_byte, UInt64.toNat_or, Nat.testBit_or, below, decide_true,
    Bool.true_and]

theorem byte_and (first second : UInt64) (index : Nat) :
    byte (first &&& second) index = byte first index &&& byte second index := by
  apply ext_testBit
  intro place below
  rw [UInt8.toNat_and, Nat.testBit_and]
  simp only [testBit_byte, UInt64.toNat_and, Nat.testBit_and, below,
    decide_true, Bool.true_and]

theorem byte_xor (first second : UInt64) (index : Nat) :
    byte (first ^^^ second) index = byte first index ^^^ byte second index := by
  apply ext_testBit
  intro place below
  rw [UInt8.toNat_xor, Nat.testBit_xor]
  simp only [testBit_byte, UInt64.toNat_xor, Nat.testBit_xor, below,
    decide_true, Bool.true_and]

@[simp] theorem byte_zero (index : Nat) : byte 0 index = 0 := by
  apply UInt8.toNat_inj.mp
  rw [toNat_byte]
  simp

theorem byte_not (word : UInt64) {index : Nat} (inside : index < 8) :
    byte (~~~word) index = ~~~(byte word index) := by
  unfold byte shiftRight
  rw [if_pos (by omega), if_pos (by omega)]
  apply UInt8.toBitVec_inj.mp
  ext place below
  simp
  omega

theorem byte_shiftLeft (word : UInt64) (count index : Nat)
    (inside : index < 8) :
    byte (shiftLeft word (8 * count)) index = if index < count then 0
      else byte word (index - count) := by
  apply ext_testBit
  intro place below
  unfold shiftLeft
  split
  case isTrue small =>
    simp only [testBit_byte, below, decide_true, Bool.true_and]
    rw [UInt64.toNat_shiftLeft, UInt64.toNat_ofNat', Nat.testBit_mod_two_pow,
      Nat.testBit_shiftLeft, show 8 * count % 2 ^ 64 % 64 = 8 * count by omega]
    split
    case isTrue low => simp [show ¬ 8 * count ≤ 8 * index + place by omega]
    case isFalse high =>
      rw [testBit_byte, show 8 * index + place - 8 * count =
        8 * (index - count) + place by omega]
      simp [show 8 * index + place < 64 by omega,
        show 8 * count ≤ 8 * index + place by omega, below]
  case isFalse large =>
    rw [if_pos (by omega), byte_zero]

theorem byte_shiftRight (word : UInt64) (count index : Nat) :
    byte (shiftRight word (8 * count)) index = byte word (index + count) := by
  apply ext_testBit
  intro place below
  simp only [testBit_byte, below, decide_true, Bool.true_and]
  unfold shiftRight
  split
  case isTrue small =>
    rw [UInt64.toNat_shiftRight, UInt64.toNat_ofNat', Nat.testBit_shiftRight,
      show 8 * count % 2 ^ 64 % 64 = 8 * count by omega]
    congr 1
    omega
  case isFalse large =>
    rw [Nat.testBit_lt_two_pow (Nat.lt_of_lt_of_le word.toNat_lt
      (Nat.pow_le_pow_right (by decide)
        (show 64 ≤ 8 * (index + count) + place by omega)))]
    simp

theorem byte_truncate (word : UInt64) (size index : Nat) :
    byte (truncate word size) index = if index < size then byte word index
      else 0 := by
  unfold truncate
  split
  case isTrue whole =>
    split
    · rfl
    · exact byte_of_ge word (by omega)
  case isFalse part =>
    have isMask : (shiftLeft 1 (8 * size) - 1).toNat = 2 ^ (8 * size) - 1 := by
      have small : 2 ^ (8 * size) < 2 ^ 64 :=
        Nat.pow_lt_pow_right (by decide) (by omega)
      have positive : 0 < 2 ^ (8 * size) := Nat.two_pow_pos _
      have one : (shiftLeft 1 (8 * size)).toNat = 2 ^ (8 * size) := by
        unfold shiftLeft
        rw [if_pos (by omega), UInt64.toNat_shiftLeft, UInt64.toNat_ofNat',
          show 8 * size % 2 ^ 64 % 64 = 8 * size by omega, Nat.shiftLeft_eq]
        change 1 * _ % _ = _
        rw [Nat.one_mul, Nat.mod_eq_of_lt small]
      rw [UInt64.toNat_sub_of_le, one]
      · rfl
      · rw [UInt64.le_iff_toNat_le, one]
        exact positive
    apply ext_testBit
    intro place below
    rw [testBit_byte, UInt64.toNat_and, isMask, Nat.testBit_and,
      Nat.testBit_two_pow_sub_one]
    split
    case isTrue inside =>
      simp [testBit_byte, below, show 8 * index + place < 8 * size by omega]
    case isFalse outside => simp [show ¬ 8 * index + place < 8 * size by omega]

theorem truncate_eq_self {word : UInt64} {size : Nat}
    (fits : ∀ index, size ≤ index → byte word index = 0) :
    truncate word size = word := by
  apply ext_byte
  intro index _
  rw [byte_truncate]
  split
  · rfl
  · exact (fits index (by omega)).symm

theorem testBit_signExtend (word : UInt64) {size place : Nat} (small : size ≤ 8)
    (inside : place < 8 * size) :
    (signExtend word size).toUInt64.toNat.testBit place =
      word.toNat.testBit place := by
  have amount : ∀ count, 0 < count → count ≤ 8 →
      (Int64.ofNat (64 - 8 * count)).toBitVec.smod 64 =
        BitVec.ofNat 64 (64 - 8 * count) := by
    intro count positive bound
    match count, positive, bound with
    | 1, _, _ | 2, _, _ | 3, _, _ | 4, _, _ | 5, _, _ | 6, _, _ | 7, _, _
    | 8, _, _ => rfl
  unfold signExtend
  rw [if_neg (by omega), ← UInt64.toNat_toBitVec, ← UInt64.toNat_toBitVec word]
  change ((word <<< UInt64.ofNat (64 - 8 * size)).toInt64 >>>
    Int64.ofNat (64 - 8 * size)).toBitVec.getLsbD place =
      word.toBitVec.getLsbD place
  have shifted : (word <<< UInt64.ofNat (64 - 8 * size)).toBitVec.getLsbD
      (64 - 8 * size + place) = word.toBitVec.getLsbD place := by
    change (word <<< UInt64.ofNat (64 - 8 * size)).toNat.testBit _ =
      word.toNat.testBit place
    rw [UInt64.toNat_shiftLeft, UInt64.toNat_ofNat', Nat.testBit_mod_two_pow,
      Nat.testBit_shiftLeft, show (64 - 8 * size) % 2 ^ 64 % 64 =
        64 - 8 * size by omega]
    simp [show 64 - 8 * size + place < 64 by omega]
  rw [Int64.toBitVec_shiftRight, amount size (by omega) small,
    BitVec.sshiftRight_eq', BitVec.getLsbD_sshiftRight, BitVec.toNat_ofNat,
    show (64 - 8 * size) % 2 ^ 64 = 64 - 8 * size by omega, if_pos (by omega)]
  rw [show ((word <<< UInt64.ofNat (64 - 8 * size)).toInt64).toBitVec =
    (word <<< UInt64.ofNat (64 - 8 * size)).toBitVec from rfl, shifted]
  simp [show ¬ 64 ≤ place by omega]

theorem byte_signExtend (word : UInt64) {size index : Nat} (small : size ≤ 8)
    (inside : index < size) :
    byte (signExtend word size).toUInt64 index = byte word index := by
  apply ext_testBit
  intro place below
  rw [testBit_byte, testBit_byte, testBit_signExtend word small (by omega)]

theorem cut_toUInt32 (word : UInt64) {place : Nat} (inside : place < 4) :
    (word.toUInt32 >>> UInt32.ofNat (8 * place)).toUInt8 = byte word place := by
  apply UInt8.toNat_inj.mp
  rw [Word.toNat_byte _ _ (8 * place) (by rw [UInt32.toNat_ofNat']; omega)
    (by omega), toNat_byte, UInt64.toNat_toUInt32]
  match place, inside with
  | 0, _ | 1, _ | 2, _ | 3, _ => omega

end Lane

namespace FlatMemory

theorem byte_valueAt (data : Array UInt8) (position size index : Nat)
    (small : size ≤ 8) :
    Lane.byte (valueAt data position size) index =
      if index < size then data.getD (position + index) 0 else 0 := by
  induction size generalizing position index with
  | zero => simp [valueAt]
  | succ size induction =>
      rcases Nat.lt_or_ge index 8 with inside | outside
      · rw [valueAt, Lane.byte_or, show 8 = 8 * 1 from rfl,
          Lane.byte_shiftLeft _ _ _ inside]
        cases index with
        | zero =>
            rw [if_pos (by omega), if_pos (by omega)]
            apply UInt8.toNat_inj.mp
            rw [UInt8.toNat_or, Lane.toNat_byte]
            simp
        | succ index =>
            rw [if_neg (by omega), Nat.add_sub_cancel, induction _ _ (by omega)]
            have low : Lane.byte (data.getD position 0).toUInt64 (index + 1) =
                0 := by
              apply UInt8.toNat_inj.mp
              rw [Lane.toNat_byte, UInt8.toNat_toUInt64]
              have bound := (data.getD position 0).toNat_lt
              have power : 2 ^ 8 ≤ 2 ^ (8 * (index + 1)) :=
                Nat.pow_le_pow_right (by decide) (by omega)
              rw [Nat.div_eq_of_lt (Nat.lt_of_lt_of_le bound power)]
              rfl
            rw [low, UInt8.zero_or,
              show position + 1 + index = position + (index + 1) by omega]
            simp only [Nat.add_lt_add_iff_right]
      · rw [Lane.byte_of_ge _ outside, if_neg (by omega)]

theorem getElem_bytesOf (value : UInt64) (size index : Nat)
    (inside : index < size) :
    (bytesOf value size)[index]? = some (Lane.byte value index) := by
  induction size generalizing value index with
  | zero => omega
  | succ size induction =>
      rw [bytesOf]
      cases index with
      | zero => simp [Lane.byte, Lane.shiftRight]
      | succ index =>
          rw [List.getElem?_cons_succ, induction _ _ (by omega)]
          have shifted : value >>> 8 = Lane.shiftRight value (8 * 1) := rfl
          rw [shifted, Lane.byte_shiftRight]

end FlatMemory

namespace VectorRegister

theorem value_eq_valueAt (register : VectorRegister) (position count : Nat) :
    register.value position count =
      FlatMemory.valueAt register.toArray position count := by
  induction count generalizing position with
  | zero => rfl
  | succ count induction => rw [value, FlatMemory.valueAt, induction]

/-- Byte number `index` of a register; there are sixteen. -/
def byte (register : VectorRegister) (index : Nat) :
    UInt8 := register.toArray.getD index 0

theorem byte_eq_get (register : VectorRegister) (place : Fin 16) :
    register.byte place.val = register.get place := by
  have inside : place.val < register.toArray.size := by
    rw [register.size_toArray]
    exact place.isLt
  rw [byte, Array.getD_eq_getD_getElem?, Array.getElem?_eq_getElem inside]
  rfl

theorem byte_lane (register : VectorRegister) (size number index : Nat)
    (small : size ≤ 8) :
    Lane.byte (register.lane size number) index =
      if index < size then register.byte (number * size + index) else 0 := by
  unfold lane
  rw [value_eq_valueAt, FlatMemory.byte_valueAt _ _ _ _ small]
  rfl

theorem byte_ofFn (bytes : Fin 16 → UInt8) {index : Nat} (inside : index < 16) :
    byte (Vector.ofFn bytes) index = bytes ⟨index, inside⟩ := by
  rw [byte_eq_get _ ⟨index, inside⟩]
  exact Vector.getElem_ofFn inside

theorem byte_ofLanes (size : Nat) (values : Nat → UInt64) {index : Nat}
    (inside : index < 16) :
    (ofLanes size values).byte index =
      Lane.byte (values (index / size)) (index % size) :=
  byte_ofFn _ inside

/-- The pattern that brings the upper half of each group of lanes down. -/
theorem byte_shuffle (register : VectorRegister) {size index : Nat}
    (small : size ≤ 4) (inside : index < 2 * size) :
    (register.shuffle size 0x4e).byte index =
      register.byte (index + 2 * size) := by
  have positive : 0 < size := by omega
  have lane : index / size < 2 := Nat.div_lt_of_lt_mul (by rwa [Nat.mul_comm])
  have split := Nat.div_add_mod index size
  have part := Nat.mod_lt index positive
  unfold shuffle
  rw [byte_ofLanes _ _ (by omega), byte_lane _ _ _ _ (by omega), if_pos part]
  congr 1
  obtain ⟨number, isNumber⟩ : ∃ number, number = index / size := ⟨_, rfl⟩
  rw [← isNumber] at lane split ⊢
  match number, lane with
  | 0, _ =>
      simp only [Nat.zero_mod, Nat.mul_zero, Nat.zero_div, Nat.zero_mul,
        Nat.zero_add] at split ⊢
      change 2 * size + index % size = _
      omega
  | 1, _ =>
      simp only [Nat.mul_one] at split
      change 3 * size + index % size = _
      omega

theorem getElem_toList (register : VectorRegister) {index : Nat}
    (inside : index < register.toList.length) :
    register.toList[index] = register.byte index := by
  have below : index < 16 := by simpa using inside
  rw [byte_eq_get _ ⟨index, below⟩]
  simp [Vector.get]

end VectorRegister

end LaneKernel
