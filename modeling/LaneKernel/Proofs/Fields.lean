import LaneKernel.Machine.Operation
import Mathlib.Tactic.Ring

/-!
# Fields of instruction words

An encoder puts fields side by side with shifts and `|||`; a decoder cuts them
out with shifts and masks.  Both sides are brought to arithmetic on natural
numbers here, where a word is the sum of its fields, each multiplied with the
power of two of its place.
-/

namespace LaneKernel

namespace Word

theorem toNat_ofInt (value : Int) :
    (UInt32.ofInt value).toNat = (value % 2 ^ 32).toNat := by
  rw [UInt32.ofInt, UInt32.toNat_ofNat']
  omega

theorem ofInt_natCast (number : Nat) :
    UInt32.ofInt number = UInt32.ofNat number := by
  apply UInt32.toNat_inj.mp
  rw [toNat_ofInt, UInt32.toNat_ofNat']
  omega

/-- A field put below the bits that are already set adds its value at its place;
`top` is the place of the lowest bit that may be set. -/
theorem toNat_or_shiftLeft
    (word field count : UInt32) (place top : Nat)
    (atPlace : count.toNat = place) (inside : place < 32 ∧ top ≤ 32)
    (free : word.toNat % 2 ^ top = 0)
    (fits : field.toNat * 2 ^ place < 2 ^ top) :
    (word ||| field <<< count).toNat =
      word.toNat + field.toNat * 2 ^ place := by
  have below : field.toNat * 2 ^ place < 2 ^ 32 :=
    Nat.lt_of_lt_of_le fits (Nat.pow_le_pow_right (by decide) inside.2)
  have split : word.toNat = 2 ^ top * (word.toNat / 2 ^ top) := by
    have := Nat.div_add_mod word.toNat (2 ^ top)
    omega
  rw [UInt32.toNat_or, UInt32.toNat_shiftLeft, atPlace,
    Nat.mod_eq_of_lt inside.1, Nat.shiftLeft_eq, Nat.mod_eq_of_lt below, split,
    ← Nat.two_pow_add_eq_or_of_lt fits]

theorem toNat_or_low
    (word field : UInt32) (top : Nat)
    (free : word.toNat % 2 ^ top = 0) (fits : field.toNat < 2 ^ top) :
    (word ||| field).toNat = word.toNat + field.toNat := by
  have split : word.toNat = 2 ^ top * (word.toNat / 2 ^ top) := by
    have := Nat.div_add_mod word.toNat (2 ^ top)
    omega
  rw [UInt32.toNat_or, split, ← Nat.two_pow_add_eq_or_of_lt fits]

theorem toNat_shiftLeft_field
    (field count : UInt32) (place : Nat)
    (atPlace : count.toNat = place) (inside : place < 32)
    (fits : field.toNat * 2 ^ place < 2 ^ 32) :
    (field <<< count).toNat = field.toNat * 2 ^ place := by
  rw [UInt32.toNat_shiftLeft, atPlace, Nat.mod_eq_of_lt inside,
    Nat.shiftLeft_eq, Nat.mod_eq_of_lt fits]

/-- The fields put into a word so far: they make up the number `value`, and
leave the bits below the place `low` free. -/
structure Packed (word : UInt32) (value low : Nat) : Prop where
  toNat_eq : word.toNat = value
  free : value % 2 ^ low = 0

namespace Packed

variable {word field : UInt32} {value top number : Nat}

theorem first (low : Nat) (isField : field.toNat = number)
    (fits : number < 2 ^ (32 - low)) (inside : low < 32) :
    Packed (field <<< UInt32.ofNat low) (number * 2 ^ low) low where
  toNat_eq := by
    have below : number * 2 ^ low < 2 ^ 32 := by
      have := Nat.mul_lt_mul_of_pos_right fits (Nat.two_pow_pos low)
      rwa [← Nat.pow_add, Nat.sub_add_cancel inside.le] at this
    rw [← isField] at below ⊢
    exact toNat_shiftLeft_field field _ low
      (UInt32.toNat_ofNat_of_lt' (Nat.lt_trans inside (by decide))) inside below
  free := Nat.mul_mod_left _ _

/-- A field behind those that are put already. -/
theorem behind (packed : Packed word value top) (low : Nat)
    (isField : field.toNat = number) (fits : number < 2 ^ (top - low))
    (inside : low < 32 ∧ low ≤ top ∧ top ≤ 32) :
    Packed (word ||| field <<< UInt32.ofNat low) (value + number * 2 ^ low)
      low where
  toNat_eq := by
    have below : number * 2 ^ low < 2 ^ top := by
      have := Nat.mul_lt_mul_of_pos_right fits (Nat.two_pow_pos low)
      rwa [← Nat.pow_add, Nat.sub_add_cancel inside.2.1] at this
    rw [← isField] at below ⊢
    rw [toNat_or_shiftLeft word field _ low top
      (UInt32.toNat_ofNat_of_lt' (Nat.lt_trans inside.1 (by decide)))
      ⟨inside.1, inside.2.2⟩
      (by rw [packed.toNat_eq]; exact packed.free) below, packed.toNat_eq]
  free := by
    rw [Nat.add_mul_mod_self_right]
    exact Nat.mod_eq_zero_of_dvd
      ((Nat.pow_dvd_pow 2 inside.2.1).trans
        (Nat.dvd_of_mod_eq_zero packed.free))

theorem last (packed : Packed word value top) (isField : field.toNat = number)
    (fits : number < 2 ^ top) : (word ||| field).toNat = value + number := by
  rw [← isField] at fits ⊢
  rw [toNat_or_low word field top
    (by rw [packed.toNat_eq]; exact packed.free) fits, packed.toNat_eq]

end Packed

theorem toNat_and_mask (word mask : UInt32) (width : Nat)
    (isMask : mask.toNat = 2 ^ width - 1) :
    (word &&& mask).toNat = word.toNat % 2 ^ width := by
  rw [UInt32.toNat_and, isMask, Nat.and_two_pow_sub_one_eq_mod]

theorem toNat_shiftRight_place (word count : UInt32) (place : Nat)
    (atPlace : count.toNat = place) (inside : place < 32) :
    (word >>> count).toNat = word.toNat / 2 ^ place := by
  rw [UInt32.toNat_shiftRight, atPlace, Nat.mod_eq_of_lt inside,
    Nat.shiftRight_eq_div_pow]

/-- A field cut out of a word. -/
theorem toNat_field (word count mask : UInt32) (place width : Nat)
    (atPlace : count.toNat = place) (inside : place < 32)
    (isMask : mask.toNat = 2 ^ width - 1) :
    ((word >>> count) &&& mask).toNat = word.toNat / 2 ^ place % 2 ^ width := by
  rw [toNat_and_mask _ mask width isMask,
    toNat_shiftRight_place word count place atPlace inside]

theorem and_not_add_and (word mask : UInt32) :
    (word &&& ~~~mask) + (word &&& mask) = word := by
  apply UInt32.toBitVec_inj.mp
  simp only [UInt32.toBitVec_add, UInt32.toBitVec_and, UInt32.toBitVec_not]
  rw [BitVec.add_eq_or_of_and_eq_zero]
  · ext place inside
    cases bit : mask.toBitVec[place] <;> simp [bit]
  · ext place inside
    cases bit : mask.toBitVec[place] <;> simp [bit]

theorem toNat_opcode (word : UInt32) :
    (opcode word).toNat = word.toNat / 2 ^ 26 :=
  toNat_shiftRight_place word 26 26 rfl (by decide)

theorem toNat_rs (word : UInt32) :
    (rs word).toNat = word.toNat / 2 ^ 21 % 2 ^ 5 :=
  toNat_field word 21 0x1f 21 5 rfl (by decide) rfl

theorem toNat_rt (word : UInt32) :
    (rt word).toNat = word.toNat / 2 ^ 16 % 2 ^ 5 :=
  toNat_field word 16 0x1f 16 5 rfl (by decide) rfl

theorem toNat_rd (word : UInt32) :
    (rd word).toNat = word.toNat / 2 ^ 11 % 2 ^ 5 :=
  toNat_field word 11 0x1f 11 5 rfl (by decide) rfl

theorem toNat_shiftAmount (word : UInt32) :
    (shiftAmount word).toNat = word.toNat / 2 ^ 6 % 2 ^ 5 :=
  toNat_field word 6 0x1f 6 5 rfl (by decide) rfl

theorem toNat_function (word : UInt32) :
    (function word).toNat = word.toNat % 2 ^ 6 :=
  toNat_and_mask word 0x3f 6 rfl

theorem toNat_wt (word : UInt32) :
    (wt word).toNat = word.toNat / 2 ^ 16 % 2 ^ 5 :=
  toNat_rt word

theorem toNat_ws (word : UInt32) :
    (ws word).toNat = word.toNat / 2 ^ 11 % 2 ^ 5 :=
  toNat_rd word

theorem toNat_wd (word : UInt32) :
    (wd word).toNat = word.toNat / 2 ^ 6 % 2 ^ 5 :=
  toNat_shiftAmount word

theorem toNat_minor (word : UInt32) : (minor word).toNat = word.toNat % 2 ^ 6 :=
  toNat_and_mask word 0x3f 6 rfl

theorem format_eq (word : UInt32) : format word = word.toNat / 2 ^ 21 % 2 ^ 2 :=
  toNat_field word 21 3 21 2 rfl (by decide) rfl

theorem toNat_unsignedImmediate (word : UInt32) :
    (unsignedImmediate word).toNat = word.toNat % 2 ^ 16 :=
  toNat_and_mask word 0xffff 16 rfl

/-- A field that holds the number of a register reads back as that register. -/
theorem register_eq {field : UInt32} {index : RegNum}
    (same : field.toNat = index.val) : register field = index := by
  apply Fin.ext
  simp [register, Fin.ofNat, same, Nat.mod_eq_of_lt index.isLt]

theorem toNat_ofNat_index (index : RegNum) :
    (UInt32.ofNat index.val).toNat = index.val := by
  have := index.isLt
  simp [UInt32.toNat_ofNat']
  omega

theorem toNat_assemble (a b c d : UInt8) :
    (a.toUInt32 ||| b.toUInt32 <<< 8 ||| c.toUInt32 <<< 16 |||
      d.toUInt32 <<< 24).toNat =
      a.toNat + b.toNat * 2 ^ 8 + c.toNat * 2 ^ 16 + d.toNat * 2 ^ 24 := by
  have aBound := a.toNat_lt
  have bBound := b.toNat_lt
  have cBound := c.toNat_lt
  have dBound := d.toNat_lt
  have bPlace :=
    toNat_shiftLeft_field b.toUInt32 8 8 rfl (by decide) (by simp; omega)
  have cPlace :=
    toNat_shiftLeft_field c.toUInt32 16 16 rfl (by decide) (by simp; omega)
  have dPlace :=
    toNat_shiftLeft_field d.toUInt32 24 24 rfl (by decide) (by simp; omega)
  rw [UInt8.toNat_toUInt32] at bPlace cPlace dPlace
  have first : a.toNat ||| b.toNat * 2 ^ 8 = b.toNat * 2 ^ 8 + a.toNat := by
    rw [Nat.or_comm, Nat.mul_comm]
    exact (Nat.two_pow_add_eq_or_of_lt (by omega) b.toNat).symm
  have second : (b.toNat * 2 ^ 8 + a.toNat) ||| c.toNat * 2 ^ 16 =
      c.toNat * 2 ^ 16 + (b.toNat * 2 ^ 8 + a.toNat) := by
    rw [Nat.or_comm, Nat.mul_comm c.toNat]
    exact (Nat.two_pow_add_eq_or_of_lt (by omega) c.toNat).symm
  have third : (c.toNat * 2 ^ 16 + (b.toNat * 2 ^ 8 + a.toNat)) |||
      d.toNat * 2 ^ 24 =
      d.toNat * 2 ^ 24 + (c.toNat * 2 ^ 16 + (b.toNat * 2 ^ 8 + a.toNat)) := by
    rw [Nat.or_comm, Nat.mul_comm d.toNat]
    exact (Nat.two_pow_add_eq_or_of_lt (by omega) d.toNat).symm
  rw [UInt32.toNat_or, UInt32.toNat_or, UInt32.toNat_or, bPlace, cPlace, dPlace,
    UInt8.toNat_toUInt32, first, second, third]
  omega

theorem toNat_byte (word : UInt32) (count : UInt32) (place : Nat)
    (atPlace : count.toNat = place) (inside : place < 32) :
    (word >>> count).toUInt8.toNat = word.toNat / 2 ^ place % 2 ^ 8 := by
  rw [UInt32.toNat_toUInt8,
    toNat_shiftRight_place word count place atPlace inside]

theorem assemble_bytes (word : UInt32) :
    word.toUInt8.toUInt32 ||| (word >>> 8).toUInt8.toUInt32 <<< 8 |||
      (word >>> 16).toUInt8.toUInt32 <<< 16 |||
        (word >>> 24).toUInt8.toUInt32 <<< 24 = word := by
  apply UInt32.toNat_inj.mp
  rw [toNat_assemble, toNat_byte word 8 8 rfl (by decide),
    toNat_byte word 16 16 rfl (by decide),
    toNat_byte word 24 24 rfl (by decide), UInt32.toNat_toUInt8]
  have bound := word.toNat_lt
  omega

end Word

end LaneKernel
