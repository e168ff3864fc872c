import LaneKernel.Machine.Core
import LaneKernel.Proofs.Fields

/-!
# Accesses to memory

Which accesses a memory serves, and what a store leaves behind.  `Ram.available`
counts the bytes from an address to the end of the memory; an access is served
exactly when it asks for no more than these.  Stores of every width are the one
operation `Ram.copyAt`, of which the byte at each position is known.
-/

namespace LaneKernel

namespace Ram

/-- The number of bytes that the memory has from an address on. -/
def available (ram : Ram) (address : UInt32) : Nat :=
  if ram.base ≤ address then ram.size - (address - ram.base).toNat else 0

/-- The bytes from an address on; missing bytes are zero. -/
def bytesAt (ram : Ram) (address : UInt32) (count : Nat) : List UInt8 :=
  (List.range count).map fun index =>
    ram.bytes.getD ((address - ram.base).toNat + index) 0

theorem within_iff (ram : Ram) (offset : UInt32) (count : Nat)
    (small : count ≤ 2 ^ 32) :
    ram.within offset count = true ↔ offset.toNat + count ≤ ram.size := by
  have bound := offset.toNat_lt
  unfold within
  rw [decide_eq_true_iff, ← Int.natCast_add]
  omega

theorem offset_eq (ram : Ram) (address : UInt32) (count : Nat)
    (some : 0 < count) (small : count ≤ 2 ^ 32) :
    ram.offset address count =
      if count ≤ ram.available address then .ok (address - ram.base)
      else .error (.noMemory address) := by
  unfold offset available
  by_cases below : address < ram.base
  · have notAbove : ¬ ram.base ≤ address := UInt32.not_le.mpr below
    rw [if_pos (.inl below), if_neg notAbove, if_neg (by omega)]
  · have above : ram.base ≤ address := UInt32.not_lt.mp below
    by_cases inside : ram.within (address - ram.base) count = true
    · have fits := (within_iff ram _ count small).mp inside
      rw [if_neg (by simp [below, inside]), if_pos above, if_pos (by omega)]
    · have misfits :=
        mt (within_iff ram (address - ram.base) count small).mpr inside
      rw [if_pos (.inr inside), if_pos above, if_neg (by omega)]

/-- The sixteen bytes of a vector. -/
theorem offset_vector (ram : Ram) (address : UInt32) :
    ram.offset address 16 =
      if 16 ≤ ram.available address then .ok (address - ram.base)
      else .error (.noMemory address) :=
  ram.offset_eq address 16 (by decide) (by decide)

/-- A scalar read gives the value of its bytes exactly when all of them are
there. -/
theorem read_eq (ram : Ram) (address : UInt32) (count : Nat)
    (isWidth : accessSize count = true) :
    ram.read address count =
      if count ≤ ram.available address then
        .ok (FlatMemory.valueAt ram.bytes (address - ram.base).toNat count)
      else .error (.noMemory address) := by
  have widths : count = 1 ∨ count = 2 ∨ count = 4 ∨ count = 8 := by
    simp [accessSize, Lane.validSize] at isWidth
    omega
  unfold read
  rw [offset_eq ram address count (by omega) (by omega)]
  by_cases fits : count ≤ ram.available address
  · have inside : ram.within (address - ram.base) count = true := by
      rw [within_iff ram _ count (by omega)]
      unfold available at fits
      split at fits <;> omega
    simp only [if_pos fits, readOffset, offsetError?, inside, isWidth,
      Bool.not_true, Bool.false_eq_true, if_false, Int.toNat_natCast]
  · simp only [if_neg fits]

theorem size_copyAt (bytes : Array UInt8) (position : Nat) (data : List UInt8) :
    (copyAt bytes position data).size = bytes.size := by
  induction data generalizing bytes position with
  | nil => rfl
  | cons byte rest induction => rw [copyAt, induction, Array.size_setIfInBounds]

theorem getElem?_copyAt (bytes : Array UInt8) (position : Nat)
    (data : List UInt8) (index : Nat) :
    (copyAt bytes position data)[index]? =
      if position ≤ index ∧ index < position + data.length ∧
        index < bytes.size then
        data[index - position]?
      else bytes[index]? := by
  induction data generalizing bytes position with
  | nil =>
      rw [copyAt, if_neg (by simp; omega)]
  | cons byte rest induction =>
      rw [copyAt, induction, Array.size_setIfInBounds,
        Array.getElem?_setIfInBounds]
      rcases Nat.lt_trichotomy index position with before | here | behind
      · rw [if_neg (by omega), if_neg (by omega), if_neg (by omega)]
      · subst here
        rw [if_neg (by omega), if_pos rfl]
        by_cases inside : index < bytes.size
        · rw [if_pos inside, if_pos (by simp [inside])]
          simp
        · rw [if_neg inside, if_neg (by omega)]
          exact (Array.getElem?_eq_none (by omega)).symm
      · have next : index - position = (index - (position + 1)) + 1 := by omega
        simp only [List.length_cons, next, List.getElem?_cons_succ]
        by_cases inside : index < position + 1 + rest.length ∧
          index < bytes.size
        · rw [if_pos (by omega), if_pos (by omega)]
        · rw [if_neg (by omega), if_neg (by omega), if_neg (by omega)]

@[simp] theorem loadAt_base (ram : Ram) (position : Nat) (data : Array UInt8) :
    (ram.loadAt position data).base = ram.base := rfl

@[simp] theorem loadAt_bytes (ram : Ram) (position : Nat) (data : Array UInt8) :
    (ram.loadAt position data).bytes =
      copyAt ram.bytes position data.toList := rfl

@[simp] theorem loadAt_size (ram : Ram) (position : Nat) (data : Array UInt8) :
    (ram.loadAt position data).size = ram.size := size_copyAt _ _ _

theorem loadAt_empty (ram : Ram) (position : Nat) :
    ram.loadAt position #[] = ram := rfl

theorem available_loadAt (ram : Ram) (position : Nat) (data : Array UInt8)
    (address : UInt32) :
    (ram.loadAt position data).available address = ram.available address := by
  unfold available
  rw [loadAt_base, loadAt_size]

end Ram

namespace FlatMemory

/-- The low bytes of a value, low byte first. -/
def bytesOf (value : UInt64) : Nat → List UInt8
  | 0 => []
  | size + 1 => value.toUInt8 :: bytesOf (value >>> 8) size

@[simp] theorem length_bytesOf (value : UInt64) (size : Nat) :
    (bytesOf value size).length = size := by
  induction size generalizing value with
  | zero => rfl
  | succ size induction => rw [bytesOf, List.length_cons, induction]

theorem writeAt_eq_copyAt (data : Array UInt8) (position : Nat) (value : UInt64)
    (size : Nat) :
    writeAt data position value size =
      Ram.copyAt data position (bytesOf value size) := by
  induction size generalizing data position value with
  | zero => rfl
  | succ size induction => rw [writeAt, induction, bytesOf, Ram.copyAt]

/-- A value is its low byte and, one place up, the value of the other bytes. -/
theorem toNat_valueAt_succ (data : Array UInt8) (position size : Nat)
    (small : size + 1 ≤ 8) :
    (valueAt data position size).toNat < 2 ^ (8 * size) ∧
      (valueAt data position (size + 1)).toNat =
        (data.getD position 0).toNat +
          2 ^ 8 * (valueAt data (position + 1) size).toNat := by
  induction size generalizing position with
  | zero => simp [valueAt, Lane.shiftLeft]
  | succ size induction =>
      obtain ⟨_, here⟩ := induction position (by omega)
      obtain ⟨nextBound, next⟩ := induction (position + 1) (by omega)
      have byteBound := (data.getD position 0).toNat_lt
      have powers : 2 ^ (8 * (size + 1)) = 2 ^ 8 * 2 ^ (8 * size) := by
        rw [← Nat.pow_add]
        congr 1
        omega
      have bound : (valueAt data position (size + 1)).toNat <
          2 ^ (8 * (size + 1)) := by
        rw [here, powers]
        omega
      have laterBound : (valueAt data (position + 1) (size + 1)).toNat <
          2 ^ (8 * (size + 1)) := by
        obtain ⟨laterNext, _⟩ := induction (position + 1 + 1) (by omega)
        have laterByte := (data.getD (position + 1) 0).toNat_lt
        rw [next, powers]
        omega
      have fits : 2 ^ (8 * (size + 1)) * 2 ^ 8 ≤ 2 ^ 64 := by
        rw [← Nat.pow_add]
        exact Nat.pow_le_pow_right (by decide) (by omega)
      refine ⟨bound, ?_⟩
      rw [valueAt, Lane.shiftLeft, if_pos (by decide), UInt64.toNat_or,
        UInt8.toNat_toUInt64, UInt64.toNat_shiftLeft]
      change _ ||| _ <<< (8 % 64) % 2 ^ 64 = _
      rw [Nat.mod_eq_of_lt (show 8 < 64 by decide), Nat.shiftLeft_eq,
        Nat.mod_eq_of_lt (by omega), Nat.or_comm, Nat.mul_comm _ (2 ^ 8),
        ← Nat.two_pow_add_eq_or_of_lt byteBound]
      omega

end FlatMemory

theorem Ram.writeAt_eq_loadAt (ram : Ram) (position : Nat) (value : UInt64)
    (size : Nat) :
    ram.writeAt position value size =
      ram.loadAt position (FlatMemory.bytesOf value size).toArray := by
  obtain ⟨base, bytes⟩ := ram
  simp only [writeAt, loadAt, FlatMemory.writeAt_eq_copyAt]

namespace Ram

/-- The byte at an address; addresses go round at `2 ^ 32`. -/
def peek (ram : Ram) (address : UInt32) : UInt8 :=
  ram.bytes.getD (address - ram.base).toNat 0

/-- The word whose bytes, low byte first, stand at an address. -/
def word (ram : Ram) (address : UInt32) : UInt32 :=
  (ram.peek address).toUInt32 ||| (ram.peek (address + 1)).toUInt32 <<< 8
    ||| (ram.peek (address + 2)).toUInt32 <<< 16
    ||| (ram.peek (address + 3)).toUInt32 <<< 24

variable {ram : Ram} {start address : UInt32} {count : Nat}

theorem position_of_available (start : UInt32) (small : ram.size ≤ 2 ^ 32)
    (index : Nat) (inside : index < ram.available start) :
    (start + UInt32.ofNat index - ram.base).toNat =
      (start - ram.base).toNat + index ∧
      (start - ram.base).toNat + index < ram.size := by
  unfold available at inside
  split at inside
  case isFalse => omega
  case isTrue above =>
    have position : start + UInt32.ofNat index - ram.base =
        (start - ram.base) + UInt32.ofNat index := by
      rw [UInt32.sub_eq_add_neg, UInt32.sub_eq_add_neg, UInt32.add_assoc,
        UInt32.add_assoc, UInt32.add_comm (UInt32.ofNat index)]
    rw [position, UInt32.toNat_add, UInt32.toNat_ofNat']
    omega

theorem getD_eq_peek (small : ram.size ≤ 2 ^ 32) (index : Nat)
    (inside : index < ram.available start) :
    ram.bytes.getD ((start - ram.base).toNat + index) 0 =
      ram.peek (start + UInt32.ofNat index) := by
  rw [peek, (position_of_available start small index inside).1]

theorem bytesAt_eq (small : ram.size ≤ 2 ^ 32)
    (served : count ≤ ram.available start) :
    ram.bytesAt start count =
      (List.range count).map fun index =>
        ram.peek (start + UInt32.ofNat index) := by
  unfold bytesAt
  apply List.map_congr_left
  intro index isIndex
  exact getD_eq_peek small index
    (Nat.lt_of_lt_of_le (List.mem_range.mp isIndex) served)

theorem sub_add_ofNat_toNat (address start : UInt32) :
    start + UInt32.ofNat (address - start).toNat = address := by
  rw [UInt32.ofNat_toNat, UInt32.add_comm, UInt32.sub_add_cancel]

theorem peek_loadAt (small : ram.size ≤ 2 ^ 32) (data : List UInt8)
    (served : data.length ≤ ram.available start) :
    (ram.loadAt (start - ram.base).toNat data.toArray).peek address =
      if inside : (address - start).toNat < data.length then
        data[(address - start).toNat]
      else ram.peek address := by
  unfold peek
  rw [loadAt_base, loadAt_bytes, Array.getD_eq_getD_getElem?,
    Array.getD_eq_getD_getElem?, getElem?_copyAt, List.toList_toArray]
  by_cases inside : (address - start).toNat < data.length
  · have place := position_of_available start small (address - start).toNat
      (Nat.lt_of_lt_of_le inside served)
    rw [sub_add_ofNat_toNat] at place
    have isSize : ram.bytes.size = ram.size := rfl
    rw [dif_pos inside, place.1, if_pos (by omega)]
    simp [inside]
  · rw [dif_neg inside, if_neg]
    intro ⟨low, high, bound⟩
    apply inside
    have index := position_of_available start small
      ((address - ram.base).toNat - (start - ram.base).toNat) (by omega)
    have same : start +
        UInt32.ofNat ((address - ram.base).toNat - (start - ram.base).toNat) =
        address := by
      have distance : start + UInt32.ofNat ((address - ram.base).toNat -
          (start - ram.base).toNat) - ram.base = address - ram.base := by
        apply UInt32.toNat_inj.mp
        omega
      exact (UInt32.sub_left_inj ram.base).mp distance
    rw [← same, UInt32.add_comm, UInt32.add_sub_cancel, UInt32.toNat_ofNat']
    omega

theorem toUInt32_valueAt (data : Array UInt8) (position : Nat) :
    (FlatMemory.valueAt data position 4).toUInt32 =
      (data.getD position 0).toUInt32
        ||| (data.getD (position + 1) 0).toUInt32 <<< 8
        ||| (data.getD (position + 2) 0).toUInt32 <<< 16
        ||| (data.getD (position + 3) 0).toUInt32 <<< 24 := by
  obtain ⟨bound, first⟩ :=
    FlatMemory.toNat_valueAt_succ data position 3 (by decide)
  obtain ⟨_, second⟩ :=
    FlatMemory.toNat_valueAt_succ data (position + 1) 2 (by decide)
  obtain ⟨_, third⟩ :=
    FlatMemory.toNat_valueAt_succ data (position + 2) 1 (by decide)
  obtain ⟨_, fourth⟩ :=
    FlatMemory.toNat_valueAt_succ data (position + 3) 0 (by decide)
  have lastByte := (data.getD (position + 3) 0).toNat_lt
  have none : (FlatMemory.valueAt data (position + 3 + 1) 0).toNat = 0 := rfl
  apply UInt32.toNat_inj.mp
  rw [Word.toNat_assemble, UInt64.toNat_toUInt32, first, second, third,
    fourth, none]
  have firstByte := (data.getD position 0).toNat_lt
  have secondByte := (data.getD (position + 1) 0).toNat_lt
  have thirdByte := (data.getD (position + 2) 0).toNat_lt
  omega

theorem valueAt_eq_word (small : ram.size ≤ 2 ^ 32)
    (served : 4 ≤ ram.available address) :
    (FlatMemory.valueAt ram.bytes (address - ram.base).toNat 4).toUInt32 =
      ram.word address := by
  have zeroth := getD_eq_peek small 0 (show 0 < ram.available address by omega)
  rw [Nat.add_zero] at zeroth
  rw [toUInt32_valueAt, zeroth, getD_eq_peek small 1 (by omega),
    getD_eq_peek small 2 (by omega), getD_eq_peek small 3 (by omega)]
  unfold word
  rw [show UInt32.ofNat 0 = 0 from rfl, UInt32.add_zero]
  rfl

theorem available_add (inside : count ≤ ram.available start)
    (below : start.toNat + count < 2 ^ 32) :
    ram.available (start + UInt32.ofNat count) =
      ram.available start - count := by
  unfold available at inside ⊢
  by_cases above : ram.base ≤ start
  · have aboveNat : ram.base.toNat ≤ start.toNat :=
      UInt32.le_iff_toNat_le.mp above
    have next : (start + UInt32.ofNat count).toNat = start.toNat + count := by
      rw [UInt32.toNat_add, UInt32.toNat_ofNat']
      omega
    have nextAbove : ram.base ≤ start + UInt32.ofNat count :=
      UInt32.le_iff_toNat_le.mpr (by omega)
    have here := UInt32.toNat_sub_of_le start ram.base above
    have there := UInt32.toNat_sub_of_le (start + UInt32.ofNat count) ram.base
      nextAbove
    rw [if_pos above] at inside ⊢
    rw [if_pos nextAbove]
    omega
  · rw [if_neg above] at inside
    have none : count = 0 := by omega
    subst none
    rw [if_neg above, show UInt32.ofNat 0 = 0 from rfl, UInt32.add_zero,
      if_neg above]

end Ram

theorem Word.ofNat_inj {number other : Nat} (small : number < 2 ^ 32)
    (fits : other < 2 ^ 32) :
    UInt32.ofNat number = UInt32.ofNat other ↔ number = other := by
  rw [← UInt32.toNat_inj, UInt32.toNat_ofNat', UInt32.toNat_ofNat',
    Nat.mod_eq_of_lt small, Nat.mod_eq_of_lt fits]

/-- Consecutive addresses; they go round at `2 ^ 32`. -/
structure Region where
  start : UInt32
  length : Nat
deriving DecidableEq, Repr

namespace Region

instance : Membership UInt32 Region where
  mem region address := (address - region.start).toNat < region.length

instance (address : UInt32) (region : Region) : Decidable (address ∈ region) :=
  inferInstanceAs (Decidable ((address - region.start).toNat < region.length))

/-- No address belongs to both regions. -/
def Apart (first second : Region) : Prop := ∀ address ∈ first, address ∉ second

theorem Apart.symm {first second : Region} (apart : first.Apart second) :
    second.Apart first :=
  fun address inSecond inFirst => apart address inFirst inSecond

theorem mem_iff {region : Region} {address : UInt32} :
    address ∈ region ↔ (address - region.start).toNat < region.length := Iff.rfl

theorem mem_of_lt {start : UInt32} {length index : Nat}
    (below : index < length) :
    start + UInt32.ofNat index ∈ (⟨start, length⟩ : Region) := by
  rw [mem_iff, UInt32.add_comm, UInt32.add_sub_cancel, UInt32.toNat_ofNat']
  exact Nat.lt_of_le_of_lt (Nat.mod_le _ _) below

theorem mem_iff_exists {region : Region} {address : UInt32} :
    address ∈ region ↔
      ∃ index < region.length, address = region.start + UInt32.ofNat index := by
  constructor
  · intro inside
    exact ⟨_, inside, (Ram.sub_add_ofNat_toNat address region.start).symm⟩
  · rintro ⟨index, below, rfl⟩
    exact mem_of_lt below

/-- A part of a region belongs to it. -/
theorem mem_of_part {start address : UInt32} {length offset count : Nat}
    (inPart : address ∈ (⟨start + UInt32.ofNat offset, count⟩ : Region))
    (fits : offset + count ≤ length) :
    address ∈ (⟨start, length⟩ : Region) := by
  obtain ⟨index, below, rfl⟩ := mem_iff_exists.mp inPart
  rw [UInt32.add_assoc, ← UInt32.ofNat_add]
  apply mem_of_lt
  change index < count at below
  omega

theorem apart_parts {start : UInt32} {offset length behind size : Nat}
    (before : offset + length ≤ behind) (below : behind + size ≤ 2 ^ 32) :
    (⟨start + UInt32.ofNat offset, length⟩ : Region).Apart
      ⟨start + UInt32.ofNat behind, size⟩ := by
  intro address inFirst inSecond
  obtain ⟨index, inside, rfl⟩ := mem_iff_exists.mp inFirst
  obtain ⟨other, otherInside, same⟩ := mem_iff_exists.mp inSecond
  change index < length at inside
  change other < size at otherInside
  rw [UInt32.add_assoc, UInt32.add_assoc, UInt32.add_right_inj,
    ← UInt32.ofNat_add, ← UInt32.ofNat_add,
    Word.ofNat_inj (by omega) (by omega)] at same
  omega

end Region

namespace Ram

/-- Memory has all bytes of the region, which does not go round. -/
structure Serves (ram : Ram) (region : Region) : Prop where
  below : region.start.toNat + region.length ≤ 2 ^ 32
  inside : region.length ≤ ram.available region.start

theorem Serves.part {ram : Ram} {start : UInt32} {length offset count : Nat}
    (serves : ram.Serves ⟨start, length⟩) (fits : offset + count ≤ length) :
    ram.Serves ⟨start + UInt32.ofNat offset, count⟩ := by
  obtain ⟨below, inside⟩ := serves
  change start.toNat + length ≤ 2 ^ 32 at below
  change length ≤ ram.available start at inside
  rcases Nat.eq_zero_or_pos count with rfl | positive
  · exact ⟨(UInt32.toNat_lt _).le, Nat.zero_le _⟩
  · have next : (start + UInt32.ofNat offset).toNat = start.toNat + offset := by
      rw [UInt32.toNat_add, UInt32.toNat_ofNat']
      omega
    constructor
    · change (start + UInt32.ofNat offset).toNat + count ≤ 2 ^ 32
      omega
    · change count ≤ ram.available (start + UInt32.ofNat offset)
      rw [available_add (by omega) (by omega)]
      omega

end Ram

end LaneKernel
