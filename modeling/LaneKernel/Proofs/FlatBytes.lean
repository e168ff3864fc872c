import LaneKernel.Proofs.LaneArithmetic

/-!
# Bytes of flat memories

Loads and stores of a flat memory as statements about single bytes.  A byte has
a place, a natural number: accesses at the end of the address space do not go
round.
-/

namespace LaneKernel.FlatMemory

/-- The byte at a place. -/
def byteAt (memory : FlatMemory) (place : Nat) : UInt8 :=
  memory.data.getD (place - memory.base.toNat) 0

/-- The whole access is inside the memory. -/
def Covers (memory : FlatMemory) (address : UInt32) (size : Nat) : Prop :=
  memory.base.toNat ≤ address.toNat ∧
    address.toNat + size ≤ memory.base.toNat + memory.data.size

/-- Memories that hold the same stretch of addresses. -/
structure SameShape (first second : FlatMemory) : Prop where
  base : second.base = first.base
  size : second.data.size = first.data.size

variable {memory later : FlatMemory} {address : UInt32} {size : Nat}
  {value word : UInt64}

theorem SameShape.refl (memory : FlatMemory) :
    memory.SameShape memory := ⟨rfl, rfl⟩

theorem SameShape.trans {first second third : FlatMemory}
    (front : first.SameShape second) (behind : second.SameShape third) :
    first.SameShape third :=
  ⟨behind.base.trans front.base, behind.size.trans front.size⟩

theorem SameShape.covers (same : memory.SameShape later) :
    later.Covers address size ↔ memory.Covers address size := by
  unfold Covers
  rw [same.base, same.size]

theorem ext_byteAt (same : memory.SameShape later)
    (bytes : ∀ place, memory.base.toNat ≤ place →
      place < memory.base.toNat + memory.data.size →
        later.byteAt place = memory.byteAt place) :
    later = memory := by
  obtain ⟨base, data⟩ := memory
  obtain ⟨laterBase, laterData⟩ := later
  obtain ⟨isBase, isSize⟩ := same
  simp only at isBase isSize
  subst isBase
  refine congrArg (FlatMemory.mk laterBase)
    (Array.ext isSize fun index inLater inside => ?_)
  have here := bytes (laterBase.toNat + index) (Nat.le_add_right _ _)
    (Nat.add_lt_add_left inside _)
  simpa [byteAt, Array.getD, inLater, inside] using here

theorem position?_eq (memory : FlatMemory) (address : UInt32) (size : Nat) :
    (memory.Covers address size ∧
        memory.position? address size =
          some (address.toNat - memory.base.toNat)) ∨
      (¬ memory.Covers address size ∧
        memory.position? address size = none) := by
  unfold position? Covers
  simp only [UInt32.lt_iff_toNat_lt]
  split
  case isTrue outside =>
    right
    exact ⟨by omega, rfl⟩
  case isFalse inside =>
    left
    exact ⟨by omega, rfl⟩

theorem load_eq_ok :
    memory.load address size = .ok word ↔
      memory.Covers address size ∧
        word = valueAt memory.data (address.toNat - memory.base.toNat)
          size := by
  unfold load
  rcases memory.position?_eq address size with ⟨covers, isPosition⟩ |
    ⟨outside, isNone⟩
  · rw [isPosition]
    simp [covers, eq_comm]
  · rw [isNone]
    simp [outside]

theorem load_eq_error (outside : ¬ memory.Covers address size) :
    memory.load address size = .error ⟨size, address⟩ := by
  unfold load
  rcases memory.position?_eq address size with ⟨covers, _⟩ | ⟨_, isNone⟩
  · exact absurd covers outside
  · rw [isNone]

theorem fits_load (small : size ≤ 8)
    (loaded : memory.load address size = .ok word) : Lane.Fits word size := by
  intro index beyond
  rw [(load_eq_ok.mp loaded).2, byte_valueAt _ _ _ _ small, if_neg (by omega)]

theorem byte_load (small : size ≤ 8)
    (loaded : memory.load address size = .ok word) {index : Nat}
    (inside : index < size) :
    Lane.byte word index = memory.byteAt (address.toNat + index) := by
  obtain ⟨covers, isWord⟩ := load_eq_ok.mp loaded
  rw [isWord, byte_valueAt _ _ _ _ small, if_pos inside]
  unfold byteAt
  rw [Nat.sub_add_comm covers.1]

/-- Loads that see the same bytes give the same value. -/
theorem load_congr (same : memory.SameShape later) (small : size ≤ 8)
    (bytes : ∀ index < size,
      later.byteAt (address.toNat + index) =
        memory.byteAt (address.toNat + index)) :
    later.load address size = memory.load address size := by
  by_cases covers : memory.Covers address size
  · obtain ⟨word, isWord⟩ : ∃ word, memory.load address size = .ok word :=
      ⟨_, load_eq_ok.mpr ⟨covers, rfl⟩⟩
    obtain ⟨other, isOther⟩ : ∃ word, later.load address size = .ok word :=
      ⟨_, load_eq_ok.mpr ⟨same.covers.mpr covers, rfl⟩⟩
    rw [isWord, isOther]
    refine congrArg Except.ok (Lane.ext_byte fun index _ => ?_)
    rcases Nat.lt_or_ge index size with inside | beyond
    · rw [byte_load small isOther inside, byte_load small isWord inside,
        bytes index inside]
    · rw [fits_load small isOther index beyond,
        fits_load small isWord index beyond]
  · rw [load_eq_error covers, load_eq_error (mt same.covers.mp covers)]

theorem store_eq_error (outside : ¬ memory.Covers address size) :
    memory.store address size value = (memory, some ⟨size, address⟩) := by
  unfold store
  rcases memory.position?_eq address size with ⟨covers, _⟩ | ⟨_, isNone⟩
  · exact absurd covers outside
  · rw [isNone]

theorem store_eq (covers : memory.Covers address size) :
    memory.store address size value =
      (⟨memory.base,
        writeAt memory.data (address.toNat - memory.base.toNat) value size⟩,
        none) := by
  unfold store
  rcases memory.position?_eq address size with ⟨_, isPosition⟩ | ⟨outside, _⟩
  · rw [isPosition]
    rfl
  · exact absurd covers outside

theorem sameShape_store (memory : FlatMemory) (address : UInt32) (size : Nat)
    (value : UInt64) :
    memory.SameShape (memory.store address size value).1 := by
  by_cases covers : memory.Covers address size
  · rw [store_eq covers]
    refine ⟨rfl, ?_⟩
    rw [writeAt_eq_copyAt, Ram.size_copyAt]
  · rw [store_eq_error covers]
    exact .refl memory

/-- A byte behind a store is the stored one inside the access and the old one
elsewhere. -/
theorem byteAt_store (covers : memory.Covers address size) {place : Nat}
    (above : memory.base.toNat ≤ place) :
    (memory.store address size value).1.byteAt place =
      if address.toNat ≤ place ∧ place < address.toNat + size then
        Lane.byte value (place - address.toNat)
      else memory.byteAt place := by
  obtain ⟨fromBase, upTo⟩ := covers
  rw [store_eq ⟨fromBase, upTo⟩]
  unfold byteAt
  simp only [writeAt_eq_copyAt, Array.getD_eq_getD_getElem?,
    Ram.getElem?_copyAt, length_bytesOf]
  by_cases inside : address.toNat ≤ place ∧ place < address.toNat + size
  · rw [if_pos (by omega), if_pos inside, getElem_bytesOf _ _ _ (by omega)]
    rw [show place - memory.base.toNat - (address.toNat - memory.base.toNat) =
      place - address.toNat by omega]
    rfl
  · rw [if_neg (by omega), if_neg inside]

/-- A load does not see a store to other places. -/
theorem load_store {other : UInt32} {otherSize : Nat} (small : otherSize ≤ 8)
    (apart : ∀ place, address.toNat ≤ place → place < address.toNat + size →
      other.toNat ≤ place → ¬ place < other.toNat + otherSize) :
    (memory.store address size value).1.load other otherSize =
      memory.load other otherSize := by
  by_cases covers : memory.Covers address size
  · by_cases otherCovers : memory.Covers other otherSize
    · refine load_congr (sameShape_store memory address size value) small
        fun index inside => ?_
      rw [byteAt_store covers (by have := otherCovers.1; omega), if_neg]
      rintro ⟨from_, upTo⟩
      exact apart _ from_ upTo (Nat.le_add_right _ _)
        (Nat.add_lt_add_left inside _)
    · rw [load_eq_error otherCovers, load_eq_error]
      exact mt (sameShape_store memory address size value).covers.mp otherCovers
  · rw [store_eq_error covers]

end LaneKernel.FlatMemory
