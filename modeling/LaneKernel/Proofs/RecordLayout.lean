import LaneKernel.Proofs.Arrangements

/-!
# The layout of executor records

An executor is its 137 words in order, and a record is their bytes.  The writer
puts the words one behind the other, the reader and compiled code find each of
them by the offset of its slot; the three agree.  The main statement is
`Executor.record_round_trips`.
-/

namespace LaneKernel

namespace Word

theorem bytes_ofBytes (text : Array UInt8) (position : Nat) :
    (bytes (ofBytes text position)).toList =
      [text.getD position 0, text.getD (position + 1) 0,
        text.getD (position + 2) 0, text.getD (position + 3) 0] := by
  have first := (text.getD position 0).toNat_lt
  have second := (text.getD (position + 1) 0).toNat_lt
  have third := (text.getD (position + 2) 0).toNat_lt
  have fourth := (text.getD (position + 3) 0).toNat_lt
  have value : (ofBytes text position).toNat = _ := toNat_assemble _ _ _ _
  have isByte : ∀ (byte : UInt8) (part : UInt8), byte.toNat = part.toNat →
      byte = part :=
    fun _ _ => UInt8.toNat_inj.mp
  change [_, _, _, _] = _
  rw [isByte (ofBytes text position).toUInt8 (text.getD position 0),
    isByte (ofBytes text position >>> 8).toUInt8 (text.getD (position + 1) 0),
    isByte (ofBytes text position >>> 16).toUInt8 (text.getD (position + 2) 0),
    isByte (ofBytes text position >>> 24).toUInt8 (text.getD (position + 3) 0)]
  · rw [toNat_byte _ 24 24 rfl (by decide), value]
    omega
  · rw [toNat_byte _ 16 16 rfl (by decide), value]
    omega
  · rw [toNat_byte _ 8 8 rfl (by decide), value]
    omega
  · rw [UInt32.toNat_toUInt8, value]
    omega

theorem flatten_ofBytes {text : Array UInt8} {count : Nat}
    (inside : 4 * count ≤ text.size) :
    flatten ((List.range count).map fun index => ofBytes text (4 * index)) =
      text.toList.take (4 * count) := by
  induction count with
  | zero => rfl
  | succ count induction =>
      have present : ∀ place < 4, text.getD (4 * count + place) 0 =
          text.toList.getD (4 * count + place) 0 := by
        intro place _
        rw [Array.getD_eq_getD_getElem?, List.getD_eq_getElem?_getD,
          Array.getElem?_toList]
      have taken : ∀ length < text.toList.length,
          text.toList.take (length + 1) = text.toList.take length ++
            [text.toList.getD length 0] := by
        intro length below
        rw [List.take_add_one, List.getD_eq_getElem?_getD,
          List.getElem?_eq_getElem below]
        rfl
      have bound : text.toList.length = text.size := Array.length_toList
      rw [List.range_succ, List.map_append, flatten_append,
        induction (by omega), List.map_singleton, flatten_cons, flatten_nil,
        List.append_nil, bytes_ofBytes, show 4 * (count + 1) =
          4 * count + 0 + 1 + 1 + 1 + 1 by omega, taken _ (by omega),
        taken _ (by omega), taken _ (by omega), taken _ (by omega)]
      have first := present 0 (by decide)
      rw [present 1 (by decide), present 2 (by decide), present 3 (by decide),
        ← Nat.add_zero (4 * count), first]
      simp only [List.append_assoc, List.cons_append, List.nil_append,
        Nat.add_zero]

end Word

namespace Executor

/-- The executor with the given words, in the order of the record. -/
def ofWords (word : Nat → UInt32) : Executor where
  program := word 0
  n := (word 1).toInt32
  counters := Vector.ofFn fun place => (word (2 + place.val)).toInt32
  arrays := Vector.ofFn fun place => word (5 + place.val)
  params := Vector.ofFn fun place => word (69 + place.val)
  accums := Vector.ofFn fun place => word (133 + place.val)

theorem toList_ofFn {α : Type} {count : Nat} (item : Nat → α) (start : Nat) :
    (Vector.ofFn fun place : Fin count => item (start + place.val)).toList =
      (List.range count).map fun place => item (start + place) := by
  apply List.ext_getElem
  · simp
  · intro place inVector inRange
    simp

theorem words_ofWords (word : Nat → UInt32) :
    (ofWords word).words = (List.range 137).map word := by
  have counters : (ofWords word).counters.toList.map Int32.toUInt32 =
      (List.range 3).map fun place => word (2 + place) := by
    rw [show (ofWords word).counters.toList =
      _ from toList_ofFn (fun index => (word index).toInt32) 2,
      List.map_map]
    exact List.map_congr_left fun place _ => UInt32.toUInt32_toInt32 _
  have parts : List.range 137 = List.range 2 ++ (List.range 3).map (2 + ·)
      ++ (List.range 64).map (5 + ·) ++ (List.range 64).map (69 + ·)
      ++ (List.range 4).map (133 + ·) := by decide
  unfold words
  rw [counters, show (ofWords word).arrays.toList = _ from toList_ofFn word 5,
    show (ofWords word).params.toList = _ from toList_ofFn word 69,
    show (ofWords word).accums.toList = _ from toList_ofFn word 133, parts]
  simp only [List.map_append, List.map_map]
  rfl

/-- An executor is determined by its words. -/
theorem words_injective {first second : Executor}
    (same : first.words = second.words) : first = second := by
  obtain ⟨program, n, counters, arrays, params, accums⟩ := first
  obtain ⟨program', n', counters', arrays', params', accums'⟩ := second
  simp only [words, List.cons.injEq] at same
  obtain ⟨rfl, sameCount, same⟩ := same
  obtain ⟨same, sameAccums⟩ := List.append_inj' same (by simp)
  obtain ⟨same, sameParams⟩ := List.append_inj' same (by simp)
  obtain ⟨sameCounters, sameArrays⟩ := List.append_inj' same (by simp)
  have injective : Function.Injective Int32.toUInt32 :=
    Function.LeftInverse.injective Int32.toInt32_toUInt32
  obtain rfl : n = n' := injective sameCount
  obtain rfl : counters = counters' :=
    Vector.toList_inj.mp (List.map_injective_iff.mpr injective sameCounters)
  obtain rfl : arrays = arrays' := Vector.toList_inj.mp sameArrays
  obtain rfl : params = params' := Vector.toList_inj.mp sameParams
  obtain rfl : accums = accums' := Vector.toList_inj.mp sameAccums
  rfl

/-- The reader finds the words where the writer puts them. -/
theorem ofBytes_eq {bytes : Array UInt8} (enough : recordSize ≤ bytes.size) :
    ofBytes bytes =
      .ok (ofWords fun index => Word.ofBytes bytes (4 * index)) := by
  unfold ofBytes
  rw [if_neg (Nat.not_lt.mpr enough)]
  simp only [ofWords, Nat.mul_add]
  rfl

variable (executor : Executor)

theorem ofBytes_toBytes : ofBytes executor.toBytes = .ok executor := by
  rw [ofBytes_eq executor.size_toBytes.ge]
  refine congrArg Except.ok (words_injective ?_)
  rw [words_ofWords]
  apply List.ext_getElem
  · rw [List.length_map, List.length_range, executor.length_words]
  · intro index inRange inWords
    rw [List.getElem_map, List.getElem_range]
    exact executor.word_toBytes (List.getElem?_eq_getElem inWords)

theorem toBytes_ofWords {bytes : Array UInt8}
    (enough : recordSize ≤ bytes.size) :
    (ofWords fun index => Word.ofBytes bytes (4 * index)).toBytes =
      bytes.extract 0 recordSize := by
  apply Array.toList_inj.mp
  rw [toList_toBytes, words_ofWords, Word.flatten_ofBytes enough,
    Array.toList_extract]
  rfl

end Executor

/-- Every byte can be read back from its own address. -/
def Ram.Stores (ram : Ram) (start : UInt32) (bytes : Array UInt8) : Prop :=
  ∀ index (inside : index < bytes.size),
    ram.read (start + UInt32.ofNat index) 1 = .ok bytes[index].toUInt64

/-- Every `lw` from an address brings a word into its register and changes
nothing else. -/
def Core.LoadsWord (core : Core) (address word : UInt32) : Prop :=
  ∀ (target base : Reg) (offset : Int) (code pc : UInt32),
    (Insn.mem .lw target base offset).encode = .ok code →
    core.reg base.index + Core.distance offset = address →
    core.execute pc code = (core.setReg target.index word, none)

namespace Ram.Stores

variable {ram : Ram} {start : UInt32} {bytes : Array UInt8}

theorem byte (stores : ram.Stores start bytes) {index : Nat}
    (inside : index < bytes.size) :
    1 ≤ ram.available (start + UInt32.ofNat index) ∧
      ram.peek (start + UInt32.ofNat index) = bytes.getD index 0 := by
  have isRead : ram.read (start + UInt32.ofNat index) (1 : Nat) = _ :=
    stores index inside
  rw [Ram.read_eq ram _ 1 rfl] at isRead
  split at isRead
  case isFalse => cases isRead
  case isTrue served =>
    refine ⟨served, UInt8.toNat_inj.mp ?_⟩
    have isValue := congrArg UInt64.toNat (Except.ok.inj isRead)
    rw [(FlatMemory.toNat_valueAt_succ ram.bytes _ 0 (by decide)).2,
      UInt8.toNat_toUInt64] at isValue
    rw [Array.getD_eq_getD_getElem?, Array.getElem?_eq_getElem inside]
    exact isValue

theorem read_word (stores : ram.Stores start bytes) {position : Nat}
    {address : UInt32} (isAddress : address = start + UInt32.ofNat position)
    (aligned : address.toNat % 4 = 0) (inside : position + 4 ≤ bytes.size) :
    ∃ value, ram.read address 4 = .ok value ∧
      value.toUInt32 = Word.ofBytes bytes position := by
  have bound := address.toNat_lt
  have found : ∀ place < 4, 1 ≤ ram.available (address + UInt32.ofNat place) ∧
      ram.peek (address + UInt32.ofNat place) =
        bytes.getD (position + place) 0 := by
    intro place below
    rw [isAddress, UInt32.add_assoc, ← UInt32.ofNat_add]
    exact stores.byte (by omega)
  -- A word at a multiple of four does not go round at the end of the addresses.
  have isPlace : ∀ place < 4, (address + UInt32.ofNat place).toNat =
      address.toNat + place := by
    intro place below
    rw [UInt32.toNat_add, UInt32.toNat_ofNat']
    omega
  have above : ram.base ≤ address := by
    have first := (found 0 (by decide)).1
    unfold Ram.available at first
    split at first
    case isTrue above => simpa using above
    case isFalse => omega
  have aboveNat := UInt32.le_iff_toNat_le.mp above
  have isPosition : ∀ place < 4,
      (address + UInt32.ofNat place - ram.base).toNat =
        (address - ram.base).toNat + place := by
    intro place below
    have isSum := isPlace place below
    rw [UInt32.toNat_sub_of_le _ _ above, UInt32.toNat_sub_of_le _ _
      (UInt32.le_iff_toNat_le.mpr (by omega))]
    omega
  have served : 4 ≤ ram.available address := by
    have last := (found 3 (by decide)).1
    unfold Ram.available at last ⊢
    split at last
    case isFalse => omega
    case isTrue =>
      rw [isPosition 3 (by decide)] at last
      rw [if_pos above]
      omega
  have isByte : ∀ place < 4,
      ram.bytes.getD ((address - ram.base).toNat + place) 0 =
        bytes.getD (position + place) 0 := by
    intro place below
    rw [← isPosition place below]
    exact (found place below).2
  refine ⟨_, (Ram.read_eq ram address 4 rfl).trans (if_pos served), ?_⟩
  rw [Ram.toUInt32_valueAt, isByte 1 (by decide), isByte 2 (by decide),
    isByte 3 (by decide), ← Nat.add_zero (address - ram.base).toNat,
    isByte 0 (by decide)]
  rfl

end Ram.Stores

theorem Ram.Holds.stores {ram : Ram} {start : UInt32} {bytes : Array UInt8}
    (holds : ram.Holds start bytes) : ram.Stores start bytes := by
  intro index inside
  have served : 1 ≤ ram.available (start + UInt32.ofNat index) :=
    (holds.serves.part (show index + 1 ≤ bytes.size by omega)).inside
  rw [show (1 : Int) = (1 : Nat) from rfl, Ram.read_eq ram _ 1 rfl,
    if_pos served]
  refine congrArg Except.ok (UInt64.toNat_inj.mp ?_)
  rw [(FlatMemory.toNat_valueAt_succ ram.bytes _ 0 (by decide)).2,
    UInt8.toNat_toUInt64, ← holds.peek index inside]
  rfl

namespace Core

theorem loadsWord_of_read {core : Core} {address word : UInt32} {value : UInt64}
    (aligned : address.toNat % 4 = 0)
    (isRead : core.ram.read address 4 = .ok value)
    (isWord : value.toUInt32 = word) : core.LoadsWord address word := by
  intro target base offset code pc encoded isAddress
  have isNamed : (Insn.mem .lw target base offset).NamedFormat := trivial
  have decoded := Insn.decode?_encode isNamed encoded
  have isAligned : ¬ address % UInt32.ofNat 4 ≠ 0 := by
    rw [ne_eq, not_not, ← UInt32.toNat_inj, UInt32.toNat_mod]
    exact aligned
  unfold Core.execute
  rw [decoded]
  change core.executeMem pc .lw target.index base.index (distance offset) = _
  rw [executeMem_load_eq core pc .lw target.index base.index _ rfl rfl,
    isAddress, show MemOp.width .lw = 4 from rfl, if_neg isAligned,
    show ((4 : Nat) : Int) = 4 from rfl, isRead]
  change (core.setReg target.index value.toUInt32, none) = _
  rw [isWord]

end Core

/-- Where a record is stored, `lw` from the address of a slot loads the word of
the slot. -/
theorem Executor.loadsWord {executor : Executor} {core : Core}
    {start address word : UInt32} (aligned : start.toNat % 4 = 0)
    (stores : core.ram.Stores start executor.toBytes) {index : Nat}
    (isWord : executor.words[index]? = some word)
    (isAddress : address = start + UInt32.ofNat (4 * index)) :
    core.LoadsWord address word := by
  have inside : index < 137 := by
    rw [← executor.length_words]
    exact (List.getElem?_eq_some_iff.mp isWord).1
  have isAligned : address.toNat % 4 = 0 := by
    rw [isAddress, UInt32.toNat_add, UInt32.toNat_ofNat']
    omega
  obtain ⟨value, isRead, isValue⟩ := stores.read_word isAddress isAligned (by
    rw [executor.size_toBytes]
    change _ ≤ 548
    omega)
  exact Core.loadsWord_of_read isAligned isRead
    (isValue.trans (executor.word_toBytes isWord))

/-- A record is 548 bytes, from which the executor is read back, and any 548
bytes are the record of the executor that is read from them.  In memory,
compiled code finds the number of elements, the addresses and the parameters at
the offsets of their slots. -/
theorem Executor.record_round_trips :
    (∀ executor : Executor, executor.toBytes.size = 548 ∧
      ofBytes executor.toBytes = .ok executor) ∧
    (∀ bytes : Array UInt8, 548 ≤ bytes.size →
      ∃ executor, ofBytes bytes = .ok executor ∧
        executor.toBytes = bytes.extract 0 548) ∧
    (∀ bytes : Array UInt8, bytes.size < 548 →
      ofBytes bytes = .error ⟨bytes.size⟩) ∧
    ∀ (executor : Executor) (core : Core) (start : UInt32),
      start.toNat % 4 = 0 → core.ram.Stores start executor.toBytes →
      core.LoadsWord (start + Core.distance countOffset) executor.n.toUInt32 ∧
      ∀ place : Fin 64,
        core.LoadsWord (start + Core.distance (arraySlotOffset place.val))
          (executor.arrays.get place) ∧
        core.LoadsWord (start + Core.distance (paramSlotOffset place.val))
          (executor.params.get place) := by
  refine ⟨fun executor => ⟨executor.size_toBytes, executor.ofBytes_toBytes⟩,
    fun bytes enough => ⟨_, ofBytes_eq enough, toBytes_ofWords enough⟩,
    fun bytes short => if_pos short, ?_⟩
  intro executor core start aligned stores
  refine ⟨loadsWord aligned stores executor.getElem?_words_count ?_,
    fun place => ⟨?_, ?_⟩⟩
  · rw [Core.distance_natCast]
    rfl
  · have bounds : (0 : Int) ≤ place.val ∧ (place.val : Int) < 64 := by omega
    refine loadsWord aligned stores (executor.getElem?_words_array place) ?_
    rw [arraySlotOffset_eq bounds, Core.distance_natCast, Nat.mul_add]
    rfl
  · have bounds : (0 : Int) ≤ place.val ∧ (place.val : Int) < 64 := by omega
    refine loadsWord aligned stores (executor.getElem?_words_param place) ?_
    rw [paramSlotOffset_eq bounds, Core.distance_natCast, Nat.mul_add]
    rfl

/-- The last parameter slot of a record that stands behind other data. -/
theorem Executor.record_round_trips_lastSlot :
    (Core.reset ⟨0x1000, Array.replicate 8 0 ++
      ({ params := Vector.ofFn fun place => UInt32.ofNat place.val } :
        Executor).toBytes ++
        #[]⟩).LoadsWord 0x1218 63 := by
  have isSize :=
    ({ params := Vector.ofFn fun place => UInt32.ofNat place.val } :
      Executor).size_toBytes
  have holds := @Ram.holds_part 0x1000 (Array.replicate 8 0)
    ({ params := Vector.ofFn fun place => UInt32.ofNat place.val } :
      Executor).toBytes #[]
    (by rw [isSize]; decide) (by rw [isSize]; decide)
  have loads := record_round_trips.2.2.2 _ (Core.reset _) 0x1008 (by decide)
    holds.stores
  exact (loads.2 63).2

end LaneKernel
