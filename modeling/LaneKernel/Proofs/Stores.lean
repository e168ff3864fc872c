import LaneKernel.Proofs.Simulation

/-!
# Stores

What memory holds behind a store, seen byte by byte, and what a core keeps.  A
word at an address that is no multiple of four is loaded and stored in two
parts; the parts make up the word.
-/

namespace LaneKernel

namespace Ram

/-- Memory with bytes replaced from an address on. -/
def store (ram : Ram) (start : UInt32) (data : List UInt8) : Ram :=
  ram.loadAt (start - ram.base).toNat data.toArray

variable {ram : Ram} {start address : UInt32} {data : List UInt8}

@[simp] theorem base_store : (ram.store start data).base = ram.base :=
  loadAt_base ..

@[simp] theorem size_store : (ram.store start data).size = ram.size :=
  loadAt_size ..

@[simp] theorem available_store :
    (ram.store start data).available address = ram.available address :=
  available_loadAt ..

theorem peek_store (small : ram.size ≤ 2 ^ 32)
    (served : data.length ≤ ram.available start) :
    (ram.store start data).peek address =
      if inside : (address - start).toNat < data.length then
        data[(address - start).toNat]
      else ram.peek address :=
  peek_loadAt small data served

theorem peek_store_of_mem (small : ram.size ≤ 2 ^ 32)
    (served : data.length ≤ ram.available start) (below : data.length ≤ 2 ^ 32)
    {index : Nat} (inside : index < data.length) :
    (ram.store start data).peek (start + UInt32.ofNat index) = data[index] := by
  have distance : (start + UInt32.ofNat index - start).toNat = index := by
    rw [UInt32.add_comm, UInt32.add_sub_cancel, UInt32.toNat_ofNat']
    omega
  rw [peek_store small served, dif_pos (by omega)]
  simp only [distance]

theorem peek_store_of_not_mem (small : ram.size ≤ 2 ^ 32)
    (served : data.length ≤ ram.available start)
    (outside : address ∉ (⟨start, data.length⟩ : Region)) :
    (ram.store start data).peek address = ram.peek address := by
  rw [Region.mem_iff] at outside
  rw [peek_store small served, dif_neg outside]

theorem peek_store_append (small : ram.size ≤ 2 ^ 32) {count : Nat}
    (short : count + data.length ≤ 2 ^ 32)
    (served : data.length ≤ ram.available (start + UInt32.ofNat count))
    {index : Nat} (inside : index < count + data.length) :
    (ram.store (start + UInt32.ofNat count) data).peek
      (start + UInt32.ofNat index) = if index < count then
        ram.peek (start + UInt32.ofNat index)
      else data.getD (index - count) 0 := by
  split
  case isTrue before =>
    apply peek_store_of_not_mem small served
    rw [Region.mem_iff, UInt32.toNat_sub, UInt32.toNat_add, UInt32.toNat_add,
      UInt32.toNat_ofNat', UInt32.toNat_ofNat']
    have bound := start.toNat_lt
    change ¬ _ < data.length
    omega
  case isFalse behind =>
    have isAddress : start + UInt32.ofNat index =
        start + UInt32.ofNat count + UInt32.ofNat (index - count) := by
      rw [UInt32.add_assoc, ← UInt32.ofNat_add,
        Nat.add_sub_cancel' (Nat.le_of_not_lt behind)]
    rw [isAddress, peek_store_of_mem small served (by omega) (by omega),
      List.getD_eq_getElem?_getD, List.getElem?_eq_getElem (by omega)]
    rfl

theorem ext_peek {first second : Ram} (sameBase : first.base = second.base)
    (sameSize : first.size = second.size) (small : first.size ≤ 2 ^ 32)
    (samePeek : ∀ address, first.peek address = second.peek address) :
    first = second := by
  obtain ⟨base, bytes⟩ := first
  obtain ⟨otherBase, otherBytes⟩ := second
  cases sameBase
  congr 1
  apply Array.ext sameSize
  intro index inFirst inSecond
  have small : bytes.size ≤ 2 ^ 32 := small
  have inBytes : index < bytes.size := inFirst
  have position : (base + UInt32.ofNat index - base).toNat = index := by
    rw [UInt32.add_comm, UInt32.add_sub_cancel, UInt32.toNat_ofNat']
    omega
  have same := samePeek (base + UInt32.ofNat index)
  unfold peek at same
  rw [position, Array.getD_eq_getD_getElem?, Array.getD_eq_getD_getElem?,
    Array.getElem?_eq_getElem inFirst, Array.getElem?_eq_getElem inSecond]
      at same
  exact same

/-- The sixteen bytes at an address. -/
def vectorAt (ram : Ram) (address : UInt32) : VectorRegister :=
  Vector.ofFn fun place => ram.peek (address + UInt32.ofNat place.val)

theorem ofBytes_eq_vectorAt (small : ram.size ≤ 2 ^ 32)
    (served : 16 ≤ ram.available address) :
    VectorRegister.ofBytes ram.bytes (address - ram.base).toNat =
      ram.vectorAt address := by
  unfold VectorRegister.ofBytes vectorAt
  congr 1
  funext place
  exact getD_eq_peek small place.val (by omega)

end Ram

namespace Core

/-- The core with bytes replaced in memory. -/
def store (core : Core) (start : UInt32) (data : List UInt8) : Core :=
  core.mapRam fun ram => ram.store start data

variable {core : Core} {start : UInt32} {data : List UInt8} {register : RegNum}

@[simp] theorem reg_store :
    (core.store start data).reg register = core.reg register := rfl

@[simp] theorem vector_store :
    (core.store start data).vector register = core.vector register := rfl

@[simp] theorem ram_store :
    (core.store start data).ram = core.ram.store start data := rfl

theorem store_eq {other start last : UInt32} {first second data : List UInt8}
    (same : (core.ram.store start first).store other second =
      core.ram.store last data) :
    (core.store start first).store other second = core.store last data := by
  obtain ⟨gpr, vec, pc, npc, ram⟩ := core
  simp only [store, mapRam] at same ⊢
  rw [same]

theorem setReg_setReg (first second : UInt32) :
    (core.setReg register first).setReg register second =
      core.setReg register second := by
  obtain ⟨gpr, vec, pc, npc, ram⟩ := core
  rw [setReg_eq, setReg_eq, setReg_eq]
  split
  · rfl
  · simp

end Core

/-- Registers outside two lists are the same. -/
structure Core.Keeps (general vector : List RegNum) (before after : Core) :
    Prop where
  reg : ∀ register, register ∉ general →
    after.reg register = before.reg register
  vector : ∀ register, register ∉ vector →
    after.vector register = before.vector register

namespace Core.Keeps

variable {general vector : List RegNum} {first second third : Core}

theorem refl (core : Core) : Keeps general vector core core :=
  ⟨fun _ _ => rfl, fun _ _ => rfl⟩

theorem trans (before : Keeps general vector first second)
    (behind : Keeps general vector second third) :
    Keeps general vector first third where
  reg register other :=
    (behind.reg register other).trans (before.reg register other)
  vector register other :=
    (behind.vector register other).trans (before.vector register other)

theorem mono {moreGeneral moreVector : List RegNum}
    (keeps : Keeps general vector first second)
    (generals : general ⊆ moreGeneral) (vectors : vector ⊆ moreVector) :
    Keeps moreGeneral moreVector first second where
  reg register other := keeps.reg register (mt (@generals register) other)
  vector register other := keeps.vector register (mt (@vectors register) other)

theorem setReg (keeps : Keeps general vector first second) {register : RegNum}
    (isChanged : register ∈ general) (word : UInt32) :
    Keeps general vector first (second.setReg register word) where
  reg other notChanged := by
    have different : other ≠ register :=
      fun same => notChanged (same ▸ isChanged)
    rw [reg_setReg_other _ _ _ _ different]
    exact keeps.reg other notChanged
  vector other notChanged := by
    rw [vector_setReg]
    exact keeps.vector other notChanged

theorem setVector (keeps : Keeps general vector first second)
    {register : RegNum} (isChanged : register ∈ vector)
    (value : VectorRegister) :
    Keeps general vector first (second.setVector register value) where
  reg other notChanged := keeps.reg other notChanged
  vector other notChanged := by
    have different : other ≠ register :=
      fun same => notChanged (same ▸ isChanged)
    rw [vector_setVector, if_neg different]
    exact keeps.vector other notChanged

theorem store (keeps : Keeps general vector first second) (start : UInt32)
    (data : List UInt8) :
    Keeps general vector first (second.store start data) where
  reg other notChanged := keeps.reg other notChanged
  vector other notChanged := keeps.vector other notChanged

end Core.Keeps

theorem Ram.cut_word (ram : Ram) (address : UInt32) :
    MemOp.cut (ram.word address) 0 4 =
      [ram.peek address, ram.peek (address + 1), ram.peek (address + 2),
        ram.peek (address + 3)] := by
  have value := Word.toNat_assemble (ram.peek address) (ram.peek (address + 1))
    (ram.peek (address + 2)) (ram.peek (address + 3))
  have first := (ram.peek address).toNat_lt
  have second := (ram.peek (address + 1)).toNat_lt
  have third := (ram.peek (address + 2)).toNat_lt
  have fourth := (ram.peek (address + 3)).toNat_lt
  have byteAt : ∀ place < 4,
      ((ram.word address) >>> UInt32.ofNat (8 * place)).toUInt8.toNat =
        (ram.word address).toNat / 2 ^ (8 * place) % 2 ^ 8 :=
    fun place below => Word.toNat_byte _ _ (8 * place)
      (by rw [UInt32.toNat_ofNat']; omega) (by omega)
  simp only [MemOp.cut, List.cons.injEq, and_true]
  refine ⟨?_, ?_, ?_, ?_⟩ <;> apply UInt8.toNat_inj.mp
  · rw [byteAt 0 (by decide), Ram.word, value]
    omega
  · rw [byteAt 1 (by decide), Ram.word, value]
    omega
  · rw [byteAt 2 (by decide), Ram.word, value]
    omega
  · rw [byteAt 3 (by decide), Ram.word, value]
    omega

namespace MemOp

theorem merge_four (word : UInt32) (a b c d : UInt8) :
    merge word 0 [a, b, c, d] =
      a.toUInt32 ||| b.toUInt32 <<< 8 ||| c.toUInt32 <<< 16 |||
        d.toUInt32 <<< 24 := by
  have masks : ∀ place (below : place < 32),
      (4294967040#32)[place] = !decide (place < 8) ∧
      (4294902015#32)[place] = !decide (8 ≤ place ∧ place < 16) ∧
      (4278255615#32)[place] = !decide (16 ≤ place ∧ place < 24) ∧
      (16777215#32)[place] = decide (place < 24) := by decide
  have beyond : ∀ (byte : UInt8) (index : Nat), 8 ≤ index →
      byte.toBitVec.getLsbD index = false :=
    fun byte index above => BitVec.getLsbD_of_ge _ _ above
  have shifts : 8 * UInt32.ofNat 0 = 0 ∧ 8 * UInt32.ofNat (0 + 1) = 8 ∧
      8 * UInt32.ofNat (0 + 1 + 1) = 16 ∧
        8 * UInt32.ofNat (0 + 1 + 1 + 1) = 24 :=
    ⟨rfl, rfl, rfl, rfl⟩
  simp only [merge, Core.setByte]
  rw [shifts.1, shifts.2.1, shifts.2.2.1, shifts.2.2.2]
  apply UInt32.toBitVec_inj.mp
  ext place below
  obtain ⟨first, second, third, fourth⟩ := masks place below
  simp
  rw [first, second, third, fourth]
  rcases Nat.lt_or_ge place 8 with inFirst | aboveFirst
  · simp [inFirst, show place < 16 by omega, show place < 24 by omega,
      show ¬ 8 ≤ place by omega, show ¬ 16 ≤ place by omega]
  · rw [beyond a place aboveFirst]
    rcases Nat.lt_or_ge place 16 with inSecond | aboveSecond
    · simp [inSecond, aboveFirst, show place < 24 by omega,
        show ¬ 16 ≤ place by omega]
    · rw [beyond b (place - 8) (by omega)]
      rcases Nat.lt_or_ge place 24 with inThird | aboveThird
      · simp [inThird, aboveSecond, show ¬ place < 16 by omega,
          show ¬ place < 8 by omega]
      · rw [beyond c (place - 16) (by omega)]
        simp [show ¬ place < 24 by omega]

/-- Where the left access of a pair starts, counted from the address of the
word. -/
def leftPlace (address : UInt32) : Nat := (4 - address.toNat % 4) % 4

theorem leftPlace_le (address : UInt32) : leftPlace address ≤ 4 :=
  (Nat.mod_lt _ (by decide)).le

theorem toNat_add_three_and_three (address : UInt32) :
    ((address + 3) &&& 3).toNat = (address.toNat + 3) % 4 := by
  rw [Word.toNat_and_mask _ 3 2 rfl, UInt32.toNat_add]
  change (address.toNat + 3) % 2 ^ 32 % 2 ^ 2 = _
  omega

theorem left_parts {op : MemOp} (isLeft : op = .lwl ∨ op = .swl)
    (address : UInt32) :
    op.start (address + 3) = address + UInt32.ofNat (leftPlace address) ∧
      op.count (address + 3) = 4 - leftPlace address ∧
      op.firstByte (address + 3) = leftPlace address := by
  have place := toNat_add_three_and_three address
  have isStart : op.start (address + 3) = (address + 3) &&& ~~~3 := by
    rcases isLeft with rfl | rfl <;> rfl
  have isCount : op.count (address + 3) = ((address + 3) &&& 3).toNat + 1 := by
    rcases isLeft with rfl | rfl <;> rfl
  have isFirst :
      op.firstByte (address + 3) = 3 - ((address + 3) &&& 3).toNat := by
    rcases isLeft with rfl | rfl <;> rfl
  refine ⟨?_, ?_, ?_⟩
  · rw [isStart]
    apply UInt32.toNat_inj.mp
    rw [Core.toNat_and_not_three, UInt32.toNat_add, UInt32.toNat_add,
      UInt32.toNat_ofNat', leftPlace]
    have bound := address.toNat_lt
    change (address.toNat + 3) % 2 ^ 32 - (address.toNat + 3) % 2 ^ 32 % 4 = _
    omega
  · rw [isCount, place, leftPlace]
    omega
  · rw [isFirst, place, leftPlace]
    omega

theorem right_count {op : MemOp} (isRight : op = .lwr ∨ op = .swr)
    (address : UInt32) :
    op.start address = address ∧ op.count address = 4 - address.toNat % 4 ∧
      op.firstByte address = 0 := by
  have low : (address &&& 3).toNat = address.toNat % 2 ^ 2 :=
    Word.toNat_and_mask address 3 2 rfl
  rcases isRight with rfl | rfl <;> exact ⟨rfl, by simp [count, low], rfl⟩

end MemOp

namespace Ram

theorem available_of_parts {ram : Ram} {address : UInt32}
    (small : ram.size < 2 ^ 32)
    (right : 4 - address.toNat % 4 ≤ ram.available address)
    (left : 4 - MemOp.leftPlace address ≤
      ram.available (address + UInt32.ofNat (MemOp.leftPlace address))) :
    4 ≤ ram.available address := by
  have bound := address.toNat_lt
  rcases Nat.eq_zero_or_pos (address.toNat % 4) with aligned | odd
  · omega
  · have place : MemOp.leftPlace address = 4 - address.toNat % 4 := by
      unfold MemOp.leftPlace
      omega
    rw [place] at left
    rcases Nat.lt_or_ge (address.toNat + (4 - address.toNat % 4)) (2 ^ 32) with
      inside | wraps
    · rw [available_add right inside] at left
      omega
    · have around : address + UInt32.ofNat (4 - address.toNat % 4) = 0 := by
        apply UInt32.toNat_inj.mp
        rw [UInt32.toNat_add, UInt32.toNat_ofNat']
        change _ = 0
        omega
      rw [around] at left
      unfold available at left right
      by_cases atZero : ram.base ≤ 0
      · have isZero : ram.base.toNat = 0 :=
          Nat.le_zero.mp (UInt32.le_iff_toNat_le.mp atZero)
        have above : ram.base ≤ address := UInt32.le_iff_toNat_le.mpr (by omega)
        rw [if_pos above, UInt32.toNat_sub_of_le _ _ above] at right
        omega
      · rw [if_neg atZero] at left
        omega

/-- The two parts of a word make up the word. -/
theorem merge_parts {ram : Ram} {address : UInt32} (small : ram.size < 2 ^ 32)
    (served : 4 ≤ ram.available address) (left : 4 - MemOp.leftPlace address ≤
      ram.available (address + UInt32.ofNat (MemOp.leftPlace address)))
      (old : UInt32) :
    MemOp.merge
      (MemOp.merge old 0 (ram.bytesAt address (4 - address.toNat % 4)))
      (MemOp.leftPlace address)
      (ram.bytesAt (address + UInt32.ofNat (MemOp.leftPlace address))
        (4 - MemOp.leftPlace address)) = ram.word address := by
  have isWord : ∀ other : UInt32, MemOp.merge other 0
      [ram.peek address, ram.peek (address + 1), ram.peek (address + 2),
        ram.peek (address + 3)] = ram.word address :=
    fun other => MemOp.merge_four other _ _ _ _
  rw [bytesAt_eq small.le (Nat.le_trans (Nat.sub_le _ _) served),
    bytesAt_eq small.le left]
  have further :
      ∀ index other : Nat, address + UInt32.ofNat index + UInt32.ofNat other =
      address + UInt32.ofNat (index + other) := by
    intro index other
    rw [UInt32.add_assoc, UInt32.ofNat_add]
  simp only [further]
  unfold MemOp.leftPlace
  have four : address.toNat % 4 < 4 := Nat.mod_lt _ (by decide)
  obtain ⟨place, isPlace⟩ : ∃ place, place = address.toNat % 4 := ⟨_, rfl⟩
  rw [← isPlace] at four ⊢
  match place, four with
  | 0, _ =>
      rw [← isWord (MemOp.merge old 0 [ram.peek address, ram.peek (address + 1),
        ram.peek (address + 2), ram.peek (address + 3)])]
      simp [List.range_succ]
  | 1, _ | 2, _ | 3, _ =>
      rw [← isWord old]
      simp [List.range_succ, MemOp.merge]

/-- Storing the two parts of a word stores the word. -/
theorem store_parts {ram : Ram} {address : UInt32} (small : ram.size < 2 ^ 32)
    (served : 4 ≤ ram.available address) (left : 4 - MemOp.leftPlace address ≤
      ram.available (address + UInt32.ofNat (MemOp.leftPlace address)))
      (word : UInt32) :
    (ram.store address (MemOp.cut word 0 (4 - address.toNat % 4))).store
      (address + UInt32.ofNat (MemOp.leftPlace address))
      (MemOp.cut word (MemOp.leftPlace address) (4 - MemOp.leftPlace address)) =
        ram.store address (MemOp.cut word 0 4) := by
  apply ext_peek (by simp) (by simp) (by simpa using small.le)
  intro other
  have rightServed : (MemOp.cut word 0 (4 - address.toNat % 4)).length ≤
      ram.available address := by
    rw [Core.length_cut]
    omega
  rw [peek_store (by simpa using small.le) (by simpa using left),
    peek_store small.le rightServed,
    peek_store small.le (by simpa using served)]
  obtain ⟨distance, isDistance⟩ :
      ∃ distance, distance = (other - address).toNat := ⟨_, rfl⟩
  have below : distance < 2 ^ 32 := isDistance ▸ UInt32.toNat_lt _
  have shifted :
      (other - (address + UInt32.ofNat (MemOp.leftPlace address))).toNat =
      (distance + (2 ^ 32 - MemOp.leftPlace address)) % 2 ^ 32 := by
    have place : MemOp.leftPlace address < 4 := Nat.mod_lt _ (by decide)
    rw [isDistance, UInt32.toNat_sub, UInt32.toNat_sub, UInt32.toNat_add,
      UInt32.toNat_ofNat']
    have bound := address.toNat_lt
    omega
  simp only [shifted, ← isDistance]
  unfold MemOp.leftPlace
  have four : address.toNat % 4 < 4 := Nat.mod_lt _ (by decide)
  obtain ⟨place, isPlace⟩ : ∃ place, place = address.toNat % 4 := ⟨_, rfl⟩
  simp only [← isPlace] at four ⊢
  rcases Nat.lt_or_ge distance 4 with inside | outside
  · match place, four, distance, inside with
    | 0, _, 0, _ | 0, _, 1, _ | 0, _, 2, _ | 0, _, 3, _
    | 1, _, 0, _ | 1, _, 1, _ | 1, _, 2, _ | 1, _, 3, _
    | 2, _, 0, _ | 2, _, 1, _ | 2, _, 2, _ | 2, _, 3, _
    | 3, _, 0, _ | 3, _, 1, _ | 3, _, 2, _ | 3, _, 3, _ => simp [MemOp.cut]
  · have notLeft : ¬ (distance + (2 ^ 32 - (4 - place) % 4)) % 2 ^ 32 <
        (MemOp.cut word ((4 - place) % 4) (4 - (4 - place) % 4)).length := by
      rw [Core.length_cut]
      omega
    have notRight : ¬ distance < (MemOp.cut word 0 (4 - place)).length := by
      rw [Core.length_cut]
      omega
    have notWord : ¬ distance < (MemOp.cut word 0 4).length := by
      rw [Core.length_cut]
      omega
    rw [dif_neg notLeft, dif_neg notRight, dif_neg notWord]

end Ram

end LaneKernel
