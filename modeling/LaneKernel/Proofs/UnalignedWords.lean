import LaneKernel.Proofs.LaneRules

/-!
# Words at any address

The two loads of `Asm.loadUnaligned` leave the word at an address in a register
and the two stores of `Asm.storeUnaligned` write it, whatever the remainder of
the address by four.  The load takes no byte but the four of the word: in every
other memory that has them it leaves the same.  The main statement is
`Asm.unaligned_exact`.
-/

namespace LaneKernel

namespace Ram

/-- Memory has all four bytes of the word at an address. -/
def HasWord (ram : Ram) (address : UInt32) : Prop :=
  ∀ index < 4, ∃ byte, ram.read (address + UInt32.ofNat index) 1 = .ok byte

/-- The four bytes at an address are those of a word, low byte first. -/
def ReadsWord (ram : Ram) (address word : UInt32) : Prop :=
  ∀ index < 4, ram.read (address + UInt32.ofNat index) 1 =
    .ok ((Word.bytes word).getD index 0).toUInt64

variable {ram : Ram} {address other word : UInt32}

theorem read_byte (ram : Ram) (address : UInt32) :
    ram.read address 1 =
      if 1 ≤ ram.available address then .ok (ram.peek address).toUInt64
      else .error (.noMemory address) := by
  have isByte := read_eq ram address 1 rfl
  have value : FlatMemory.valueAt ram.bytes (address - ram.base).toNat 1 =
      (ram.peek address).toUInt64 := by
    simp [FlatMemory.valueAt, Lane.shiftLeft, peek]
  rwa [Nat.cast_one, value] at isByte

theorem read_byte_eq_ok {byte : UInt64} :
    ram.read address 1 = .ok byte ↔
      1 ≤ ram.available address ∧ (ram.peek address).toUInt64 = byte := by
  rw [read_byte]
  split
  case isTrue present => simp [present]
  case isFalse missing => simp [missing]

theorem one_le_available : 1 ≤ ram.available address ↔
    ram.base.toNat ≤ address.toNat ∧
      address.toNat < ram.base.toNat + ram.size := by
  unfold available
  split
  case isTrue above =>
    have aboveNat := UInt32.le_iff_toNat_le.mp above
    rw [UInt32.toNat_sub_of_le _ _ above]
    omega
  case isFalse below =>
    rw [UInt32.le_iff_toNat_le] at below
    omega

theorem serves_of_bytes {count : Nat} (small : ram.size < 2 ^ 32)
    (some : 0 < count) (short : count ≤ 2 ^ 32)
    (present : ∀ index < count,
      1 ≤ ram.available (address + UInt32.ofNat index)) :
    ram.Serves ⟨address, count⟩ := by
  have bound := address.toNat_lt
  have place : ∀ index < count,
      ram.base.toNat ≤ (address.toNat + index) % 2 ^ 32 ∧
        (address.toNat + index) % 2 ^ 32 < ram.base.toNat + ram.size := by
    intro index inside
    have isPlace := one_le_available.mp (present index inside)
    rwa [UInt32.toNat_add, UInt32.toNat_ofNat', Nat.add_mod_mod] at isPlace
  have below : address.toNat + count ≤ 2 ^ 32 := by
    -- Otherwise the last and the first address are both there, which takes `2 ^
    -- 32` bytes.
    by_contra around
    have last := place (2 ^ 32 - 1 - address.toNat) (by omega)
    have first := place (2 ^ 32 - address.toNat) (by omega)
    omega
  have first := place 0 some
  have last := place (count - 1) (by omega)
  have above : ram.base ≤ address := UInt32.le_iff_toNat_le.mpr (by omega)
  refine ⟨below, ?_⟩
  change count ≤ ram.available address
  unfold available
  rw [if_pos above, UInt32.toNat_sub_of_le _ _ above]
  omega

theorem HasWord.serves (has : ram.HasWord address) (small : ram.size < 2 ^ 32) :
    ram.Serves ⟨address, 4⟩ := by
  apply serves_of_bytes small (by decide) (by decide)
  intro index inside
  obtain ⟨byte, isByte⟩ := has index inside
  exact (read_byte_eq_ok.mp isByte).1

theorem ReadsWord.hasWord (reads : ram.ReadsWord address word) :
    ram.HasWord address :=
  fun index inside => ⟨_, reads index inside⟩

theorem readsWord_iff : ram.ReadsWord address word ↔
    ∀ index < 4, 1 ≤ ram.available (address + UInt32.ofNat index) ∧
      ram.peek (address + UInt32.ofNat index) =
        (Word.bytes word).getD index 0 := by
  unfold ReadsWord
  simp only [read_byte_eq_ok, UInt8.toUInt64_inj]

theorem ReadsWord.word_eq (reads : ram.ReadsWord address word) :
    ram.word address = word := by
  have isByte := fun index inside => (readsWord_iff.mp reads index inside).2
  have first := isByte 0 (by decide)
  rw [show UInt32.ofNat 0 = 0 from rfl, UInt32.add_zero] at first
  have second : ram.peek (address + 1) = _ := isByte 1 (by decide)
  have third : ram.peek (address + 2) = _ := isByte 2 (by decide)
  have fourth : ram.peek (address + 3) = _ := isByte 3 (by decide)
  rw [Ram.word, first, second, third, fourth]
  exact Word.assemble_bytes word

theorem bytes_eq_cut (word : UInt32) :
    Word.bytes word = (MemOp.cut word 0 4).toArray := by
  simp [Word.bytes, MemOp.cut]

theorem HasWord.readsWord (has : ram.HasWord address) :
    ram.ReadsWord address (ram.word address) := by
  rw [readsWord_iff]
  intro index inside
  obtain ⟨byte, isByte⟩ := has index inside
  refine ⟨(read_byte_eq_ok.mp isByte).1, ?_⟩
  rw [bytes_eq_cut, cut_word]
  match index, inside with
  | 0, _ => exact congrArg ram.peek (UInt32.add_zero address)
  | 1, _ | 2, _ | 3, _ => rfl

/-- A stored word is read back, and no byte outside it changes. -/
theorem read_store_word (word : UInt32) (small : ram.size < 2 ^ 32)
    (serves : ram.Serves ⟨address, 4⟩) :
    (ram.store address (MemOp.cut word 0 4)).ReadsWord address word ∧
      ∀ other ∉ (⟨address, 4⟩ : Region),
        (ram.store address (MemOp.cut word 0 4)).read other 1 =
          ram.read other 1 := by
  have served : (MemOp.cut word 0 4).length ≤
      ram.available address := serves.inside
  constructor
  · rw [readsWord_iff]
    intro index inside
    have part := (serves.part (show index + 1 ≤ 4 by omega)).inside
    refine ⟨by rwa [available_store], ?_⟩
    rw [peek_store_of_mem small.le served (show 4 ≤ 2 ^ 32 by decide) inside,
      bytes_eq_cut]
    match index, inside with
    | 0, _ | 1, _ | 2, _ | 3, _ => rfl
  · intro other outside
    rw [read_byte, read_byte, available_store,
      peek_store_of_not_mem small.le served outside]

end Ram

namespace Core

variable {core next : Core} {pc : UInt32} {front back : List UInt32}

theorem executeAll_append (back : List UInt32)
    (ran : core.executeAll pc front = (next, none)) :
    ∃ later, core.executeAll pc (front ++ back) =
      next.executeAll later back := by
  induction front generalizing core pc with
  | nil =>
      cases ran
      exact ⟨pc, rfl⟩
  | cons word rest induction =>
      rw [List.cons_append]
      rw [executeAll] at ran ⊢
      split at ran
      case h_1 step isStep => exact induction ran
      case h_2 => cases ran

theorem executeAll_part {op : MemOp} {rt base : Reg} {offset : Int}
    {word address : UInt32}
    (encoded : (Insn.mem op rt base offset).encode = .ok word)
    (isPart : op.isPart = true)
    (isAddress : core.reg base.index + distance offset = address)
    (served : op.count address ≤ core.ram.available (op.start address)) :
    core.executeAll pc (word :: back) =
      (op.next core rt.index address).executeAll (pc + 4) back := by
  have isEffect : (Insn.mem op rt base offset).effect core =
      if op.isStore then .memory (op.start address)
        (MemOp.cut (core.reg rt.index) (op.firstByte address)
          (op.count address))
      else .general rt.index
        (op.loaded core.ram (core.reg rt.index) address) := by
    simp only [Insn.effect, isAddress, MemOp.effect, isPart, Bool.not_true,
      Bool.false_eq_true, false_and, if_false, if_pos served]
  rw [executeAll, Insn.execute_of_encode core pc (by trivial) id encoded,
    isEffect, MemOp.next]
  cases op.isStore <;> rfl

/-- Two part accesses, the second three bytes further on. -/
theorem executeAll_pair {right left : MemOp} {rt base : Reg} {offset : Int}
    {address : UInt32} {words : List UInt32}
    (isPair : right = .lwr ∧ left = .lwl ∨ right = .swr ∧ left = .swl)
    (encoded : Insn.Encoded
      [.mem right rt base offset,
        .mem left rt base (Asm.wrap64 (offset + 3))] words)
    (kept : right.isStore = true ∨ base.index ≠ rt.index)
    (isAddress : core.reg base.index + distance offset = address)
    (serves : core.ram.Serves ⟨address, 4⟩) :
    core.executeAll pc words =
      (left.next (right.next core rt.index address) rt.index (address + 3),
        none) := by
  have isRight : right = .lwr ∨ right = .swr := isPair.imp And.left And.left
  have isLeft : left = .lwl ∨ left = .swl := isPair.imp And.right And.right
  have rightPart : right.isPart = true := by
    rcases isRight with rfl | rfl <;> rfl
  have leftPart : left.isPart = true := by rcases isLeft with rfl | rfl <;> rfl
  obtain ⟨rightStart, rightCount, -⟩ := MemOp.right_count isRight address
  obtain ⟨leftStart, leftCount, -⟩ := MemOp.left_parts isLeft address
  cases encoded with
  | cons isFirst isRest =>
      obtain ⟨second, isSecond, rfl⟩ := Insn.Encoded.of_single isRest
      rw [executeAll_part isFirst rightPart isAddress,
        executeAll_part isSecond leftPart]
      · rfl
      · rw [MemOp.reg_next kept, distance_wrap64, ← isAddress, UInt32.add_assoc]
      · rw [leftStart, leftCount, MemOp.available_next]
        exact (serves.part
          (Nat.add_sub_of_le (MemOp.leftPlace_le address)).le).inside
      · rw [rightStart, rightCount]
        exact Nat.le_trans (Nat.sub_le _ _) serves.inside

section Pairs

variable {rt base : Reg} {offset : Int} {address word : UInt32}
  {words : List UInt32}

theorem executeAll_loads
    (encoded : Insn.Encoded
      [.mem .lwr rt base offset,
        .mem .lwl rt base (Asm.wrap64 (offset + 3))] words)
    (different : base.index ≠ rt.index) (nonzero : rt.index ≠ 0)
    (isAddress : core.reg base.index + distance offset = address)
    (small : core.ram.size < 2 ^ 32) (reads : core.ram.ReadsWord address word) :
    core.executeAll pc words = (core.setReg rt.index word, none) := by
  have serves := reads.hasWord.serves small
  have leftServes :=
    serves.part (Nat.add_sub_of_le (MemOp.leftPlace_le address)).le
  have isNext :=
    MemOp.next_lwr_lwl small nonzero serves.inside leftServes.inside
  rw [reads.word_eq] at isNext
  rw [executeAll_pair (.inl ⟨rfl, rfl⟩) encoded (.inr different)
    isAddress serves]
  exact congrArg (·, none) isNext

theorem executeAll_stores
    (encoded : Insn.Encoded
      [.mem .swr rt base offset,
        .mem .swl rt base (Asm.wrap64 (offset + 3))] words)
    (isAddress : core.reg base.index + distance offset = address)
    (small : core.ram.size < 2 ^ 32) (has : core.ram.HasWord address) :
    ∃ ram, core.executeAll pc words = (core.mapRam fun _ => ram, none) ∧
      ram.ReadsWord address (core.reg rt.index) ∧
      ram.base = core.ram.base ∧ ram.size = core.ram.size ∧
      ∀ other ∉ (⟨address, 4⟩ : Region),
        ram.read other 1 = core.ram.read other 1 := by
  have serves := has.serves small
  have leftServes :=
    serves.part (Nat.add_sub_of_le (MemOp.leftPlace_le address)).le
  have isNext :=
    @MemOp.next_swr_swl core rt.index address small serves.inside
      leftServes.inside
  obtain ⟨reads, kept⟩ := Ram.read_store_word (core.reg rt.index) small serves
  refine ⟨_, ?_, reads, Ram.base_store, Ram.size_store, kept⟩
  rw [executeAll_pair (.inr ⟨rfl, rfl⟩) encoded (.inl rfl) isAddress serves]
  exact congrArg (·, none) isNext

end Pairs

end Core

namespace Asm

theorem assemble_pair (right left : MemOp) (rt base : RegNum) {offset : Int}
    (low : -0x8000 ≤ offset) (high : offset + 3 ≤ 0x7fff) :
    ∃ result words,
      Fragment.assemble (some [.insn (.mem right (.gp rt) (.gp base) offset),
        .insn (.mem left (.gp rt) (.gp base) (wrap64 (offset + 3)))]) false =
          .ok result ∧
      result.bytes.toList = Word.flatten words ∧
      Insn.Encoded [.mem right (.gp rt) (.gp base) offset,
        .mem left (.gp rt) (.gp base) (wrap64 (offset + 3))] words := by
  have isSum := wrap64_add_three low (by omega)
  have fits : ∀ instruction ∈ [Insn.mem right (.gp rt) (.gp base) offset,
      .mem left (.gp rt) (.gp base) (wrap64 (offset + 3))],
        instruction.encodable = true := by
    intro instruction isInstruction
    simp only [List.mem_cons, List.not_mem_nil, or_false] at isInstruction
    rcases isInstruction with rfl | rfl
    · simp only [Insn.encodable, Reg.isGeneral, Bool.true_and,
        decide_eq_true_eq]
      omega
    · simp only [Insn.encodable, Reg.isGeneral, Bool.true_and,
        decide_eq_true_eq]
      omega
  exact Fragment.assemble_insns (by simp) fits false

/-- The words of a load and of a store of a word at any address.  Where memory
has the four bytes of the word, the load leaves the word in its register and
changes nothing else, and it does so in every memory that has these four bytes.
The store writes the bytes of its register there and no others.  A load behind a
store at one address leaves the stored word. -/
theorem unaligned_exact (target source base otherBase : RegNum)
    {offset otherOffset : Int} (low : -0x8000 ≤ offset)
    (high : offset + 3 ≤ 0x7fff) (otherLow : -0x8000 ≤ otherOffset)
    (otherHigh : otherOffset + 3 ≤ 0x7fff) :
    ∃ (loading storing : MachineCode) (loads stores : List UInt32),
      Fragment.assemble (some (loadUnaligned (.gp target) (.gp base) offset))
        false = .ok loading ∧
      loading.bytes.toList = Word.flatten loads ∧
      Fragment.assemble
        (some (storeUnaligned (.gp source) (.gp otherBase) otherOffset)) false =
          .ok storing ∧
      storing.bytes.toList = Word.flatten stores ∧
      (target ≠ base → target ≠ 0 → ∀ (core : Core) (pc address : UInt32),
        core.reg base + Core.distance offset = address →
          core.ram.size < 2 ^ 32 →
        core.ram.HasWord address →
        ∃ word, core.ram.ReadsWord address word ∧
          core.executeAll pc loads = (core.setReg target word, none) ∧
          ∀ ram : Ram, ram.size < 2 ^ 32 → ram.ReadsWord address word →
            (core.mapRam fun _ => ram).executeAll pc loads =
              ((core.mapRam fun _ => ram).setReg target word, none)) ∧
      (∀ (core : Core) (pc address : UInt32),
        core.reg otherBase + Core.distance otherOffset = address →
          core.ram.size < 2 ^ 32 →
        core.ram.HasWord address →
        ∃ ram, core.executeAll pc stores = (core.mapRam fun _ => ram, none) ∧
          ram.ReadsWord address (core.reg source) ∧
          ram.base = core.ram.base ∧ ram.size = core.ram.size ∧
          ∀ other ∉ (⟨address, 4⟩ : Region),
            ram.read other 1 = core.ram.read other 1) ∧
      (target ≠ base → target ≠ 0 → ∀ (core : Core) (pc address : UInt32),
        core.reg base + Core.distance offset = address →
        core.reg otherBase + Core.distance otherOffset = address →
          core.ram.size < 2 ^ 32 →
        core.ram.HasWord address →
        ∃ ram, core.executeAll pc (stores ++ loads) =
          ((core.mapRam fun _ => ram).setReg target (core.reg source),
            none)) := by
  obtain ⟨loading, loads, loadsAssembled, isLoading, loadsEncoded⟩ :=
    assemble_pair .lwr .lwl target base low high
  obtain ⟨storing, stores, storesAssembled, isStoring, storesEncoded⟩ :=
    assemble_pair .swr .swl source otherBase otherLow otherHigh
  refine ⟨loading, storing, loads, stores, loadsAssembled, isLoading,
    storesAssembled, isStoring, ?_,
    fun core pc address => Core.executeAll_stores storesEncoded, ?_⟩
  · intro different nonzero core pc address isAddress small has
    exact ⟨core.ram.word address, has.readsWord,
      Core.executeAll_loads loadsEncoded different.symm nonzero isAddress small
        has.readsWord,
      fun ram smallRam same =>
        Core.executeAll_loads loadsEncoded different.symm nonzero isAddress
        smallRam same⟩
  · intro different nonzero core pc address isAddress isOther small has
    obtain ⟨ram, stored, reads, -, size, -⟩ :=
      @Core.executeAll_stores core pc _ _ _ _ _ storesEncoded isOther small has
    obtain ⟨later, continued⟩ := Core.executeAll_append loads stored
    refine ⟨ram, ?_⟩
    rw [continued]
    exact Core.executeAll_loads loadsEncoded different.symm nonzero isAddress
      (size.trans_lt small) reads

/-- A core with eight bytes of memory, two addresses in them and a word. -/
def smallCore : Core :=
  (((Core.reset (.zeroed 0x1000 8)).setReg 4 0x1004).setReg 5 0x1002).setReg 9
    0xdeadbeef

/-- A word across the boundary of two aligned words is stored and loaded with
different registers and offsets; the byte behind it stays. -/
theorem unaligned_word_stored_and_loaded :
    ∃ loads stores : List UInt32,
      (∃ word, smallCore.ram.ReadsWord 0x1003 word ∧
        smallCore.executeAll 0 loads = (smallCore.setReg 8 word, none)) ∧
      (∃ ram, smallCore.executeAll 0 stores =
        (smallCore.mapRam fun _ => ram, none) ∧
        ram.ReadsWord 0x1003 0xdeadbeef ∧ ram.read 0x1007 1 = .ok 0) ∧
      ∃ ram, smallCore.executeAll 0 (stores ++ loads) =
        ((smallCore.mapRam fun _ => ram).setReg 8 0xdeadbeef, none) := by
  have small : smallCore.ram.size < 2 ^ 32 := by decide
  have loadAddress : smallCore.reg 4 + Core.distance (-1) = 0x1003 := by decide
  have storeAddress : smallCore.reg 5 + Core.distance 1 = 0x1003 := by decide
  have isWord : smallCore.reg 9 = 0xdeadbeef := by decide
  have has : smallCore.ram.HasWord 0x1003 := by
    have present : ∀ index < 4,
        1 ≤ smallCore.ram.available (0x1003 + UInt32.ofNat index) := by
      decide
    exact fun index inside =>
      ⟨_, Ram.read_byte_eq_ok.mpr ⟨present index inside, rfl⟩⟩
  obtain ⟨-, -, loads, stores, -, -, -, -, load, store, both⟩ :=
    @unaligned_exact 8 9 4 5 (-1) 1 (by decide) (by decide) (by decide)
      (by decide)
  obtain ⟨word, reads, loaded, -⟩ :=
    load (by decide) (by decide) smallCore 0 0x1003 loadAddress small has
  obtain ⟨ram, stored, written, -, -, kept⟩ :=
    store smallCore 0 0x1003 storeAddress small has
  have behind : ram.read 0x1007 1 = .ok 0 := by
    rw [kept 0x1007 (by decide), Ram.read_byte_eq_ok]
    decide
  refine ⟨loads, stores, ⟨word, reads, loaded⟩,
    ⟨ram, stored, isWord ▸ written, behind⟩, ?_⟩
  rw [← isWord]
  exact both (by decide) (by decide) smallCore 0 0x1003 loadAddress storeAddress
    small has

end Asm

end LaneKernel
