import LaneKernel.Proofs.Stores

/-!
# Rules for single instructions

One rule for every kind of instruction that kernels are made of.  A rule turns a
run from the code behind an instruction into a run from the instruction.  Where
an access may be refused, the run goes on from the core behind a served access;
that the access is served has to be known only where a trap is not accepted.
-/

namespace LaneKernel

namespace Core

@[simp] theorem distance_zero : distance 0 = 0 := rfl

theorem distance_natCast (number : Nat) :
    distance number = UInt32.ofNat number :=
  Word.ofInt_natCast number

theorem distance_add (first second : Int) :
    distance (first + second) = distance first + distance second := by
  apply UInt32.toNat_inj.mp
  unfold distance
  rw [UInt32.toNat_add, Word.toNat_ofInt, Word.toNat_ofInt, Word.toNat_ofInt]
  omega

open Asm in
theorem distance_wrap64 (offset : Int) :
    distance (wrap64 (offset + 3)) = distance offset + 3 := by
  have wrapped : wrap64 (offset + 3) % 2 ^ 32 = (offset + 3) % 2 ^ 32 := by
    unfold wrap64
    rw [Int.bmod_def]
    split <;> omega
  apply UInt32.toNat_inj.mp
  unfold distance
  rw [UInt32.toNat_add, Word.toNat_ofInt, wrapped, Word.toNat_ofInt]
  change _ = (_ + 3) % 2 ^ 32
  omega

end Core

namespace Leads

variable {setting : Setting} {goal : Goal} {rest : Fragment} {core : Core}
  {log : List Access}

theorem general {instruction : Insn} {register : RegNum} {value : UInt32}
    (regular : instruction.Regular)
    (isEffect : instruction.effect core = .general register value)
    (noAccess : instruction.accesses core = [])
    (continues : Leads setting goal rest (core.setReg register value) log) :
    Leads setting goal (.insn instruction :: rest) core log := by
  apply Leads.insn regular
  · intro access isAccess
    rw [noAccess] at isAccess
    cases isAccess
  · rw [isEffect]
    rfl
  · rw [noAccess]
    exact continues

theorem vector {instruction : Insn} {register : RegNum} {value : VectorRegister}
    (regular : instruction.Regular)
    (isEffect : instruction.effect core = .vector register value)
    (noAccess : instruction.accesses core = [])
    (continues : Leads setting goal rest (core.setVector register value) log) :
    Leads setting goal (.insn instruction :: rest) core log := by
  apply Leads.insn regular
  · intro access isAccess
    rw [noAccess] at isAccess
    cases isAccess
  · rw [isEffect]
    rfl
  · rw [noAccess]
    exact continues

section Arithmetic

variable {target first second : Reg} {imm : Int}

open Asm

theorem addiu
    (continues : Leads setting goal rest
      (core.setReg target.index (core.reg first.index + Core.distance imm))
        log) :
    Leads setting goal (addiu target first imm ++ rest) core log :=
  .general ⟨trivial, id⟩ rfl rfl continues

theorem sltiu
    (continues : Leads setting goal rest
      (core.setReg target.index
        (Core.boolWord (core.reg first.index < Core.distance imm))) log) :
    Leads setting goal (sltiu target first imm ++ rest) core log :=
  .general ⟨trivial, id⟩ rfl rfl continues

theorem andi
    (continues : Leads setting goal rest
      (core.setReg target.index
        (core.reg first.index &&& UInt32.ofNat imm.toNat)) log) :
    Leads setting goal (andi target first imm ++ rest) core log :=
  .general ⟨trivial, id⟩ rfl rfl continues

theorem addu
    (continues : Leads setting goal rest
      (core.setReg target.index (core.reg first.index + core.reg second.index))
        log) :
    Leads setting goal (addu target first second ++ rest) core log :=
  .general ⟨trivial, id⟩ rfl rfl continues

theorem subu
    (continues : Leads setting goal rest
      (core.setReg target.index (core.reg first.index - core.reg second.index))
        log) :
    Leads setting goal (subu target first second ++ rest) core log :=
  .general ⟨trivial, id⟩ rfl rfl continues

theorem sll
    (continues : Leads setting goal rest
      (core.setReg target.index
        (core.reg first.index <<< UInt32.ofInt imm)) log) :
    Leads setting goal (sll target first imm ++ rest) core log :=
  .general ⟨trivial, id⟩ rfl rfl continues

theorem srl
    (continues : Leads setting goal rest
      (core.setReg target.index
        (core.reg first.index >>> UInt32.ofInt imm)) log) :
    Leads setting goal (srl target first imm ++ rest) core log :=
  .general ⟨trivial, id⟩ rfl rfl continues

theorem move
    (continues : Leads setting goal rest
      (core.setReg target.index (core.reg first.index)) log) :
    Leads setting goal (move target first ++ rest) core log :=
  .general ⟨trivial, id⟩ rfl rfl continues

end Arithmetic

section Branches

variable {register : Reg} {label : Label}

open Asm

theorem marked (continues : Leads setting goal rest core log) :
    Leads setting goal (Asm.mark label ++ rest) core log :=
  .mark continues

theorem branchOn {condition : Condition} {left right : Reg}
    (taken : condition.holds (core.reg left.index).toInt32
      (core.reg right.index).toInt32 = true →
        Leads setting goal (setting.target label) core log)
    (notTaken :
      condition.holds (core.reg left.index).toInt32
        (core.reg right.index).toInt32 = false →
      Leads setting goal rest core log) :
    Leads setting goal (Asm.branch condition left right label ++ rest) core
      log := by
  apply Leads.branch
  unfold Setting.chosen
  split
  case isTrue holds => exact taken holds
  case isFalse fails => exact notTaken (Bool.not_eq_true _ ▸ fails)

theorem toInt32_eq_zero {word : UInt32} : word.toInt32 = (0 : UInt32).toInt32 ↔
    word = 0 := by
  constructor
  · intro same
    have back := congrArg Int32.toUInt32 same
    rwa [UInt32.toUInt32_toInt32, UInt32.toUInt32_toInt32] at back
  · rintro rfl
    rfl

theorem beqz
    (taken : core.reg register.index = 0 →
      Leads setting goal (setting.target label) core log)
    (notTaken : core.reg register.index ≠ 0 →
      Leads setting goal rest core log) :
    Leads setting goal (beqz register label ++ rest) core log := by
  apply Leads.branchOn
  · intro holds
    exact taken (toInt32_eq_zero.mp (beq_iff_eq.mp holds))
  · intro fails
    exact notTaken (mt toInt32_eq_zero.mpr (beq_eq_false_iff_ne.mp fails))

theorem bnez
    (taken : core.reg register.index ≠ 0 →
      Leads setting goal (setting.target label) core log)
    (notTaken : core.reg register.index = 0 →
      Leads setting goal rest core log) :
    Leads setting goal (bnez register label ++ rest) core log := by
  apply Leads.branchOn
  · intro holds
    exact taken (mt toInt32_eq_zero.mpr (bne_iff_ne.mp holds))
  · intro fails
    exact notTaken (toInt32_eq_zero.mp (bne_eq_false_iff_eq.mp fails))

theorem blez
    (taken : (core.reg register.index).toInt32 ≤ 0 →
      Leads setting goal (setting.target label) core log)
    (notTaken : ¬ (core.reg register.index).toInt32 ≤ 0 →
      Leads setting goal rest core log) :
    Leads setting goal (blez register label ++ rest) core log := by
  apply Leads.branchOn
  · intro holds
    exact taken (of_decide_eq_true holds)
  · intro fails
    exact notTaken (of_decide_eq_false fails)

end Branches

end Leads

/-- Every byte of the region is part of a logged access. -/
def Touched (log : List Access) (write : Bool) (region : Region) : Prop :=
  ∀ address ∈ region, ∃ access ∈ log, access.write = write ∧
    address ∈ access.region

theorem Touched.mono {log logged : List Access} {write : Bool} {region : Region}
    (touched : Touched log write region) (later : log <:+ logged) :
    Touched logged write region := by
  intro address inside
  obtain ⟨access, isLogged, isWrite, covers⟩ := touched address inside
  exact ⟨access, later.subset isLogged, isWrite, covers⟩

theorem Touched.append {log logged : List Access} {write : Bool}
    {start : UInt32} {count more : Nat}
    (front : Touched log write ⟨start, count⟩) (later : log <:+ logged)
    (back : Touched logged write ⟨start + UInt32.ofNat count, more⟩) :
    Touched logged write ⟨start, count + more⟩ := by
  intro address inside
  obtain ⟨index, below, rfl⟩ := Region.mem_iff_exists.mp inside
  change index < count + more at below
  rcases Nat.lt_or_ge index count with before | behind
  · exact front.mono later _ (Region.mem_of_lt before)
  · have isAddress : start + UInt32.ofNat index =
        start + UInt32.ofNat count + UInt32.ofNat (index - count) := by
      rw [UInt32.add_assoc, ← UInt32.ofNat_add, Nat.add_sub_cancel' behind]
    change ∃ access ∈ logged, access.write = write ∧
      start + UInt32.ofNat index ∈ access.region
    rw [isAddress]
    exact back _ (Region.mem_of_lt (by omega))

theorem Word.mod_width_eq_zero {word : UInt32} {width : Nat}
    (small : width < 2 ^ 32) (aligned : word.toNat % width = 0) :
    word % UInt32.ofNat width = 0 := by
  apply UInt32.toNat_inj.mp
  rw [UInt32.toNat_mod, UInt32.toNat_ofNat', Nat.mod_eq_of_lt small]
  exact aligned

namespace MemOp

/-- The core behind a scalar access that memory serves. -/
def next (op : MemOp) (core : Core) (rt : RegNum) (address : UInt32) : Core :=
  if op.isStore then
    core.store (op.start address)
      (cut (core.reg rt) (op.firstByte address) (op.count address))
  else core.setReg rt (op.loaded core.ram (core.reg rt) address)

variable {op : MemOp} {core : Core} {rt register : RegNum} {address : UInt32}

theorem reg_next (other : op.isStore = true ∨ register ≠ rt) :
    (op.next core rt address).reg register = core.reg register := by
  unfold next
  split
  case isTrue => rfl
  case isFalse isLoad =>
    exact Core.reg_setReg_other _ _ _ _ (other.resolve_left isLoad)

theorem available_next (other : UInt32) :
    (op.next core rt address).ram.available other =
      core.ram.available other := by
  unfold next
  split
  · exact Ram.available_store
  · rw [Core.ram_setReg]

/-- The two loads of a pair leave the word, whatever the register held. -/
theorem next_lwr_lwl (small : core.ram.size < 2 ^ 32) (nonzero : rt ≠ 0)
    (whole : 4 ≤ core.ram.available address) (left : 4 - leftPlace address ≤
      core.ram.available (address + UInt32.ofNat (leftPlace address))) :
    next .lwl (next .lwr core rt address) rt (address + 3) =
      core.setReg rt (core.ram.word address) := by
  obtain ⟨rightStart, rightCount, rightFirst⟩ :=
    right_count (show lwr = .lwr ∨ _ from .inl rfl) address
  obtain ⟨leftStart, leftCount, leftFirst⟩ :=
    left_parts (show lwl = .lwl ∨ _ from .inl rfl) address
  simp only [next, loaded, isStore, isPart, Bool.false_eq_true, if_false,
    if_true]
  rw [rightStart, rightCount, rightFirst, leftStart, leftCount, leftFirst,
    Core.reg_setReg_same _ _ _ nonzero, Core.ram_setReg,
    Ram.merge_parts small whole left, Core.setReg_setReg]

/-- The two stores of a pair leave the bytes of the word. -/
theorem next_swr_swl (small : core.ram.size < 2 ^ 32)
    (whole : 4 ≤ core.ram.available address) (left : 4 - leftPlace address ≤
      core.ram.available (address + UInt32.ofNat (leftPlace address))) :
    next .swl (next .swr core rt address) rt (address + 3) =
      core.store address (cut (core.reg rt) 0 4) := by
  obtain ⟨rightStart, rightCount, rightFirst⟩ :=
    right_count (show swr = .lwr ∨ _ from .inr rfl) address
  obtain ⟨leftStart, leftCount, leftFirst⟩ :=
    left_parts (show swl = .lwl ∨ _ from .inr rfl) address
  simp only [next, isStore, if_true]
  rw [rightStart, rightCount, rightFirst, leftStart, leftCount, leftFirst,
    Core.reg_store]
  exact Core.store_eq (Ram.store_parts small whole left _)

end MemOp

namespace Leads

variable {setting : Setting} {goal : Goal} {rest : Fragment} {core : Core}
  {log : List Access}

theorem scalar {op : MemOp} {rt base : Reg} {offset : Int} (address : UInt32)
    (isAddress : core.reg base.index + Core.distance offset = address)
    (stays : Access.Stays setting.may ⟨op.isStore, op.start address,
      op.count address⟩)
    (served : setting.mayTrap ∨
      (op.isPart = true ∨ address % UInt32.ofNat op.width = 0) ∧
      op.count address ≤ core.ram.available (op.start address))
    (continues : op.count address ≤ core.ram.available (op.start address) →
      Leads setting goal rest (op.next core rt.index address)
        (⟨op.isStore, op.start address, op.count address⟩ :: log)) :
    Leads setting goal (.insn (.mem op rt base offset) :: rest) core log := by
  have isAccesses : (Insn.mem op rt base offset).accesses core =
      [⟨op.isStore, op.start address, op.count address⟩] := by
    simp only [Insn.accesses, isAddress]
  have isEffect : (Insn.mem op rt base offset).effect core =
      op.effect core rt.index address := by
    simp only [Insn.effect, isAddress]
  have inside : ∀ access ∈ (Insn.mem op rt base offset).accesses core,
      access.Stays setting.may := by
    intro access isAccess
    rw [isAccesses, List.mem_singleton] at isAccess
    exact isAccess ▸ stays
  have regular : (Insn.mem op rt base offset).Regular := ⟨trivial, id⟩
  by_cases fine : (op.isPart = true ∨ address % UInt32.ofNat op.width = 0) ∧
      op.count address ≤ core.ram.available (op.start address)
  · obtain ⟨aligned, present⟩ := fine
    have notMisaligned :
        ¬ ((!op.isPart) = true ∧ address % UInt32.ofNat op.width ≠ 0) := by
      rcases aligned with isPart | aligned
      · simp [isPart]
      · simp [aligned]
    have runs : ((Insn.mem op rt base offset).effect core).next? core =
        some (op.next core rt.index address) := by
      rw [isEffect]
      unfold MemOp.effect MemOp.next
      simp only [if_neg notMisaligned, if_pos present]
      split <;> rfl
    apply Leads.insn regular inside runs
    rw [isAccesses]
    exact continues present
  · refine .trap (served.resolve_right fine) regular inside ?_
    rw [isEffect]
    unfold MemOp.effect
    simp only
    split
    · rfl
    · rename_i aligned
      have missing :
          ¬ op.count address ≤ core.ram.available (op.start address) := by
        intro present
        refine fine ⟨?_, present⟩
        by_cases isPart : op.isPart = true
        · exact .inl isPart
        · exact .inr (Classical.not_not.mp fun notZero =>
            aligned ⟨by simp [isPart], notZero⟩)
      rw [if_neg missing]
      split <;> rfl

section Words

variable {target base : Reg} {offset : Int}

open Asm

theorem lw (address : UInt32)
    (isAddress : core.reg base.index + Core.distance offset = address)
    (small : core.ram.size < 2 ^ 32)
    (stays : ∀ other ∈ (⟨address, 4⟩ : Region), setting.may false other)
    (served : setting.mayTrap ∨ address.toNat % 4 = 0 ∧
      core.ram.Serves ⟨address, 4⟩)
    (continues : ∀ logged, log <:+ logged → Touched logged false ⟨address, 4⟩ →
      Leads setting goal rest (core.setReg target.index (core.ram.word address))
        logged) :
    Leads setting goal (lw target base offset ++ rest) core log := by
  apply Leads.scalar address isAddress
  · exact stays
  · refine served.imp_right fun ⟨aligned, serves⟩ => ⟨.inr ?_, serves.inside⟩
    exact Word.mod_width_eq_zero (by decide) aligned
  · intro present
    have isNext : MemOp.next .lw core target.index address =
        core.setReg target.index (core.ram.word address) := by
      have four : 4 ≤ core.ram.available address := present
      rw [← Ram.valueAt_eq_word small.le four]
      rfl
    rw [isNext]
    apply continues _ (List.suffix_cons _ _)
    intro other inside
    exact ⟨_, List.mem_cons_self, rfl, inside⟩

theorem sw (address : UInt32)
    (isAddress : core.reg base.index + Core.distance offset = address)
    (stays : ∀ other ∈ (⟨address, 4⟩ : Region), setting.may true other)
    (served : setting.mayTrap ∨ address.toNat % 4 = 0 ∧
      core.ram.Serves ⟨address, 4⟩)
    (continues : ∀ logged, log <:+ logged → Touched logged true ⟨address, 4⟩ →
      4 ≤ core.ram.available address →
      Leads setting goal rest
        (core.store address (MemOp.cut (core.reg target.index) 0 4)) logged) :
    Leads setting goal (sw target base offset ++ rest) core log := by
  apply Leads.scalar address isAddress
  · exact stays
  · refine served.imp_right fun ⟨aligned, serves⟩ => ⟨.inr ?_, serves.inside⟩
    exact Word.mod_width_eq_zero (by decide) aligned
  · intro present
    apply continues _ (List.suffix_cons _ _) _ present
    intro other inside
    exact ⟨_, List.mem_cons_self, rfl, inside⟩

theorem lbu (address : UInt32)
    (isAddress : core.reg base.index + Core.distance offset = address)
    (stays : setting.may false address)
    (served : setting.mayTrap ∨ core.ram.Serves ⟨address, 1⟩)
    (continues : ∀ logged, log <:+ logged → Touched logged false ⟨address, 1⟩ →
      Leads setting goal rest
        (core.setReg target.index (core.ram.peek address).toUInt32) logged) :
    Leads setting goal (lbu target base offset ++ rest) core log := by
  have single : ∀ other ∈ (⟨address, 1⟩ : Region), other = address := by
    intro other inside
    obtain ⟨index, below, rfl⟩ := Region.mem_iff_exists.mp inside
    have zero : index = 0 := Nat.lt_one_iff.mp below
    subst zero
    exact UInt32.add_zero address
  apply Leads.scalar address isAddress
  · intro other inside
    exact single other inside ▸ stays
  · refine served.imp_right fun serves => ⟨.inr ?_, serves.inside⟩
    exact Word.mod_width_eq_zero (by decide) (Nat.mod_one _)
  · intro present
    have isNext : MemOp.next .lbu core target.index address =
        core.setReg target.index (core.ram.peek address).toUInt32 := by
      unfold MemOp.next MemOp.loaded
      simp only [MemOp.isStore, MemOp.isPart, MemOp.width, MemOp.extend,
        FlatMemory.valueAt, Bool.false_eq_true, if_false]
      congr 1
      unfold Ram.peek
      simp [Lane.shiftLeft]
    rw [isNext]
    apply continues _ (List.suffix_cons _ _)
    intro other inside
    exact ⟨_, List.mem_cons_self, rfl, inside⟩

theorem sb (address : UInt32)
    (isAddress : core.reg base.index + Core.distance offset = address)
    (stays : setting.may true address)
    (served : setting.mayTrap ∨ core.ram.Serves ⟨address, 1⟩)
    (continues : ∀ logged, log <:+ logged → Touched logged true ⟨address, 1⟩ →
      1 ≤ core.ram.available address →
      Leads setting goal rest
        (core.store address [(core.reg target.index).toUInt8]) logged) :
    Leads setting goal (sb target base offset ++ rest) core log := by
  apply Leads.scalar address isAddress
  · intro other inside
    obtain ⟨index, below, rfl⟩ := Region.mem_iff_exists.mp inside
    have zero : index = 0 := Nat.lt_one_iff.mp below
    subst zero
    exact (UInt32.add_zero address).symm ▸ stays
  · refine served.imp_right fun serves => ⟨.inr ?_, serves.inside⟩
    exact Word.mod_width_eq_zero (by decide) (Nat.mod_one _)
  · intro present
    have isNext : MemOp.next .sb core target.index address =
        core.store address [(core.reg target.index).toUInt8] := by
      unfold MemOp.next
      simp [MemOp.isStore, MemOp.start, MemOp.firstByte, MemOp.count,
        MemOp.width, MemOp.cut]
    rw [isNext]
    apply continues _ (List.suffix_cons _ _) _ present
    intro other inside
    exact ⟨_, List.mem_cons_self, rfl, inside⟩

end Words

section Pairs

variable {target base : Reg} {offset : Int}

open Asm

/-- The two accesses of a pair take the bytes of the word and no others. -/
theorem mem_word_iff (address other : UInt32) :
    other ∈ (⟨address, 4⟩ : Region) ↔
      other ∈ (⟨address, 4 - address.toNat % 4⟩ : Region) ∨
      other ∈ (⟨address + UInt32.ofNat (MemOp.leftPlace address),
        4 - MemOp.leftPlace address⟩ : Region) := by
  have place : MemOp.leftPlace address = (4 - address.toNat % 4) % 4 := rfl
  constructor
  · intro inside
    obtain ⟨index, below, rfl⟩ := Region.mem_iff_exists.mp inside
    change index < 4 at below
    rcases Nat.lt_or_ge index (4 - address.toNat % 4) with right | left
    · exact .inl (Region.mem_of_lt right)
    · refine .inr (Region.mem_iff_exists.mpr ⟨index - MemOp.leftPlace address,
        ?_, ?_⟩)
      · change index - MemOp.leftPlace address < 4 - MemOp.leftPlace address
        omega
      · change _ = address + UInt32.ofNat (MemOp.leftPlace address) + _
        rw [UInt32.add_assoc, ← UInt32.ofNat_add]
        congr 2
        omega
  · rintro (right | left)
    · rw [Region.mem_iff] at right ⊢
      exact Nat.lt_of_lt_of_le right (Nat.sub_le _ _)
    · exact Region.mem_of_part left (by omega)

theorem touched_parts {write : Bool} (address : UInt32) :
    Touched (⟨write, address + UInt32.ofNat (MemOp.leftPlace address),
        4 - MemOp.leftPlace address⟩ ::
          ⟨write, address, 4 - address.toNat % 4⟩ :: log) write
      ⟨address, 4⟩ := by
  intro other inside
  rcases (mem_word_iff address other).mp inside with right | left
  · exact ⟨_, List.mem_cons_of_mem _ List.mem_cons_self, rfl, right⟩
  · exact ⟨_, List.mem_cons_self, rfl, left⟩

/-- The two accesses of a pair, to the right part of a word and then to the left
one, go on where the word is served. -/
theorem unalignedPair {right left : MemOp}
    (isRight : right = .lwr ∨ right = .swr) (isLeft : left = .lwl ∨ left = .swl)
    (alike : right.isStore = left.isStore) (address : UInt32)
    (isAddress : core.reg base.index + Core.distance offset = address)
    (small : core.ram.size < 2 ^ 32)
    (kept : right.isStore = true ∨ base.index ≠ target.index)
    (stays : ∀ other ∈ (⟨address, 4⟩ : Region), setting.may left.isStore other)
    (served : setting.mayTrap ∨ core.ram.Serves ⟨address, 4⟩)
    (continues : ∀ logged, log <:+ logged →
      Touched logged left.isStore ⟨address, 4⟩ →
      4 ≤ core.ram.available address →
      4 - MemOp.leftPlace address ≤
        core.ram.available (address + UInt32.ofNat (MemOp.leftPlace address)) →
      Leads setting goal rest
        (left.next (right.next core target.index address) target.index
          (address + 3)) logged) :
    Leads setting goal (.insn (.mem right target base offset) ::
      .insn (.mem left target base (wrap64 (offset + 3))) :: rest) core
        log := by
  obtain ⟨rightStart, rightCount, -⟩ := MemOp.right_count isRight address
  obtain ⟨leftStart, leftCount, -⟩ := MemOp.left_parts isLeft address
  have areParts : right.isPart = true ∧ left.isPart = true := by
    constructor
    · rcases isRight with rfl | rfl <;> rfl
    · rcases isLeft with rfl | rfl <;> rfl
  have inWord := mem_word_iff address
  apply Leads.scalar address isAddress
  · rw [rightStart, rightCount, alike]
    exact fun other covered => stays other ((inWord other).mpr (.inl covered))
  · refine served.imp_right fun serves => ⟨.inl areParts.1, ?_⟩
    rw [rightStart, rightCount]
    exact Nat.le_trans (Nat.sub_le _ _) serves.inside
  intro rightPresent
  rw [rightStart, rightCount] at rightPresent ⊢
  apply Leads.scalar (address + 3)
  · rw [MemOp.reg_next kept, Core.distance_wrap64, ← isAddress,
      UInt32.add_assoc]
  · rw [leftStart, leftCount]
    exact fun other covered => stays other ((inWord other).mpr (.inr covered))
  · refine served.imp_right fun serves => ⟨.inl areParts.2, ?_⟩
    rw [leftStart, leftCount, MemOp.available_next]
    exact (serves.part
      (Nat.add_sub_of_le (MemOp.leftPlace_le address)).le).inside
  intro leftPresent
  rw [leftStart, leftCount] at leftPresent ⊢
  rw [MemOp.available_next] at leftPresent
  rw [alike]
  exact continues _ ((List.suffix_cons _ _).trans (List.suffix_cons _ _))
    (touched_parts address)
    (Ram.available_of_parts small rightPresent leftPresent) leftPresent

theorem loadUnaligned (address : UInt32)
    (isAddress : core.reg base.index + Core.distance offset = address)
    (small : core.ram.size < 2 ^ 32) (nonzero : target.index ≠ 0)
    (different : base.index ≠ target.index)
    (stays : ∀ other ∈ (⟨address, 4⟩ : Region), setting.may false other)
    (served : setting.mayTrap ∨ core.ram.Serves ⟨address, 4⟩)
    (continues : ∀ logged, log <:+ logged → Touched logged false ⟨address, 4⟩ →
      Leads setting goal rest (core.setReg target.index (core.ram.word address))
        logged) :
    Leads setting goal (loadUnaligned target base offset ++ rest) core log := by
  apply unalignedPair (.inl rfl) (.inl rfl) rfl address isAddress small
    (.inr different) stays served
  intro logged later touched whole left
  rw [MemOp.next_lwr_lwl small nonzero whole left]
  exact continues logged later touched

theorem storeUnaligned (address : UInt32)
    (isAddress : core.reg base.index + Core.distance offset = address)
    (small : core.ram.size < 2 ^ 32)
    (stays : ∀ other ∈ (⟨address, 4⟩ : Region), setting.may true other)
    (served : setting.mayTrap ∨ core.ram.Serves ⟨address, 4⟩)
    (continues : ∀ logged, log <:+ logged → Touched logged true ⟨address, 4⟩ →
      4 ≤ core.ram.available address →
      Leads setting goal rest
        (core.store address (MemOp.cut (core.reg target.index) 0 4)) logged) :
    Leads setting goal (storeUnaligned target base offset ++ rest) core
      log := by
  apply unalignedPair (.inr rfl) (.inr rfl) rfl address isAddress small
    (.inl rfl) stays served
  intro logged later touched whole left
  rw [MemOp.next_swr_swl small whole left]
  exact continues logged later touched whole

end Pairs

section Vectors

variable {df : DataFormat} {target base : Reg} {offset : Int}

theorem ld (isNamed : df.Named) (address : UInt32)
    (isAddress : core.reg base.index + Core.distance offset = address)
    (small : core.ram.size < 2 ^ 32)
    (stays : ∀ other ∈ (⟨address, 16⟩ : Region), setting.may false other)
    (served : setting.mayTrap ∨ core.ram.Serves ⟨address, 16⟩)
    (continues : ∀ logged, log <:+ logged → Touched logged false ⟨address, 16⟩ →
      Leads setting goal rest
        (core.setVector target.index (core.ram.vectorAt address)) logged) :
    Leads setting goal (Asm.insn (.ld df target base offset) ++ rest) core
      log := by
  have inside : ∀ access ∈ (Insn.ld df target base offset).accesses core,
      access.Stays setting.may := by
    intro access isAccess
    simp only [Insn.accesses, isAddress, List.mem_singleton] at isAccess
    exact isAccess ▸ stays
  have regular : (Insn.ld df target base offset).Regular := ⟨isNamed, id⟩
  by_cases present : 16 ≤ core.ram.available address
  · have runs : ((Insn.ld df target base offset).effect core).next? core =
        some (core.setVector target.index (core.ram.vectorAt address)) := by
      simp only [Insn.effect, isAddress, if_pos present, Effect.next?,
        Effect.apply, Ram.ofBytes_eq_vectorAt small.le present]
    apply Leads.insn regular inside runs
    simp only [Insn.accesses, isAddress]
    apply continues _ (List.suffix_cons _ _)
    intro other covered
    exact ⟨_, List.mem_cons_self, rfl, covered⟩
  · refine .trap (served.resolve_right fun serves => present serves.inside)
      regular inside ?_
    simp only [Insn.effect, isAddress, if_neg present, Effect.isTrap]

theorem st (isNamed : df.Named) (address : UInt32)
    (isAddress : core.reg base.index + Core.distance offset = address)
    (stays : ∀ other ∈ (⟨address, 16⟩ : Region), setting.may true other)
    (served : setting.mayTrap ∨ core.ram.Serves ⟨address, 16⟩)
    (continues : ∀ logged, log <:+ logged → Touched logged true ⟨address, 16⟩ →
      16 ≤ core.ram.available address →
      Leads setting goal rest
        (core.store address (core.vector target.index).toList) logged) :
    Leads setting goal (Asm.insn (.st df target base offset) ++ rest) core
      log := by
  have inside : ∀ access ∈ (Insn.st df target base offset).accesses core,
      access.Stays setting.may := by
    intro access isAccess
    simp only [Insn.accesses, isAddress, List.mem_singleton] at isAccess
    exact isAccess ▸ stays
  have regular : (Insn.st df target base offset).Regular := ⟨isNamed, id⟩
  by_cases present : 16 ≤ core.ram.available address
  · have runs : ((Insn.st df target base offset).effect core).next? core =
        some (core.store address (core.vector target.index).toList) := by
      simp only [Insn.effect, isAddress, if_pos present, Effect.next?,
        Effect.apply]
      rfl
    apply Leads.insn regular inside runs
    simp only [Insn.accesses, isAddress]
    apply continues _ (List.suffix_cons _ _) _ present
    intro other covered
    exact ⟨_, List.mem_cons_self, rfl, covered⟩
  · refine .trap (served.resolve_right fun serves => present serves.inside)
      regular inside ?_
    simp only [Insn.effect, isAddress, if_neg present, Effect.isTrap]

end Vectors

end Leads

end LaneKernel
