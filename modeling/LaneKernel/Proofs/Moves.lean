import LaneKernel.Compiler.Staging
import LaneKernel.Proofs.Bytes
import LaneKernel.Proofs.Stepping

/-!
# Moves of partial vectors

A move handles its bytes in chunks of eight, four, two and one.  In front of
each chunk fewer than twice its bytes remain, so behind the last one none do.
`Moves.load` and `Moves.store` say what a whole move does.
-/

namespace LaneKernel

namespace Contract

@[simp] theorem index_executor : executor.index = 4 := rfl
@[simp] theorem index_leftover : leftover.index = 8 := rfl
@[simp] theorem index_blocks : blocks.index = 9 := rfl
@[simp] theorem index_tailBytes : tailBytes.index = 10 := rfl
@[simp] theorem index_scratch : scratch.index = 11 := rfl
@[simp] theorem index_rows : rows.index = 12 := rfl
@[simp] theorem index_remaining : remaining.index = 13 := rfl
@[simp] theorem index_memoryWalk : memoryWalk.index = 14 := rfl
@[simp] theorem index_stagingWalk : stagingWalk.index = 15 := rfl
@[simp] theorem index_vectorScratch : vectorScratch.index = 15 := rfl

end Contract

@[simp] theorem Reg.index_sp : Reg.sp.index = 29 := rfl
@[simp] theorem Reg.index_fp : Reg.fp.index = 30 := rfl
@[simp] theorem Reg.index_zero : Reg.zero.index = 0 := rfl

/-- The general registers that the moves and broadcasts of a kernel use up. -/
def Contract.working : List RegNum := [11, 13, 14, 15]

open Asm Contract

namespace Moves

/-- What a load of `length` bytes through the frame relies on. -/
structure LoadSite (setting : Setting) (start : Core) (source stage : UInt32)
    (length : Nat) (aligned : Bool) : Prop where
  small : start.ram.size < 2 ^ 32
  short : length < 16
  reads : ∀ address ∈ (⟨source, length⟩ : Region), setting.may false address
  stages : ∀ address ∈ (⟨stage, 16⟩ : Region), setting.may true address
  served : setting.mayTrap ∨ start.ram.Serves ⟨source, length⟩
  stageServed : setting.mayTrap ∨ stage.toNat % 4 = 0 ∧
    start.ram.Serves ⟨stage, 16⟩
  wordAligned : aligned = true → setting.mayTrap ∨ source.toNat % 4 = 0

/-- The first `count` bytes have been copied to the staging area. -/
structure Copied (start : Core) (source stage : UInt32) (length count : Nat)
    (core : Core) (log : List Access) : Prop where
  keeps : start.Keeps working [] core
  base : core.ram.base = start.ram.base
  size : core.ram.size = start.ram.size
  peek : ∀ address ∉ (⟨stage, 16⟩ : Region),
    core.ram.peek address = start.ram.peek address
  copied : Region.Apart ⟨source, length⟩ ⟨stage, 16⟩ → ∀ index < count,
    core.ram.peek (stage + UInt32.ofNat index) =
      start.ram.peek (source + UInt32.ofNat index)
  touched : Touched log false ⟨source, count⟩

section Load

variable {setting : Setting} {goal : Goal} {start core : Core}
  {source stage : UInt32} {length : Nat} {aligned : Bool} {log : List Access}
  {rest : Fragment}

theorem Copied.available {count : Nat}
    (moved : Copied start source stage length count core log)
    (address : UInt32) :
    core.ram.available address = start.ram.available address := by
  unfold Ram.available
  rw [moved.base, moved.size]

theorem Copied.serves {count : Nat}
    (moved : Copied start source stage length count core log) {region : Region}
    (served : start.ram.Serves region) : core.ram.Serves region :=
  ⟨served.below, (moved.available region.start).symm ▸ served.inside⟩

theorem Copied.setReg {count : Nat}
    (moved : Copied start source stage length count core log)
    {register : RegNum} (isWorking : register ∈ working) (word : UInt32) :
    Copied start source stage length count (core.setReg register word) log where
  keeps := moved.keeps.setReg isWorking word
  base := by
    rw [Core.ram_setReg]
    exact moved.base
  size := by
    rw [Core.ram_setReg]
    exact moved.size
  peek address outside := by
    rw [Core.ram_setReg]
    exact moved.peek address outside
  copied apart index below := by
    rw [Core.ram_setReg]
    exact moved.copied apart index below
  touched := moved.touched

theorem Copied.store {count more : Nat} {data : List UInt8}
    {logged : List Access}
    (moved : Copied start source stage length count core log)
    (small : start.ram.size < 2 ^ 32) (isLength : data.length = more)
    (fits : count + more ≤ length) (short : length < 16)
    (isData : ∀ index (below : index < data.length),
      data[index] = core.ram.peek (source + UInt32.ofNat (count + index)))
    (present : more ≤ core.ram.available (stage + UInt32.ofNat count))
    (later : log <:+ logged)
    (touched : Touched logged false ⟨source + UInt32.ofNat count, more⟩) :
    Copied start source stage length (count + more)
      (core.store (stage + UInt32.ofNat count) data) logged where
  keeps := moved.keeps.store _ _
  base := moved.base
  size := by
    rw [Core.ram_store, Ram.size_store]
    exact moved.size
  peek address outside := by
    have outsidePart :
        address ∉ (⟨stage + UInt32.ofNat count, data.length⟩ : Region) :=
      fun inPart => outside (Region.mem_of_part inPart (by omega))
    rw [Core.ram_store,
      Ram.peek_store_of_not_mem (moved.size ▸ small.le) (by omega) outsidePart]
    exact moved.peek address outside
  copied apart index below := by
    have inSource : source + UInt32.ofNat index ∉ (⟨stage, 16⟩ : Region) :=
      apart _ (Region.mem_of_lt (by omega))
    rw [Core.ram_store,
      Ram.peek_store_append (moved.size ▸ small.le) (by omega) (by omega)
        (by omega)]
    split
    case isTrue before => exact moved.copied apart index before
    case isFalse behind =>
      rw [List.getD_eq_getElem?_getD, List.getElem?_eq_getElem (by omega),
        Option.getD_some, isData _ (by omega),
        Nat.add_sub_cancel' (Nat.le_of_not_lt behind)]
      exact moved.peek _ inSource
  touched := moved.touched.append later touched

theorem walk_address {walk first : UInt32} {position offset : Nat}
    {amount : Int} (isAmount : amount = offset)
    (isWalk : walk = first + UInt32.ofNat position) :
    walk + Core.distance amount = first + UInt32.ofNat (position + offset) := by
  rw [isWalk, isAmount, Core.distance_natCast, UInt32.add_assoc,
    UInt32.ofNat_add]

/-- The registers that a move counts with are the same. -/
def SameWalk (before after : Core) : Prop :=
  ∀ register ∈ [13, 14, (15 : RegNum)], after.reg register = before.reg register

theorem SameWalk.trans {first second third : Core}
    (before : SameWalk first second) (behind : SameWalk second third) :
    SameWalk first third :=
  fun register isWalk => (behind register isWalk).trans (before register isWalk)

theorem SameWalk.scratch (core : Core) (word : UInt32) :
    SameWalk core (core.setReg 11 word) := by
  intro register isWalk
  rw [Core.reg_setReg_other]
  rintro rfl
  exact absurd isWalk (by decide)

theorem toNat_add_mod_four {address : UInt32} {count : Nat}
    (first : address.toNat % 4 = 0) (second : count % 4 = 0) :
    (address + UInt32.ofNat count).toNat % 4 = 0 := by
  rw [UInt32.toNat_add, UInt32.toNat_ofNat']
  omega

theorem moveWord (site : LoadSite setting start source stage length aligned)
    (position offset : Nat) {amount : Int} (isAmount : amount = offset)
    (moved : Copied start source stage length (position + offset) core log)
    (atSource : core.reg 14 = source + UInt32.ofNat position)
    (atStage : core.reg 15 = stage + UInt32.ofNat position)
    (fits : position + offset + 4 ≤ length)
    (whole : (position + offset) % 4 = 0) (continues : ∀ next logged,
      Copied start source stage length (position + offset + 4) next logged →
        SameWalk core next →
      Leads setting goal rest next logged) :
    Leads setting goal
      ((if aligned then lw scratch memoryWalk amount
        else loadUnaligned scratch memoryWalk amount)
        ++ (sw scratch stagingWalk amount ++ rest)) core log := by
  have short := site.short
  have small : core.ram.size < 2 ^ 32 := moved.size ▸ site.small
  have fromAddress := walk_address isAmount atSource
  have toAddress := walk_address isAmount atStage
  have reads : ∀ other ∈
      (⟨source + UInt32.ofNat (position + offset), 4⟩ : Region),
      setting.may false other :=
    fun other inside => site.reads other (Region.mem_of_part inside fits)
  have served : setting.mayTrap ∨
      core.ram.Serves ⟨source + UInt32.ofNat (position + offset), 4⟩ :=
    site.served.imp_right fun serves => moved.serves (serves.part fits)
  have loaded : ∀ logged, log <:+ logged →
      Touched logged false ⟨source + UInt32.ofNat (position + offset), 4⟩ →
      Leads setting goal (sw scratch stagingWalk amount ++ rest)
        (core.setReg 11
          (core.ram.word (source + UInt32.ofNat (position + offset))))
          logged := by
    intro logged later touched
    have movedLater : Copied start source stage length (position + offset)
        (core.setReg 11
          (core.ram.word (source + UInt32.ofNat (position + offset)))) logged :=
      { moved.setReg (by decide) _ with touched := moved.touched.mono later }
    apply Leads.sw (stage + UInt32.ofNat (position + offset))
    · rw [index_stagingWalk, Core.reg_setReg_other _ _ _ _ (by decide)]
      exact toAddress
    · exact fun other inside =>
        site.stages other (Region.mem_of_part inside (by omega))
    · refine site.stageServed.imp_right fun ⟨isAligned, serves⟩ => ⟨?_, ?_⟩
      · exact toNat_add_mod_four isAligned whole
      · exact movedLater.serves (serves.part (by omega))
    · intro storeLogged afterStore _ present
      apply continues
      · rw [index_scratch, Core.reg_setReg_same _ _ _ (by decide), Ram.cut_word]
        refine movedLater.store site.small ?_ fits short ?_ present afterStore
          (touched.mono afterStore)
        · rfl
        intro index below
        have inWord : index < 4 := below
        have further :
            ∀ number, source + UInt32.ofNat (position + offset + number) =
            source + UInt32.ofNat (position + offset) +
              UInt32.ofNat number := by
          intro number
          rw [UInt32.add_assoc, ← UInt32.ofNat_add]
        rw [Core.ram_setReg, further]
        match index, inWord with
        | 0, _ => simp
        | 1, _ => simp
        | 2, _ => simp
        | 3, _ => simp
      · exact SameWalk.scratch core _
  cases isAligned : aligned with
  | true =>
      refine Leads.lw _ fromAddress small reads ?_ loaded
      rcases site.wordAligned isAligned with traps | atWord
      · exact .inl traps
      · exact served.imp_right fun serves =>
          ⟨toNat_add_mod_four atWord whole, serves⟩
  | false =>
      exact Leads.loadUnaligned _ fromAddress small (by decide)
        (by decide) reads served loaded

theorem moveByte (site : LoadSite setting start source stage length aligned)
    (position offset : Nat) {amount : Int} (isAmount : amount = offset)
    (moved : Copied start source stage length (position + offset) core log)
    (atSource : core.reg 14 = source + UInt32.ofNat position)
    (atStage : core.reg 15 = stage + UInt32.ofNat position)
    (fits : position + offset + 1 ≤ length)
    (continues : ∀ next logged,
      Copied start source stage length (position + offset + 1) next logged →
        SameWalk core next →
      Leads setting goal rest next logged) :
    Leads setting goal
      (lbu scratch memoryWalk amount ++ (sb scratch stagingWalk amount ++ rest))
        core log := by
  have short := site.short
  have small : core.ram.size < 2 ^ 32 := moved.size ▸ site.small
  apply Leads.lbu (source + UInt32.ofNat (position + offset))
    (walk_address isAmount atSource)
  · exact site.reads _ (Region.mem_of_lt (by omega))
  · exact site.served.imp_right fun serves => moved.serves (serves.part fits)
  intro logged later touched
  have movedLater : Copied start source stage length (position + offset)
      (core.setReg 11
        (core.ram.peek (source + UInt32.ofNat (position + offset))).toUInt32)
      logged :=
    { moved.setReg (by decide) _ with touched := moved.touched.mono later }
  apply Leads.sb (stage + UInt32.ofNat (position + offset))
  · rw [index_stagingWalk, Core.reg_setReg_other _ _ _ _ (by decide)]
    exact walk_address isAmount atStage
  · exact site.stages _ (Region.mem_of_lt (by omega))
  · refine site.stageServed.imp_right fun ⟨_, serves⟩ => ?_
    exact movedLater.serves (serves.part (by omega))
  intro storeLogged afterStore _ present
  apply continues
  · rw [index_scratch, Core.reg_setReg_same _ _ _ (by decide)]
    refine movedLater.store site.small ?_ fits short ?_ present afterStore
      (touched.mono afterStore)
    · rfl
    intro index below
    have zero : index = 0 := Nat.lt_one_iff.mp below
    subst zero
    rw [Core.ram_setReg]
    simp
  · exact SameWalk.scratch core _

/-- A load in front of a chunk. -/
structure Loading (start : Core) (source stage : UInt32) (length position : Nat)
    (core : Core) (log : List Access) : Prop where
  moved : Copied start source stage length position core log
  inside : position ≤ length
  remaining : core.reg 13 = UInt32.ofNat (length - position)
  atSource : core.reg 14 = source + UInt32.ofNat position
  atStage : core.reg 15 = stage + UInt32.ofNat position

theorem ofNat_lt_ofNat {first second : Nat} (firstSmall : first < 2 ^ 32)
    (secondSmall : second < 2 ^ 32) : UInt32.ofNat first < UInt32.ofNat second ↔
      first < second := by
  rw [UInt32.lt_iff_toNat_lt, UInt32.toNat_ofNat_of_lt' firstSmall,
    UInt32.toNat_ofNat_of_lt' secondSmall]

theorem ofNat_add_distance_neg {number chunk : Nat} {amount : Int}
    (isAmount : amount = -(chunk : Int)) (fits : chunk ≤ number)
    (small : number < 2 ^ 32) :
    UInt32.ofNat number + Core.distance amount =
      UInt32.ofNat (number - chunk) := by
  apply UInt32.toNat_inj.mp
  unfold Core.distance
  rw [isAmount, UInt32.toNat_add, UInt32.toNat_ofNat', Word.toNat_ofInt,
    UInt32.toNat_ofNat']
  omega

/-- The register that counts the bytes that remain is zero behind the last byte
only. -/
theorem remaining_eq_zero_iff {count : UInt32} {length position : Nat}
    (isCount : count = UInt32.ofNat (length - position)) (short : length < 16)
    (inside : position ≤ length) : count = 0 ↔ position = length := by
  rw [isCount, ← UInt32.toNat_inj,
    UInt32.toNat_ofNat_of_lt' (show _ < 2 ^ 32 by omega)]
  change length - position = 0 ↔ _
  omega

theorem testChunk {count chunk : Nat} {amount : Int} (isAmount : amount = chunk)
    (isCount : core.reg 13 = UInt32.ofNat count) (short : count < 16)
    (small : chunk ≤ 8) {ahead : Fragment} {skip : Label}
    (skips : count < chunk → ∀ word,
      Leads setting goal (setting.target skip) (core.setReg 11 word) log)
    (moves : chunk ≤ count →
      ∀ word, Leads setting goal ahead (core.setReg 11 word) log) :
    Leads setting goal
      (sltiu scratch remaining amount ++ (bnez scratch skip ++ ahead)) core
      log := by
  have isLess : core.reg 13 < Core.distance amount ↔ count < chunk := by
    rw [isCount, isAmount, Core.distance_natCast]
    exact ofNat_lt_ofNat (by omega) (by omega)
  apply Leads.sltiu
  rw [index_scratch, index_remaining]
  apply Leads.bnez
  · intro isSet
    apply skips
    by_contra notLess
    rw [index_scratch, Core.reg_setReg_same _ _ _ (by decide)] at isSet
    simp [isLess, notLess, Core.boolWord] at isSet
  · intro isClear
    apply moves
    by_contra less
    rw [index_scratch, Core.reg_setReg_same _ _ _ (by decide)] at isClear
    simp [isLess, Nat.lt_of_not_le less, Core.boolWord] at isClear

theorem Loading.scratch {position : Nat}
    (loading : Loading start source stage length position core log)
    (word : UInt32) :
    Loading start source stage length position (core.setReg 11 word) log where
  moved := loading.moved.setReg (by decide) word
  inside := loading.inside
  remaining := (SameWalk.scratch core word 13 (by decide)).trans
    loading.remaining
  atSource := (SameWalk.scratch core word 14 (by decide)).trans loading.atSource
  atStage := (SameWalk.scratch core word 15 (by decide)).trans loading.atStage

/-- A chunk is moved if that many bytes remain; `ahead` is the code that moves
it, with the code that counts it. -/
theorem loadChunk {position : Nat} (chunk : Nat) {amount : Int}
    (isAmount : amount = chunk) {ahead : Fragment} {skip : Label}
    (loading : Loading start source stage length position core log)
    (small : chunk ≤ 8) (few : length - position < 2 * chunk)
    (resolves : Resolves setting.target (mark skip ++ rest))
    (runs : ∀ next logged, chunk ≤ length - position →
      Loading start source stage length position next logged →
      (∀ last all, Copied start source stage length (position + chunk)
        last all → SameWalk next last →
        Leads setting goal (addiu memoryWalk memoryWalk amount
          ++ (addiu stagingWalk stagingWalk amount
          ++ (addiu remaining remaining (-amount) ++ (mark skip ++ rest))))
            last all) →
      Leads setting goal ahead next logged)
    (continues : ∀ later next logged, length - later < chunk →
      later = position ∨ later = position + chunk →
      Loading start source stage length later next logged →
        Leads setting goal rest next logged) :
    Leads setting goal
      (sltiu scratch remaining amount ++ (bnez scratch skip ++ ahead)) core
        log := by
  apply testChunk isAmount loading.remaining (by omega) small
  · intro less word
    rw [resolves.mark]
    exact continues position _ _ less (.inl rfl) (loading.scratch word)
  · intro enough word
    apply runs _ _ enough (loading.scratch word)
    intro last all moved sameWalk
    apply Leads.addiu
    apply Leads.addiu
    apply Leads.addiu
    apply Leads.marked
    have inside := loading.inside
    apply continues (position + chunk) _ _ (by omega) (.inr rfl)
    constructor
    · exact ((moved.setReg (by decide) _).setReg (by decide) _).setReg
        (by decide) _
    · omega
    · simp only [index_remaining, index_memoryWalk, index_stagingWalk,
        Core.reg_setReg_other, ne_eq, Fin.reduceEq, not_false_eq_true]
      rw [Core.reg_setReg_same _ _ _ (by decide), sameWalk 13 (by decide),
        (loading.scratch word).remaining,
        ofNat_add_distance_neg (by rw [isAmount]) enough (by omega)]
      congr 1
      omega
    · simp only [index_remaining, index_memoryWalk, index_stagingWalk,
        Core.reg_setReg_other, ne_eq, Fin.reduceEq, not_false_eq_true]
      rw [Core.reg_setReg_same _ _ _ (by decide), sameWalk 14 (by decide)]
      exact walk_address isAmount (loading.scratch word).atSource
    · simp only [index_remaining, index_memoryWalk, index_stagingWalk,
        Core.reg_setReg_other, ne_eq, Fin.reduceEq, not_false_eq_true]
      rw [Core.reg_setReg_same _ _ _ (by decide), sameWalk 15 (by decide)]
      exact walk_address isAmount (loading.scratch word).atStage

/-- What a load of a partial vector leaves behind. -/
structure Loaded (start : Core) (target : RegNum) (source stage : UInt32)
    (length : Nat) (core : Core) (log : List Access) : Prop where
  keeps : start.Keeps working [target] core
  base : core.ram.base = start.ram.base
  size : core.ram.size = start.ram.size
  peek : ∀ address ∉ (⟨stage, 16⟩ : Region),
    core.ram.peek address = start.ram.peek address
  loaded : Region.Apart ⟨source, length⟩ ⟨stage, 16⟩ → ∀ index < length,
    (core.vector target).byte index =
      start.ram.peek (source + UInt32.ofNat index)
  touched : Touched log false ⟨source, length⟩

theorem byte_vectorAt (ram : Ram) (address : UInt32) {index : Nat}
    (inside : index < 16) :
    (ram.vectorAt address).byte index =
      ram.peek (address + UInt32.ofNat index) :=
  VectorRegister.byte_ofFn _ inside

/-- The registers of a load are set up. -/
theorem beginLoad {pointer : Reg} {offset : Int}
    (isLength : core.reg 10 = UInt32.ofNat length)
    (isSource : core.reg pointer.index + Core.distance offset = source)
    (isStage : core.reg 29 + Core.distance Frame.staging = stage)
    (notWorking : pointer.index ∉ working)
    (continues : ∀ next, Loading core source stage length 0 next log →
      Leads setting goal rest next log) :
    Leads setting goal (move remaining tailBytes
      ++ ((if offset = 0 then move memoryWalk pointer
           else addiu memoryWalk pointer offset)
      ++ (addiu stagingWalk .sp Frame.staging ++ rest))) core log := by
  have samePointer : (core.setReg 13 (core.reg 10)).reg pointer.index =
      core.reg pointer.index := by
    rw [Core.reg_setReg_other]
    rintro same
    exact notWorking (by rw [same]; decide)
  have walked : Leads setting goal (addiu stagingWalk .sp Frame.staging ++ rest)
      ((core.setReg 13 (core.reg 10)).setReg 14 source) log := by
    apply Leads.addiu
    apply continues
    simp only [index_stagingWalk, Reg.index_sp]
    refine ⟨⟨?_, ?_, ?_, ?_, ?_, ?_⟩, Nat.zero_le _, ?_, ?_, ?_⟩
    · exact (((Core.Keeps.refl core).setReg (by decide) _).setReg (by decide)
        _).setReg (by decide) _
    · simp
    · simp
    · simp
    · intro _ index below
      exact absurd below (Nat.not_lt_zero _)
    · intro address inside
      exact absurd inside (Nat.not_lt_zero _)
    · rw [Core.reg_setReg_other _ _ _ _ (by decide),
        Core.reg_setReg_other _ _ _ _ (by decide),
        Core.reg_setReg_same _ _ _ (by decide), isLength]
      rfl
    · rw [Core.reg_setReg_other _ _ _ _ (by decide),
        Core.reg_setReg_same _ _ _ (by decide)]
      exact (UInt32.add_zero source).symm
    · rw [Core.reg_setReg_same _ _ _ (by decide),
        Core.reg_setReg_other _ _ _ _ (by decide),
        Core.reg_setReg_other _ _ _ _ (by decide), isStage]
      exact (UInt32.add_zero stage).symm
  apply Leads.move
  rw [index_remaining, index_tailBytes]
  split
  case isTrue zero =>
    apply Leads.move
    have isPointer : core.reg pointer.index = source := by
      simpa [zero] using isSource
    rw [index_memoryWalk, samePointer, isPointer]
    exact walked
  case isFalse nonzero =>
    apply Leads.addiu
    rw [index_memoryWalk, samePointer, isSource]
    exact walked

theorem loadStaged (site : LoadSite setting start source stage length aligned)
    {wd : Reg} (isStage : start.reg 29 + Core.distance Frame.staging = stage)
    (readsStage : ∀ address ∈ (⟨stage, 16⟩ : Region), setting.may false address)
    (moved : Copied start source stage length length core log)
    (continues : ∀ next logged,
      Loaded start wd.index source stage length next logged →
        Leads setting goal rest next logged) :
    Leads setting goal (insn (.ld .byte wd .sp Frame.staging) ++ rest) core
      log := by
  have short := site.short
  apply Leads.ld (show DataFormat.Named .byte by decide) stage
  · rw [Reg.index_sp, moved.keeps.reg 29 (by decide)]
    exact isStage
  · exact moved.size ▸ site.small
  · exact readsStage
  · exact site.stageServed.imp_right fun ⟨_, serves⟩ => moved.serves serves
  · intro afterLoad later _
    apply continues
    refine ⟨(moved.keeps.mono (List.Subset.refl _)
      (List.nil_subset _)).setVector List.mem_cons_self _, moved.base,
        moved.size, moved.peek, ?_, moved.touched.mono later⟩
    intro apart index below
    rw [Core.vector_setVector, if_pos rfl, byte_vectorAt _ _ (by omega)]
    exact moved.copied apart index below

theorem moveLast (site : LoadSite setting start source stage length aligned)
    {position : Nat} {skip : Label}
    (loading : Loading start source stage length position core log)
    (few : length - position < 2)
    (resolves : Resolves setting.target (mark skip ++ rest))
    (continues : ∀ next logged,
      Copied start source stage length length next logged →
        Leads setting goal rest next logged) :
    Leads setting goal (beqz remaining skip ++ (lbu scratch memoryWalk 0
      ++ (sb scratch stagingWalk 0 ++ (mark skip ++ rest)))) core log := by
  have none := remaining_eq_zero_iff loading.remaining site.short loading.inside
  apply Leads.beqz
  · intro isZero
    rw [resolves.mark]
    exact continues core log (none.mp isZero ▸ loading.moved)
  · intro notZero
    have one : position + 1 = length := by
      have more := mt none.mpr notZero
      have inside := loading.inside
      omega
    apply moveByte site position 0 rfl loading.moved loading.atSource
      loading.atStage (by omega)
    intro last all moved _
    apply Leads.marked
    exact continues last all (one ▸ moved)

/-- A load of the bytes that do not fill a vector. -/
theorem load (site : LoadSite setting core source stage length aligned)
    {wd pointer : Reg} {offset : Int} {first : Label}
    (isLength : core.reg 10 = UInt32.ofNat length)
    (isSource : core.reg pointer.index + Core.distance offset = source)
    (isStage : core.reg 29 + Core.distance Frame.staging = stage)
    (notWorking : pointer.index ∉ working)
    (readsStage : ∀ address ∈ (⟨stage, 16⟩ : Region), setting.may false address)
    (resolves : Resolves setting.target
      (Staging.load wd pointer offset aligned first ++ rest))
    (continues : ∀ next logged,
      Loaded core wd.index source stage length next logged →
        Leads setting goal rest next logged) :
    Leads setting goal (Staging.load wd pointer offset aligned first ++ rest)
      core log := by
  have short := site.short
  unfold Staging.load Staging.loadChunk at resolves ⊢
  simp only [List.flatMap_cons, List.flatMap_nil, List.append_nil,
    List.append_assoc] at resolves ⊢
  have afterEight := resolves.behindFour.behindFour.behindFour
  have afterFour := afterEight.behindFour.behindFour
  have afterTwo := afterFour.behindFour.behindFour.behind.behind
  have afterOne := afterTwo.behindFour
  refine beginLoad isLength isSource isStage notWorking fun begun loading => ?_
  -- eight bytes
  apply loadChunk 8 rfl loading (by decide) (by omega) afterEight
  · intro next logged enough loading counts
    apply moveWord site 0 0 rfl loading.moved loading.atSource loading.atStage
      (by omega) (by decide)
    intro middle between moved sameWalk
    apply moveWord site 0 4 rfl moved
      ((sameWalk 14 (by decide)).trans loading.atSource)
      ((sameWalk 15 (by decide)).trans loading.atStage) (by omega) (by decide)
    intro last all movedAll sameAll
    exact counts last all movedAll (sameWalk.trans sameAll)
  intro position next logged few whole loading
  -- four bytes
  apply loadChunk 4 rfl loading (by decide) few afterFour
  · intro next logged enough loading counts
    apply moveWord site position 0 rfl loading.moved loading.atSource
      loading.atStage (by omega) (by omega)
    exact counts
  intro position next logged few _ loading
  -- two bytes
  apply loadChunk 2 rfl loading (by decide) few afterTwo
  · intro next logged enough loading counts
    apply moveByte site position 0 rfl loading.moved loading.atSource
      loading.atStage (by omega)
    intro middle between moved sameWalk
    apply moveByte site position 1 rfl moved
      ((sameWalk 14 (by decide)).trans loading.atSource)
      ((sameWalk 15 (by decide)).trans loading.atStage) (by omega)
    intro last all movedAll sameAll
    exact counts last all movedAll (sameWalk.trans sameAll)
  intro position next logged few _ loading
  -- the last byte, and the vector from the staging area
  refine moveLast site loading few afterOne fun last all moved => ?_
  exact loadStaged site isStage readsStage moved continues

end Load

/-- What a store of `length` bytes relies on. -/
structure StoreSite (setting : Setting) (start : Core) (target : UInt32)
    (length : Nat) (aligned : Bool) : Prop where
  small : start.ram.size < 2 ^ 32
  short : length < 16
  writes : ∀ address ∈ (⟨target, length⟩ : Region), setting.may true address
  served : setting.mayTrap ∨ start.ram.Serves ⟨target, length⟩
  wordAligned : aligned = true → setting.mayTrap ∨ target.toNat % 4 = 0

/-- The first `count` bytes of a value have been stored. -/
structure Stored (start : Core) (value : VectorRegister) (target : UInt32)
    (count : Nat) (core : Core) (log : List Access) : Prop where
  keeps : start.Keeps working [15] core
  base : core.ram.base = start.ram.base
  size : core.ram.size = start.ram.size
  peek : ∀ address ∉ (⟨target, count⟩ : Region),
    core.ram.peek address = start.ram.peek address
  stored : ∀ index < count, core.ram.peek (target + UInt32.ofNat index) =
    value.byte index
  touched : Touched log true ⟨target, count⟩

section Store

variable {setting : Setting} {goal : Goal} {start core : Core}
  {value : VectorRegister} {target : UInt32} {length : Nat} {aligned : Bool}
  {log : List Access} {rest : Fragment}

theorem Stored.serves {count : Nat}
    (stored : Stored start value target count core log) {region : Region}
    (served : start.ram.Serves region) : core.ram.Serves region := by
  refine ⟨served.below, ?_⟩
  have same : core.ram.available region.start =
      start.ram.available region.start := by
    unfold Ram.available
    rw [stored.base, stored.size]
  exact same ▸ served.inside

theorem Stored.setReg {count : Nat}
    (stored : Stored start value target count core log) {register : RegNum}
    (isWorking : register ∈ working) (word : UInt32) :
    Stored start value target count (core.setReg register word) log where
  keeps := stored.keeps.setReg isWorking word
  base := by
    rw [Core.ram_setReg]
    exact stored.base
  size := by
    rw [Core.ram_setReg]
    exact stored.size
  peek address outside := by
    rw [Core.ram_setReg]
    exact stored.peek address outside
  stored index below := by
    rw [Core.ram_setReg]
    exact stored.stored index below
  touched := stored.touched

theorem Stored.setVector {count : Nat}
    (stored : Stored start value target count core log)
    (other : VectorRegister) :
    Stored start value target count (core.setVector 15 other) log :=
  { stored with keeps := stored.keeps.setVector List.mem_cons_self other }

theorem Stored.store {count more : Nat} {data : List UInt8}
    {logged : List Access} (stored : Stored start value target count core log)
    (small : start.ram.size < 2 ^ 32) (isLength : data.length = more)
    (short : count + more ≤ 16)
    (isData : ∀ index (below : index < data.length),
      data[index] = value.byte (count + index))
    (present : more ≤ core.ram.available (target + UInt32.ofNat count))
    (later : log <:+ logged)
    (touched : Touched logged true ⟨target + UInt32.ofNat count, more⟩) :
    Stored start value target (count + more)
      (core.store (target + UInt32.ofNat count) data) logged where
  keeps := stored.keeps.store _ _
  base := stored.base
  size := by
    rw [Core.ram_store, Ram.size_store]
    exact stored.size
  peek address outside := by
    have outsidePart :
        address ∉ (⟨target + UInt32.ofNat count, data.length⟩ : Region) :=
      fun inPart => outside (Region.mem_of_part inPart (by omega))
    have outsideFront : address ∉ (⟨target, count⟩ : Region) := by
      intro inFront
      apply outside
      rw [Region.mem_iff] at inFront ⊢
      exact Nat.lt_of_lt_of_le inFront (Nat.le_add_right _ _)
    rw [Core.ram_store,
      Ram.peek_store_of_not_mem (stored.size ▸ small.le) (by omega) outsidePart]
    exact stored.peek address outsideFront
  stored index below := by
    rw [Core.ram_store,
      Ram.peek_store_append (stored.size ▸ small.le) (by omega) (by omega)
        (by omega)]
    split
    case isTrue before => exact stored.stored index before
    case isFalse behind =>
      rw [List.getD_eq_getElem?_getD, List.getElem?_eq_getElem (by omega),
        Option.getD_some, isData _ (by omega),
        Nat.add_sub_cancel' (Nat.le_of_not_lt behind)]
  touched := stored.touched.append later touched

theorem drainWord (site : StoreSite setting start target length aligned)
    (position offset lane : Nat) {amount number : Int}
    (isAmount : amount = offset) (isNumber : number = lane)
    (isLane : lane * 4 = offset)
    (stored : Stored start value target (position + offset) core log)
    (atTarget : core.reg 14 = target + UInt32.ofNat position)
    (isValue : ∀ index < 4,
      (core.vector 15).byte (offset + index) =
        value.byte (position + offset + index))
    (fits : position + offset + 4 ≤ length)
    (whole : (position + offset) % 4 = 0) (continues : ∀ next logged,
      Stored start value target (position + offset + 4) next logged →
        SameWalk core next →
      next.vector 15 = core.vector 15 → Leads setting goal rest next logged) :
    Leads setting goal
      (insn (.copyS .word scratch vectorScratch number)
        ++ ((if aligned then sw scratch memoryWalk amount
          else storeUnaligned scratch memoryWalk amount) ++ rest)) core
            log := by
  have short := site.short
  have small : core.ram.size < 2 ^ 32 := stored.size ▸ site.small
  obtain ⟨word, isWord⟩ : ∃ word, word =
      (Lane.signExtend ((core.vector 15).lane 4 lane) 4).toUInt64.toUInt32 :=
  ⟨_, rfl⟩
  have isData : MemOp.cut word 0 4 = (List.range 4).map fun index =>
      value.byte (position + offset + index) := by
    have byteAt : ∀ index < 4, (word >>> UInt32.ofNat (8 * index)).toUInt8 =
        value.byte (position + offset + index) := by
      intro index below
      rw [isWord, Lane.cut_toUInt32 _ below,
        Lane.byte_signExtend _ (by decide) below,
        VectorRegister.byte_lane _ _ _ _ (by decide), if_pos below, isLane,
        isValue index below]
    simp only [MemOp.cut, List.range_succ, List.range_zero, List.nil_append,
      List.map_cons, List.map_nil, List.cons_append]
    rw [byteAt 0 (by decide), byteAt 1 (by decide), byteAt 2 (by decide),
      byteAt 3 (by decide)]
  have regular : (Insn.copyS .word scratch vectorScratch number).Regular :=
    ⟨show DataFormat.Named .word by decide,
      fun unsupported => by cases unsupported⟩
  have isEffect : (Insn.copyS .word scratch vectorScratch number).effect core =
      .general 11 word := by
    rw [isWord, isNumber]
    rfl
  apply Leads.general regular isEffect rfl
  have storedLater :
      Stored start value target (position + offset) (core.setReg 11 word) log :=
    stored.setReg (by decide) word
  have isAddress : (core.setReg 11 word).reg 14 + Core.distance amount =
      target + UInt32.ofNat (position + offset) := by
    rw [Core.reg_setReg_other _ _ _ _ (by decide)]
    exact walk_address isAmount atTarget
  have writes : ∀ other ∈
      (⟨target + UInt32.ofNat (position + offset), 4⟩ : Region),
      setting.may true other :=
    fun other inside => site.writes other (Region.mem_of_part inside fits)
  have served : setting.mayTrap ∨
      (core.setReg 11 word).ram.Serves
      ⟨target + UInt32.ofNat (position + offset), 4⟩ :=
    site.served.imp_right fun serves => storedLater.serves (serves.part fits)
  have behindStore : ∀ logged, log <:+ logged →
      Touched logged true ⟨target + UInt32.ofNat (position + offset), 4⟩ →
      4 ≤ (core.setReg 11 word).ram.available
        (target + UInt32.ofNat (position + offset)) →
      Leads setting goal rest ((core.setReg 11 word).store
        (target + UInt32.ofNat (position + offset))
        (MemOp.cut ((core.setReg 11 word).reg 11) 0 4)) logged := by
    intro logged later touched present
    rw [Core.reg_setReg_same _ _ _ (by decide)]
    apply continues
    · refine storedLater.store site.small ?_ (by omega) ?_ present later touched
      · simp [MemOp.cut]
      · intro index below
        simp only [isData] at below ⊢
        simp
    · exact SameWalk.scratch core word
    · rw [Core.vector_store, Core.vector_setReg]
  cases isAligned : aligned with
  | true =>
      refine Leads.sw _ isAddress writes ?_ behindStore
      rcases site.wordAligned isAligned with traps | atWord
      · exact .inl traps
      · exact served.imp_right fun serves =>
          ⟨toNat_add_mod_four atWord whole, serves⟩
  | false =>
      exact Leads.storeUnaligned _ isAddress (by simpa using small) writes
        served behindStore

/-- A store in front of a chunk. -/
structure Storing (start : Core) (value : VectorRegister) (target : UInt32)
    (length position valid : Nat) (core : Core) (log : List Access) : Prop where
  stored : Stored start value target position core log
  inside : position ≤ length
  remaining : core.reg 13 = UInt32.ofNat (length - position)
  atTarget : core.reg 14 = target + UInt32.ofNat position
  isValue : ∀ index < valid,
    (core.vector 15).byte index = value.byte (position + index)

theorem Storing.scratch {position valid : Nat}
    (storing : Storing start value target length position valid core log)
    (word : UInt32) :
    Storing start value target length position valid (core.setReg 11 word)
      log where
  stored := storing.stored.setReg (by decide) word
  inside := storing.inside
  remaining := (SameWalk.scratch core word 13 (by decide)).trans
    storing.remaining
  atTarget := (SameWalk.scratch core word 14 (by decide)).trans storing.atTarget
  isValue := by
    rw [Core.vector_setReg]
    exact storing.isValue

/-- A chunk is stored if that many bytes remain; `ahead` is the code that stores
it and shifts the vector, with the code that counts it. -/
theorem drainChunk {position : Nat} (chunk : Nat) {amount : Int}
    (isAmount : amount = chunk) {ahead : Fragment} {skip : Label}
    (storing : Storing start value target length position (2 * chunk) core log)
    (small : chunk ≤ 8) (few : length - position < 2 * chunk)
    (resolves : Resolves setting.target (mark skip ++ rest))
    (runs : ∀ next logged, chunk ≤ length - position →
      Storing start value target length position (2 * chunk) next logged →
      (∀ last all, Stored start value target (position + chunk) last all →
        SameWalk next last →
        (∀ index < chunk,
          (last.vector 15).byte index = value.byte (position + chunk + index)) →
        Leads setting goal (addiu memoryWalk memoryWalk amount
          ++ (addiu remaining remaining (-amount) ++ (mark skip ++ rest)))
            last all) →
      Leads setting goal ahead next logged)
    (continues : ∀ later next logged, length - later < chunk →
      later = position ∨ later = position + chunk →
      Storing start value target length later chunk next logged →
      Leads setting goal rest next logged) :
    Leads setting goal
      (sltiu scratch remaining amount ++ (bnez scratch skip ++ ahead)) core
        log := by
  apply testChunk isAmount storing.remaining (by omega) small
  · intro less word
    have tested := storing.scratch word
    rw [resolves.mark]
    exact continues position _ _ less (.inl rfl)
      { tested with
        isValue := fun index below => tested.isValue index (by omega) }
  · intro enough word
    apply runs _ _ enough (storing.scratch word)
    intro last all stored sameWalk isValue
    apply Leads.addiu
    apply Leads.addiu
    apply Leads.marked
    have inside := storing.inside
    apply continues (position + chunk) _ _ (by omega) (.inr rfl)
    constructor
    · exact (stored.setReg (by decide) _).setReg (by decide) _
    · omega
    · simp only [index_remaining, index_memoryWalk, Core.reg_setReg_other,
        ne_eq, Fin.reduceEq, not_false_eq_true]
      rw [Core.reg_setReg_same _ _ _ (by decide), sameWalk 13 (by decide),
        (storing.scratch word).remaining,
        ofNat_add_distance_neg (by rw [isAmount]) enough (by omega)]
      congr 1
      omega
    · simp only [index_remaining, index_memoryWalk, Core.reg_setReg_other,
        ne_eq, Fin.reduceEq, not_false_eq_true]
      rw [Core.reg_setReg_same _ _ _ (by decide), sameWalk 14 (by decide)]
      exact walk_address isAmount (storing.scratch word).atTarget
    · simpa only [Core.vector_setReg] using isValue

theorem drainByte (site : StoreSite setting start target length aligned)
    (position offset : Nat) {amount : Int} (isAmount : amount = offset)
    (stored : Stored start value target (position + offset) core log)
    (atTarget : core.reg 14 = target + UInt32.ofNat position)
    (isByte : (core.reg 11).toUInt8 = value.byte (position + offset))
    (fits : position + offset + 1 ≤ length)
    (continues : ∀ next logged,
      Stored start value target (position + offset + 1) next logged →
        SameWalk core next →
      next.reg 11 = core.reg 11 → next.vector 15 = core.vector 15 →
      Leads setting goal rest next logged) :
    Leads setting goal (sb scratch memoryWalk amount ++ rest) core log := by
  have short := site.short
  apply Leads.sb (target + UInt32.ofNat (position + offset))
    (walk_address isAmount atTarget)
  · exact site.writes _ (Region.mem_of_lt (by omega))
  · exact site.served.imp_right fun serves => stored.serves (serves.part fits)
  intro logged later touched present
  apply continues
  · refine stored.store site.small ?_ (by omega) ?_ present later touched
    · rfl
    intro index below
    have zero : index = 0 := Nat.lt_one_iff.mp below
    subst zero
    exact isByte
  · exact fun register _ => rfl
  · rfl
  · rfl

/-- Lanes go down by two; what comes from above is not looked at. -/
theorem shiftDown {df : DataFormat} (isNamed : df.Named) (chunk : Nat)
    (isChunk : 2 * df.bytes = chunk) (small : df.bytes ≤ 4)
    (continues : ∀ next, (∀ index < chunk,
        (next.vector 15).byte index = (core.vector 15).byte (index + chunk)) →
      next = core.setVector 15 (next.vector 15) →
        Leads setting goal rest next log) :
    Leads setting goal (insn (.shf df vectorScratch vectorScratch 0x4e) ++ rest)
      core log := by
  refine Leads.vector ?_ rfl rfl ?_
  · exact ⟨isNamed, id⟩
  apply continues
  · intro index below
    rw [index_vectorScratch, Core.vector_setVector, if_pos rfl, ← isChunk]
    exact VectorRegister.byte_shuffle _ small (isChunk ▸ below)
  · rw [index_vectorScratch, Core.vector_setVector, if_pos rfl]

theorem toUInt8_toUInt32 (word : UInt64) :
    word.toUInt32.toUInt8 = Lane.byte word 0 := by
  have low := Lane.cut_toUInt32 word (show 0 < 4 by decide)
  simpa using low

theorem beginStore {ws pointer : Reg}
    (isLength : core.reg 10 = UInt32.ofNat length)
    (isTarget : core.reg pointer.index = target)
    (notWorking : pointer.index ∉ working) (continues : ∀ next,
      Storing core (core.vector ws.index) target length 0 16 next log →
      Leads setting goal rest next log) :
    Leads setting goal (insn (.moveV vectorScratch ws)
      ++ (move remaining tailBytes ++ (move memoryWalk pointer ++ rest))) core
        log := by
  have notRemaining : pointer.index ≠ 13 := by
    intro same
    exact notWorking (same ▸ by decide)
  refine Leads.vector ⟨trivial, id⟩ rfl rfl ?_
  apply Leads.move
  apply Leads.move
  apply continues
  simp only [index_remaining, index_tailBytes, index_memoryWalk,
    index_vectorScratch, Core.reg_setVector]
  refine ⟨⟨?_, ?_, ?_, ?_, ?_, ?_⟩, Nat.zero_le _, ?_, ?_, ?_⟩
  · exact (((Core.Keeps.refl core).setVector List.mem_cons_self _).setReg
      (by decide) _).setReg (by decide) _
  · simp
  · simp
  · simp
  · intro index below
    exact absurd below (Nat.not_lt_zero _)
  · intro address inside
    exact absurd inside (Nat.not_lt_zero _)
  · rw [Core.reg_setReg_other _ _ _ _ (by decide),
      Core.reg_setReg_same _ _ _ (by decide), isLength]
    rfl
  · rw [Core.reg_setReg_same _ _ _ (by decide),
      Core.reg_setReg_other _ _ _ _ notRemaining, Core.reg_setVector, isTarget]
    exact (UInt32.add_zero target).symm
  · intro index _
    rw [Core.vector_setReg, Core.vector_setReg, Core.vector_setVector,
      if_pos rfl, Nat.zero_add]

theorem Storing.value_behind {position chunk : Nat} {last : Core}
    (storing : Storing start value target length position (2 * chunk) core log)
    (sameVector : last.vector 15 = core.vector 15) {shifted : VectorRegister}
    (isShifted : ∀ index < chunk,
      shifted.byte index = (last.vector 15).byte (index + chunk)) :
    ∀ index < chunk,
      shifted.byte index = value.byte (position + chunk + index) := by
  intro index below
  rw [isShifted index below, sameVector, storing.isValue _ (by omega)]
  congr 1
  omega

theorem drainWords (site : StoreSite setting start target length aligned)
    {position : Nat}
    (storing : Storing start value target length position 16 core log)
    (enough : position + 8 ≤ length) (whole : position % 4 = 0)
    (continues : ∀ next logged,
      Stored start value target (position + 8) next logged →
        SameWalk core next →
      (∀ index < 8, (next.vector 15).byte index =
        value.byte (position + 8 + index)) →
      Leads setting goal rest next logged) :
    Leads setting goal (insn (.copyS .word scratch vectorScratch 0)
      ++ ((if aligned then sw scratch memoryWalk 0
           else storeUnaligned scratch memoryWalk 0)
      ++ (insn (.copyS .word scratch vectorScratch 1)
      ++ ((if aligned then sw scratch memoryWalk 4
           else storeUnaligned scratch memoryWalk 4)
      ++ (insn (.shf .word vectorScratch vectorScratch 0x4e) ++ rest))))) core
        log := by
  refine drainWord site position 0 0 rfl rfl rfl storing.stored storing.atTarget
    ?_ (by omega) (by omega) ?_
  · intro index below
    rw [storing.isValue (0 + index) (by omega), Nat.add_assoc]
  intro middle between stored sameWalk sameVector
  refine drainWord site position 4 1 rfl rfl rfl stored
    ((sameWalk 14 (by decide)).trans storing.atTarget) ?_ (by omega)
    (by omega) ?_
  · intro index below
    rw [sameVector, storing.isValue (4 + index) (by omega), Nat.add_assoc]
  intro last all storedAll sameAll sameVectorAll
  apply shiftDown (show DataFormat.Named .word by decide) 8 rfl (by decide)
  intro shifted isShifted isCore
  rw [isCore]
  apply continues
  · exact storedAll.setVector _
  · exact sameWalk.trans sameAll
  · rw [Core.vector_setVector, if_pos rfl]
    exact storing.value_behind (sameVectorAll.trans sameVector) isShifted

theorem drainSingle (site : StoreSite setting start target length aligned)
    {position : Nat}
    (storing : Storing start value target length position 8 core log)
    (enough : position + 4 ≤ length) (whole : position % 4 = 0)
    (continues : ∀ next logged,
      Stored start value target (position + 4) next logged →
        SameWalk core next →
      (∀ index < 4, (next.vector 15).byte index =
        value.byte (position + 4 + index)) →
      Leads setting goal rest next logged) :
    Leads setting goal (insn (.copyS .word scratch vectorScratch 0)
      ++ ((if aligned then sw scratch memoryWalk 0
           else storeUnaligned scratch memoryWalk 0)
      ++ (insn (.shf .half vectorScratch vectorScratch 0x4e) ++ rest))) core
        log := by
  refine drainWord site position 0 0 rfl rfl rfl storing.stored storing.atTarget
    ?_ (by omega) (by omega) ?_
  · intro index below
    rw [storing.isValue (0 + index) (by omega), Nat.add_assoc]
  intro last all stored sameWalk sameVector
  apply shiftDown (show DataFormat.Named .half by decide) 4 rfl (by decide)
  intro shifted isShifted isCore
  rw [isCore]
  apply continues
  · exact stored.setVector _
  · exact sameWalk
  · rw [Core.vector_setVector, if_pos rfl]
    exact storing.value_behind sameVector isShifted

theorem drainBytes (site : StoreSite setting start target length aligned)
    {position : Nat}
    (storing : Storing start value target length position 4 core log)
    (enough : position + 2 ≤ length)
    (continues : ∀ next logged,
      Stored start value target (position + 2) next logged →
        SameWalk core next →
      (∀ index < 2, (next.vector 15).byte index =
        value.byte (position + 2 + index)) →
      Leads setting goal rest next logged) :
    Leads setting goal (insn (.copyU .half scratch vectorScratch 0)
      ++ (sb scratch memoryWalk 0
      ++ (srl scratch scratch 8 ++ (sb scratch memoryWalk 1
      ++ (insn (.shf .byte vectorScratch vectorScratch 0x4e) ++ rest))))) core
        log := by
  obtain ⟨word, isWord⟩ : ∃ word, word = (core.vector 15).lane 2 0 := ⟨_, rfl⟩
  have isByte : ∀ index < 2,
      Lane.byte word index = value.byte (position + index) := by
    intro index below
    rw [isWord, VectorRegister.byte_lane _ _ _ _ (by decide), if_pos below,
      storing.isValue _ (by omega)]
    congr 1
    omega
  have isEffect : (Insn.copyU .half scratch vectorScratch 0).effect core =
      .general 11 word.toUInt32 := by
    rw [isWord]
    rfl
  refine Leads.general ⟨show DataFormat.Named .half by decide, by decide⟩
    isEffect rfl ?_
  apply drainByte site position 0 rfl (storing.stored.setReg (by decide) _)
  · rw [Core.reg_setReg_other _ _ _ _ (by decide)]
    exact storing.atTarget
  · rw [Core.reg_setReg_same _ _ _ (by decide), toUInt8_toUInt32]
    exact isByte 0 (by decide)
  · omega
  intro middle between stored sameWalk sameScratch sameVector
  apply Leads.srl
  apply drainByte site position 1 rfl (stored.setReg (by decide) _)
  · rw [Core.reg_setReg_other _ _ _ _ (by decide), sameWalk 14 (by decide),
      Core.reg_setReg_other _ _ _ _ (by decide)]
    exact storing.atTarget
  · rw [index_scratch, Core.reg_setReg_same _ _ _ (by decide), sameScratch,
      Core.reg_setReg_same _ _ _ (by decide)]
    exact (Lane.cut_toUInt32 word (show 1 < 4 by decide)).trans
      (isByte 1 (by decide))
  · omega
  intro last all storedAll sameAll _ sameVectorAll
  apply shiftDown (show DataFormat.Named .byte by decide) 2 rfl (by decide)
  intro shifted isShifted isCore
  rw [isCore]
  apply continues
  · exact storedAll.setVector _
  · exact (((SameWalk.scratch core _).trans sameWalk).trans
      (SameWalk.scratch middle _)).trans sameAll
  · rw [Core.vector_setVector, if_pos rfl]
    refine storing.value_behind ?_ isShifted
    rw [sameVectorAll, Core.vector_setReg, sameVector, Core.vector_setReg]

theorem drainLast (site : StoreSite setting start target length aligned)
    {position : Nat} {skip : Label}
    (storing : Storing start value target length position 2 core log)
    (few : length - position < 2)
    (resolves : Resolves setting.target (mark skip ++ rest))
    (continues : ∀ next logged, Stored start value target length next logged →
      Leads setting goal rest next logged) :
    Leads setting goal
      (beqz remaining skip ++ (insn (.copyU .byte scratch vectorScratch 0)
      ++ (sb scratch memoryWalk 0 ++ (mark skip ++ rest)))) core log := by
  have none := remaining_eq_zero_iff storing.remaining site.short storing.inside
  apply Leads.beqz
  · intro isZero
    rw [resolves.mark]
    exact continues core log (none.mp isZero ▸ storing.stored)
  · intro notZero
    have one : position + 1 = length := by
      have more := mt none.mpr notZero
      have inside := storing.inside
      omega
    have isEffect : (Insn.copyU .byte scratch vectorScratch 0).effect core =
        .general 11 ((core.vector 15).lane 1 0).toUInt32 := rfl
    refine Leads.general ⟨show DataFormat.Named .byte by decide, by decide⟩
      isEffect rfl ?_
    apply drainByte site position 0 rfl (storing.stored.setReg (by decide) _)
    · rw [Core.reg_setReg_other _ _ _ _ (by decide)]
      exact storing.atTarget
    · rw [Core.reg_setReg_same _ _ _ (by decide), toUInt8_toUInt32,
        VectorRegister.byte_lane _ _ _ _ (by decide), if_pos (by decide)]
      exact storing.isValue 0 (by decide)
    · omega
    intro last all stored _ _ _
    apply Leads.marked
    exact continues last all (one ▸ stored)

/-- A store of the bytes that do not fill a vector. -/
theorem store (site : StoreSite setting core target length aligned)
    {ws pointer : Reg} {first : Label}
    (isLength : core.reg 10 = UInt32.ofNat length)
    (isTarget : core.reg pointer.index = target)
    (notWorking : pointer.index ∉ working)
    (resolves : Resolves setting.target
      (Staging.store ws pointer aligned first ++ rest))
    (continues : ∀ next logged,
      Stored core (core.vector ws.index) target length next logged →
      Leads setting goal rest next logged) :
    Leads setting goal (Staging.store ws pointer aligned first ++ rest) core
      log := by
  have short := site.short
  unfold Staging.store at resolves ⊢
  simp only [List.append_assoc] at resolves ⊢
  have afterEight := resolves.behindFour.behindFour.behindFour
  have afterFour := afterEight.behindFour.behindFour
  have afterTwo := afterFour.behindFour.behindFour.behind.behind
  have afterOne := afterTwo.behindFour
  refine beginStore isLength isTarget notWorking fun begun storing => ?_
  -- eight bytes
  apply drainChunk 8 rfl storing (by decide) (by omega) afterEight
  · intro next logged enough storing counts
    exact drainWords site storing (by omega) rfl counts
  intro position next logged few whole storing
  -- four bytes
  apply drainChunk 4 rfl storing (by decide) few afterFour
  · intro next logged enough storing counts
    exact drainSingle site storing (by omega) (by omega) counts
  intro position next logged few _ storing
  -- two bytes
  apply drainChunk 2 rfl storing (by decide) few afterTwo
  · intro next logged enough storing counts
    exact drainBytes site storing (by omega) counts
  intro position next logged few _ storing
  exact drainLast site storing few afterOne continues

end Store

end Moves

end LaneKernel
