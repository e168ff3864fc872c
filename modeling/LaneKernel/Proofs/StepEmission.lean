import LaneKernel.Proofs.Compilations
import LaneKernel.Proofs.Encodable
import LaneKernel.Proofs.LaneRules

/-!
# Code that every step has

At a site with registers for its operands a step of a lowered program has code.
The operands of the code fit their fields, it takes the labels of one tail move
at most, and it is a few words long.  The one exception is a load at an offset
that is not a constant near zero: it is refused with a report.
-/

namespace LaneKernel

open Asm Contract Fragment Outcome

/-- The error is reported as one of the program or of the target. -/
def CompileError.Reported (cause : CompileError) : Prop :=
  cause.isCrash = false ∧
    (.program ∈ cause.classes ∨ .unimplemented ∈ cause.classes)

namespace Staging

variable {register pointer : Reg} {offset chunk first : Int} {aligned : Bool}
  {offsets : List Int} {skip : Label} {marked : List Label}

/-- The labels of a tail move. -/
def labels (first : Label) : List Label :=
  [first, first + 1, first + 2, first + 3]

theorem mem_labels (label : Int) : label ∈ labels first ↔ first ≤ label ∧
    label < first + 4 := by
  change label ∈ [first, first + 1, first + 2, first + 3] ↔ _
  simp only [List.mem_cons, List.not_mem_nil, or_false]
  omega

theorem nodup_labels : (labels first).Nodup := by
  change [first, first + 1, first + 2, first + 3].Nodup
  simp

theorem closed_of_labels {code : Fragment} {room : Nat}
    (isMarks : code.marks = labels first) (fits : code.AllFit (labels first))
    (short : code.words ≤ room) :
    code.Closed first (first + 4) room where
  fits := isMarks ▸ fits
  nodup := isMarks ▸ nodup_labels
  marks label := by rw [isMarks, mem_labels]
  short := short

theorem general_working :
    scratch.isGeneral = true ∧ remaining.isGeneral = true ∧
    memoryWalk.isGeneral = true ∧ stagingWalk.isGeneral = true ∧
      tailBytes.isGeneral = true ∧
    vectorScratch.isVector = true := by decide

theorem wrap64_small (isSmall : 0 ≤ offset ∧ offset ≤ 4) :
    wrap64 (offset + 3) = offset + 3 := by
  unfold wrap64
  rw [Int.bmod_eq_of_le] <;> omega

/-- The words that a chunk copies to the staging area. -/
def loadWords (aligned : Bool) (offsets : List Int) : Fragment :=
  offsets.flatMap fun offset =>
    (if aligned then lw scratch memoryWalk offset
     else loadUnaligned scratch memoryWalk offset)
      ++ sw scratch stagingWalk offset

theorem loadChunk_eq : loadChunk aligned chunk offsets skip =
    sltiu scratch remaining chunk ++ bnez scratch skip
      ++ loadWords aligned offsets
      ++ addiu memoryWalk memoryWalk chunk
      ++ addiu stagingWalk stagingWalk chunk
      ++ addiu remaining remaining (-chunk) ++ mark skip := rfl

theorem loadUnaligned_eq (rt base : Reg) (offset : Int) :
    loadUnaligned rt base offset =
    insn (.mem .lwr rt base offset) ++
      insn (.mem .lwl rt base (wrap64 (offset + 3))) := rfl

theorem loadWords_plain (aligned : Bool)
    (small : ∀ offset ∈ offsets, 0 ≤ offset ∧ offset ≤ 4) :
    (loadWords aligned offsets).Plain (3 * offsets.length) := by
  obtain ⟨isScratch, _, isMemory, isStaging, _⟩ := general_working
  have isGood : ∀ (op : MemOp) (walk : Reg) (offset : Int),
      walk.isGeneral = true → -0x8000 ≤ offset ∧ offset ≤ 0x7fff →
        (insn (.mem op scratch walk offset)).Plain 1 := by
    intro op walk offset isGeneral near
    exact .insn (by simp [Insn.encodable, isScratch, isGeneral, near])
  apply Plain.flatMap
  intro offset isOffset
  have isSmall := small offset isOffset
  have isSaved := isGood .sw _ offset isStaging (by omega)
  cases aligned with
  | true =>
      exact ((isGood .lw _ offset isMemory (by omega)).append isSaved).weaken
        (by decide)
  | false =>
      have isWord : (loadUnaligned scratch memoryWalk offset).Plain 2 := by
        rw [loadUnaligned_eq, wrap64_small isSmall]
        exact (isGood .lwr _ offset isMemory (by omega)).append
          (isGood .lwl _ (offset + 3) isMemory (by omega))
      exact isWord.append isSaved

theorem loadChunk_fits (aligned : Bool) (isChunk : 0 ≤ chunk ∧ chunk ≤ 8)
    (small : ∀ offset ∈ offsets, 0 ≤ offset ∧ offset ≤ 4)
    (isMarked : skip ∈ marked) :
    (loadChunk aligned chunk offsets skip).marks = [skip] ∧
      (loadChunk aligned chunk offsets skip).AllFit marked ∧
      (loadChunk aligned chunk offsets skip).words ≤
        6 + 3 * offsets.length := by
  obtain ⟨noMarks, fits, short⟩ := loadWords_plain aligned small
  obtain ⟨isScratch, isRemaining, isMemory, isStaging, _⟩ := general_working
  rw [loadChunk_eq]
  simp only [sltiu, bnez, addiu]
  refine ⟨?_, ?_, ?_⟩
  · simp only [marks_append, marks_insn, marks_branch, marks_mark, noMarks,
      List.nil_append]
  · simp only [allFit_append, allFit_insn, allFit_mark, fits, isMarked,
      allFit_branch_zero isScratch (.inr (.inl rfl)), Insn.encodable, isScratch,
      isRemaining, isMemory, isStaging, Bool.true_and, decide_eq_true_eq,
      and_true]
    omega
  · simp only [words_append, words_insn, words_branch, words_mark]
    omega

theorem load_closed (isVector : register.isVector = true)
    (isGeneral : pointer.isGeneral = true)
    (near : -0x8000 ≤ offset ∧ offset ≤ 0x7fff) :
    (load register pointer offset aligned first).Closed first (first + 4)
      40 := by
  obtain ⟨isScratch, isRemaining, isMemory, isStaging, isTail, _⟩ :=
    general_working
  have areMarked : first ∈ labels first ∧ first + 1 ∈ labels first ∧
      first + 2 ∈ labels first ∧
      first + 3 ∈ labels first := by
    simp [labels]
  obtain ⟨start, isStart, startMarks, startFits, startShort⟩ :
      ∃ start : Fragment,
      start = (if offset = 0 then move memoryWalk pointer
               else addiu memoryWalk pointer offset) ∧
      start.Plain 1 := by
    refine ⟨_, rfl, ?_⟩
    split
    · exact .insn (by simp [Insn.encodable, isMemory, isGeneral])
    · exact .insn (by simp [Insn.encodable, isMemory, isGeneral, near])
  obtain ⟨eightMarks, eightFits, eightShort⟩ :=
    loadChunk_fits aligned (show (0 : Int) ≤ 8 ∧ (8 : Int) ≤ 8 by decide)
      (show ∀ offset ∈ [0, 4], (0 : Int) ≤ offset ∧
        offset ≤ 4 by decide) areMarked.1
  obtain ⟨fourMarks, fourFits, fourShort⟩ :=
    loadChunk_fits aligned (show (0 : Int) ≤ 4 ∧ (4 : Int) ≤ 8 by decide)
      (show ∀ offset ∈ [0], (0 : Int) ≤ offset ∧
        offset ≤ 4 by decide) areMarked.2.1
  unfold load
  rw [← isStart]
  simp only [move, addiu, sltiu, bnez, beqz, lbu, sb]
  refine closed_of_labels ?_ ?_ ?_
  · simp only [marks_append, marks_insn, marks_branch, marks_mark, startMarks,
      eightMarks, fourMarks, List.nil_append, List.append_nil]
    rfl
  · simp only [allFit_append, allFit_insn, allFit_mark, startFits, eightFits,
      fourFits, areMarked, allFit_branch_zero isScratch (.inr (.inl rfl)),
      allFit_branch_zero isRemaining (.inl rfl), Insn.encodable, isScratch,
      isRemaining, isMemory, isStaging, isTail, isVector, Bool.true_and,
      decide_eq_true_eq, and_true]
    decide
  · simp only [words_append, words_insn, words_branch, words_mark]
    simp only [List.length_cons, List.length_nil] at eightShort fourShort
    omega

/-- Writes a word to memory. -/
def storeWord (aligned : Bool) (offset : Int) : Fragment :=
  if aligned then sw scratch memoryWalk offset
  else storeUnaligned scratch memoryWalk offset

theorem storeUnaligned_eq (rt base : Reg) (offset : Int) :
    storeUnaligned rt base offset =
    insn (.mem .swr rt base offset) ++
      insn (.mem .swl rt base (wrap64 (offset + 3))) := rfl

theorem storeWord_plain (aligned : Bool) (small : 0 ≤ offset ∧ offset ≤ 4) :
    (storeWord aligned offset).Plain 2 := by
  obtain ⟨isScratch, _, isMemory, _⟩ := general_working
  have isGood : ∀ (op : MemOp) (offset : Int), -0x8000 ≤ offset ∧
      offset ≤ 0x7fff →
      (insn (.mem op scratch memoryWalk offset)).Plain 1 := by
    intro op offset near
    exact .insn (by simp [Insn.encodable, isScratch, isMemory, near])
  cases aligned with
  | true => exact (isGood .sw offset (by omega)).weaken (by decide)
  | false =>
      change (storeUnaligned scratch memoryWalk offset).Plain 2
      rw [storeUnaligned_eq, wrap64_small small]
      exact (isGood .swr offset (by omega)).append
        (isGood .swl (offset + 3) (by omega))

theorem store_closed (isVector : register.isVector = true)
    (isGeneral : pointer.isGeneral = true) :
    (store register pointer aligned first).Closed first (first + 4) 40 := by
  obtain ⟨isScratch, isRemaining, isMemory, _, isTail, isSpare⟩ :=
    general_working
  have areMarked : first ∈ labels first ∧ first + 1 ∈ labels first ∧
      first + 2 ∈ labels first ∧
      first + 3 ∈ labels first := by
    simp [labels]
  obtain ⟨lowMarks, lowFits, lowShort⟩ :=
    storeWord_plain aligned (show (0 : Int) ≤ 0 ∧ (0 : Int) ≤ 4 by decide)
  obtain ⟨highMarks, highFits, highShort⟩ :=
    storeWord_plain aligned (show (0 : Int) ≤ 4 ∧ (4 : Int) ≤ 4 by decide)
  have isWord : ∀ offset : Int,
      (if aligned = true then sw scratch memoryWalk offset
      else storeUnaligned scratch memoryWalk offset) =
        storeWord aligned offset := fun _ => rfl
  unfold store
  simp only [isWord, move, addiu, sltiu, srl, bnez, beqz, sb]
  refine closed_of_labels ?_ ?_ ?_
  · simp only [marks_append, marks_insn, marks_branch, marks_mark, lowMarks,
      highMarks, List.nil_append, List.append_nil]
    rfl
  · simp only [allFit_append, allFit_insn, allFit_mark, lowFits, highFits,
      areMarked, allFit_branch_zero isScratch (.inr (.inl rfl)),
      allFit_branch_zero isRemaining (.inl rfl), Insn.encodable, isScratch,
      isRemaining, isMemory, isTail, isSpare, isVector, isGeneral,
      Bool.true_and, decide_eq_true_eq, and_true]
    decide
  · simp only [words_append, words_insn, words_branch, words_mark]
    omega

end Staging

namespace Routines

variable {register : Reg} {df : DataFormat} {width : Nat} {index : Int}

theorem loadImm_plain (isGeneral : register.isGeneral = true) (value : UInt32) :
    (loadImm register value).Plain 2 := by
  have isZero : Reg.zero.isGeneral = true := rfl
  have code := loadImm_code register value
  generalize loadImm register value = fragment at code ⊢
  cases code with
  | signed near =>
      exact (Plain.insn (Insn.encodable_addiu isGeneral isZero near)).weaken
        (by decide)
  | lower small =>
      exact (Plain.insn (Insn.encodable_ori isGeneral isZero small)).weaken
        (by decide)
  | upper small =>
      exact (Plain.insn (Insn.encodable_lui isGeneral small)).weaken (by decide)
  | both highSmall lowSmall =>
      exact (Plain.insn (Insn.encodable_lui isGeneral highSmall)).append
        (Plain.insn (Insn.encodable_ori isGeneral isGeneral lowSmall))

theorem fill_plain (isVector : register.isVector = true) :
    (insn (.fill df register scratch)).Plain 1 :=
  .insn (by simp [Insn.encodable, isVector, Staging.general_working.1])

theorem insertHigh_plain (isVector : register.isVector = true) {source : Reg}
    (isGeneral : source.isGeneral = true) :
    (insertHigh register source).Plain 2 := by
  have isGood : ∀ lane : Int, Insn.hasLane .word lane = true →
      (insn (.insert .word register lane source)).Plain 1 := by
    intro lane hasLane
    exact .insn (by simp [Insn.encodable, isVector, isGeneral, hasLane])
  exact (isGood 1 (by decide)).append (isGood 3 (by decide))

theorem broadcastConst_plain (isVector : register.isVector = true)
    (value : UInt64) : (broadcastConst df register width value).Plain 7 := by
  have isScratch := Staging.general_working.1
  unfold broadcastConst
  simp only
  split
  case isTrue near =>
    exact (Plain.insn (by simp [Insn.encodable, isVector, near])).weaken
      (by decide)
  case isFalse =>
    split
    case isTrue =>
      exact ((loadImm_plain isScratch _).append (fill_plain isVector)).weaken
        (by decide)
    case isFalse =>
      exact (((loadImm_plain isScratch _).append (fill_plain isVector)).append
        (loadImm_plain isScratch _)).append
          (insertHigh_plain isVector isScratch)

theorem broadcastParam_plain (isVector : register.isVector = true)
    (bounds : 0 ≤ index ∧ index + 8 < 64) (size : Int) :
    (broadcastParam df register width index size).Plain 7 := by
  have isScratch := Staging.general_working.1
  have isStart : (Executor.paramsOffset : Int) = 276 := rfl
  have isSlot : ∀ slot : Int, 0 ≤ slot ∧ slot < 64 →
      (lw scratch executor (Executor.paramSlotOffset slot)).Plain 1 := by
    intro slot inTable
    have isExecutor : executor.isGeneral = true := rfl
    have near : -0x8000 ≤ Executor.paramSlotOffset slot ∧
        Executor.paramSlotOffset slot ≤ 0x7fff := by
      unfold Executor.paramSlotOffset
      omega
    exact .insn (by simp [Insn.encodable, isScratch, isExecutor, near])
  have isLow := isSlot index (by omega)
  have isHigh := isSlot (index + Executor.highWordDistance) (by
    have isDistance : (Executor.highWordDistance : Int) = 8 := rfl
    omega)
  unfold broadcastParam
  simp only
  split
  case isTrue => exact (isLow.append (fill_plain isVector)).weaken (by decide)
  case isFalse =>
    split
    case isTrue =>
      exact (((isLow.append (fill_plain isVector)).append isHigh).append
        (insertHigh_plain isVector isScratch)).weaken (by decide)
    case isFalse =>
      exact ((isLow.append (fill_plain isVector)).append
        (insertHigh_plain isVector rfl)).weaken (by decide)

variable {site : EmitSite} {param : RuleParam} {instruction : Instruction}
  {label later : Label} {wd ws pointer : Reg} {offset : Int}

theorem load_outcome (label : Label) (isFormat : dataFormat param = .ok df)
    (isTarget : site.vectorReg instruction.target = .ok wd)
    (isPointer : site.pointerReg instruction.firstSource = .ok pointer)
    (isOffset : loadOffset site param instruction = .ok offset) :
    (load site param instruction : EmitM Unit Fragment).outcome label =
      if site.inTail then
        .ok (Staging.load wd pointer offset
          (wordAligned site instruction.firstSource offset) label, label + 4)
      else if fitsVectorOffset (site.offset + offset) param.width then
        .ok (insn (.ld df wd pointer (site.offset + offset)), label)
      else .ok (addiu scratch pointer (site.offset + offset) ++
        insn (.ld df wd scratch 0), label) := by
  unfold load
  rw [isFormat, isTarget, isPointer, isOffset, EmitM.outcome_bind]
  cases site.inTail with
  | true => rfl
  | false =>
      change (if fitsVectorOffset (site.offset + offset) param.width then
          pure (insn (.ld df wd pointer (site.offset + offset)))
        else pure (addiu scratch pointer (site.offset + offset) ++
          insn (.ld df wd scratch 0))
        : EmitM Unit Fragment).outcome label = _
      simp only [Bool.false_eq_true, if_false]
      split <;> rfl

theorem dataFormat_reported (param : RuleParam) :
    FailsOnly CompileError.Reported (dataFormat param) := by
  unfold dataFormat
  split
  · exact failsOnly_ok _
  · exact failsOnly_error ⟨rfl, .inl List.mem_cons_self⟩

theorem vectorReg_reported (site : EmitSite) (index : VarIndex) :
    FailsOnly CompileError.Reported (site.vectorReg index) := by
  unfold EmitSite.vectorReg
  split
  · exact failsOnly_ok _
  · exact failsOnly_error ⟨rfl, .inl List.mem_cons_self⟩

theorem pointerReg_reported (site : EmitSite) (index : VarIndex) :
    FailsOnly CompileError.Reported (site.pointerReg index) := by
  unfold EmitSite.pointerReg
  split
  · exact failsOnly_ok _
  · exact failsOnly_error ⟨rfl, .inl List.mem_cons_self⟩

theorem load_reported {second : VarIndex}
    (isSecond : instruction.source? 1 = some second) :
    FailsOnly CompileError.Reported
      ((load site param instruction : EmitM Unit Fragment).outcome label) := by
  have isOffset :
      FailsOnly CompileError.Reported (loadOffset site param instruction) := by
    unfold loadOffset
    rw [isSecond]
    split
    · exact failsOnly_ok _
    · exact failsOnly_ite_error (fun _ => ⟨rfl, .inr List.mem_cons_self⟩)
        fun _ =>
        failsOnly_ite_error (fun _ => ⟨rfl, .inl List.mem_cons_self⟩) fun _ =>
          failsOnly_ok _
  unfold load
  rw [EmitM.outcome_bind]
  refine FailsOnly.bind ?_ fun _ _ => ?_
  · rw [EmitM.outcome_lift]
    exact ((dataFormat_reported param).bind fun _ _ =>
      (vectorReg_reported site _).bind fun _ _ =>
      (pointerReg_reported site _).bind fun _ _ => isOffset.bind fun _ _ =>
        failsOnly_ok _).map
  · cases site.inTail with
    | true => exact failsOnly_ok _
    | false =>
        simp only [Bool.false_eq_true, if_false]
        split <;> exact failsOnly_ok _

theorem store_outcome (label : Label) (isFormat : dataFormat param = .ok df)
    (isPointer : site.pointerReg instruction.target = .ok pointer)
    (isSource : site.vectorReg instruction.firstSource = .ok ws) :
    (store site param instruction : EmitM Unit Fragment).outcome label =
      if site.inTail then
        .ok (Staging.store ws pointer (wordAligned site instruction.target 0)
          label, label + 4)
      else .ok (insn (.st df ws pointer site.offset), label) := by
  unfold store
  rw [isFormat, isPointer, isSource, EmitM.outcome_bind]
  cases site.inTail <;> rfl

end Routines

/-- What a step takes from the supply of labels and of room: moves of the tail
take more. -/
def Opcode.movesArray (entry : Opcode × Instruction) :
    Bool := entry.1.isLoad || entry.1.isStore

/-- The tail moves of code at a site. -/
def EmitSite.moves (site : EmitSite) (entries : List (Opcode × Instruction)) :
    Nat :=
  if site.inTail then entries.countP Opcode.movesArray else 0

/-- A site has registers for the operands of a program. -/
structure EmitSite.Houses (site : EmitSite) (program : Program) : Prop where
  var : site.var = program.var
  temps : ∀ index, (program.var index).role = .temp →
    ∃ number, site.vectors.lookup index = some (.vec number)
  arrays : ∀ entry ∈ Reference.resolveCode program, ∀ touch,
    entry.1.touch? program.var entry.2 = some touch →
    ∃ number, site.pointers.lookup touch.array = some (.gp number)
  params : ∀ index : Int, (program.var index).role = .param → 0 ≤ index ∧
    index + 8 < 64
  copy : site.offset % 16 = 0 ∧ site.offset ≤ 48

/-- A load at an offset reads a constant number of elements away that vector
loads can count. -/
def Program.NearOffset (program : Program)
    (entry : Opcode × Instruction) : Prop :=
  entry.1.kind = .loadOffset →
    (program.var entry.2.secondSource).role = .const ∧
    Routines.minOffset ≤
      (Lane.signExtend (program.var entry.2.secondSource).value.toUInt64
        4).toInt ∧
    (Lane.signExtend (program.var entry.2.secondSource).value.toUInt64
      4).toInt ≤ Routines.maxOffset

theorem Routines.dataFormat_of_mem {opcode : Opcode} (param : RuleParam)
    (isOpcode : opcode ∈ Opcode.all) (isWidth : param.width = opcode.size) :
    ∃ df, dataFormat param = .ok df ∧ df.Named ∧ df.size = opcode.size := by
  obtain ⟨df, isFormat, isNamed, isSize⟩ := format_of_mem isOpcode
  refine ⟨df, ?_, isNamed, isSize⟩
  unfold dataFormat
  rw [isWidth, isFormat]

section Step

variable {program : Program} {site : EmitSite} {entry : Opcode × Instruction}
  {instruction : Instruction} {size : Nat} {op : ArithOp} {label : Int}
  (houses : site.Houses program)

/-- Code for one entry takes labels and room by whether it is a tail move. -/
def EmitSite.Codes (site : EmitSite) (entry : Opcode × Instruction)
    (label : Int) : Prop :=
  ∃ code, ((entry.1.rule : Rule Unit).emit site (entry.1.rule : Rule Unit).param
    entry.2).outcome
      label = .ok (code, label + 4 * site.moves [entry]) ∧
    code.Closed label (label + 4 * site.moves [entry])
      (7 + 33 * site.moves [entry])

theorem EmitSite.moves_of_tail (inTail : site.inTail = true)
    (isMove : Opcode.movesArray entry = true) : site.moves [entry] = 1 := by
  simp [moves, inTail, isMove]

theorem EmitSite.moves_of_whole {entries : List (Opcode × Instruction)}
    (notTail : site.inTail = false) : site.moves entries = 0 := by
  simp [moves, notTail]

theorem EmitSite.moves_of_plain (notMove : Opcode.movesArray entry = false) :
    site.moves [entry] = 0 := by
  simp [moves, notMove]

theorem EmitSite.Codes.of_plain {code : Fragment}
    (noMoves : site.moves [entry] = 0)
    (isCode : ((entry.1.rule : Rule Unit).emit site
      (entry.1.rule : Rule Unit).param entry.2).outcome label =
        .ok (code, label))
    (plain : code.Plain 7) : site.Codes entry label := by
  refine ⟨code, ?_, ?_⟩
  · rw [isCode, noMoves, Nat.cast_zero, Int.mul_zero, Int.add_zero]
  · rw [noMoves, Nat.cast_zero, Int.mul_zero, Int.add_zero]
    exact .of_plain plain label

theorem EmitSite.Codes.of_tail {code : Fragment}
    (oneMove : site.moves [entry] = 1)
    (isCode : ((entry.1.rule : Rule Unit).emit site
      (entry.1.rule : Rule Unit).param entry.2).outcome label =
        .ok (code, label + 4))
    (closed : code.Closed label (label + 4) 40) : site.Codes entry label := by
  refine ⟨code, ?_, ?_⟩
  · rw [isCode, oneMove]
    rfl
  · rw [oneMove]
    exact closed

theorem EmitSite.vectorReg_of_lookup {index : VarIndex} {register : Reg}
    (found : site.vectors.lookup index = some register) :
    site.vectorReg index = .ok register := by
  unfold vectorReg
  rw [found]

theorem EmitSite.pointerReg_of_lookup {index : VarIndex} {register : Reg}
    (found : site.pointers.lookup index = some register) :
    site.pointerReg index = .ok register := by
  unfold pointerReg
  rw [found]

theorem Program.Checked.second {opcode : Opcode}
    (checked : program.Checked instruction opcode)
    (isTwo : opcode.sources = 2) :
    instruction.source? 1 = some instruction.secondSource := by
  have count : instruction.src.length = 2 := checked.sources.trans isTwo
  have isPlace : instruction.source? 1 = some instruction.src[1] :=
    List.getElem?_eq_getElem (by omega)
  unfold Instruction.secondSource
  rw [isPlace]
  rfl

theorem Routines.loadOffset_succeeds (var : site.var = program.var)
    (checked : program.Checked instruction ⟨.loadOffset, size⟩)
    (near : program.NearOffset (⟨.loadOffset, size⟩, instruction)) :
    ∃ offset, loadOffset site ⟨size, .wrapping, RuleParam.flagOffsetLoad⟩
      instruction = .ok offset ∧ offset % size = 0 ∧ -4096 ≤ offset ∧
        offset ≤ 4088 := by
  obtain ⟨isConst, above, below⟩ := near rfl
  have shifted :
      (⟨size, .wrapping, RuleParam.flagOffsetLoad⟩ : RuleParam).loadsAtOffset =
        true :=
    show (RuleParam.flagOffsetLoad &&& RuleParam.flagOffsetLoad != 0) = true by
      decide
  have isSecond := checked.second rfl
  dsimp only at isConst above below
  have isWidth : (program.var instruction.firstSource).size =
      ↑(size * instruction.lanes) := by
    rcases (checked.readable 0 _ checked.first).size with isScalar | isWidth
    · have isArray :
          (program.var instruction.firstSource).role = .source := checked.moves
      rw [isArray] at isScalar
      cases isScalar
    · exact isWidth
  have widths := Lane.validSize_iff.mp checked.valid
  change size * instruction.lanes = 1 ∨ size * instruction.lanes = 2 ∨
    size * instruction.lanes = 4 ∨ size * instruction.lanes = 8 at widths
  refine ⟨(Lane.signExtend (program.var instruction.secondSource).value.toUInt64
    4).toInt * ↑(size * instruction.lanes), ?_, ?_, ?_⟩
  · unfold loadOffset
    rw [shifted, isSecond, var]
    simp only [Bool.not_true, Bool.false_eq_true, if_false]
    rw [if_neg (not_not.mpr isConst), if_neg (by omega), isWidth]
  · rw [Nat.cast_mul, ← Int.mul_assoc, Int.mul_right_comm]
    exact Int.mul_emod_left _ _
  · unfold minOffset at above
    unfold maxOffset at below
    generalize size * instruction.lanes = width at widths
    rcases widths with rfl | rfl | rfl | rfl <;> omega

theorem Insn.countable_of_fits {df : DataFormat} {offset : Int}
    (isNamed : df.Named) (whole : offset % df.size = 0)
    (fits : Routines.fitsVectorOffset offset df.size = true) :
    countable df offset = true := by
  obtain ⟨elements, rfl⟩ := Int.dvd_of_emod_eq_zero whole
  have sizes : df.size = 1 ∨ df.size = 2 ∨ df.size = 4 ∨ df.size = 8 := by
    rcases isNamed.cases with rfl | rfl | rfl | rfl <;> decide
  unfold Routines.fitsVectorOffset at fits
  rw [Int.mul_tdiv_cancel_left elements (by omega)] at fits
  simp only [Bool.and_eq_true, decide_eq_true_eq] at fits
  obtain ⟨above, below⟩ := fits
  unfold Routines.minOffset at above
  unfold Routines.maxOffset at below
  refine decide_eq_true ⟨isNamed, whole, ?_, ?_⟩
  · rcases sizes with isSize | isSize | isSize | isSize
    all_goals
      rw [isSize]
      omega
  · rcases sizes with isSize | isSize | isSize | isSize
    all_goals
      rw [isSize]
      omega

include houses

theorem EmitSite.Houses.whole_copy (isOpcode : entry.1 ∈ Opcode.all) :
    (site.offset : Int) % entry.1.size = 0 ∧ (0 : Int) ≤ site.offset ∧
      (site.offset : Int) ≤ 48 := by
  obtain ⟨whole, few⟩ := houses.copy
  have sizes := (Opcode.sizes_of_mem isOpcode).1
  refine ⟨?_, by omega, by omega⟩
  rcases sizes with isSize | isSize | isSize | isSize
  all_goals
    rw [isSize]
    omega

theorem EmitSite.Houses.codes_load {offset : Int} (flat : program.Flat entry)
    (inCode : entry ∈ Reference.resolveCode program)
    (isLoad : entry.1.kind = .load ∨ entry.1.kind = .loadOffset)
    (isEmit : (entry.1.rule : Rule Unit).emit = Routines.load)
    (isWidth : (entry.1.rule : Rule Unit).param.width = entry.1.size)
    (isOffset : Routines.loadOffset site (entry.1.rule : Rule Unit).param
      entry.2 = .ok offset)
    (whole : offset % entry.1.size = 0)
    (near : -4096 ≤ offset ∧ offset ≤ 4088) : site.Codes entry label := by
  have isOpcode := (Reference.opcode_of_mem inCode).2.1
  obtain ⟨df, isFormat, isNamed, isSize⟩ :=
    Routines.dataFormat_of_mem _ isOpcode isWidth
  have isMove : Opcode.movesArray entry = true := by
    unfold Opcode.movesArray Opcode.isLoad
    rcases isLoad with isKind | isKind <;> simp [isKind]
  obtain ⟨vector, isVector⟩ := houses.temps entry.2.target (flat.target (by
    rcases isLoad with isKind | isKind <;> simp [isKind]))
  obtain ⟨pointer, isPointer⟩ : ∃ number,
      site.pointers.lookup entry.2.firstSource = some (.gp number) := by
    rcases isLoad with isKind | isKind
    · exact houses.arrays entry inCode ⟨false, entry.2.firstSource, 0⟩ (by
        unfold Opcode.touch?
        rw [isKind])
    · exact houses.arrays entry inCode ⟨false, entry.2.firstSource,
        entry.2.shift program.var⟩ (by
        unfold Opcode.touch?
        rw [isKind])
  have isOutcome := Routines.load_outcome label isFormat
    (vectorReg_of_lookup isVector) (pointerReg_of_lookup isPointer) isOffset
  obtain ⟨wholeCopy, above, below⟩ := houses.whole_copy isOpcode
  cases inTail : site.inTail with
  | true =>
      rw [inTail, if_pos rfl] at isOutcome
      exact .of_tail (moves_of_tail inTail isMove) (isEmit ▸ isOutcome)
        (Staging.load_closed rfl rfl (by omega))
  | false =>
      rw [inTail, if_neg (by simp)] at isOutcome
      have isGeneral : (Reg.gp pointer).isGeneral = true := rfl
      have isScratch := Staging.general_working.1
      have isFull : (Reg.vec vector).isVector = true := rfl
      split at isOutcome
      case isTrue fits =>
        have counts : Insn.countable df (site.offset + offset) = true := by
          apply Insn.countable_of_fits isNamed
          · rw [isSize]
            exact Int.emod_eq_zero_of_dvd
              (Int.dvd_add (Int.dvd_of_emod_eq_zero wholeCopy)
                (Int.dvd_of_emod_eq_zero whole))
          · rw [isSize, ← isWidth]
            exact fits
        have plain :
            (insn (.ld df (.vec vector) (.gp pointer)
            (site.offset + offset))).Plain 1 :=
          .insn (by simp only [Insn.encodable, isFull, isGeneral, counts,
            Bool.and_self])
        exact .of_plain (moves_of_whole inTail) (isEmit ▸ isOutcome)
          (plain.weaken (by decide))
      case isFalse =>
        have counts : Insn.countable df 0 = true := by
          rcases isNamed.cases with rfl | rfl | rfl | rfl <;> decide
        have isAddress :
            (addiu scratch (.gp pointer) (site.offset + offset)).Plain 1 := by
          refine .insn ?_
          simp only [Insn.encodable, isScratch, isGeneral, Bool.true_and,
            decide_eq_true_eq]
          omega
        have isLoaded : (insn (.ld df (.vec vector) scratch 0)).Plain 1 :=
          .insn (by simp only [Insn.encodable, isFull, isScratch, counts,
            Bool.and_self])
        exact .of_plain (moves_of_whole inTail) (isEmit ▸ isOutcome)
          ((isAddress.append isLoaded).weaken (by decide))

theorem EmitSite.Houses.codes_store (flat : program.Flat entry)
    (inCode : entry ∈ Reference.resolveCode program)
    (isStore : entry.1.kind = .store)
    (isEmit : (entry.1.rule : Rule Unit).emit = Routines.store)
    (isWidth : (entry.1.rule : Rule Unit).param.width = entry.1.size) :
    site.Codes entry label := by
  have isOpcode := (Reference.opcode_of_mem inCode).2.1
  obtain ⟨df, isFormat, isNamed, isSize⟩ :=
    Routines.dataFormat_of_mem _ isOpcode isWidth
  have isMove : Opcode.movesArray entry = true := by
    unfold Opcode.movesArray Opcode.isStore
    simp [isStore]
  obtain ⟨vector, isVector⟩ :=
    houses.temps entry.2.firstSource (flat.store isStore).2
  obtain ⟨pointer, isPointer⟩ :=
    houses.arrays entry inCode ⟨true, entry.2.target, 0⟩ (by
    unfold Opcode.touch?
    rw [isStore])
  have isOutcome := Routines.store_outcome label isFormat
    (pointerReg_of_lookup isPointer) (vectorReg_of_lookup isVector)
  obtain ⟨wholeCopy, above, below⟩ := houses.whole_copy isOpcode
  cases inTail : site.inTail with
  | true =>
      rw [inTail, if_pos rfl] at isOutcome
      exact .of_tail (moves_of_tail inTail isMove) (isEmit ▸ isOutcome)
        (Staging.store_closed rfl rfl)
  | false =>
      rw [inTail, if_neg (by simp)] at isOutcome
      have counts : Insn.countable df site.offset = true := by
        rw [← isSize] at wholeCopy
        refine decide_eq_true ⟨isNamed, wholeCopy, ?_⟩
        have positive : 1 ≤ df.size := by
          rcases isNamed.cases with rfl | rfl | rfl | rfl <;> decide
        omega
      have isGeneral : (Reg.gp pointer).isGeneral = true := rfl
      have isFull : (Reg.vec vector).isVector = true := rfl
      have plain : (insn (.st df (.vec vector) (.gp pointer) site.offset)).Plain
          1 :=
        .insn (by simp only [Insn.encodable, isFull, isGeneral, counts,
          Bool.and_self])
      exact .of_plain (moves_of_whole inTail) (isEmit ▸ isOutcome)
        (plain.weaken (by decide))

theorem EmitSite.Houses.codes_loadParam {size : Nat}
    (flat : program.Flat (⟨.loadParam, size⟩, instruction))
    (inCode : (⟨.loadParam, size⟩, instruction) ∈
      Reference.resolveCode program) :
    site.Codes (⟨.loadParam, size⟩, instruction) label := by
  have isOpcode := (Reference.opcode_of_mem inCode).2.1
  obtain ⟨df, isFormat, isNamed, isSize⟩ :=
    Routines.dataFormat_of_mem ⟨size, .wrapping, 0⟩ isOpcode rfl
  obtain ⟨vector, isVector⟩ :=
    houses.temps instruction.target (flat.target (by simp))
  have isScalar : (program.var instruction.firstSource).role.isScalar = true :=
    flat.checked.moves
  have isFull : (Reg.vec vector).isVector = true := rfl
  have isCode : ∀ code,
      Routines.loadParam site ⟨size, .wrapping, 0⟩ instruction = .ok code →
        ((Opcode.rule ⟨.loadParam, size⟩ : Rule Unit).emit site
        (Opcode.rule ⟨.loadParam, size⟩ : Rule Unit).param instruction).outcome
          label =
      .ok (code, label) :=
    fun code isResult =>
      congrArg (Except.map fun code => (code, label)) isResult
  have noMoves : site.moves [(⟨.loadParam, size⟩, instruction)] = 0 :=
    moves_of_plain rfl
  have isRead : site.var instruction.firstSource =
      program.var instruction.firstSource :=
    congrFun houses.var _
  cases isRole : (program.var instruction.firstSource).role with
  | const =>
      refine .of_plain noMoves
        (isCode (Routines.broadcastConst df (.vec vector) size
          (program.var instruction.firstSource).value.toUInt64) ?_)
        (Routines.broadcastConst_plain isFull _)
      unfold Routines.loadParam
      rw [isFormat, vectorReg_of_lookup isVector]
      simp only [bind, Except.bind, isRead, isRole]
      rfl
  | param =>
      refine .of_plain noMoves
        (isCode (Routines.broadcastParam df (.vec vector) size
          instruction.firstSource (program.var instruction.firstSource).size)
          ?_)
        (Routines.broadcastParam_plain isFull (houses.params _ isRole) _)
      unfold Routines.loadParam
      rw [isFormat, vectorReg_of_lookup isVector]
      simp only [bind, Except.bind, isRead, isRole]
      rfl
  | none | dest | source | accumulator | temp =>
      rw [isRole] at isScalar
      cases isScalar

theorem EmitSite.Houses.codes_arith {size : Nat}
    (flat : program.Flat (⟨.arith op, size⟩, instruction))
    (inCode : (⟨.arith op, size⟩, instruction) ∈
      Reference.resolveCode program) :
    site.Codes (⟨.arith op, size⟩, instruction) label := by
  have isOpcode := (Reference.opcode_of_mem inCode).2.1
  obtain ⟨df, isFormat, _⟩ := Routines.format_of_mem isOpcode
  have checked := flat.checked
  have areTemps := flat.sources op rfl
  obtain ⟨wd, isTarget⟩ :=
    houses.temps instruction.target (flat.target (by simp))
  obtain ⟨ws, isFirst⟩ := houses.temps instruction.firstSource
    (areTemps _ (List.mem_of_getElem? checked.first))
  obtain ⟨wt, isSecond⟩ : ∃ wt, op.arity = 2 →
      site.vectors.lookup instruction.secondSource = some (.vec wt) := by
    by_cases isTwo : op.arity = 2
    · obtain ⟨wt, isSecond⟩ := houses.temps instruction.secondSource
        (areTemps _ (List.mem_of_getElem? (checked.second isTwo)))
      exact ⟨wt, fun _ => isSecond⟩
    · exact ⟨0, fun isTwo' => absurd isTwo' isTwo⟩
  have isCode :=
    ArithOp.routine_eq_code isOpcode isFormat checked.sources.trans
      isTarget isFirst
    isSecond
  have few := op.length_insns_le df (.vec wd) (.vec ws) (.vec wt)
  exact .of_plain (moves_of_plain rfl)
    (congrArg (Except.map fun code => (code, label)) isCode)
    ((Plain.insns (op.insns_encodable df wd ws wt)).weaken (by omega))

/-- A step has code unless it is a load at an offset that is not a constant near
zero. -/
theorem EmitSite.Houses.codes_of_near (flat : program.Flat entry)
    (inCode : entry ∈ Reference.resolveCode program)
    (near : program.NearOffset entry) (label : Int) :
    site.Codes entry label := by
  obtain ⟨⟨kind, size⟩, instruction⟩ := entry
  cases kind with
  | load =>
      have plain : (⟨size, .wrapping, 0⟩ : RuleParam).loadsAtOffset = false :=
        show ((0 : UInt8) &&& RuleParam.flagOffsetLoad != 0) = false by decide
      have isOffset :
          Routines.loadOffset site ⟨size, .wrapping, 0⟩ instruction =
            .ok 0 := by
        unfold Routines.loadOffset
        rw [plain]
        rfl
      exact houses.codes_load flat inCode (.inl rfl) rfl rfl isOffset (by simp)
        (by decide)
  | loadOffset =>
      obtain ⟨offset, isOffset, whole, bounds⟩ :=
        Routines.loadOffset_succeeds houses.var flat.checked near
      exact houses.codes_load flat inCode (.inr rfl) rfl rfl isOffset
        whole bounds
  | loadParam => exact houses.codes_loadParam flat inCode
  | store => exact houses.codes_store flat inCode rfl rfl rfl
  | arith op => exact houses.codes_arith flat inCode

/-- A step that is refused says why. -/
theorem EmitSite.Houses.step_reported (flat : program.Flat entry)
    (inCode : entry ∈ Reference.resolveCode program) (label : Int) :
    FailsOnly CompileError.Reported
      (((entry.1.rule : Rule Unit).emit site (entry.1.rule : Rule Unit).param
        entry.2).outcome label) := by
  by_cases near : program.NearOffset entry
  · obtain ⟨code, isCode, _⟩ := houses.codes_of_near flat inCode near label
    rw [isCode]
    exact failsOnly_ok _
  · obtain ⟨⟨kind, size⟩, instruction⟩ := entry
    cases kind with
    | loadOffset =>
        exact Routines.load_reported (flat.checked.second rfl)
    | load | loadParam | store | arith op =>
        exact absurd (fun isOffset => by cases isOffset) near

end Step

namespace Compiler

variable {program : Program} {site : EmitSite}
  {entries : List (Opcode × Instruction)}

theorem emitSteps_cons (site : EmitSite) (entry : Opcode × Instruction)
    (rest : List (Opcode × Instruction)) (label : Label) :
    (emitSteps site ((entry :: rest).map Opcode.step)).outcome label =
      ((((entry.1.rule : Rule Unit).emit site (entry.1.rule : Rule Unit).param
        entry.2).outcome
          label).mapError (CompileError.atInstruction entry.2.text) >>=
            fun (code, middle) =>
        (emitSteps site (rest.map Opcode.step)).outcome middle >>=
          fun (more, later) =>
          .ok (code ++ more, later)) := by
  rw [List.map_cons, emitSteps, EmitM.outcome_bind, EmitM.outcome_adapt]
  congr 1
  funext ⟨code, middle⟩
  exact EmitM.outcome_bind middle _ _

theorem moves_cons (site : EmitSite) (entry : Opcode × Instruction)
    (rest : List (Opcode × Instruction)) :
    site.moves (entry :: rest) = site.moves [entry] + site.moves rest := by
  unfold EmitSite.moves
  split
  · rw [List.countP_cons, List.countP_cons, List.countP_nil]
    omega
  · rfl

theorem emitSteps_succeeds (houses : site.Houses program)
    (flat : ∀ entry ∈ entries, program.Flat entry)
    (inCode : ∀ entry ∈ entries, entry ∈ Reference.resolveCode program)
    (near : ∀ entry ∈ entries, program.NearOffset entry) (label : Int) :
    ∃ code, (emitSteps site (entries.map Opcode.step)).outcome label =
        .ok (code, label + 4 * site.moves entries) ∧
      code.Closed label (label + 4 * site.moves entries)
        (7 * entries.length + 33 * site.moves entries) := by
  induction entries generalizing label with
  | nil =>
      have noMoves : site.moves [] = 0 := by simp [EmitSite.moves]
      rw [noMoves, Nat.cast_zero, Int.mul_zero, Int.add_zero]
      exact ⟨[], rfl, .of_plain (.nil _) label⟩
  | cons entry rest induction =>
      obtain ⟨flatFirst, flatRest⟩ := List.forall_mem_cons.mp flat
      obtain ⟨inFirst, inRest⟩ := List.forall_mem_cons.mp inCode
      obtain ⟨nearFirst, nearRest⟩ := List.forall_mem_cons.mp near
      obtain ⟨code, isCode, closed⟩ :=
        houses.codes_of_near flatFirst inFirst nearFirst label
      obtain ⟨more, isMore, closedMore⟩ :=
        induction flatRest inRest nearRest (label + 4 * site.moves [entry])
      have isLast : label + 4 * (site.moves [entry] : Int) +
          4 * site.moves rest =
          label + 4 * site.moves (entry :: rest) := by
        rw [moves_cons site entry rest, Nat.cast_add]
        omega
      rw [isLast] at isMore closedMore
      refine ⟨code ++ more, ?_, ?_⟩
      · rw [emitSteps_cons, isCode]
        simp only [Except.mapError, bind, Except.bind]
        rw [isMore]
      · refine (closed.append closedMore (by omega) (by omega)).weaken ?_
        rw [moves_cons site entry rest, List.length_cons]
        omega

theorem emitSteps_reported (houses : site.Houses program)
    (flat : ∀ entry ∈ entries, program.Flat entry)
    (inCode : ∀ entry ∈ entries, entry ∈ Reference.resolveCode program)
    (label : Int) :
    FailsOnly CompileError.Reported
      ((emitSteps site (entries.map Opcode.step)).outcome label) := by
  induction entries generalizing label with
  | nil => exact failsOnly_ok _
  | cons entry rest induction =>
      obtain ⟨flatFirst, flatRest⟩ := List.forall_mem_cons.mp flat
      obtain ⟨inFirst, inRest⟩ := List.forall_mem_cons.mp inCode
      rw [emitSteps_cons]
      refine FailsOnly.bind (FailsOnly.mapError ?_) fun value _ =>
        (induction flatRest inRest value.2).bind fun _ _ => failsOnly_ok _
      exact houses.step_reported flatFirst inFirst label

end Compiler

end LaneKernel
