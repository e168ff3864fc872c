import LaneKernel.Proofs.StepEmission

/-!
# Code that every kernel has

The code of a planned kernel marks the fixed labels and four labels for every
move of a tail, each once, and branches to nothing else.  It has an item for
everything it was planned for, and it is short enough for its branches as long
as the program is.
-/

namespace LaneKernel

open Asm Contract Fragment Outcome Compiler

section Sites

variable {program : Program} {options : CompileOptions}
  {plan : CompilePlan Unit} {body : List (Opcode × Instruction)}

theorem lookup_of_mem_keys {α β : Type} [BEq α] [LawfulBEq α]
    {pairs : List (α × β)} {key : α} (isKey : key ∈ pairs.map Prod.fst) :
    ∃ value, pairs.lookup key = some value := by
  obtain ⟨entry, isEntry, rfl⟩ := List.mem_map.mp isKey
  exact Option.isSome_iff_exists.mp
    (List.lookup_isSome_iff.mpr ⟨entry, isEntry, beq_self_eq_true _⟩)

theorem Compiler.mem_walkedArrays {lowered : Program}
    {entry : Opcode × Instruction} (flat : lowered.Flat entry)
    (isEntry : entry ∈ Reference.resolveCode lowered) {touch : Touch}
    (isTouch : entry.1.touch? lowered.var entry.2 = some touch) :
    touch.array ∈ walkedArrays lowered
      ((Reference.resolveCode lowered).map Opcode.step) := by
  have isStep : Opcode.step entry ∈
      (Reference.resolveCode lowered).map Opcode.step :=
    List.mem_map_of_mem isEntry
  have moves := flat.checked.moves
  obtain ⟨⟨kind, size⟩, instruction⟩ := entry
  refine List.mem_filter.mpr ⟨?_,
    List.contains_iff_mem.mpr (List.mem_filterMap.mpr ⟨_, isStep, ?_⟩)⟩
  · apply Program.mem_arrays
    cases kind with
    | load | loadOffset =>
        cases isTouch
        rw [show (lowered.var instruction.firstSource).role =
          .source from moves]
        rfl
    | store =>
        cases isTouch
        rw [show (lowered.var instruction.target).role = .dest from moves]
        rfl
    | loadParam | arith op => cases isTouch
  · cases kind with
    | load | loadOffset | store =>
        cases isTouch
        rfl
    | loadParam | arith op => cases isTouch

/-- The sites of a plan have registers for all operands. -/
theorem Planned.houses (planned : Planned program options plan body)
    (built : program.Built) (inTail : Bool) {copy : Nat} (few : copy < 4) :
    (site plan inTail (blockBytes * copy)).Houses plan.program where
  var := rfl
  temps index isTemp := by
    have isDeclared : index ∈ plan.vectors.map Prod.fst := by
      rw [planned.vectors]
      exact List.mem_filter.mpr ⟨Program.temp_slot planned.lowered built isTemp,
        Program.declared_eq_true.mpr (by rw [isTemp]; decide)⟩
    obtain ⟨register, found⟩ := lookup_of_mem_keys isDeclared
    exact ⟨_, found.trans
      (congrArg some (planned.vector_eq (mem_of_lookup found)))⟩
  arrays entry isEntry touch isTouch := by
    have isWalked : touch.array ∈ plan.pointers.map Prod.fst := by
      rw [planned.pointers]
      exact mem_walkedArrays (Program.flat_of_mem planned.lowered isEntry)
        isEntry isTouch
    obtain ⟨register, found⟩ := lookup_of_mem_keys isWalked
    exact ⟨_, found.trans
      (congrArg some (planned.pointer_eq (mem_of_lookup found)))⟩
  params index isParam := Program.param_slot planned.lowered built isParam
  copy := by
    change blockBytes * copy % 16 = 0 ∧ blockBytes * copy ≤ 48
    unfold blockBytes
    omega

theorem EmitM.failsOnly_bind {α β : Type} {allowed : CompileError → Prop}
    {action : EmitM Unit α} {next : α → EmitM Unit β} {label : Label}
    (front : FailsOnly allowed (action.outcome label))
    (back : ∀ value later, FailsOnly allowed ((next value).outcome later)) :
    FailsOnly allowed ((action >>= next).outcome label) := by
  rw [EmitM.outcome_bind]
  exact front.bind fun (value, later) _ => back value later

theorem Fragment.Closed.plain {code : Fragment} {label : Int} {room : Nat}
    (closed : code.Closed label label room) : code.Plain room where
  noMarks := closed.marks_eq_nil
  fits labels := closed.fits.mono (closed.marks_eq_nil ▸ List.nil_subset labels)
  short := closed.short

theorem Compiler.emitKernel_eq (plan : CompilePlan Unit) (unroll : Nat) :
    emitKernel plan unroll =
      (emitSteps (site plan false 0) plan.invariants >>= fun invariants =>
        emitSteps (site plan true 0) plan.body >>= fun tail =>
        emitCopies plan (copies unroll) 0 >>= fun main =>
        (if unroll > 0 then emitSteps (site plan false 0) plan.body
         else pure []) >>= fun rest =>
        pure (plan.frame.prologue ++ loadPointers plan ++ invariants
          ++ loop plan unroll tail main rest ++ plan.frame.epilogue)) := by
  unfold emitKernel
  by_cases unrolled : unroll > 0
  · simp only [if_pos unrolled]
  · simp only [if_neg unrolled]

section Regions

variable (planned : Planned program options plan body) (built : program.Built)

include planned built

/-- Steps outside the tail have plain code. -/
theorem Planned.whole_succeeds {entries : List (Opcode × Instruction)}
    (inCode : ∀ entry ∈ entries, entry ∈ Reference.resolveCode plan.program)
    (near : ∀ entry ∈ entries, plan.program.NearOffset entry) {copy : Nat}
    (few : copy < 4) (label : Int) :
    ∃ code, (emitSteps (site plan false (blockBytes * copy))
        (entries.map Opcode.step)).outcome label = .ok (code, label) ∧
      code.Plain (7 * entries.length) := by
  obtain ⟨code, isCode, closed⟩ :=
    emitSteps_succeeds (planned.houses built false few)
    (fun entry isEntry =>
      Program.flat_of_mem planned.lowered (inCode entry isEntry)) inCode near
    label
  have noMoves : (site plan false (blockBytes * copy)).moves entries = 0 :=
    EmitSite.moves_of_whole rfl
  rw [noMoves, Nat.cast_zero, Int.mul_zero, Int.add_zero] at isCode closed
  exact ⟨code, isCode, closed.plain⟩

theorem Planned.copies_succeeds
    (near : ∀ entry ∈ body, plan.program.NearOffset entry) {count copy : Nat}
    (few : copy + count ≤ 4) (label : Int) :
    ∃ code, (emitCopies plan count copy).outcome label = .ok (code, label) ∧
      code.Plain (7 * body.length * count) := by
  induction count generalizing copy with
  | zero => exact ⟨[], rfl, .nil _⟩
  | succ count induction =>
      obtain ⟨code, isCode, plainCode⟩ := planned.whole_succeeds built
        (fun entry isEntry => (planned.mem_resolveCode isEntry).1) near
        (show copy < 4 by omega) label
      obtain ⟨more, isMore, plainMore⟩ :=
        induction (show copy + 1 + count ≤ 4 by omega)
      refine ⟨code ++ more, ?_, ?_⟩
      · rw [← planned.isBody] at isCode
        unfold emitCopies
        exact EmitM.outcome_bind_eq_ok.mpr ⟨code, label, isCode,
          EmitM.outcome_bind_eq_ok.mpr ⟨more, label, isMore, rfl⟩⟩
      · rw [Nat.mul_succ, Nat.add_comm]
        exact plainCode.append plainMore

/-- A kernel whose offsets are near has code. -/
theorem Planned.kernel_succeeds
    (near : ∀ entry ∈ Reference.resolveCode plan.program,
      plan.program.NearOffset entry)
    {unroll : Nat} (few : unroll ≤ 2) :
    ∃ invariants tail main rest later,
      (emitKernel plan unroll).outcome firstFreeLabel =
        .ok (plan.frame.prologue ++ loadPointers plan ++ invariants
          ++ loop plan unroll tail main rest ++ plan.frame.epilogue, later) ∧
      invariants.Plain (7 * (Reference.resolveCode plan.program).length) ∧
      tail.Closed firstFreeLabel
        (firstFreeLabel + 4 * body.countP Opcode.movesArray)
          (7 * body.length + 33 * body.countP Opcode.movesArray) ∧
      main.Plain (7 * body.length * 4) ∧ rest.Plain (7 * body.length) := by
  have inCode : ∀ entry ∈ body, entry ∈ Reference.resolveCode plan.program :=
    fun entry isEntry => (planned.mem_resolveCode isEntry).1
  have nearBody : ∀ entry ∈ body, plan.program.NearOffset entry :=
    fun entry isEntry => near entry (inCode entry isEntry)
  have marked :=
    fun entry (isEntry : entry ∈ (Reference.resolveCode plan.program).filter
    fun entry => entry.2.invariant) => List.mem_of_mem_filter isEntry
  obtain ⟨invariants, isInvariants, plainInvariants⟩ :=
    planned.whole_succeeds built marked
    (fun entry isEntry => near entry (marked entry isEntry))
      (show 0 < 4 by decide) firstFreeLabel
  obtain ⟨tail, isTail, closedTail⟩ := emitSteps_succeeds
    (planned.houses built true (show 0 < 4 by decide))
    (fun entry isEntry =>
      Program.flat_of_mem planned.lowered (inCode entry isEntry)) inCode
    nearBody firstFreeLabel
  have isMoves : (site plan true (blockBytes * 0)).moves body =
      body.countP Opcode.movesArray := rfl
  rw [isMoves] at isTail closedTail
  rw [← planned.isBody] at isTail
  rw [← planned.invariants] at isInvariants
  generalize firstFreeLabel + 4 * (body.countP Opcode.movesArray : Int) =
    later at *
  have power := copies_le few
  obtain ⟨main, isMain, plainMain⟩ := planned.copies_succeeds built nearBody
    (show 0 + copies unroll ≤ 4 by omega) later
  obtain ⟨rest, isRest, plainRest⟩ : ∃ rest, (if unroll > 0 then
      emitSteps (site plan false 0) plan.body
        else pure [] : EmitM Unit Fragment).outcome later =
        .ok (rest, later) ∧ rest.Plain (7 * body.length) := by
    split
    · rw [planned.isBody]
      exact planned.whole_succeeds built inCode nearBody
        (show 0 < 4 by decide) later
    · exact ⟨[], rfl, .nil _⟩
  refine ⟨invariants, tail, main, rest, later, ?_, plainInvariants.weaken ?_,
    closedTail, plainMain.weaken (Nat.mul_le_mul_left _ power), plainRest⟩
  · rw [emitKernel_eq]
    exact EmitM.outcome_bind_eq_ok.mpr ⟨_, _, isInvariants,
      EmitM.outcome_bind_eq_ok.mpr ⟨_, _, isTail,
        EmitM.outcome_bind_eq_ok.mpr ⟨_, _, isMain,
          EmitM.outcome_bind_eq_ok.mpr ⟨_, _, isRest, rfl⟩⟩⟩⟩
  · exact Nat.mul_le_mul_left 7 (List.length_filter_le _ _)

theorem Planned.steps_reported (inTail : Bool) {copy : Nat} (few : copy < 4)
    {entries : List (Opcode × Instruction)}
    (inCode : ∀ entry ∈ entries, entry ∈ Reference.resolveCode plan.program)
    (label : Label) :
    FailsOnly CompileError.Reported
      ((emitSteps (site plan inTail (blockBytes * copy))
        (entries.map Opcode.step)).outcome label) :=
  emitSteps_reported (planned.houses built inTail few)
    (fun entry isEntry =>
      Program.flat_of_mem planned.lowered (inCode entry isEntry)) inCode label

theorem Planned.copies_reported {count copy : Nat} (few : copy + count ≤ 4)
    (label : Label) :
    FailsOnly CompileError.Reported
      ((emitCopies plan count copy).outcome label) := by
  induction count generalizing copy label with
  | zero => exact failsOnly_ok _
  | succ count induction =>
      unfold emitCopies
      refine EmitM.failsOnly_bind ?_ fun _ later => EmitM.failsOnly_bind
        (induction (show copy + 1 + count ≤ 4 by omega) later) fun _ _ =>
          failsOnly_ok _
      rw [planned.isBody]
      exact planned.steps_reported built false (by omega)
        (fun entry isEntry => (planned.mem_resolveCode isEntry).1) label

/-- A kernel that has no code says why. -/
theorem Planned.kernel_reported {unroll : Nat} (few : unroll ≤ 2) :
    FailsOnly CompileError.Reported
      ((emitKernel plan unroll).outcome firstFreeLabel) := by
  have inCode : ∀ entry ∈ body, entry ∈ Reference.resolveCode plan.program :=
    fun entry isEntry => (planned.mem_resolveCode isEntry).1
  have power := copies_le few
  rw [emitKernel_eq, planned.invariants, planned.isBody]
  refine EmitM.failsOnly_bind
    (planned.steps_reported built false (show 0 < 4 by decide)
      (fun entry isEntry => List.mem_of_mem_filter isEntry) _) fun _ _ => ?_
  refine EmitM.failsOnly_bind
    (planned.steps_reported built true (show 0 < 4 by decide) inCode _)
    fun _ _ => ?_
  refine EmitM.failsOnly_bind (planned.copies_reported built (by omega) _)
    fun _ _ => ?_
  refine EmitM.failsOnly_bind ?_ fun _ _ => failsOnly_ok _
  split
  · exact planned.steps_reported built false (show 0 < 4 by decide) inCode _
  · exact failsOnly_ok _

end Regions

namespace Slot

variable {slot : Slot}

theorem plain_code (loadable : slot.Loadable) (near : slot.offset ≤ 4088)
    (aligned : slot.register.isVector = true → slot.offset % 8 = 0) :
    slot.saveCode.Plain 1 ∧ slot.restoreCode.Plain 1 := by
  obtain ⟨offset, register⟩ := slot
  obtain ⟨number, isRegister⟩ := loadable
  have isStack : Reg.sp.isGeneral = true := rfl
  change offset ≤ 4088 at near
  rcases isRegister with isVector | ⟨isGeneral, _⟩
  · change register = .vec number at isVector
    subst isVector
    have aligned : offset % 8 = 0 := aligned rfl
    have counts : Insn.countable .double offset = true := by
      have isSize : DataFormat.size .double = 8 := rfl
      refine decide_eq_true ⟨by decide, ?_⟩
      rw [isSize]
      omega
    have isFull : (Reg.vec number).isVector = true := rfl
    exact ⟨.insn (by simp only [Insn.encodable, isFull, isStack, counts,
      Bool.and_self]),
        .insn (by simp only [Insn.encodable, isFull, isStack, counts,
      Bool.and_self])⟩
  · change register = .gp number at isGeneral
    subst isGeneral
    have isWord : ∀ op : MemOp,
        (insn (.mem op (.gp number) .sp offset)).Plain 1 := by
      intro op
      have isFull : (Reg.gp number).isGeneral = true := rfl
      refine .insn ?_
      simp only [Insn.encodable, isFull, isStack, Bool.true_and,
        decide_eq_true_eq]
      omega
    exact ⟨isWord .sw, isWord .lw⟩

end Slot

section Frame

variable (planned : Planned program options plan body)

include planned

theorem Planned.saves_le :
    plan.frame.generalSaves.length ≤ 64 ∧
      plan.frame.vectorSaves.length ≤ 64 := by
  obtain ⟨isGeneral, isVector⟩ := planned.saves_eq
  have few : ∀ registers, (Contract.ascending registers).length ≤ 64 :=
    fun registers => List.length_filter_le _ _
  rw [isGeneral, isVector]
  exact ⟨few _, few _⟩

theorem Planned.slot_plain {slot : Slot} (isSlot : slot ∈ plan.frame.slots) :
    slot.saveCode.Plain 1 ∧ slot.restoreCode.Plain 1 := by
  have sound := planned.frame_sound
  obtain ⟨fewGeneral, fewVector⟩ := planned.saves_le
  obtain ⟨isOffset, _⟩ := sound.offsets
  unfold Frame.alignUp at isOffset
  rcases List.mem_append.mp isSlot with isGeneral | isVector
  · obtain ⟨index, below, atOffset, _, isMember⟩ :=
      sound.mem_generalSlots isGeneral
    obtain ⟨number, isRegister, _⟩ := sound.general _ isMember
    refine Slot.plain_code (sound.loadable isSlot) (by omega) fun isVector => ?_
    rw [isRegister] at isVector
    cases isVector
  · obtain ⟨index, below, atOffset, _⟩ := sound.mem_vectorSlots isVector
    exact Slot.plain_code (sound.loadable isSlot) (by omega) fun _ => by omega

theorem Planned.slots_le : plan.frame.slots.length ≤ 128 := by
  obtain ⟨fewGeneral, fewVector⟩ := planned.saves_le
  unfold Frame.slots Frame.generalSlots Frame.vectorSlots
  simp only [List.length_append, List.length_map, List.length_zipIdx]
  omega

theorem Planned.frame_plain :
    plan.frame.prologue.Plain 132 ∧ plan.frame.epilogue.Plain 132 := by
  have sound := planned.frame_sound
  obtain ⟨_, _, small⟩ := sound.offsets
  have fewSlots := planned.slots_le
  have isStack : Reg.sp.isGeneral = true ∧ Reg.fp.isGeneral = true := ⟨rfl, rfl⟩
  have isSaved :
      Plain (1 * plan.frame.slots.length)
      (plan.frame.slots.flatMap Slot.saveCode) :=
    .flatMap fun slot isSlot => (planned.slot_plain isSlot).1
  have isRestored :
      Plain (1 * plan.frame.slots.reverse.length) plan.frame.restores :=
    .flatMap fun slot isSlot =>
      (planned.slot_plain (List.mem_reverse.mp isSlot)).2
  rw [List.length_reverse] at isRestored
  have isMoved : ∀ amount : Int, -0x8000 ≤ amount ∧ amount ≤ 0x7fff →
      (addiu .sp .sp amount).Plain 1 := by
    intro amount near
    exact .insn (by simp [Insn.encodable, isStack, near])
  have isKept : ∀ op : MemOp, (insn (.mem op .fp .sp 0)).Plain 1 :=
    fun op => .insn (by simp [Insn.encodable, isStack])
  have isArgument : (sw executor .sp Frame.argumentSlot).Plain 1 :=
    .insn (by decide)
  have isFrame : (move .fp .sp).Plain 1 := .insn (by decide)
  have isReturn : (insn (.jr .ra)).Plain 1 := .insn (by decide)
  have isDelay : nop.Plain 1 := .insn (by decide)
  constructor
  · rw [sound.prologue_eq, Frame.entrySlots, List.flatMap_cons]
    exact ((isMoved _ (by omega)).append ((isKept .sw).append (isFrame.append
      (isArgument.append isSaved)))).weaken (by omega)
  · rw [sound.epilogue_eq]
    exact (isRestored.append ((isKept .lw).append ((isMoved _ (by omega)).append
      (isReturn.append isDelay)))).weaken (by omega)

end Frame

section Loop

variable (planned : Planned program options plan body)

include planned

/-- Code for every walked array. -/
theorem Planned.walked_plain {code : VarIndex → Reg → Fragment} (room : Nat)
    (plain : ∀ (index : Int) (number : RegNum), 0 ≤ index → index < 64 →
      (code index (.gp number)).Plain room) :
      (forWalked plan code).Plain (room * 15) := by
  have few : plan.pointers.length ≤ 15 := by
    have bound := planned.pointerOrder.length_le
    rwa [List.length_map] at bound
  refine Plain.weaken (.flatMap fun entry isEntry => ?_)
    (Nat.mul_le_mul_left room few)
  obtain ⟨above, below⟩ := planned.pointer_bounds isEntry
  change (code entry.1 entry.2).Plain room
  rw [planned.pointer_eq isEntry]
  exact plain entry.1 _ above below

theorem Planned.loadPointers_plain : (loadPointers plan).Plain 15 := by
  refine planned.walked_plain 1 fun index number above below => ?_
  have isStart : (Executor.arraysOffset : Int) = 20 := rfl
  have near : -0x8000 ≤ Executor.arraySlotOffset index ∧
      Executor.arraySlotOffset index ≤ 0x7fff := by
    unfold Executor.arraySlotOffset
    omega
  have isExecutor : executor.isGeneral = true := rfl
  have isPointer : (Reg.gp number).isGeneral = true := rfl
  exact .insn (by simp [Insn.encodable, isExecutor, isPointer, near])

theorem Planned.advanceBy_plain {bytes : Nat} (few : bytes ≤ 64) :
    (advanceBy plan bytes).Plain 15 := by
  refine planned.walked_plain 1 fun index number _ _ => ?_
  have isPointer : (Reg.gp number).isGeneral = true := rfl
  refine .insn ?_
  simp only [Insn.encodable, isPointer, Bool.true_and, decide_eq_true_eq]
  omega

theorem Planned.advanceByTail_plain : (advanceByTail plan).Plain 15 :=
  planned.walked_plain 1 fun _ _ _ _ => .insn rfl

theorem Planned.nextRow_plain : (forWalked plan fun index pointer =>
    lw scratch executor (Executor.paramSlotOffset index)
      ++ subu scratch scratch tailBytes ++ addu pointer pointer scratch).Plain
        45 := by
  refine planned.walked_plain 3 fun index number above below => ?_
  have isStart : (Executor.paramsOffset : Int) = 276 := rfl
  have near : -0x8000 ≤ Executor.paramSlotOffset index ∧
      Executor.paramSlotOffset index ≤ 0x7fff := by
    unfold Executor.paramSlotOffset
    omega
  have isExecutor : executor.isGeneral = true := rfl
  have isScratch := Staging.general_working.1
  have isStride :
      (lw scratch executor (Executor.paramSlotOffset index)).Plain 1 :=
    .insn (by simp [Insn.encodable, isExecutor, isScratch, near])
  exact (isStride.append (.insn rfl)).append (.insn rfl)

end Loop

/-- The label of the loop over rows. -/
def Compiler.rowLabels (plan : CompilePlan Unit) : List Label :=
  if plan.program.twoD then [labelRow] else []

/-- The label of the loop over vectors that the unrolled loop leaves over. -/
def Compiler.restLabels (unroll : Nat) : List Label :=
  if unroll > 0 then [labelRestLoop] else []

/-- The labels in front of the tail. -/
def Compiler.frontLabels (plan : CompilePlan Unit) : List Label :=
  rowLabels plan ++ [labelTail]

/-- The labels behind the tail. -/
def Compiler.backLabels (unroll : Nat) : List Label :=
  [labelMain, labelMainLoop, labelRest] ++ restLabels unroll ++
    [labelRestEnd, labelEnd]

section Counters

theorem general_counters :
    executor.isGeneral = true ∧ leftover.isGeneral = true ∧
    blocks.isGeneral = true ∧ rows.isGeneral = true := by decide

variable {labels : List Label}

theorem Compiler.rowHead_shaped (plan : CompilePlan Unit)
    (isEnd : labelEnd ∈ labels) :
    (rowHead plan).Shaped labels (rowLabels plan) 3 := by
  obtain ⟨isExecutor, _, _, isRows⟩ := general_counters
  unfold rowHead rowLabels
  split
  · have isCount :
        (lw rows executor
          (Executor.paramSlotOffset Executor.rowCountSlot)).Plain 1 :=
      .insn (by decide)
    exact ((isCount.shaped labels).append
      (.branch_zero isRows (.inr (.inr rfl)) isEnd)).append (.mark labelRow)
  · exact ((Plain.nil 3).shaped labels)

/-- Counters step back by one and the loop is repeated while they are
positive. -/
theorem Compiler.repeat_shaped {counter : Reg}
    (isGeneral : counter.isGeneral = true) {label : Label}
    (isMarked : label ∈ labels) :
    Shaped labels [] 3 (addiu counter counter (-1) ++ bnez counter label) := by
  have isStep : (addiu counter counter (-1)).Plain 1 :=
    .insn (by simp [Insn.encodable, isGeneral])
  exact (isStep.shaped labels).append
    (.branch_zero isGeneral (.inr (.inl rfl)) isMarked)

theorem Compiler.splitCount_shaped (shift : plan.shift ≤ 3) {unroll : Nat}
    (few : unroll ≤ 2) (isEnd : labelEnd ∈ labels)
    (isMain : labelMain ∈ labels) :
    (splitCount plan unroll).Shaped labels [] 10 := by
  obtain ⟨isExecutor, isLeftover, isBlocks, _⟩ := general_counters
  have isTail := Staging.general_working.2.2.2.2.1
  have isCount : (lw tailBytes executor Executor.countOffset).Plain 1 :=
    .insn (by decide)
  have isBytes : (sll tailBytes tailBytes plan.shift).Plain 1 := by
    refine .insn ?_
    simp only [Insn.encodable, isTail, Bool.true_and, decide_eq_true_eq]
    omega
  have isVectors : (srl blocks tailBytes 4).Plain 1 := .insn (by decide)
  have isSplit : Plain 2 (if unroll > 0 then
      andi leftover blocks (copies unroll - 1) ++ srl blocks blocks unroll
        else []) := by
    have cases : unroll = 0 ∨ unroll = 1 ∨ unroll = 2 := by omega
    rcases cases with rfl | rfl | rfl
    · exact .nil 2
    · exact Plain.append (.insn (by decide)) (.insn (by decide))
    · exact Plain.append (.insn (by decide)) (.insn (by decide))
  have isRemainder : (andi tailBytes tailBytes (blockBytes - 1)).Plain 1 :=
    .insn (by decide)
  exact ((((((isCount.shaped labels).append
    (.branch_zero isTail (.inr (.inr rfl)) isEnd)).append
      (isBytes.shaped labels)).append (isVectors.shaped labels)).append
    (isSplit.shaped labels)).append (isRemainder.shaped labels)).append
    (.branch_zero isTail (.inl rfl) isMain)

variable (planned : Planned program options plan body)

include planned

theorem Planned.rowEnd_shaped (shift : plan.shift ≤ 3)
    (isRow : plan.program.twoD = true → labelRow ∈ labels) :
    (rowEnd plan).Shaped labels [] 50 := by
  obtain ⟨_, _, _, isRows⟩ := general_counters
  have isTail := Staging.general_working.2.2.2.2.1
  unfold rowEnd
  split
  case isTrue twoD =>
    have isCount : (lw tailBytes executor Executor.countOffset).Plain 1 :=
      .insn (by decide)
    have isBytes : (sll tailBytes tailBytes plan.shift).Plain 1 := by
      refine .insn ?_
      simp only [Insn.encodable, isTail, Bool.true_and, decide_eq_true_eq]
      omega
    rw [List.append_assoc _ (addiu rows rows (-1))]
    exact ((((isCount.append isBytes).append planned.nextRow_plain).shaped
      labels).append (repeat_shaped isRows (isRow twoD))).weaken (by decide)
  case isFalse => exact (Plain.nil 50).shaped labels

theorem Planned.rest_shaped {rest : Fragment} {room : Nat}
    (plainRest : rest.Plain room) {unroll : Nat}
    (back : backLabels unroll ⊆ labels) :
    Shaped labels (restLabels unroll) (room + 20) (if unroll > 0 then
      beqz leftover labelRestEnd ++ mark labelRestLoop ++ rest
        ++ advanceBy plan blockBytes
        ++ addiu leftover leftover (-1) ++ bnez leftover labelRestLoop
    else []) := by
  obtain ⟨_, isLeftover, _, _⟩ := general_counters
  unfold restLabels
  split
  case isTrue unrolled =>
    have isEnd : labelRestEnd ∈ labels := back (by simp [backLabels])
    have isLoop : labelRestLoop ∈ labels :=
      back (by simp [backLabels, restLabels, unrolled])
    rw [List.append_assoc _ (addiu leftover leftover (-1))]
    exact (((((Shaped.branch_zero isLeftover (.inl rfl) isEnd).append
      (.mark _)).append (plainRest.shaped labels)).append
        ((planned.advanceBy_plain (by decide)).shaped labels)).append
      (repeat_shaped isLeftover isLoop)).weaken (by omega)
  case isFalse => exact (Plain.nil _).shaped labels

theorem Planned.loop_shaped (shift : plan.shift ≤ 3) {unroll : Nat}
    (few : unroll ≤ 2) {tail main rest : Fragment} {marks : List Label}
    {tailRoom mainRoom restRoom : Nat}
    (shapedTail : tail.Shaped labels marks tailRoom)
    (plainMain : main.Plain mainRoom) (plainRest : rest.Plain restRoom)
    (front : frontLabels plan ⊆ labels) (back : backLabels unroll ⊆ labels) :
    (loop plan unroll tail main rest).Shaped labels
      (frontLabels plan ++ marks ++ backLabels unroll)
        (tailRoom + mainRoom + restRoom + 150) := by
  obtain ⟨_, _, isBlocks, _⟩ := general_counters
  have isMain : labelMain ∈ labels := back (by simp [backLabels])
  have isMainLoop : labelMainLoop ∈ labels := back (by simp [backLabels])
  have isRest : labelRest ∈ labels := back (by simp [backLabels])
  have isEnd : labelEnd ∈ labels := back (by simp [backLabels])
  have isRow : plan.program.twoD = true → labelRow ∈ labels :=
    fun twoD => front (by simp [frontLabels, rowLabels, twoD])
  have power := copies_le few
  have isAdvance :=
    planned.advanceBy_plain (show blockBytes * copies unroll ≤ 64 by
    unfold blockBytes
    omega)
  have isLoop := (((((((rowHead_shaped plan isEnd).append
    (splitCount_shaped shift few isEnd isMain)).append (.mark labelTail)).append
      shapedTail).append
    (planned.advanceByTail_plain.shaped labels)).append
      (.mark labelMain)).append
    (.branch_zero isBlocks (.inl rfl) isRest)).append (.mark labelMainLoop)
  have isWhole := ((((((isLoop.append (plainMain.shaped labels)).append
    (isAdvance.shaped labels)).append
      (repeat_shaped isBlocks isMainLoop)).append
    (.mark labelRest)).append (planned.rest_shaped plainRest back)).append
    (.mark labelRestEnd)).append (planned.rowEnd_shaped shift isRow)
  have isFinal := isWhole.append (.mark labelEnd)
  unfold loop
  rw [List.append_assoc _ (addiu blocks blocks (-1))]
  refine ⟨isFinal.isMarks.trans ?_, isFinal.fits,
    isFinal.short.trans (by omega)⟩
  unfold frontLabels backLabels
  simp only [List.append_assoc, List.cons_append, List.nil_append,
    List.append_nil]

end Counters

section Kernel

variable (planned : Planned program options plan body)

include planned

theorem Planned.countP_body (unmarked : program.Unmarked) :
    body.countP Opcode.movesArray =
      (Reference.resolveCode plan.program).countP Opcode.movesArray := by
  rw [← planned.reordered.perm.countP_eq, List.countP_filter]
  apply List.countP_congr
  intro entry isEntry
  cases isMarked : entry.2.invariant with
  | false => simp
  | true =>
      have isKind :=
        Program.kind_of_marked planned.lowered unmarked isEntry isMarked
      simp [Opcode.movesArray, Opcode.isLoad, Opcode.isStore, isKind]

theorem Planned.length_body_le :
    body.length ≤ (Reference.resolveCode plan.program).length := by
  rw [← planned.reordered.perm.length_eq]
  exact List.length_filter_le _ _

omit planned in
/-- The fixed labels are below those of the tail, and no two are the same. -/
theorem Compiler.fixed_labels (plan : CompilePlan Unit) (unroll : Nat) :
    (frontLabels plan ++ backLabels unroll).Nodup ∧
      ∀ label : Int, label ∈ frontLabels plan ++ backLabels unroll → 0 ≤ label ∧
        label < 16 := by
  unfold frontLabels backLabels rowLabels restLabels
  by_cases unrolled : unroll > 0
  · rw [if_pos unrolled]
    cases plan.program.twoD <;> decide
  · rw [if_neg unrolled]
    cases plan.program.twoD <;> decide

/-- The code of a kernel with its labels. -/
structure Compiler.KernelLabels (moves length : Nat) (fragment : Fragment) :
    Prop where
  fits : fragment.AllFit fragment.marks
  nodup : fragment.marks.Nodup
  bounds : ∀ label : Int, label ∈ fragment.marks → 0 ≤ label ∧
    label < 16 + 4 * moves
  last : 0 < moves → (15 + 4 * moves : Int) ∈ fragment.marks
  short : fragment.words ≤ 49 * length + 33 * moves + 450

theorem Planned.kernel_labels (shift : plan.shift ≤ 3) {unroll : Nat}
    (few : unroll ≤ 2) {invariants tail main rest : Fragment}
    {moves length : Nat} (plainInvariants : invariants.Plain (7 * length))
    (closedTail : tail.Closed firstFreeLabel (firstFreeLabel + 4 * moves)
      (7 * length + 33 * moves))
    (plainMain : main.Plain (7 * length * 4))
    (plainRest : rest.Plain (7 * length)) :
    KernelLabels moves length (plan.frame.prologue ++ loadPointers plan
      ++ invariants
      ++ loop plan unroll tail main rest ++ plan.frame.epilogue) := by
  obtain ⟨fixedNodup, fixedBounds⟩ := fixed_labels plan unroll
  obtain ⟨isPrologue, isEpilogue⟩ := planned.frame_plain
  obtain ⟨frontNodup, backNodup, frontBack⟩ := List.nodup_append.mp fixedNodup
  generalize isLabels : frontLabels plan ++ tail.marks ++
    backLabels unroll = labels
  have isTail : tail.Shaped labels tail.marks (7 * length + 33 * moves) :=
    ⟨rfl, closedTail.fits.mono fun label
      isMark => by rw [← isLabels]; simp [isMark], closedTail.short⟩
  have isLoop := planned.loop_shaped shift few isTail plainMain plainRest
    (fun label isMark => by rw [← isLabels]; simp [isMark])
    (fun label isMark => by rw [← isLabels]; simp [isMark])
  have isFront :=
    (isPrologue.append planned.loadPointers_plain).append plainInvariants
  have isWhole :=
    ((isFront.shaped labels).append isLoop).append (isEpilogue.shaped labels)
  rw [List.append_nil, List.nil_append, isLabels] at isWhole
  have mem_iff : ∀ label : Int, label ∈ labels ↔
      label ∈ frontLabels plan ++ backLabels unroll ∨ label ∈ tail.marks := by
    intro label
    rw [← isLabels]
    simp only [List.mem_append]
    tauto
  refine ⟨isWhole.isMarks ▸ isWhole.fits, ?_, ?_, ?_,
    isWhole.short.trans (by omega)⟩
  · rw [isWhole.isMarks, ← isLabels]
    -- Labels of the tail are not below the first free one, the fixed labels
    -- are.
    have apart : ∀ label : Int, label ∈ frontLabels plan ++ backLabels unroll →
        label ∉ tail.marks := by
      intro label isFixed isMark
      have above := ((closedTail.marks label).mp isMark).1
      have below := (fixedBounds label isFixed).2
      change (16 : Int) ≤ label at above
      omega
    refine List.nodup_append.mpr
      ⟨List.nodup_append.mpr ⟨frontNodup, closedTail.nodup, ?_⟩, backNodup, ?_⟩
    · rintro label isFixed other isMark rfl
      exact apart label (List.mem_append_left _ isFixed) isMark
    · rintro label isEarlier other isFixed rfl
      rcases List.mem_append.mp isEarlier with isFront | isMark
      · exact frontBack label isFront label isFixed rfl
      · exact apart label (List.mem_append_right _ isFixed) isMark
  · intro label isMark
    rw [isWhole.isMarks, mem_iff] at isMark
    rcases isMark with isFixed | isMark
    · have bounds := fixedBounds label isFixed
      omega
    · have bounds := (closedTail.marks label).mp isMark
      change (16 : Int) ≤ label ∧ label < 16 + 4 * moves at bounds
      omega
  · intro some
    rw [isWhole.isMarks, mem_iff]
    refine .inr ((closedTail.marks _).mpr ?_)
    change (16 : Int) ≤ 15 + 4 * moves ∧ (15 + 4 * moves : Int) < 16 + 4 * moves
    omega

/-- A kernel whose offsets are near has code with four labels for every move. -/
theorem Planned.kernel_code (built : program.Built)
    (unmarked : program.Unmarked)
    (near : ∀ entry ∈ Reference.resolveCode plan.program,
      plan.program.NearOffset entry) :
    ∃ fragment later,
      (emitKernel plan options.unroll.toNat).outcome firstFreeLabel =
        .ok (fragment, later) ∧
      KernelLabels ((Reference.resolveCode plan.program).countP
        Opcode.movesArray) (Reference.resolveCode plan.program).length
          fragment := by
  have few : options.unroll.toNat ≤ 2 := by
    have bounds := planned.unroll
    omega
  have shift := (elementShift_eq_ok planned.shift).1
  have shorter := planned.length_body_le
  obtain ⟨invariants, tail, main, rest, later, isCode, plainInvariants,
    closedTail, plainMain, plainRest⟩ := planned.kernel_succeeds built near few
  rw [planned.countP_body unmarked] at closedTail
  exact ⟨_, later, isCode, planned.kernel_labels shift few plainInvariants
    (closedTail.weaken (by omega)) (plainMain.weaken (by omega))
    (plainRest.weaken (by omega))⟩

end Kernel

end Sites

theorem Label.valid_iff {label : Int} : Label.valid label = true ↔ 0 ≤ label ∧
    label < 256 := by
  unfold Label.valid Label.capacity
  rw [Bool.and_eq_true, decide_eq_true_eq, decide_eq_true_eq]

namespace Compiler.KernelLabels

variable {moves length : Nat} {fragment : Fragment}
  (labels : KernelLabels moves length fragment)

include labels

theorem complete (few : moves ≤ 60) (short : length ≤ 500) :
    fragment.Complete := by
  have isShort := labels.short
  refine complete_of_fits labels.fits labels.nodup (fun label isMark => ?_)
    (by omega)
  have bounds := labels.bounds label isMark
  exact Label.valid_iff.mpr (by omega)

theorem few_of_assemble {options : CompileOptions} {result : MachineCode}
    (assembled : assemble fragment options = .ok result) : moves ≤ 60 := by
  by_contra many
  have isValid :=
    Label.valid_iff.mp (valid_of_assemble assembled _ (labels.last (by omega)))
  omega

theorem noCrash : fragment.crashes = false := crashes_of_fits labels.fits

end Compiler.KernelLabels

end LaneKernel
