import LaneKernel.Proofs.KernelFrame

/-!
# Runs of whole kernels

A kernel saves registers, loads its pointers and the values that no element
changes, goes through its loop, and loads the registers back.  `Tour.Entered`
collects what it relies on when it is entered, `Tour.Finished` what it promises
in front of the last words of its exit.
-/

namespace LaneKernel

open Asm Contract Compiler

namespace Tour

variable (tour : Tour)

/-- The frame of the kernel. -/
def frame : Region := ⟨tour.stack, tour.plan.frame.size⟩

/-- Outside of chunks the record is read and the frame is used. -/
def around : Permission := fun write address => tour.between write address ∨
    address ∈ tour.frame

/-- The walk of the whole kernel. -/
def kernelGuide (finish : Fragment × Core → Prop) :
    Guide (Fragment × Core) where
  between := tour.around
  during visit write address := tour.around write address ∨
    ∃ touch, tour.Touches touch ∧ touch.write = write ∧
      address ∈ tour.region visit touch
  enter := (tour.guide finish).enter
  covers := (tour.guide finish).covers
  finish := finish

/-- What a kernel relies on when it is entered. -/
structure Entered (mayTrap : Prop) (origin : Core) : Prop where
  small : origin.ram.size < 2 ^ 32
  pointer : origin.reg 4 = tour.start
  isStack : origin.reg 29 = tour.stack + UInt32.ofNat tour.plan.frame.size
  held : tour.executor.HeldAt origin.ram tour.start
  recordServed : mayTrap ∨ tour.start.toNat % 4 = 0 ∧
    origin.ram.Serves tour.record
  frameServed : mayTrap ∨ tour.stack.toNat % 4 = 0 ∧
    origin.ram.Serves tour.frame
  served : ∀ visit ∈ tour.visits, ∀ touch, tour.Touches touch →
    mayTrap ∨ origin.ram.Serves (tour.region visit touch)
  aligned : ∀ row < tour.rows, ∀ touch, tour.Touches touch →
    Routines.wordAligned tour.site touch.array touch.shift = true →
    mayTrap ∨
      (tour.rowStart touch.array row + Core.distance touch.shift).toNat % 4 = 0
  recordFrame : tour.record.Apart tour.frame
  recordSafe : ∀ visit ∈ tour.visits, ∀ touch, tour.Touches touch →
    touch.write = true →
    (tour.region visit touch).Apart tour.record
  frameSafe : ∀ visit ∈ tour.visits, ∀ touch, tour.Touches touch →
    touch.write = true →
    (tour.region visit touch).Apart tour.frame

/-- The bytes that a kernel may touch. -/
def footprint : Permission := fun write address => tour.around write address ∨
  ∃ visit ∈ tour.visits, ∃ touch, tour.Touches touch ∧ touch.write = write ∧
    address ∈ tour.region visit touch

/-- A core between the entry code and the exit code of a kernel: the frame keeps
the registers of the core that the kernel was entered with. -/
structure Opened (may : Permission) (origin core : Core) : Prop where
  keeps : origin.Keeps (29 :: 30 :: tour.changed) tour.site.vectorRegs core
  isStack : core.reg 29 = tour.stack
  kept : Ram.Kept may origin.ram core.ram
  framePointer : Slot.HeldAt ⟨0, .fp⟩ tour.stack origin core.ram
  held : ∀ slot ∈ tour.plan.frame.slots, slot.HeldAt tour.stack origin core.ram

/-- The instructions that are performed in front of the loop. -/
def preparations : List (Opcode × Instruction) :=
  (Reference.resolveCode tour.plan.program).filter fun entry =>
    entry.2.invariant

/-- What a proof about the data has to say of the instructions in front of the
loop. -/
structure Prepares (origin : Core) (whole : Nat → Nat → Core → Prop)
    (ahead : List (Opcode × Instruction) → Core → Prop) : Prop where
  opens : ∀ core, tour.Opened tour.around origin core →
    ahead tour.preparations core
  advance : ∀ entry remaining before after, ahead (entry :: remaining) before →
    Performed tour.site tour.executor tour.stack (fun _ => ⟨0, 0⟩) entry.1
      entry.2 before after →
    ahead remaining after
  closes : ∀ core, tour.Opened tour.around origin core → ahead [] core →
    whole 0 0 core

/-- What a kernel promises in front of the last words of its exit. -/
structure Finished (origin last : Core) : Prop where
  isStack : last.reg 29 = tour.stack
  caller : last.reg 31 = origin.reg 31
  general : ∀ number : RegNum, 16 ≤ number.val ∧ number.val ≤ 23 →
    last.reg number = origin.reg number
  vector : ∀ number : RegNum, 20 ≤ number.val ∧ number.val ≤ 30 →
    last.vector number = origin.vector number
  kept : Ram.Kept tour.footprint origin.ram last.ram
  framePointer : Slot.HeldAt ⟨0, .fp⟩ tour.stack origin last.ram

end Tour

/-- The code of a kernel without the last words of its exit. -/
def Compiler.KernelCode.body {plan : CompilePlan Unit} {unroll : Nat}
    {fragment : Fragment} (code : KernelCode plan unroll fragment) : Fragment :=
  plan.frame.prologue ++ (loadPointers plan ++ (code.invariants ++
    (loop plan unroll code.tail code.main code.rest ++ plan.frame.restores)))

theorem Compiler.KernelCode.body_append {plan : CompilePlan Unit} {unroll : Nat}
    {fragment : Fragment} (code : KernelCode plan unroll fragment)
    (sound : plan.frame.Sound) : code.body ++ plan.frame.exit = fragment := by
  refine Eq.trans ?_ code.isFragment.symm
  rw [sound.epilogue_eq, body]
  simp only [List.append_assoc]

section Run

variable {tour : Tour} {program : Program} {options : CompileOptions}
  (planned : Planned program options tour.plan tour.body)
  {target : Label → Fragment} {mayTrap : Prop} {origin core : Core}
  {goal : Goal} {ahead : Fragment} {log : List Access}
  (entered : tour.Entered mayTrap origin)

include planned in
theorem Tour.mem_stage (address : UInt32) (inStage : address ∈ tour.stage) :
    address ∈ tour.frame := by
  exact Region.mem_of_part inStage planned.frame_sound.large

include planned in
theorem Tour.opened_of_saved {second last : Core}
    (saved : Saved tour.stack [⟨0, .fp⟩] (origin.setReg 29 tour.stack) second)
    (lastSaved : Saved tour.stack tour.plan.frame.entrySlots
      (second.setReg 30 (second.reg 29)) last) :
    tour.Opened tour.around origin last := by
  have sound := planned.frame_sound
  have short : tour.plan.frame.size ≤ 2 ^ 32 :=
    sound.offsets.2.2.trans (by decide)
  have keeps : origin.Keeps [29, 30] [] (second.setReg 30 (second.reg 29)) :=
    Core.Keeps.setReg (((Core.Keeps.refl origin).setReg (by decide) _).trans
      (saved.keeps.mono (List.nil_subset _) (List.nil_subset _))) (by decide) _
  have sameRam : (second.setReg 30 (second.reg 29)).ram = second.ram :=
    Core.ram_setReg ..
  have entryRam : (origin.setReg 29 tour.stack).ram = origin.ram :=
    Core.ram_setReg ..
  have covers : ∀ address ∈ tour.frame, tour.around true address :=
    fun _ inFrame => .inr inFrame
  have firstKept :
      Ram.Kept tour.around (origin.setReg 29 tour.stack).ram second.ram := by
    refine saved.kept (fun slot isSlot => ?_) covers
    rw [List.mem_singleton.mp isSlot]
    exact sound.fp_fits
  have lastKept :=
    lastSaved.kept (fun _ isSlot => sound.entry_fits isSlot) covers
  rw [entryRam] at firstKept
  rw [sameRam] at lastKept
  exact {
    keeps := (keeps.trans
      (lastSaved.keeps.mono (List.nil_subset _) (List.nil_subset _))).mono
        (by simp) (List.nil_subset _)
    isStack := by
      rw [lastSaved.keeps.reg 29 (by decide),
        Core.reg_setReg_other _ _ _ _ (by decide),
        saved.keeps.reg 29 (by decide)]
      exact Core.reg_setReg_same _ _ _ (by decide)
    kept := firstKept.trans lastKept
    framePointer := by
      have held := saved.held ⟨0, .fp⟩ List.mem_cons_self
      apply Slot.HeldAt.congr (held.keep _)
      · exact Slot.bytes_congr
          (fun _ => (Core.reg_setReg_other _ _ _ _ (by decide)).symm)
          fun impossible => by cases impossible
      · intro address inSlot
        rw [lastSaved.peek, sameRam]
        intro slot isSlot
        have isBefore := (List.pairwise_cons.mp sound.entry_ordered).1
          slot isSlot
        exact isBefore.apart (sound.entry_fits isSlot) short tour.stack
          address inSlot
    held := by
      intro slot isSlot
      apply Slot.HeldAt.congr
        (lastSaved.held slot (List.mem_cons_of_mem _ isSlot))
      apply Slot.bytes_congr
      · intro isGeneral
        obtain ⟨number, isVector |
          ⟨isRegister, _, notStack, notFrame⟩⟩ := sound.loadable isSlot
        · rw [isVector] at isGeneral
          cases isGeneral
        · rw [isRegister]
          exact (keeps.reg number (by simp [notStack, notFrame])).symm
      · intro _
        exact (keeps.vector _ List.not_mem_nil).symm }

include planned entered in
/-- The entry code saves the registers and sets up the frame. -/
theorem Tour.prologue_leads
    (continues : ∀ next logged, tour.Opened tour.around origin next →
      Leads ⟨target, tour.around, mayTrap⟩ goal ahead next logged) :
    Leads ⟨target, tour.around, mayTrap⟩ goal
      (tour.plan.frame.prologue ++ ahead) origin log := by
  have sound := planned.frame_sound
  have short : tour.plan.frame.size ≤ 2 ^ 32 :=
    sound.offsets.2.2.trans (by decide)
  have isPrologue : tour.plan.frame.prologue ++ ahead =
      addiu .sp .sp (-(tour.plan.frame.size : Int))
        ++ ([Slot.mk 0 .fp].flatMap Slot.saveCode
        ++ (move .fp .sp
        ++ (tour.plan.frame.entrySlots.flatMap Slot.saveCode ++ ahead))) := by
    rw [sound.prologue_eq, List.flatMap_cons, List.flatMap_nil, List.append_nil]
    simp only [List.append_assoc]
  rw [isPrologue]
  apply Leads.addiu
  have below : origin.reg 29 + Core.distance (-(tour.plan.frame.size : Int)) =
      tour.stack := by
    rw [entered.isStack, UInt32.add_assoc, ← Core.distance_natCast,
      ← Core.distance_add, Int.add_right_neg]
    exact UInt32.add_zero _
  rw [show Reg.sp.index = 29 from rfl, below]
  have framed : Framed ⟨target, tour.around, mayTrap⟩ tour.stack
      tour.plan.frame.size (origin.setReg 29 tour.stack) :=
    ⟨by simpa using entered.small, Core.reg_setReg_same _ _ _ (by decide),
      fun address inFrame _ => .inr inFrame, by
        rw [Core.ram_setReg]
        exact entered.frameServed⟩
  apply Leads.saves framed short
  · intro slot isSlot
    rw [List.mem_singleton.mp isSlot]
    exact sound.fp_fits
  · exact List.pairwise_singleton _ _
  intro second _ saved
  apply Leads.move
  have movedFramed :
      Framed ⟨target, tour.around, mayTrap⟩ tour.stack tour.plan.frame.size
      (second.setReg 30 (second.reg 29)) :=
    (framed.keep (saved.keeps.reg 29 (by decide)) saved.base saved.size).keep
      (Core.reg_setReg_other _ _ _ _ (by decide)) (by rw [Core.ram_setReg])
      (by rw [Core.ram_setReg])
  apply Leads.saves movedFramed short (fun _ isSlot => sound.entry_fits isSlot)
    (List.pairwise_cons.mp sound.entry_ordered).2
  exact fun last logged lastSaved =>
    continues last logged (Tour.opened_of_saved planned saved lastSaved)

namespace Tour.Opened

variable {may : Permission}

include planned in
theorem step (opened : tour.Opened may origin core) {next : Core}
    {narrow : Permission}
    (keeps : core.Keeps tour.changed tour.site.vectorRegs next)
    (kept : Ram.Kept narrow core.ram next.ram)
    (allowed : ∀ address, narrow true address → may true address)
    (staged : ∀ address ∈ tour.frame, narrow true address →
      address ∈ tour.stage) :
    tour.Opened may origin next := by
  have sound := planned.frame_sound
  have large := sound.large
  have small := sound.offsets.2.2
  have stays : ∀ slot : Slot, slot.Fits tour.plan.frame.size →
      slot.offset + slot.size ≤ 16 ∨ 32 ≤ slot.offset →
      ∀ address ∈ slot.region tour.stack,
        next.ram.peek address = core.ram.peek address := by
    intro slot fits aside address inSlot
    apply kept.peek
    intro touched
    have inStage := staged address (Region.mem_of_part inSlot fits.1) touched
    have inside := fits.1
    -- The staging area stands at 16 to 32; the slots stand on either side of
    -- it.
    rcases aside with before | behind
    · exact Region.apart_parts before (by decide) address inSlot inStage
    · exact Region.apart_parts behind (by omega) address inStage inSlot
  have fixed : (29 : RegNum) ∉ tour.changed :=
    Looping.fixed planned 29 (by decide)
  exact {
    keeps := opened.keeps.trans
      (keeps.mono (fun register isChanged => by simp [isChanged])
        (List.Subset.refl _))
    isStack := (keeps.reg 29 fixed).trans opened.isStack
    kept := opened.kept.trans ⟨kept.base, kept.size, fun address outside =>
      kept.peek address fun touched => outside (allowed address touched)⟩
    framePointer := opened.framePointer.keep
      (stays ⟨0, .fp⟩ ⟨show 0 + 4 ≤ _ by omega, rfl⟩
        (.inl (show 0 + 4 ≤ 16 by decide)))
    held := fun slot isSlot => (opened.held slot isSlot).keep
      (stays slot (sound.fits isSlot).1 (.inr (sound.fits isSlot).2)) }

theorem mono {more : Permission} (opened : tour.Opened may origin core)
    (allowed : ∀ address, may true address → more true address) :
    tour.Opened more origin core :=
  ⟨opened.keeps, opened.isStack,
    ⟨opened.kept.base, opened.kept.size, fun address outside =>
    opened.kept.peek address fun touched => outside (allowed address touched)⟩,
    opened.framePointer, opened.held⟩

include planned entered in
theorem record (opened : tour.Opened tour.around origin core)
    {reads : Permission}
    (readable : ∀ address ∈ tour.record, reads false address) :
    Record ⟨target, reads, mayTrap⟩ tour.executor tour.start core := by
  have atEntry :
      Record ⟨target, reads, mayTrap⟩ tour.executor tour.start origin :=
    ⟨entered.small, entered.pointer, readable, entered.recordServed,
      entered.held⟩
  have fixed : (4 : RegNum) ∉ tour.changed :=
    Looping.fixed planned 4 (by decide)
  apply atEntry.keep (opened.keeps.reg 4 (by simp [fixed])) opened.kept
  rintro address inRecord (⟨impossible, _⟩ | inFrame)
  · cases impossible
  · exact entered.recordFrame address inRecord inFrame

end Tour.Opened

include planned entered in
/-- The pointers are loaded from the record. -/
theorem Tour.loadPointers_leads (opened : tour.Opened tour.around origin core)
    (continues : ∀ next logged, tour.Opened tour.around origin next →
      (∀ entry ∈ tour.plan.pointers,
        next.reg entry.2.index = tour.executor.array entry.1) →
      Leads ⟨target, tour.around, mayTrap⟩ goal ahead next logged) :
    Leads ⟨target, tour.around, mayTrap⟩ goal (loadPointers tour.plan ++ ahead)
      core log := by
  refine @Leads.forPointers _ _ _ _ _ _
    (fun index pointer =>
      lw pointer Contract.executor (Executor.arraySlotOffset index))
    (fun index _ => tour.executor.array index) planned.pointers_nodup ?_ ?_ ?_
  · intro entry isEntry
    have apart : ∀ number ∈ Contract.pointerNumbers,
        number ≠ scratch.index := by decide
    exact apart _ (planned.pointer_mem isEntry)
  · intro index register isPair middle further logged moved same continues'
    have nonzero : ∀ number ∈ Contract.pointerNumbers, number ≠ 0 := by decide
    have record : Record ⟨target, tour.around, mayTrap⟩ tour.executor
        tour.start core :=
      opened.record planned entered fun address inRecord => .inl ⟨rfl, inRecord⟩
    have atMiddle :=
      record.moved (moved.reg (Tour.not_walking planned 4 (by decide)))
        moved.ram
    apply atMiddle.loadArray (planned.pointer_bounds isPair)
    intro accesses _
    apply continues' _ _ ((Core.Moved.refl middle).setReg (by simp) _)
    exact Core.reg_setReg_same _ _ _ (nonzero _ (planned.pointer_mem isPair))
  · intro next logged moved isValue
    apply continues next logged
    · have kept : Ram.Kept (fun _ _ => False) core.ram next.ram := by
        rw [moved.ram]
        exact .refl _
      apply opened.step planned (moved.keeps.mono _ (List.nil_subset _)) kept
      · exact fun _ impossible => impossible.elim
      · exact fun _ _ impossible => impossible.elim
      · intro register isWalking
        rcases List.mem_cons.mp isWalking with isScratch | isPointer
        · exact List.mem_append_left _ (isScratch ▸ by decide)
        · exact List.mem_append_right _ isPointer
    · exact fun entry isEntry => isValue entry.1 entry.2 isEntry

section Whole

variable {whole : Nat → Nat → Core → Prop} {data : Ram → Prop}
  {preparing : List (Opcode × Instruction) → Core → Prop}
  {part : Visit → List (Opcode × Instruction) → Core → Prop}
  (plain : ∀ entry ∈ tour.preparations, entry.1.kind = .loadParam)
  (params : ∀ index, (tour.plan.program.var index).role = .param →
    (0 : Int) ≤ index ∧ index + 8 < (64 : Int))
  (prepares : tour.Prepares origin whole preparing)

include planned entered plain params prepares in
theorem Tour.preparations_leads {code : Fragment}
    (opened : tour.Opened tour.around origin core)
    (pointers : ∀ entry ∈ tour.plan.pointers,
      core.reg entry.2.index = tour.executor.array entry.1)
    (codes : StepsCode tour.site tour.plan.invariants code)
    (resolves : Resolves target (code ++ ahead))
    (continues : ∀ next logged, tour.Opened tour.around origin next →
      (∀ entry ∈ tour.plan.pointers,
        next.reg entry.2.index = tour.executor.array entry.1) →
      whole 0 0 next →
        Leads ⟨target, tour.around, mayTrap⟩ goal ahead next logged) :
    Leads ⟨target, tour.around, mayTrap⟩ goal (code ++ ahead) core log := by
  rw [planned.invariants] at codes
  -- The broadcasts need no more of the frame than the staging area, so the
  -- slots stay.
  let narrow : Permission := fun write address => tour.between write address ∨
    address ∈ tour.stage
  have widen : ∀ write address, narrow write address →
      tour.around write address :=
    fun write address isNarrow =>
      isNarrow.imp_right (Tour.mem_stage planned address)
  have chunk : Chunk ⟨target, narrow, mayTrap⟩ tour.site tour.stack 16
      core := by
    refine ⟨opened.kept.size ▸ entered.small, opened.isStack, fun _ => rfl,
      fun impossible => (by cases impossible),
      fun address inStage _ => .inr inStage, ?_⟩
    refine entered.frameServed.imp_right fun ⟨aligned, serves⟩ => ⟨aligned, ?_⟩
    exact opened.kept.serves (serves.part planned.frame_sound.large)
  have record : Record ⟨target, narrow, mayTrap⟩ tour.executor
      tour.start core :=
    opened.record planned entered fun address inRecord => .inl ⟨rfl, inRecord⟩
  have safe : ∀ address ∈ tour.record, ¬ narrow true address := by
    rintro address inRecord (⟨impossible, _⟩ | inStage)
    · cases impossible
    · exact entered.recordFrame address inRecord
        (Tour.mem_stage planned address inStage)
  have noTouch : ∀ entry ∈ tour.preparations,
      entry.1.touch? tour.plan.program.var entry.2 = none := by
    intro entry isEntry
    unfold Opcode.touch?
    rw [plain entry isEntry]
  have run : Leads ⟨target, narrow, mayTrap⟩ (Reaching ahead fun next logged =>
      Ran ⟨target, narrow, mayTrap⟩ tour.site (fun _ => ⟨0, 0⟩)
        tour.preparations core next logged ∧ preparing [] next)
          (code ++ ahead) core log := by
    apply StepsCode.leads codes
      (fun entry isEntry =>
        (Reference.opcode_of_mem (List.mem_of_mem_filter isEntry)).2.1)
      (planned.site_sound false 0) params chunk record safe
    · intro entry isEntry touch isTouch
      cases (noTouch entry isEntry).symm.trans isTouch
    · exact prepares.opens core opened
    · exact prepares.advance
    · exact resolves
    · exact fun next logged ran finished _ => .done ⟨rfl, ran, finished⟩
  apply (run.weaken widen).thenFrom
  rintro next logged ⟨ran, finished⟩
  have inChanged : ∀ number ∈ working, number ∈ tour.changed := by
    have inside : ∀ number ∈ working,
        number ∈ [(8 : RegNum), 9, 10, 11, 12, 13, 14, 15] := by
      decide
    exact fun number isWorking =>
      List.mem_append_left _ (inside number isWorking)
  have nextOpened : tour.Opened tour.around origin next := by
    apply opened.step planned (ran.keeps.mono inChanged (List.Subset.refl _))
      ran.kept (widen true)
    rintro address _ (⟨impossible, _⟩ | inStage)
    · cases impossible
    · exact inStage
  apply continues next logged nextOpened
  · intro entry isEntry
    have apart : ∀ number ∈ Contract.pointerNumbers, number ∉ working := by
      decide
    rw [ran.keeps.reg _ (apart _ (planned.pointer_mem isEntry))]
    exact pointers entry isEntry
  · exact prepares.closes next nextOpened finished

include planned in
theorem Tour.restores_leads (opened : tour.Opened tour.footprint origin core)
    (small : origin.ram.size < 2 ^ 32)
    (served : mayTrap ∨ tour.stack.toNat % 4 = 0 ∧ origin.ram.Serves tour.frame)
    (continues : ∀ next logged, tour.Finished origin next →
      next.ram = core.ram →
      Leads ⟨target, tour.around, mayTrap⟩ goal ahead next logged) :
    Leads ⟨target, tour.around, mayTrap⟩ goal
      (tour.plan.frame.restores ++ ahead) core log := by
  have sound := planned.frame_sound
  unfold Frame.restores
  have framed : Framed ⟨target, tour.around, mayTrap⟩ tour.stack
      tour.plan.frame.size core :=
    ⟨opened.kept.size ▸ small, opened.isStack,
      fun address inFrame _ => .inr inFrame,
      served.imp_right fun ⟨aligned, serves⟩ =>
      ⟨aligned, opened.kept.serves serves⟩⟩
  apply Leads.restores framed
  · exact fun slot isSlot => (sound.fits (List.mem_reverse.mp isSlot)).1
  · exact fun slot isSlot => sound.loadable (List.mem_reverse.mp isSlot)
  · exact fun slot isSlot => opened.held slot (List.mem_reverse.mp isSlot)
  intro next logged restored
  have isSlot : ∀ register,
      register ∈ tour.plan.frame.slots.reverse.map Slot.register ↔
        register ∈ tour.plan.frame.slots.map Slot.register := by
    intro register
    rw [List.map_reverse, List.mem_reverse]
  have noSlot : ∀ register, Contract.calleeSaved register = false →
      register ∉ tour.plan.frame.slots.reverse.map Slot.register := by
    intro register notSaved isRegister
    rw [isSlot] at isRegister
    rw [planned.calleeSaved_of_mem isRegister] at notSaved
    cases notSaved
  apply continues next logged _ restored.ram
  exact {
    isStack := by rw [restored.reg, if_neg (noSlot (.gp 29) rfl),
      opened.isStack]
    caller := by
      have fixed : (31 : RegNum) ∉
          tour.changed := Looping.fixed planned 31 (by decide)
      rw [restored.reg, if_neg (noSlot (.gp 31) rfl),
        opened.keeps.reg 31 (by simp [fixed])]
    general := by
      intro number bounds
      rw [restored.reg]
      split
      case isTrue => rfl
      case isFalse notSaved =>
        rw [isSlot] at notSaved
        apply opened.keeps.reg
        intro isChanged
        have apart : ∀ other : RegNum, 16 ≤ other.val ∧ other.val ≤ 23 →
            other ∉ [(29 : RegNum), 30, 8, 9, 10, 11, 12, 13, 14, 15] ∧
              Contract.calleeSaved (.gp other) = true := by decide
        obtain ⟨notFixed, callee⟩ := apart number bounds
        rw [show 29 :: 30 :: tour.changed =
          [29, 30, 8, 9, 10, 11, 12, 13, 14, 15] ++
          tour.plan.pointers.map fun entry => entry.2.index from rfl]
            at isChanged
        have isPointer := (List.mem_append.mp isChanged).resolve_left notFixed
        exact notSaved (planned.pointer_slot isPointer callee)
    vector := by
      intro number bounds
      rw [restored.vector]
      split
      case isTrue => rfl
      case isFalse notSaved =>
        rw [isSlot] at notSaved
        apply opened.keeps.vector
        intro isChanged
        have apart : ∀ other : RegNum, 20 ≤ other.val ∧ other.val ≤ 30 →
            other ≠ 15 ∧ Contract.calleeSaved (.vec other) = true := by decide
        obtain ⟨notScratch, callee⟩ := apart number bounds
        have isVector := (List.mem_cons.mp isChanged).resolve_left notScratch
        exact notSaved (planned.vector_slot isVector callee)
    kept := restored.ram ▸ opened.kept
    framePointer := restored.ram ▸ opened.framePointer }

include planned entered in
/-- A core in front of the loop is ready for it. -/
theorem Tour.Opened.ready (opened : tour.Opened tour.around origin core) :
    tour.Ready target mayTrap core where
  record := opened.record planned entered fun address inRecord =>
    ⟨rfl, inRecord⟩
  isStack := opened.isStack
  stageServed := by
    refine entered.frameServed.imp_right fun ⟨aligned, serves⟩ => ⟨aligned, ?_⟩
    exact opened.kept.serves (serves.part planned.frame_sound.large)
  served visit isVisit touch touches :=
    (entered.served visit isVisit touch touches).imp_right opened.kept.serves
  aligned := entered.aligned
  safe := by
    rintro address inRecord (⟨impossible, _⟩ | ⟨visit, isVisit, during⟩)
    · cases impossible
    · rcases during with ⟨impossible, _⟩ | inStage |
        ⟨touch, touches, isWrite, inRegion⟩
      · cases impossible
      · exact entered.recordFrame address inRecord
          (Tour.mem_stage planned address inStage)
      · exact entered.recordSafe visit isVisit touch touches isWrite address
          inRegion inRecord

include planned entered in
/-- The loop leaves the slots of the frame alone. -/
theorem Tour.Opened.looped (opened : tour.Opened tour.around origin core)
    {next : Core} (keeps : core.Keeps tour.changed tour.site.vectorRegs next)
    (kept : Ram.Kept tour.reach core.ram next.ram) :
    tour.Opened tour.footprint origin next := by
  apply (opened.mono fun address isAround => .inl isAround).step planned
    keeps kept
  · rintro address (between | ⟨visit, isVisit, between | inStage | touched⟩)
    · exact .inl (.inl between)
    · exact .inl (.inl between)
    · exact .inl (.inr (Tour.mem_stage planned address inStage))
    · exact .inr ⟨visit, isVisit, touched⟩
  · rintro address inFrame
      (⟨impossible, _⟩ | ⟨visit, isVisit, ⟨impossible, _⟩ | inStage | touched⟩)
    · cases impossible
    · cases impossible
    · exact inStage
    · obtain ⟨touch, touches, isWrite, inRegion⟩ := touched
      exact absurd inFrame
        (entered.frameSafe visit isVisit touch touches isWrite address inRegion)

include planned entered plain params prepares in
/-- A kernel visits the chunks of all rows and comes to the words behind its
body. -/
theorem Tour.kernel_walks {unroll : Nat} {fragment : Fragment}
    (few : unroll ≤ 2) (code : KernelCode tour.plan unroll fragment)
    (resolves : Resolves target code.body) (carries : tour.Carries whole part)
    (settles : ∀ core, whole tour.rows 0 core → data core.ram) :
    (tour.kernelGuide fun state => state.1 = [] ∧ tour.Finished origin state.2 ∧
      data state.2.ram).Walks (Leading target mayTrap) tour.visits (code.body,
        origin) := by
  obtain ⟨invariants, tail, main, rest, invariantsCode, tailCode, mainCode,
    restCode, _⟩ := code
  let parts : LoopCode := ⟨unroll, tail, main, rest, tour.plan.frame.restores⟩
  have isLoop : loop tour.plan unroll tail main rest ++
      tour.plan.frame.restores =
      rowHead tour.plan ++ parts.fromRow tour.plan :=
    parts.loop_append tour.plan
  unfold KernelCode.body at resolves ⊢
  rw [isLoop] at resolves ⊢
  apply Guide.Onward.walks
  have opening : Leads ⟨target, tour.around, mayTrap⟩ (fun ahead next _ =>
      ahead = rowHead tour.plan ++ parts.fromRow tour.plan ∧
        tour.Opened tour.around origin next ∧
        (∀ entry ∈ tour.plan.pointers,
          next.reg entry.2.index = tour.executor.array entry.1) ∧
        whole 0 0 next)
      (tour.plan.frame.prologue ++ (loadPointers tour.plan ++ (invariants ++
        (rowHead tour.plan ++ parts.fromRow tour.plan)))) origin [] := by
    apply Tour.prologue_leads planned entered
    intro first _ firstOpened
    apply Tour.loadPointers_leads planned entered firstOpened
    intro second _ secondOpened pointers
    apply Tour.preparations_leads planned entered plain params prepares
      secondOpened pointers invariantsCode resolves.behind.behind
    exact fun third _ thirdOpened thirdPointers holds =>
      .done ⟨rfl, thirdOpened, thirdPointers, holds⟩
  apply Guide.Onward.before opening
  rintro ahead begun ⟨rfl, opened, pointers, holds⟩
  have run : tour.Run parts target mayTrap begun whole part :=
    ⟨opened.ready planned entered, carries, params,
      LoopCode.Marked.of_resolves _ _ resolves.behind.behind.behind, tailCode,
      mainCode, restCode⟩
  have looping : tour.Looping begun 0 0 begun := by
    refine ⟨.refl begun, .refl _, fun entry isEntry => ?_⟩
    unfold Tour.rowStart
    rw [pointers entry isEntry, Executor.rowStart_zero]
    exact (UInt32.add_zero _).symm
  have loops : (tour.guide fun state => state.1 = tour.plan.frame.restores ∧
      tour.Opened tour.footprint origin state.2 ∧
        whole tour.rows 0 state.2).Onward target mayTrap
        tour.visits (rowHead tour.plan ++ parts.fromRow tour.plan) begun := by
    apply Tour.loop_onward planned run few _ looping holds
    intro next keeps kept atEnd
    exact .finish ⟨rfl, opened.looped planned entered keeps kept, atEnd⟩
  apply loops.walks.extend
  · exact fun write address between => .inl between
  · rintro visit isVisit write address (between | inStage | touched)
    · exact .inl (.inl between)
    · exact .inl (.inr (Tour.mem_stage planned address inStage))
    · exact .inr touched
  · exact fun visit state isEntered => isEntered
  · exact fun visit log covered => covered
  · rintro ahead last ⟨rfl, lastOpened, atEnd⟩ log
    rw [← List.append_nil tour.plan.frame.restores]
    apply Tour.restores_leads planned lastOpened entered.small
      entered.frameServed
    intro next logged finished sameRam
    refine .done (.done ⟨rfl, finished, ?_⟩)
    rw [sameRam]
    exact settles last atEnd

end Whole

end Run

end LaneKernel
