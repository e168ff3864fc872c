import LaneKernel.Machine.Registers
import LaneKernel.Proofs.BoundedRuns
import LaneKernel.Proofs.InstructionSet

/-!
# Precise traps

When the memory begins and ends at a word boundary, an access to a part of a
word finds all of its bytes or none of them.  No instruction has therefore
stored anything when it traps, and a step that traps moves nothing but the
program counters and the step counter.  The main statement is
`Machine.step_precise`; `Machine.trapped_run` carries it to runs.
-/

namespace LaneKernel

/-- The memory begins and ends at a word boundary. -/
structure Ram.Aligned (ram : Ram) : Prop where
  base : ram.base.toNat % 4 = 0
  size : ram.size % 4 = 0

/-- The effect is all there: a trap comes before anything is stored, and a store
goes to at most sixteen bytes, all of which the memory has. -/
def Effect.Whole (ram : Ram) : Effect → Prop
  | memory start data => data.length ≤ 16 ∧ data.length ≤ ram.available start
  | trap _ _ _ data => data = []
  | _ => True

namespace MemOp

/-- A part access that misses a byte misses its first one. -/
theorem available_eq_zero {op : MemOp} {ram : Ram} {address : UInt32}
    (aligned : ram.Aligned) (isPart : op.isPart = true)
    (missing : ¬ op.count address ≤ ram.available (op.start address)) :
    ram.available (op.start address) = 0 := by
  obtain ⟨baseAligned, sizeAligned⟩ := aligned
  have low : (address &&& 3).toNat = address.toNat % 2 ^ 2 :=
    Word.toNat_and_mask address 3 2 rfl
  have startAligned : (op.start address).toNat % 4 + op.count address ≤ 4 := by
    have high := Core.toNat_and_not_three address
    cases op <;> simp only [MemOp.isPart, Bool.false_eq_true] at isPart <;>
      simp only [start, count] <;> omega
  unfold Ram.available at missing ⊢
  split
  case isFalse => rfl
  case isTrue above =>
    have distance := UInt32.toNat_sub_of_le (op.start address) ram.base above
    have order := UInt32.le_iff_toNat_le.mp above
    rw [if_pos above] at missing
    omega

theorem whole_effect (op : MemOp) {core : Core} (aligned : core.ram.Aligned)
    (rt : RegNum) (address : UInt32) :
    (op.effect core rt address).Whole core.ram := by
  have few : op.count address ≤ 4 := by
    have place := Core.and_three_lt address
    cases op <;> simp only [count, width] <;> omega
  simp only [effect]
  split
  · rfl
  · split
    case isTrue served =>
      split
      · simp only [Effect.Whole, Core.length_cut]
        omega
      · trivial
    case isFalse missing =>
      split
      case isTrue isPart =>
        rw [available_eq_zero aligned isPart missing, List.take_zero, ite_self]
        rfl
      case isFalse => rfl

end MemOp

namespace Core

/-- Every operation comes down to one whole effect. -/
theorem perform_whole {core : Core} (aligned : core.ram.Aligned) (pc : UInt32)
    (operation : Operation) :
    ∃ effect : Effect, effect.Whole core.ram ∧
      core.perform pc operation = effect.apply core pc := by
  cases operation with
  | alu fn rd rs rt => exact ⟨.general rd _, trivial, rfl⟩
  | shift op rd rt amount => exact ⟨.general rd _, trivial, rfl⟩
  | signedImm op rt rs imm => exact ⟨.general rt _, trivial, rfl⟩
  | unsignedImm op rt rs imm => exact ⟨.general rt _, trivial, rfl⟩
  | lui rt imm => exact ⟨.general rt _, trivial, rfl⟩
  | copySigned size lane rd ws => exact ⟨.general rd _, trivial, rfl⟩
  | copyUnsigned size lane rd ws => exact ⟨.general rd _, trivial, rfl⟩
  | jump rs => exact ⟨.jump _, trivial, rfl⟩
  | branch condition rs rt offset =>
      rw [perform]
      split
      · exact ⟨.jump _, trivial, rfl⟩
      · exact ⟨.nothing, trivial, rfl⟩
  | lanes op size wd ws wt => exact ⟨.vector wd _, trivial, rfl⟩
  | float op double wd ws wt => exact ⟨.vector wd _, trivial, rfl⟩
  | bits op wd ws wt => exact ⟨.vector wd _, trivial, rfl⟩
  | byteImm op wd ws imm => exact ⟨.vector wd _, trivial, rfl⟩
  | shuffle size wd ws pattern => exact ⟨.vector wd _, trivial, rfl⟩
  | moveV wd ws => exact ⟨.vector wd _, trivial, rfl⟩
  | broadcast size wd imm => exact ⟨.vector wd _, trivial, rfl⟩
  | fill size wd rs => exact ⟨.vector wd _, trivial, rfl⟩
  | insert size lane wd rs => exact ⟨.vector wd _, trivial, rfl⟩
  | mem op rt base offset =>
      exact ⟨_, op.whole_effect aligned rt _,
        executeMem_eq core pc op rt base offset⟩
  | loadV wd base offset =>
      simp only [perform]
      rw [Ram.offset_vector]
      split
      · exact ⟨.vector wd _, trivial, rfl⟩
      · exact ⟨.trap .busError _ 0 [], rfl, rfl⟩
  | storeV wd base offset =>
      simp only [perform]
      rw [Ram.offset_vector]
      by_cases enough : 16 ≤
        core.ram.available (core.reg base + distance offset)
      · rw [if_pos enough]
        exact ⟨.memory _ (core.vector wd).toList,
          by simpa [Effect.Whole] using enough, rfl⟩
      · rw [if_neg enough]
        exact ⟨.trap .busError _ 0 [], rfl, rfl⟩

theorem execute_whole {core : Core} (aligned : core.ram.Aligned)
    (pc word : UInt32) :
    ∃ effect : Effect, effect.Whole core.ram ∧
      core.execute pc word = effect.apply core pc := by
  unfold execute
  split
  · exact perform_whole aligned pc _
  · exact ⟨.trap .reservedInstruction word 0 [], rfl, rfl⟩

end Core

namespace Effect

variable {core : Core} {pc : UInt32} {effect : Effect}

/-- A whole effect that traps leaves the core alone. -/
theorem Whole.trapped (whole : effect.Whole core.ram) {trap : Exception}
    (isTrap : (effect.apply core pc).2 = some trap) :
    (effect.apply core pc).1 = core := by
  cases effect with
  | trap cause value start data =>
      cases whole
      rfl
  | nothing | general _ _ | vector _ _ | memory _ _ | jump _ => cases isTrap

theorem Whole.stored_inside (whole : effect.Whole core.ram) :
    effect.stored.length = 0 ∨
      effect.stored.length ≤ 16 ∧
        (effect.stored.start - core.ram.base).toNat + effect.stored.length ≤
          core.ram.size := by
  cases effect with
  | memory start data =>
      obtain ⟨few, served⟩ := whole
      unfold Ram.available at served
      simp only [stored]
      split at served <;> omega
  | trap cause value start data =>
      cases whole
      exact .inl rfl
  | nothing | general _ _ | vector _ _ | jump _ => exact .inl rfl

/-- The register that an effect sets; the program counter stands for none of the
two banks. -/
def target : Effect → RegisterName
  | general register _ => .general register
  | vector register _ => .vector register
  | _ => .pc

theorem general?_eq_some {register : RegNum} :
    effect.general? = some register ↔ effect.target = .general register := by
  cases effect <;> simp [general?, target]

theorem vector?_eq_some {register : RegNum} :
    effect.vector? = some register ↔ effect.target = .vector register := by
  cases effect <;> simp [vector?, target]

/-- No effect reaches what is stored for register zero. -/
theorem get_zero_apply :
    (effect.apply core pc).1.gpr.get 0 = core.gpr.get 0 := by
  cases effect with
  | general register value =>
      rw [apply, Core.setReg_eq]
      split
      case isTrue => rfl
      case isFalse nonzero => rw [Core.get_set, if_neg (Ne.symm nonzero)]
  | nothing | vector _ _ | memory _ _ | jump _ | trap _ _ _ _ => rfl

end Effect

namespace Machine

/-- What one completed step may change: a single register, which is not register
zero, and a short stretch of bytes inside the memory. -/
structure Confined (before after : Machine) : Prop where
  zero : after.core.reg 0 = 0 ∧ after.core.gpr.get 0 = before.core.gpr.get 0
  register : ∃ target : RegisterName,
    (∀ index, target ≠ .general index →
      after.core.reg index = before.core.reg index) ∧
      ∀ index, target ≠ .vector index →
        after.core.vector index = before.core.vector index
  bytes : ∃ start length, length ≤ 16 ∧ start + length ≤ before.ram.size ∧
    ∀ position, position < start ∨ start + length ≤ position →
      after.ram.bytes[position]? = before.ram.bytes[position]?
  base : after.ram.base = before.ram.base
  size : after.ram.size = before.ram.size

variable {machine next last : Machine} {count : Nat}

/-- A step finds no word, or it is a whole effect on the core behind its
word. -/
theorem step_whole (aligned : machine.ram.Aligned) :
    (∃ cause, machine.step = (machine, some cause)) ∨
    ∃ effect : Effect, effect.Whole machine.ram ∧ machine.step =
      ({ machine with
          core := (effect.apply (advance machine.core) machine.core.pc).1
          steps := machine.steps + 1 },
        (effect.apply (advance machine.core) machine.core.pc).2.map
          .exception) := by
  simp only [step]
  split
  case h_1 cause _ => exact .inl ⟨cause, rfl⟩
  case h_2 word _ =>
    have advanced : (advance machine.core).ram.Aligned := aligned
    obtain ⟨effect, whole, executed⟩ :=
      Core.execute_whole advanced machine.core.pc word
    exact .inr ⟨effect, whole, by rw [executed]⟩

/-- A step that traps moves only the program counters and the step counter. -/
theorem step_trapped (aligned : machine.ram.Aligned) {trap : Exception}
    (isStep : machine.step = (next, some (.exception trap))) :
    ∃ pc npc steps, next =
      { machine with core := { machine.core with pc := pc, npc := npc },
                     steps := steps } := by
  rcases step_whole aligned with ⟨cause, noWord⟩ | ⟨effect, whole, executed⟩
  · rw [noWord] at isStep
    cases isStep
    exact ⟨_, _, _, rfl⟩
  · rw [executed, Prod.mk.injEq, Option.map_eq_some_iff] at isStep
    obtain ⟨rfl, _, isTrap, _⟩ := isStep
    have isWhole : effect.Whole (advance machine.core).ram := whole
    rw [isWhole.trapped isTrap]
    exact ⟨_, _, _, rfl⟩

theorem step_confined (aligned : machine.ram.Aligned)
    (isStep : machine.step = (next, none)) : machine.Confined next := by
  rcases step_whole aligned with ⟨cause, noWord⟩ | ⟨effect, whole, executed⟩
  · rw [noWord] at isStep
    cases isStep
  · rw [executed, Prod.mk.injEq] at isStep
    obtain ⟨rfl, _⟩ := isStep
    refine ⟨⟨rfl, effect.get_zero_apply⟩, ⟨effect.target, ?_, ?_⟩, ?_,
      effect.base_apply _ _, effect.size_apply _ _⟩
    · intro index other
      exact effect.reg_apply _ _ index (mt Effect.general?_eq_some.mp other)
    · intro index other
      exact effect.vector_apply _ _ index (mt Effect.vector?_eq_some.mp other)
    · have isWhole : effect.Whole (advance machine.core).ram := whole
      rcases isWhole.stored_inside with none | ⟨few, inside⟩
      · refine ⟨0, 0, by decide, Nat.zero_le _, fun position _ => ?_⟩
        apply effect.byte_apply
        unfold Access.Reaches
        omega
      · refine ⟨_, _, few, inside, fun position outside => ?_⟩
        apply effect.byte_apply
        unfold Access.Reaches
        exact fun reached => by omega

/-- Steps keep the place and the size of the memory. -/
theorem aligned_after (aligned : machine.ram.Aligned)
    (isLast : machine.after? count = some last) : last.ram.Aligned := by
  induction count generalizing machine with
  | zero =>
      cases isLast
      exact aligned
  | succ count induction =>
      obtain ⟨next, isStep, isLast⟩ := exists_step_of_after isLast
      have confined := step_confined aligned isStep
      have nextAligned : next.ram.Aligned := by
        constructor
        · rw [confined.base]
          exact aligned.base
        · rw [confined.size]
          exact aligned.size
      exact induction nextAligned isLast

/-- A run that ends with a trap leaves what its last completed step left. -/
theorem trapped_run (aligned : machine.ram.Aligned)
    (limited : machine.maxSteps ≠ 0) {place : UInt32} {trap : Exception}
    (isRun : machine.run neverCancelled =
      (last, some (.exception place trap))) :
    ∃ count before pc npc steps, machine.after? count = some before ∧ last =
      { before with core := { before.core with pc := pc, npc := npc },
                    steps := steps } := by
  rw [run_eq_spend limited] at isRun
  obtain ⟨_, count, before, isBefore, _, isTrap⟩ :=
    ((iteratesStep_spend machine).exception _ _ _).mp isRun
  obtain ⟨pc, npc, steps, isLast⟩ :=
    step_trapped (aligned_after aligned isBefore) isTrap
  exact ⟨count, before, pc, npc, steps, isBefore, isLast⟩

/-- With a memory of whole words, a step that traps leaves all registers and all
of the memory as they were, and a completed step changes one register and
sixteen bytes inside the memory at most. -/
theorem step_precise (machine : Machine)
    (baseAligned : machine.ram.base.toNat % 4 = 0)
    (sizeAligned : machine.ram.size % 4 = 0) :
    (∀ next trap, machine.step = (next, some (.exception trap)) →
      ∃ pc npc steps, next =
      { machine with core := { machine.core with pc := pc, npc := npc },
                     steps := steps }) ∧
    ∀ next, machine.step = (next, none) → machine.Confined next := by
  have aligned : machine.ram.Aligned := ⟨baseAligned, sizeAligned⟩
  exact ⟨fun _ _ => step_trapped aligned, fun _ => step_confined aligned⟩

/-- Two words at address zero: a register is set and then stored in part behind
the memory. -/
def misstoring : Machine :=
  { core := (Core.reset ⟨0,
      #[0x05, 0x00, 0x04, 0x24, 0x09, 0x00, 0x04, 0xa8]⟩).setPc 0 }

/-- The first step completes and sets one register, the second traps. -/
theorem step_precise_misstoring :
    ∃ next last trap, misstoring.step = (next, none) ∧
      misstoring.Confined next ∧
      next.step = (last, some (.exception trap)) ∧ ∃ pc npc steps, last =
        { next with core := { next.core with pc := pc, npc := npc },
                    steps := steps } := by
  obtain ⟨next, isStep, nextBase, nextSize⟩ :
      ∃ next, misstoring.step = (next, none) ∧
      next.ram.base.toNat % 4 = 0 ∧ next.ram.size % 4 = 0 := ⟨_, rfl, rfl, rfl⟩
  have confined := (step_precise misstoring rfl rfl).2 next isStep
  obtain ⟨last, isTrap⟩ :
      ∃ last, next.step = (last, some (.exception ⟨.busError, 4, 8⟩)) := by
    cases isStep
    exact ⟨_, rfl⟩
  have precise := (step_precise next nextBase nextSize).1 last _ isTrap
  exact ⟨next, last, _, isStep, confined, isTrap, precise⟩

end Machine

end LaneKernel
