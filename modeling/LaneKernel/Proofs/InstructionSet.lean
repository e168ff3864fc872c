import LaneKernel.Proofs.Effect

/-!
# The instruction set

The assembler and the core agree: executing the word that an instruction is
encoded to has the effect of the instruction on the registers it names and
changes nothing else.  The few element moves that a 32-bit core does not have
are reserved instructions.  The main statement is `Insn.execute_encode`.
-/

namespace LaneKernel

namespace Core

theorem get_set {α : Type} {count : Nat} (items : Vector α count)
    (target place : Fin count) (item : α) :
    (items.set target.val item target.isLt).get place =
      if place = target then item else items.get place := by
  change (items.set target.val item target.isLt)[place.val] = if _ then _
    else items[place.val]
  rw [Vector.getElem_set]
  simp only [Fin.ext_iff, eq_comm]

section Views

variable (core : Core) (target register : RegNum) (word : UInt32)
  (value : VectorRegister) (change : Ram → Ram)

theorem setReg_eq :
    core.setReg target word =
      if target = 0 then core
      else { core with gpr := core.gpr.set target.val word target.isLt } := rfl

theorem reg_setReg :
    (core.setReg target word).reg register =
      if register = target ∧ register ≠ 0 then word else core.reg register := by
  rw [setReg_eq]
  unfold reg
  by_cases targetZero : target = 0
  · subst targetZero
    by_cases zero : register = 0 <;> simp [zero]
  · by_cases zero : register = 0
    · simp [zero]
    · simp [zero, targetZero, get_set]

theorem reg_setReg_same (nonzero : target ≠ 0) :
    (core.setReg target word).reg target = word := by
  rw [reg_setReg, if_pos ⟨rfl, nonzero⟩]

theorem reg_setReg_other (other : register ≠ target) :
    (core.setReg target word).reg register = core.reg register := by
  rw [reg_setReg, if_neg (fun same => other same.1)]

@[simp] theorem reg_zero : core.reg 0 = 0 := rfl

@[simp] theorem vector_setReg :
    (core.setReg target word).vector register = core.vector register := by
  rw [setReg_eq]
  split <;> rfl

@[simp] theorem ram_setReg : (core.setReg target word).ram = core.ram := by
  rw [setReg_eq]
  split <;> rfl

@[simp] theorem pc_setReg : (core.setReg target word).pc = core.pc := by
  rw [setReg_eq]
  split <;> rfl

@[simp] theorem npc_setReg : (core.setReg target word).npc = core.npc := by
  rw [setReg_eq]
  split <;> rfl

theorem vector_setVector :
    (core.setVector target value).vector register =
      if register = target then value else core.vector register :=
  get_set core.vec target register value

@[simp] theorem reg_setVector :
    (core.setVector target value).reg register = core.reg register := rfl

@[simp] theorem ram_setVector :
    (core.setVector target value).ram = core.ram := rfl

@[simp] theorem pc_setVector : (core.setVector target value).pc = core.pc := rfl

@[simp] theorem npc_setVector :
    (core.setVector target value).npc = core.npc := rfl

@[simp] theorem reg_mapRam :
    (core.mapRam change).reg register = core.reg register := rfl

@[simp] theorem vector_mapRam :
    (core.mapRam change).vector register = core.vector register := rfl

@[simp] theorem ram_mapRam : (core.mapRam change).ram = change core.ram := rfl

@[simp] theorem pc_mapRam : (core.mapRam change).pc = core.pc := rfl

@[simp] theorem npc_mapRam : (core.mapRam change).npc = core.npc := rfl

@[simp] theorem reg_setNpc :
    (core.setNpc word).reg register = core.reg register := rfl

@[simp] theorem vector_setNpc :
    (core.setNpc word).vector register = core.vector register := rfl

@[simp] theorem ram_setNpc : (core.setNpc word).ram = core.ram := rfl

@[simp] theorem reg_setPc :
    (core.setPc word).reg register = core.reg register := rfl

@[simp] theorem vector_setPc :
    (core.setPc word).vector register = core.vector register := rfl

@[simp] theorem ram_setPc : (core.setPc word).ram = core.ram := rfl

@[simp] theorem pc_setPc : (core.setPc word).pc = word := rfl

@[simp] theorem npc_setPc : (core.setPc word).npc = word + 4 := rfl

end Views

end Core

namespace Effect

/-- The general register that an effect sets. -/
def general? : Effect → Option RegNum
  | general register _ => some register
  | _ => none

/-- The vector register that an effect sets. -/
def vector? : Effect → Option RegNum
  | vector register _ => some register
  | _ => none

/-- The store that an effect makes. -/
def stored : Effect → Access
  | memory start data | trap _ _ start data => ⟨true, start, data.length⟩
  | _ => ⟨true, 0, 0⟩

variable (core : Core) (pc : UInt32) (effect : Effect)

theorem reg_apply (register : RegNum)
    (other : effect.general? ≠ some register) :
    (effect.apply core pc).1.reg register = core.reg register := by
  cases effect with
  | general target value =>
      apply Core.reg_setReg_other
      rintro rfl
      exact other rfl
  | nothing | vector _ _ | memory _ _ | jump _ | trap _ _ _ _ => rfl

theorem vector_apply (register : RegNum)
    (other : effect.vector? ≠ some register) :
    (effect.apply core pc).1.vector register = core.vector register := by
  cases effect with
  | general target value => exact Core.vector_setReg core target register value
  | vector target value =>
      rw [apply, Core.vector_setVector, if_neg]
      rintro rfl
      exact other rfl
  | nothing | memory _ _ | jump _ | trap _ _ _ _ => rfl

theorem base_apply : (effect.apply core pc).1.ram.base = core.ram.base := by
  cases effect with
  | general target value => rw [apply, Core.ram_setReg]
  | nothing | vector _ _ | memory _ _ | jump _ | trap _ _ _ _ => rfl

theorem size_apply : (effect.apply core pc).1.ram.size = core.ram.size := by
  cases effect with
  | general target value => rw [apply, Core.ram_setReg]
  | memory start data | trap _ _ start data => exact Ram.loadAt_size _ _ _
  | nothing | vector _ _ | jump _ => rfl

theorem byte_apply (position : Nat)
    (outside : ¬ effect.stored.Reaches core.ram.base position) :
    (effect.apply core pc).1.ram.bytes[position]? =
      core.ram.bytes[position]? := by
  cases effect with
  | general target value => rw [apply, Core.ram_setReg]
  | memory start data | trap _ _ start data =>
      simp only [stored, Access.Reaches] at outside
      rw [apply, Core.ram_mapRam, Ram.loadAt_bytes, Ram.getElem?_copyAt, if_neg]
      simp only
      omega
  | nothing | vector _ _ | jump _ => rfl

end Effect

namespace Insn

theorem operation?_eq_none_iff (instruction : Insn) :
    instruction.operation? = none ↔ instruction.Unsupported := by
  cases instruction with
  | copyU df rd ws lane =>
      simp only [operation?, Unsupported]
      split <;> simp_all
  | _ => simp [operation?, Unsupported]

/-- The operation of an instruction has the effect of the instruction. -/
theorem perform_operation {instruction : Insn} {operation : Operation}
    (found : instruction.operation? = some operation) (core : Core)
    (pc : UInt32) :
    core.perform pc operation = (instruction.effect core).apply core pc := by
  cases instruction with
  | move rd rs =>
      cases found
      simp [Core.perform, RegisterFn.compute, effect, Effect.apply]
  | mem op rt base offset =>
      cases found
      exact Core.executeMem_eq core pc op rt.index base.index
        (Core.distance offset)
  | ld df wd base offset =>
      cases found
      simp only [Core.perform, effect, Ram.offset_vector]
      by_cases enough : 16 ≤
        core.ram.available (core.reg base.index + Core.distance offset)
      · simp only [if_pos enough, Effect.apply]
      · simp only [if_neg enough, Effect.apply]
        rfl
  | st df wd base offset =>
      cases found
      simp only [Core.perform, effect, Ram.offset_vector]
      by_cases enough : 16 ≤
        core.ram.available (core.reg base.index + Core.distance offset)
      · simp only [if_pos enough, Effect.apply]
        rfl
      · simp only [if_neg enough, Effect.apply]
        rfl
  | fill df wd rs | copyS df rd ws lane | copyU df rd ws lane
  | insert df wd lane rs =>
      simp only [operation?] at found
      split at found
      · cases found
      · cases found
        rfl
  | _ =>
      cases found
      rfl

/-- The stored bytes are among those that the instruction accesses. -/
theorem stored_effect (core : Core) (instruction : Insn) :
    (instruction.effect core).stored.length = 0 ∨
      ∃ access ∈ instruction.accesses core, access.write = true ∧
        (instruction.effect core).stored.start = access.start ∧
        (instruction.effect core).stored.length ≤ access.length := by
  cases instruction with
  | mem op rt base offset =>
      simp only [effect, MemOp.effect, accesses]
      split
      · simp [Effect.stored]
      · split
        · split <;> simp_all [Effect.stored]
        · split
          · split <;> simp_all [Effect.stored]
          · simp [Effect.stored]
  | ld df wd base offset | st df wd base offset =>
      simp only [effect, accesses]
      split <;> simp [Effect.stored]
  | _ => simp [effect, Effect.stored]

/-- Executing the word of an instruction has the instruction's effect. -/
theorem execute_of_encode {instruction : Insn} {word : UInt32} (core : Core)
    (pc : UInt32) (isNamed : instruction.NamedFormat)
    (supported : ¬ instruction.Unsupported)
    (encoded : instruction.encode = .ok word) :
    core.execute pc word = (instruction.effect core).apply core pc := by
  obtain ⟨operation, found⟩ :
      ∃ operation, instruction.operation? = some operation :=
    Option.ne_none_iff_exists'.mp
      (mt (operation?_eq_none_iff instruction).mp supported)
  have decoded := decode?_encode isNamed encoded
  rw [found] at decoded
  simp only [Core.execute, decoded]
  exact perform_operation found core pc

end Insn

end LaneKernel
