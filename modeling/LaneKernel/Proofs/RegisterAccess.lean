import LaneKernel.Machine.Registers
import LaneKernel.Proofs.InstructionSet
import Mathlib.Data.List.Nodup

/-!
# Registers by identifier

The identifiers of the general purpose registers, of the program counter and of
the vector registers are three neighbouring ranges of numbers.  Registers with
different identifiers can be written in any order, and each of them then holds
what was written to it; only register zero stays zero.  The main statement is
`Machine.registers_read_back`.
-/

namespace LaneKernel

namespace RegisterName

/-- The identifier of a register. -/
def id : RegisterName → RegisterId
  | general index => generalId index.val
  | pc => 33
  | vector index => vectorId index.val

theorem ofId?_id (name : RegisterName) : ofId? name.id = some name := by
  cases name with
  | general index =>
      have all : ∀ index : RegNum,
          ofId? (general index).id = some (general index) := by decide
      exact all index
  | pc => rfl
  | vector index =>
      have all : ∀ index : RegNum,
          ofId? (vector index).id = some (vector index) := by decide
      exact all index

end RegisterName

/-- A value of the right kind for a register. -/
inductive RegisterWrite where
  | general (index : RegNum) (word : UInt32)
  | pc (word : UInt32)
  | vector (index : RegNum) (register : VectorRegister)
deriving DecidableEq, Repr

namespace RegisterWrite

/-- The register that is written. -/
def name : RegisterWrite → RegisterName
  | general index _ => .general index
  | pc _ => .pc
  | vector index _ => .vector index

def value : RegisterWrite → RegisterValue
  | general _ word | pc word => .word word
  | vector _ register => .vector register

/-- The write as it is asked for. -/
def entry (write : RegisterWrite) : RegisterId × RegisterValue :=
  (write.name.id, write.value)

/-- Carries out a write. -/
def apply (machine : Machine) : RegisterWrite → Machine
  | general index word => machine.mapCore (·.setReg index word)
  | pc word => machine.setPc word
  | vector index register => machine.mapCore (·.setVector index register)

end RegisterWrite

namespace Machine

open RegisterWrite

/-- What a register reads as. -/
def registerValue (machine : Machine) : RegisterName → RegisterValue
  | .general index => .word (machine.core.reg index)
  | .pc => .word machine.core.pc
  | .vector index => .vector (machine.core.vector index)

variable {machine : Machine} {name : RegisterName} {write other : RegisterWrite}
  {writes order : List RegisterWrite}

theorem getRegister_id :
    machine.getRegister name.id = .ok (machine.registerValue name) := by
  unfold getRegister
  rw [RegisterName.ofId?_id]
  cases name <;> rfl

theorem getRegisters_ids (names : List RegisterName) :
    machine.getRegisters (names.map RegisterName.id) =
      .ok (names.map fun name => (name.id, machine.registerValue name)) := by
  induction names with
  | nil => rfl
  | cons name rest induction =>
      unfold getRegisters at induction ⊢
      rw [List.map_cons, List.mapM_cons, induction, getRegister_id]
      rfl

theorem setRegister_entry :
    machine.setRegister write.name.id write.value =
      .ok (write.apply machine) := by
  unfold setRegister
  rw [RegisterName.ofId?_id]
  cases write <;> rfl

theorem setRegisters_entries :
    machine.setRegisters (writes.map entry) =
      (writes.foldl RegisterWrite.apply machine, none) := by
  induction writes generalizing machine with
  | nil => rfl
  | cons write rest induction =>
      simp only [List.map_cons, entry, setRegisters, setRegister_entry]
      exact induction

/-- A write changes its own register, unless that is register zero, and no
other. -/
theorem registerValue_apply :
    (write.apply machine).registerValue name =
      if name = write.name ∧ name ≠ .general 0 then write.value
      else machine.registerValue name := by
  cases write with
  | general index word =>
      cases name with
      | general place =>
          have isReg := Core.reg_setReg machine.core index place word
          simp only [RegisterWrite.apply, RegisterWrite.name,
            RegisterWrite.value, registerValue, mapCore, isReg,
            RegisterName.general.injEq, ne_eq]
          split <;> rfl
      | pc =>
          simp [RegisterWrite.apply, RegisterWrite.name, registerValue, mapCore]
      | vector place =>
          simp [RegisterWrite.apply, RegisterWrite.name, registerValue, mapCore]
  | pc word =>
      cases name <;>
        simp [RegisterWrite.apply, RegisterWrite.name, RegisterWrite.value,
        registerValue, setPc, mapCore]
  | vector index register =>
      cases name with
      | general place =>
          simp [RegisterWrite.apply, RegisterWrite.name, registerValue, mapCore]
      | pc =>
          simp [RegisterWrite.apply, RegisterWrite.name, registerValue, mapCore]
      | vector place =>
          have isVector :=
            Core.vector_setVector machine.core index place register
          simp only [RegisterWrite.apply, RegisterWrite.name,
            RegisterWrite.value, registerValue, mapCore, isVector,
            RegisterName.vector.injEq, ne_eq, reduceCtorEq, not_false_eq_true,
            and_true]
          split <;> rfl

theorem npc_apply :
    (write.apply machine).core.npc =
      match write with
      | .pc word => word + 4
      | _ => machine.core.npc := by
  cases write <;> simp [RegisterWrite.apply, setPc, mapCore]

theorem apply_kept :
    (write.apply machine).core.ram = machine.core.ram ∧
      (write.apply machine).steps = machine.steps ∧
      (write.apply machine).maxSteps = machine.maxSteps ∧
      (write.apply machine).yieldAfter = machine.yieldAfter := by
  cases write <;> simp [RegisterWrite.apply, setPc, mapCore]

end Machine

namespace Core

variable {core : Core} {first second : RegNum}

theorem setReg_comm (different : first ≠ second) (word otherWord : UInt32) :
    (core.setReg first word).setReg second otherWord =
      (core.setReg second otherWord).setReg first word := by
  have swapped :
      (core.gpr.set first.val word first.isLt).set second.val otherWord
      second.isLt = (core.gpr.set second.val otherWord second.isLt).set
        first.val word first.isLt :=
    Vector.set_comm _ _ fun same => different (Fin.ext same)
  unfold setReg
  by_cases firstZero : first = 0 <;> by_cases secondZero : second = 0 <;>
    simp [firstZero, secondZero, swapped]

theorem setVector_comm (different : first ≠ second)
    (register otherRegister : VectorRegister) :
    (core.setVector first register).setVector second otherRegister =
      (core.setVector second otherRegister).setVector first register := by
  have swapped :
      (core.vec.set first.val register first.isLt).set second.val otherRegister
        second.isLt =
      (core.vec.set second.val otherRegister second.isLt).set first.val register
      first.isLt :=
    Vector.set_comm _ _ fun same => different (Fin.ext same)
  simp only [setVector, swapped]

end Core

namespace Machine

open RegisterWrite

variable {machine : Machine} {name : RegisterName} {write other : RegisterWrite}
  {writes order : List RegisterWrite}

/-- Writes to different registers commute. -/
theorem apply_comm (different : write.name ≠ other.name) :
    other.apply (write.apply machine) = write.apply (other.apply machine) := by
  cases write with
  | general index word =>
      cases other with
      | general place otherWord =>
          have apart : index ≠ place :=
            fun same => different (congrArg RegisterName.general same)
          exact congrArg (fun core => { machine with core })
            (Core.setReg_comm apart word otherWord)
      | pc otherWord =>
          simp only [RegisterWrite.apply, setPc, mapCore, Core.setReg]
          split <;> rfl
      | vector place register =>
          simp only [RegisterWrite.apply, mapCore, Core.setReg]
          split <;> rfl
  | pc word =>
      cases other with
      | general place otherWord =>
          simp only [RegisterWrite.apply, setPc, mapCore, Core.setReg]
          split <;> rfl
      | pc otherWord => exact absurd rfl different
      | vector place register => rfl
  | vector index register =>
      cases other with
      | general place otherWord =>
          simp only [RegisterWrite.apply, mapCore, Core.setReg]
          split <;> rfl
      | pc otherWord => rfl
      | vector place otherRegister =>
          have apart : index ≠ place :=
            fun same => different (congrArg RegisterName.vector same)
          exact congrArg (fun core => { machine with core })
            (Core.setVector_comm apart register otherRegister)

/-- Distinct registers may be written in any order. -/
theorem foldl_apply_perm (distinct : (writes.map RegisterWrite.name).Nodup)
    (reordered : writes.Perm order) :
    order.foldl RegisterWrite.apply machine =
      writes.foldl RegisterWrite.apply machine := by
  refine (List.Perm.foldl_eq' reordered ?_ machine).symm
  intro write isWrite other isOther state
  by_cases same : write.name = other.name
  · rw [List.inj_on_of_nodup_map distinct isWrite isOther same]
  · exact apply_comm same

/-- What a register reads as behind several writes, with what was written to
it. -/
theorem registerValue_foldl (machine : Machine)
    (distinct : (writes.map RegisterWrite.name).Nodup) :
    (∀ write ∈ writes, write.name ≠ .general 0 →
        (writes.foldl RegisterWrite.apply machine).registerValue write.name =
          write.value) ∧
      ∀ name, name ∉ writes.map RegisterWrite.name ∨ name = .general 0 →
        (writes.foldl RegisterWrite.apply machine).registerValue name =
          machine.registerValue name := by
  induction writes generalizing machine with
  | nil =>
      exact ⟨fun write isWrite => (List.not_mem_nil isWrite).elim,
        fun _ _ => rfl⟩
  | cons first rest induction =>
      obtain ⟨isNew, distinct⟩ := List.nodup_cons.mp distinct
      obtain ⟨written, kept⟩ := induction (first.apply machine) distinct
      refine ⟨fun write isWrite nonzero => ?_, fun name outside => ?_⟩
      · rcases List.mem_cons.mp isWrite with rfl | isWrite
        · rw [List.foldl_cons, kept write.name (.inl isNew),
            registerValue_apply, if_pos ⟨rfl, nonzero⟩]
        · exact written write isWrite nonzero
      · rw [List.map_cons, List.mem_cons, not_or] at outside
        rw [List.foldl_cons, kept name (outside.imp_left And.right),
          registerValue_apply, if_neg]
        rintro ⟨same, nonzero⟩
        exact outside.elim (fun fresh => fresh.1 same) nonzero

/-- The next program counter behind several writes. -/
theorem npc_foldl (machine : Machine)
    (distinct : (writes.map RegisterWrite.name).Nodup) :
    (∀ word, .pc word ∈ writes →
        (writes.foldl RegisterWrite.apply machine).core.npc = word + 4) ∧
      (.pc ∉ writes.map RegisterWrite.name →
        (writes.foldl RegisterWrite.apply machine).core.npc =
          machine.core.npc) := by
  induction writes generalizing machine with
  | nil =>
      exact ⟨fun word isWrite => (List.not_mem_nil isWrite).elim, fun _ => rfl⟩
  | cons first rest induction =>
      obtain ⟨isNew, distinct⟩ := List.nodup_cons.mp distinct
      obtain ⟨written, kept⟩ := induction (first.apply machine) distinct
      refine ⟨fun word isWrite => ?_, fun outside => ?_⟩
      · rcases List.mem_cons.mp isWrite with rfl | isWrite
        · rw [List.foldl_cons, kept isNew, npc_apply]
        · exact written word isWrite
      · rw [List.map_cons, List.mem_cons, not_or] at outside
        rw [List.foldl_cons, kept outside.2, npc_apply]
        cases first with
        | pc word => exact absurd rfl outside.1
        | general index word => rfl
        | vector index register => rfl

theorem foldl_apply_kept (machine : Machine) :
    (writes.foldl RegisterWrite.apply machine).core.ram = machine.core.ram ∧
      (writes.foldl RegisterWrite.apply machine).steps = machine.steps ∧
      (writes.foldl RegisterWrite.apply machine).maxSteps = machine.maxSteps ∧
      (writes.foldl RegisterWrite.apply machine).yieldAfter =
        machine.yieldAfter := by
  induction writes generalizing machine with
  | nil => exact ⟨rfl, rfl, rfl, rfl⟩
  | cons first rest induction =>
      rw [List.foldl_cons]
      simpa only [apply_kept] using induction (first.apply machine)

/-- Writes to distinct registers succeed with one machine whatever their order.
Each register then reads as what was written to it or else as before, and
register zero as zero; the program counter takes the next one along. -/
theorem registers_read_back (machine : Machine) (writes : List RegisterWrite)
    (distinct : (writes.map RegisterWrite.name).Nodup) :
    ∃ (final : Machine) (values : RegisterName → RegisterValue),
      (∀ order, writes.Perm order →
        machine.setRegisters (order.map RegisterWrite.entry) = (final, none)) ∧
      (∀ names : List RegisterName,
        final.getRegisters (names.map RegisterName.id) =
          .ok (names.map fun name => (name.id, values name))) ∧
      values (.general 0) = .word 0 ∧
      (∀ write ∈ writes, write.name ≠ .general 0 →
        values write.name = write.value) ∧
      (∀ name, name ∉ writes.map RegisterWrite.name →
        machine.getRegister name.id = .ok (values name)) ∧
      (∀ word, .pc word ∈ writes → final.core.pc = word ∧
        final.core.npc = word + 4) ∧
      (.pc ∉ writes.map RegisterWrite.name →
        final.core.npc = machine.core.npc) ∧
      final.ram = machine.ram ∧ final.steps = machine.steps ∧
      final.maxSteps = machine.maxSteps ∧
        final.yieldAfter = machine.yieldAfter := by
  obtain ⟨written, kept⟩ := registerValue_foldl machine distinct
  obtain ⟨pcWritten, pcKept⟩ := npc_foldl machine distinct
  refine ⟨writes.foldl RegisterWrite.apply machine,
    (writes.foldl RegisterWrite.apply machine).registerValue, ?_,
    getRegisters_ids, rfl, written, ?_, ?_, pcKept, foldl_apply_kept machine⟩
  · intro order reordered
    rw [setRegisters_entries, foldl_apply_perm distinct reordered]
  · intro name outside
    rw [getRegister_id, kept name (.inl outside)]
  · intro word isWrite
    have isPc := written (.pc word) isWrite nofun
    exact ⟨RegisterValue.word.inj isPc, pcWritten word isWrite⟩

/-- Writes of every kind to a new machine, one of them to register zero; the
next program counter wraps around. -/
theorem created_registers_read_back :
    let machine := Machine.create 0x400000 64
    let writes : List RegisterWrite :=
      [.general 0 7, .pc 0xfffffffc, .vector 3 (.replicate 16 1), .general 8 42]
    (writes.map RegisterWrite.name).Nodup ∧
      ∃ final : Machine,
        (∀ order, writes.Perm order →
          machine.setRegisters (order.map RegisterWrite.entry) =
            (final, none)) ∧
        final.getRegisters [1, 9, 33, 37] =
          .ok [(1, .word 0), (9, .word 42), (33, .word 0xfffffffc),
            (37, .vector (.replicate 16 1))] ∧
        final.core.npc = 0 ∧ final.steps = 0 := by
  intro machine writes
  have distinct : (writes.map RegisterWrite.name).Nodup := by decide
  refine ⟨distinct, ?_⟩
  obtain ⟨final, values, set, read, zero, written, -, pc, -, -, steps, -⟩ :=
    registers_read_back machine writes distinct
  refine ⟨final, set, ?_, (pc 0xfffffffc (by decide)).2, steps⟩
  have isPc := written (.pc 0xfffffffc) (by decide) (by decide)
  have isVector := written (.vector 3 (.replicate 16 1)) (by decide) (by decide)
  have isGeneral := written (.general 8 42) (by decide) (by decide)
  have isRead := read [.general 0, .general 8, .pc, .vector 3]
  simp only [List.map_cons, List.map_nil] at isRead
  rw [zero, show values (.general 8) = _ from isGeneral,
    show values .pc = _ from isPc, show values (.vector 3) = _ from isVector]
      at isRead
  exact isRead

end Machine

end LaneKernel
