import LaneKernel.Executor
import LaneKernel.Proofs.Stepping

/-!
# Executor records in memory

A kernel finds its executor through a register and reads it word by word.
`Record` says that all words of an executor stand in memory and that a run may
read them.
-/

namespace LaneKernel

namespace Executor

/-- The words of the record, in the order of their slots. -/
def words (executor : Executor) : List UInt32 :=
  executor.program :: executor.n.toUInt32 ::
    (executor.counters.toList.map Int32.toUInt32 ++ executor.arrays.toList
      ++ executor.params.toList ++ executor.accums.toList)

/-- The words of the record stand in memory from an address on. -/
def HeldAt (executor : Executor) (ram : Ram) (start : UInt32) : Prop :=
  ∀ index word, executor.words[index]? = some word →
    ram.word (start + UInt32.ofNat (4 * index)) = word

variable (executor : Executor)

theorem length_words : executor.words.length = 137 := by
  simp [words]

theorem getElem?_words_count :
    executor.words[1]? = some executor.n.toUInt32 := rfl

theorem getElem?_words_array (place : Fin 64) :
    executor.words[5 + place.val]? = some (executor.arrays.get place) := by
  have inside := place.isLt
  have isIndex : 5 + place.val = place.val + 3 + 1 + 1 := by omega
  unfold words
  rw [isIndex, List.getElem?_cons_succ, List.getElem?_cons_succ,
    List.append_assoc, List.append_assoc, List.getElem?_append_right (by simp)]
  simp [List.getElem?_append_left, inside, Vector.get]

theorem getElem?_words_param (place : Fin 64) :
    executor.words[69 + place.val]? = some (executor.params.get place) := by
  have inside := place.isLt
  have isIndex : 69 + place.val = place.val + 64 + 3 + 1 + 1 := by omega
  unfold words
  rw [isIndex, List.getElem?_cons_succ, List.getElem?_cons_succ,
    List.append_assoc, List.append_assoc, List.getElem?_append_right (by simp)]
  rw [List.getElem?_append_right (by simp)]
  simp [List.getElem?_append_left, inside, Vector.get]

variable {executor} {ram : Ram} {start : UInt32} {index : Int}

theorem place?_of_bounds {size : Nat} {index : Int}
    (bounds : 0 ≤ index ∧ index < size) :
    place? size index =
      some ⟨index.toNat, (Int.toNat_lt bounds.1).2 bounds.2⟩ := by
  unfold place?
  rw [dif_pos bounds]

namespace HeldAt

variable (held : executor.HeldAt ram start)

include held

theorem count :
    ram.word (start + UInt32.ofNat countOffset) = executor.n.toUInt32 :=
  held 1 _ executor.getElem?_words_count

theorem array (bounds : 0 ≤ index ∧ index < 64) :
    ram.word (start + UInt32.ofNat (20 + 4 * index.toNat)) =
      executor.array index := by
  unfold Executor.array
  rw [place?_of_bounds bounds]
  have isWord := held _ _ (executor.getElem?_words_array
    ⟨index.toNat, (Int.toNat_lt bounds.1).2 bounds.2⟩)
  rwa [Nat.mul_add] at isWord

theorem param (bounds : 0 ≤ index ∧ index < 64) :
    ram.word (start + UInt32.ofNat (276 + 4 * index.toNat)) =
      executor.paramWord index := by
  unfold Executor.paramWord
  rw [place?_of_bounds bounds]
  have isWord := held _ _ (executor.getElem?_words_param
    ⟨index.toNat, (Int.toNat_lt bounds.1).2 bounds.2⟩)
  rwa [Nat.mul_add] at isWord

end HeldAt

theorem arraySlotOffset_eq (bounds : 0 ≤ index ∧ index < 64) :
    arraySlotOffset index = (20 + 4 * index.toNat : Nat) := by
  unfold arraySlotOffset arraysOffset
  omega

theorem paramSlotOffset_eq (bounds : 0 ≤ index ∧ index < 64) :
    paramSlotOffset index = (276 + 4 * index.toNat : Nat) := by
  have isOffset : paramsOffset = 276 := rfl
  unfold paramSlotOffset
  omega

end Executor

/-- A run finds the record of an executor through the register of its argument
and may read it. -/
structure Record (setting : Setting) (executor : Executor) (start : UInt32)
    (core : Core) :
    Prop where
  small : core.ram.size < 2 ^ 32
  pointer : core.reg Contract.executor.index = start
  may : ∀ address ∈ (⟨start, Executor.recordSize⟩ : Region),
    setting.may false address
  served : setting.mayTrap ∨
    start.toNat % 4 = 0 ∧ core.ram.Serves ⟨start, Executor.recordSize⟩
  held : executor.HeldAt core.ram start

namespace Record

variable {setting : Setting} {executor : Executor} {start : UInt32}
  {core next : Core}

theorem keep (record : Record setting executor start core) {may : Permission}
    (pointer : next.reg Contract.executor.index =
      core.reg Contract.executor.index)
    (kept : Ram.Kept may core.ram next.ram)
    (safe : ∀ address ∈ (⟨start, Executor.recordSize⟩ : Region),
      ¬ may true address) :
    Record setting executor start next where
  small := kept.size ▸ record.small
  pointer := pointer.trans record.pointer
  may := record.may
  served := record.served.imp_right fun ⟨aligned, serves⟩ =>
    ⟨aligned, kept.serves serves⟩
  held index word isWord := by
    have inside : index < 137 := by
      rw [← executor.length_words]
      exact (List.getElem?_eq_some_iff.mp isWord).1
    rw [← record.held index word isWord]
    apply kept.word
    intro address inWord
    apply safe address
    exact Region.mem_of_part inWord (show 4 * index + 4 ≤ 548 by omega)

theorem moved (record : Record setting executor start core)
    (pointer : next.reg Contract.executor.index =
      core.reg Contract.executor.index)
    (sameRam : next.ram = core.ram) : Record setting executor start next :=
  ⟨sameRam ▸ record.small, pointer.trans record.pointer, record.may,
    sameRam ▸ record.served, sameRam ▸ record.held⟩

theorem setReg (record : Record setting executor start core) {register : RegNum}
    (other : register ≠ Contract.executor.index) (word : UInt32) :
    Record setting executor start (core.setReg register word) where
  small := by simpa using record.small
  pointer := by
    rw [Core.reg_setReg_other _ _ _ _ (Ne.symm other)]
    exact record.pointer
  may := record.may
  served := by simpa using record.served
  held := by simpa using record.held

theorem setVector (record : Record setting executor start core)
    (register : RegNum) (value : VectorRegister) :
    Record setting executor start (core.setVector register value) :=
  ⟨record.small, record.pointer, record.may, record.served, record.held⟩

end Record

section Loads

variable {setting : Setting} {goal : Goal} {rest : Fragment} {core : Core}
  {log : List Access} {executor : Executor} {start : UInt32} {target : Reg}

open Asm

theorem Record.lw (record : Record setting executor start core) {offset : Int}
    (place : Nat) (isOffset : offset = place) (aligned : place % 4 = 0)
    (inside : place + 4 ≤ Executor.recordSize)
    (continues : ∀ logged, log <:+ logged → Leads setting goal rest
      (core.setReg target.index (core.ram.word (start + UInt32.ofNat place)))
        logged) :
    Leads setting goal (Asm.lw target Contract.executor offset ++ rest) core
      log := by
  apply Leads.lw (start + UInt32.ofNat place)
  · rw [record.pointer, isOffset, Core.distance_natCast]
  · exact record.small
  · intro address inWord
    exact record.may address (Region.mem_of_part inWord inside)
  · refine record.served.imp_right fun ⟨atWord, serves⟩ =>
      ⟨?_, serves.part inside⟩
    rw [UInt32.toNat_add, UInt32.toNat_ofNat']
    omega
  · intro logged later _
    exact continues logged later

theorem Record.loadCount (record : Record setting executor start core)
    (continues : ∀ logged, log <:+ logged →
      Leads setting goal rest (core.setReg target.index executor.n.toUInt32)
        logged) :
    Leads setting goal (Asm.lw target Contract.executor Executor.countOffset ++
      rest) core log := by
  apply record.lw Executor.countOffset rfl (by decide) (by decide)
  rw [record.held.count]
  exact continues

theorem Record.loadArray (record : Record setting executor start core)
    {index : Int} (bounds : 0 ≤ index ∧ index < 64)
    (continues : ∀ logged, log <:+ logged →
      Leads setting goal rest (core.setReg target.index (executor.array index))
        logged) :
    Leads setting goal
      (Asm.lw target Contract.executor (Executor.arraySlotOffset index) ++ rest)
        core log := by
  apply record.lw _ (Executor.arraySlotOffset_eq bounds) (by omega)
    (show _ ≤ 548 by omega)
  rw [record.held.array bounds]
  exact continues

theorem Record.loadParam (record : Record setting executor start core)
    {index : Int} (bounds : 0 ≤ index ∧ index < 64)
    (continues : ∀ logged, log <:+ logged →
      Leads setting goal rest
        (core.setReg target.index (executor.paramWord index)) logged) :
    Leads setting goal
      (Asm.lw target Contract.executor (Executor.paramSlotOffset index) ++ rest)
        core log := by
  apply record.lw _ (Executor.paramSlotOffset_eq bounds) (by omega)
    (show _ ≤ 548 by omega)
  rw [record.held.param bounds]
  exact continues

end Loads

end LaneKernel
