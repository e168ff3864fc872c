import LaneKernel.Proofs.Planning
import LaneKernel.Proofs.Walks

/-!
# Moving pointers

The code between two chunks only changes registers.  `Core.Moved` says which
ones at most.  The code that changes every pointer of a plan is the code for one
pointer, repeated; each pointer ends where its own code takes it.
-/

namespace LaneKernel

open Asm Contract

/-- Only the given general registers differ. -/
structure Core.Moved (registers : List RegNum) (before after : Core) :
    Prop where
  keeps : before.Keeps registers [] after
  ram : after.ram = before.ram

namespace Core.Moved

variable {registers more : List RegNum} {first second third : Core}

theorem refl (core : Core) : Moved registers core core := ⟨.refl core, rfl⟩

theorem trans (before : Moved registers first second)
    (behind : Moved registers second third) : Moved registers first third :=
  ⟨before.keeps.trans behind.keeps, behind.ram.trans before.ram⟩

theorem mono (moved : Moved registers first second)
    (subset : registers ⊆ more) : Moved more first second :=
  ⟨moved.keeps.mono subset (List.Subset.refl _), moved.ram⟩

theorem setReg (moved : Moved registers first second) {register : RegNum}
    (isChanged : register ∈ registers) (word : UInt32) :
    Moved registers first (second.setReg register word) :=
  ⟨moved.keeps.setReg isChanged word, (Core.ram_setReg ..).trans moved.ram⟩

theorem reg (moved : Moved registers first second) {register : RegNum}
    (other : register ∉ registers) : second.reg register = first.reg register :=
  moved.keeps.reg register other

theorem vector (moved : Moved registers first second) (register : RegNum) :
    second.vector register = first.vector register :=
  moved.keeps.vector register List.not_mem_nil

end Core.Moved

/-- Of pointers that are moved one after the other, the first are where they
belong and the others where they were. -/
structure Core.Halfway (value : VarIndex → Reg → UInt32)
    (done ahead : List (VarIndex × Reg)) (before after : Core) : Prop where
  moved : before.Moved (scratch.index :: (done ++ ahead).map fun entry =>
    entry.2.index) after
  isDone : ∀ index register, (index, register) ∈ done →
    after.reg register.index = value index register
  isAhead : ∀ index register, (index, register) ∈ ahead →
    after.reg register.index = before.reg register.index

theorem Core.Halfway.step {value : VarIndex → Reg → UInt32}
    {done ahead : List (VarIndex × Reg)} {index : VarIndex} {register : Reg}
    {before middle next : Core}
    (halfway : Core.Halfway value done ((index, register) :: ahead)
      before middle)
    (distinct : ((done ++ (index, register) :: ahead).map fun entry =>
      entry.2.index).Nodup)
    (scratchFree : ∀ entry ∈ done ++ (index, register) :: ahead,
      entry.2.index ≠ scratch.index)
    (here : middle.Moved [scratch.index, register.index] next)
    (isValue : next.reg register.index = value index register) :
    Core.Halfway value (done ++ [(index, register)]) ahead before next := by
  rw [List.map_append, List.map_cons] at distinct
  obtain ⟨_, aheadDistinct, apart⟩ := List.nodup_append.mp distinct
  have others : ∀ other ∈ done ++ (index, register) :: ahead,
      other.2.index ≠ register.index →
        next.reg other.2.index = middle.reg other.2.index := by
    intro other isOther different
    apply here.reg
    simp only [List.mem_cons, List.not_mem_nil, or_false, not_or]
    exact ⟨scratchFree other isOther, different⟩
  constructor
  · rw [List.append_assoc, List.singleton_append]
    apply halfway.moved.trans
    apply here.mono
    intro changed isChanged
    simp only [List.mem_cons, List.not_mem_nil, or_false] at isChanged
    rcases isChanged with rfl | rfl
    · exact List.mem_cons_self
    · exact List.mem_cons_of_mem _
        (List.mem_map_of_mem (List.mem_append_right _ List.mem_cons_self))
  · intro other otherRegister isOther
    rcases List.mem_append.mp isOther with isEarlier | isHere
    · rw [others (other, otherRegister) (List.mem_append_left _ isEarlier)]
      · exact halfway.isDone other otherRegister isEarlier
      · exact apart _ (List.mem_map_of_mem isEarlier) _ List.mem_cons_self
    · cases List.mem_singleton.mp isHere
      exact isValue
  · intro other otherRegister isOther
    have isLater : (other, otherRegister) ∈ (index, register) :: ahead :=
      List.mem_cons_of_mem _ isOther
    rw [others (other, otherRegister) (List.mem_append_right _ isLater)]
    · exact halfway.isAhead other otherRegister isLater
    · intro same
      apply (List.nodup_cons.mp aheadDistinct).1
      rw [← same]
      exact List.mem_map_of_mem isOther

/-- Code for every pointer takes each of them where its own code does. -/
theorem Leads.forPointers {setting : Setting} {goal : Goal} {rest : Fragment}
    {core : Core} {log : List Access} {pairs : List (VarIndex × Reg)}
    {code : VarIndex → Reg → Fragment} (value : VarIndex → Reg → UInt32)
    (distinct : (pairs.map fun entry => entry.2.index).Nodup)
    (scratchFree : ∀ entry ∈ pairs, entry.2.index ≠ scratch.index)
    (step : ∀ index register, (index, register) ∈ pairs → ∀ middle ahead logged,
      core.Moved (scratch.index :: pairs.map fun entry => entry.2.index)
        middle →
      middle.reg register.index = core.reg register.index →
      (∀ next further, middle.Moved [scratch.index, register.index] next →
        next.reg register.index = value index register →
          Leads setting goal ahead next further) →
      Leads setting goal (code index register ++ ahead) middle logged)
    (continues : ∀ next logged,
      core.Moved (scratch.index :: pairs.map fun entry => entry.2.index) next →
      (∀ index register, (index, register) ∈ pairs →
        next.reg register.index = value index register) →
      Leads setting goal rest next logged) :
    Leads setting goal
      ((pairs.flatMap fun (index, pointer) => code index pointer) ++ rest) core
      log := by
  -- The induction is on the pointers ahead; `Halfway` keeps what is known of
  -- the ones behind.
  have moves : ∀ (ahead done : List (VarIndex × Reg)) (middle : Core)
      (logged : List Access), done ++ ahead = pairs →
        core.Halfway value done ahead middle →
      Leads setting goal
        ((ahead.flatMap fun (index, pointer) => code index pointer) ++
        rest) middle
        logged := by
    intro ahead
    induction ahead with
    | nil =>
        rintro done middle logged rfl halfway
        rw [List.append_nil] at continues
        exact continues middle logged (List.append_nil done ▸ halfway.moved)
          halfway.isDone
    | cons entry ahead induction =>
        obtain ⟨index, register⟩ := entry
        rintro done middle logged rfl halfway
        rw [List.flatMap_cons, List.append_assoc]
        apply step index register (List.mem_append_right _ List.mem_cons_self)
          middle _ logged halfway.moved
            (halfway.isAhead index register List.mem_cons_self)
        intro next further here isValue
        exact induction (done ++ [(index, register)]) next further (by simp)
          (halfway.step distinct scratchFree here isValue)
  exact moves pairs [] core log rfl
    ⟨.refl core, fun _ _ isEntry => (by cases isEntry), fun _ _ _ => rfl⟩

end LaneKernel
