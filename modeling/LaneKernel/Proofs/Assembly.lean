import LaneKernel.Proofs.InstructionSet

/-!
# Runs of labelled code

A run of labelled code is followed item by item on the code that is still ahead:
an instruction has its effect, a branch goes on with the code behind its label,
a mark does nothing.  `Leads` says that such a run comes to a goal, that all its
accesses are allowed, and that it traps only where a trap is accepted.  It is a
judgement of total correctness: the run ends.  The run keeps a log of its
accesses, the latest first.
-/

namespace LaneKernel

/-- The addresses that an access takes. -/
def Access.region (access : Access) : Region := ⟨access.start, access.length⟩

/-- Which bytes may be read (`false`) and which may be written (`true`). -/
abbrev Permission := Bool → UInt32 → Prop

/-- The access takes only bytes that it may. -/
def Access.Stays (may : Permission) (access : Access) : Prop :=
  ∀ address ∈ access.region, may access.write address

/-- What a run depends on: the code behind each label, the bytes that it may
touch, and whether it may end in a trap. -/
structure Setting where
  target : Label → Fragment
  may : Permission
  mayTrap : Prop

/-- A condition on the code ahead, the core and the accesses so far. -/
abbrev Goal := Fragment → Core → List Access → Prop

/-- The core behind an effect that neither jumps nor traps. -/
def Effect.next? (core : Core) : Effect → Option Core
  | jump _ | trap _ _ _ _ => none
  | effect => some (effect.apply core 0).1

def Effect.isTrap : Effect → Bool
  | trap _ _ _ _ => true
  | _ => false

/-- The instructions that exist on the machine, with one of the named
formats. -/
def Insn.Regular (instruction : Insn) : Prop :=
  instruction.NamedFormat ∧ ¬ instruction.Unsupported

/-- The code that a branch goes on with. -/
def Setting.chosen (setting : Setting) (core : Core) (condition : Condition)
    (left right : Reg) (label : Label) (rest : Fragment) : Fragment :=
  if condition.holds (core.reg left.index).toInt32
    (core.reg right.index).toInt32 then
    setting.target label
  else rest

/-- A run from the given code, core and log comes to the goal. -/
inductive Leads (setting : Setting) (goal : Goal) :
    Fragment → Core → List Access → Prop where
  | done {rest : Fragment} {core : Core} {log : List Access} :
      goal rest core log → Leads setting goal rest core log
  | mark {label : Label} {rest : Fragment} {core : Core} {log : List Access} :
      Leads setting goal rest core log →
      Leads setting goal (.mark label :: rest) core log
  | insn {instruction : Insn} {rest : Fragment} {core next : Core}
      {log : List Access} :
      instruction.Regular →
      (∀ access ∈ instruction.accesses core, access.Stays setting.may) →
      (instruction.effect core).next? core = some next →
      Leads setting goal rest next (instruction.accesses core ++ log) →
      Leads setting goal (.insn instruction :: rest) core log
  | trap {instruction : Insn} {rest : Fragment} {core : Core}
      {log : List Access} :
      setting.mayTrap →
      instruction.Regular →
      (∀ access ∈ instruction.accesses core, access.Stays setting.may) →
      (instruction.effect core).isTrap = true →
      Leads setting goal (.insn instruction :: rest) core log
  | branch {condition : Condition} {left right : Reg} {label : Label}
      {rest : Fragment} {core : Core} {log : List Access} :
      Leads setting goal (setting.chosen core condition left right label rest)
        core log →
      Leads setting goal (.branch condition left right label :: rest) core log

/-- The goal of reaching a certain code in a certain state. -/
def Reaching (rest : Fragment) (post : Core → List Access → Prop) : Goal :=
  fun ahead core log => ahead = rest ∧ post core log

namespace Leads

variable {setting : Setting} {goal further : Goal} {rest : Fragment}
  {core : Core} {log : List Access}

theorem bind (leads : Leads setting goal rest core log)
    (continues : ∀ ahead middle accesses, goal ahead middle accesses →
      Leads setting further ahead middle accesses) :
    Leads setting further rest core log := by
  induction leads with
  | done reached => exact continues _ _ _ reached
  | mark _ induction => exact .mark induction
  | insn regular allowed runs _ induction =>
      exact .insn regular allowed runs induction
  | trap accepted regular allowed traps =>
      exact .trap accepted regular allowed traps
  | branch _ induction => exact .branch induction

theorem mono (leads : Leads setting goal rest core log)
    (implies : ∀ ahead middle accesses, goal ahead middle accesses →
      further ahead middle accesses) :
    Leads setting further rest core log :=
  leads.bind fun ahead middle accesses reached =>
    .done (implies ahead middle accesses reached)

theorem thenFrom {code : Fragment} {post : Core → List Access → Prop}
    (leads : Leads setting (Reaching code post) rest core log)
    (continues : ∀ middle accesses, post middle accesses →
      Leads setting further code middle accesses) :
    Leads setting further rest core log := by
  apply leads.bind
  rintro ahead middle accesses ⟨rfl, reached⟩
  exact continues middle accesses reached

theorem weaken {may : Permission} (leads : Leads setting goal rest core log)
    (more : ∀ write address, setting.may write address → may write address) :
    Leads { setting with may := may } goal rest core log := by
  have stillInside : ∀ access : Access, access.Stays setting.may →
      access.Stays may :=
    fun access stays address covered => more _ _ (stays address covered)
  induction leads with
  | done reached => exact .done reached
  | mark _ induction => exact .mark induction
  | insn regular inside runs _ induction =>
      exact .insn regular (fun access isAccess =>
        stillInside access (inside access isAccess)) runs
        induction
  | trap accepted regular inside traps =>
      exact .trap accepted regular
        (fun access isAccess => stillInside access (inside access isAccess))
        traps
  | branch _ induction => exact .branch induction

/-- What was logged before does not matter for a run. -/
theorem behindLog (leads : Leads setting goal rest core log)
    (before : List Access) :
    Leads setting
      (fun ahead last accesses => ∃ logged, accesses = logged ++ before ∧
        goal ahead last logged)
      rest core (log ++ before) := by
  induction leads with
  | done reached => exact .done ⟨_, rfl, reached⟩
  | mark _ induction => exact .mark induction
  | insn regular inside runs _ induction =>
      rw [List.append_assoc] at induction
      exact .insn regular inside runs induction
  | trap accepted regular inside traps =>
      exact .trap accepted regular inside traps
  | branch _ induction => exact .branch induction

end Leads

/-- Memory of the same shape that differs at most where it may be written. -/
structure Ram.Kept (may : Permission) (before after : Ram) : Prop where
  base : after.base = before.base
  size : after.size = before.size
  peek : ∀ address, ¬ may true address →
    after.peek address = before.peek address

namespace Ram.Kept

variable {may : Permission} {before middle after : Ram}

theorem refl (ram : Ram) : Ram.Kept may ram ram := ⟨rfl, rfl, fun _ _ => rfl⟩

theorem trans (first : Ram.Kept may before middle)
    (second : Ram.Kept may middle after) :
    Ram.Kept may before after where
  base := second.base.trans first.base
  size := second.size.trans first.size
  peek address untouched :=
    (second.peek address untouched).trans (first.peek address untouched)

theorem available (kept : Ram.Kept may before after) (address : UInt32) :
    after.available address = before.available address := by
  unfold Ram.available
  rw [kept.base, kept.size]

theorem serves (kept : Ram.Kept may before after) {region : Region}
    (served : before.Serves region) : after.Serves region :=
  ⟨served.below, (kept.available region.start).symm ▸ served.inside⟩

theorem word (kept : Ram.Kept may before after) {address : UInt32}
    (untouched : ∀ other ∈ (⟨address, 4⟩ : Region), ¬ may true other) :
    after.word address = before.word address := by
  have inWord : ∀ index < 4, after.peek (address + UInt32.ofNat index) =
      before.peek (address + UInt32.ofNat index) :=
    fun index below => kept.peek _ (untouched _ (Region.mem_of_lt below))
  have zeroth := inWord 0 (by decide)
  rw [show UInt32.ofNat 0 = 0 from rfl, UInt32.add_zero] at zeroth
  unfold Ram.word
  rw [zeroth]
  rw [show after.peek (address + 1) = _ from inWord 1 (by decide),
    show after.peek (address + 2) = _ from inWord 2 (by decide),
    show after.peek (address + 3) = _ from inWord 3 (by decide)]
  rfl

end Ram.Kept

theorem Access.mem_of_reaches {access : Access} {base address : UInt32}
    (reached : access.Reaches base (address - base).toNat) :
    address ∈ access.region := by
  obtain ⟨low, high⟩ := reached
  have distance :
      address - access.start = (address - base) - (access.start - base) := by
    simp only [UInt32.sub_eq_add_neg, UInt32.neg_add, UInt32.neg_neg]
    rw [UInt32.add_assoc, ← UInt32.add_assoc (-base), UInt32.add_comm (-base),
      UInt32.add_assoc, UInt32.add_comm (-base), UInt32.add_right_neg,
      UInt32.add_zero]
  change (address - access.start).toNat < access.length
  rw [distance, UInt32.toNat_sub_of_le _ _ (UInt32.le_iff_toNat_le.mpr low)]
  omega

theorem Insn.kept_effect {may : Permission} {core : Core} (instruction : Insn)
    (inside : ∀ access ∈ instruction.accesses core, access.Stays may)
    (pc : UInt32) :
    Ram.Kept may core.ram ((instruction.effect core).apply core pc).1.ram where
  base := Effect.base_apply core pc _
  size := Effect.size_apply core pc _
  peek address untouched := by
    unfold Ram.peek
    rw [Effect.base_apply core pc, Array.getD_eq_getD_getElem?,
      Array.getD_eq_getD_getElem?, Effect.byte_apply core pc]
    intro reached
    rcases Insn.stored_effect core instruction with
      empty | ⟨access, isAccess, writes, same, fewer⟩
    · unfold Access.Reaches at reached
      omega
    · apply untouched
      rw [← writes]
      apply inside access isAccess
      apply Access.mem_of_reaches
      unfold Access.Reaches at reached ⊢
      rw [← same]
      exact ⟨reached.1, by omega⟩

theorem Effect.next?_eq_some {core next : Core} {effect : Effect}
    (isNext : effect.next? core = some next) :
    ∀ pc, effect.apply core pc = (next, none) := by
  intro pc
  cases effect with
  | jump target | trap _ _ _ _ => cases isNext
  | nothing | general _ _ | vector _ _ | memory _ _ =>
      cases isNext
      rfl

/-- A run keeps all memory that its accesses may not write, and only adds to its
log. -/
theorem Leads.keeping {setting : Setting} {goal : Goal} {rest : Fragment}
    {core : Core} {log : List Access}
    (leads : Leads setting goal rest core log) :
    Leads setting
      (fun ahead last accesses => goal ahead last accesses ∧
        Ram.Kept setting.may core.ram last.ram ∧ log <:+ accesses)
      rest core log := by
  induction leads with
  | done reached => exact .done ⟨reached, .refl _, List.suffix_refl _⟩
  | mark _ induction => exact .mark induction
  | @insn instruction rest core next log regular inside runs _ induction =>
      have stepKept := instruction.kept_effect inside 0
      rw [Effect.next?_eq_some runs 0] at stepKept
      apply Leads.insn regular inside runs
      apply induction.mono
      rintro ahead last accesses ⟨reached, kept, logged⟩
      exact ⟨reached, stepKept.trans kept,
        (List.suffix_append _ _).trans logged⟩
  | trap accepted regular inside traps =>
      exact .trap accepted regular inside traps
  | branch _ induction => exact .branch induction

end LaneKernel
