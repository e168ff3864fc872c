import LaneKernel.Proofs.Tour

/-!
# The loop of a kernel

The loop is followed from its end to its start: the code behind each label is
shown to finish the walk over the chunks that are still ahead.  The unrolled
loop and the loop over what it leaves are inductions on their counters, the loop
over the rows is one on the rows that remain.
-/

namespace LaneKernel

open Asm Contract Compiler

/-- The code of the three regions, how often the main one is unrolled, and the
code behind the loop. -/
structure LoopCode where
  unroll : Nat
  tail : Fragment
  main : Fragment
  rest : Fragment
  after : Fragment

namespace LoopCode

variable (parts : LoopCode) (plan : CompilePlan Unit)

def fromRestEnd : Fragment := rowEnd plan ++ (mark labelEnd ++ parts.after)

def fromRestLoop : Fragment :=
  parts.rest ++ (advanceBy plan blockBytes ++ (addiu leftover leftover (-1)
    ++ (bnez leftover labelRestLoop
    ++ (mark labelRestEnd ++ parts.fromRestEnd plan))))

def fromRest : Fragment :=
  if parts.unroll > 0 then
    beqz leftover labelRestEnd ++
      (mark labelRestLoop ++ parts.fromRestLoop plan)
  else mark labelRestEnd ++ parts.fromRestEnd plan

def fromMainLoop : Fragment :=
  parts.main ++ (advanceBy plan (blockBytes * copies parts.unroll)
    ++ (addiu blocks blocks (-1)
    ++ (bnez blocks labelMainLoop ++ (mark labelRest ++ parts.fromRest plan))))

def fromMain : Fragment :=
  beqz blocks labelRest ++ (mark labelMainLoop ++ parts.fromMainLoop plan)

def fromTail : Fragment :=
  parts.tail ++ (advanceByTail plan ++ (mark labelMain ++ parts.fromMain plan))

/-- The code behind the split of the byte count. -/
def fromSplit : Fragment :=
  beqz tailBytes labelMain ++ (mark labelTail ++ parts.fromTail plan)

def fromRow : Fragment :=
  lw tailBytes executor Executor.countOffset ++ (blez tailBytes labelEnd
    ++ (sll tailBytes tailBytes plan.shift ++ (srl blocks tailBytes 4
    ++ ((if parts.unroll > 0 then
          andi leftover blocks (copies parts.unroll - 1)
            ++ srl blocks blocks parts.unroll
        else [])
    ++ (andi tailBytes tailBytes (blockBytes - 1) ++ parts.fromSplit plan)))))

theorem loop_append :
    loop plan parts.unroll parts.tail parts.main parts.rest ++ parts.after =
      rowHead plan ++ parts.fromRow plan := by
  unfold loop splitCount fromRow fromSplit fromTail fromMain fromMainLoop
    fromRest fromRestLoop fromRestEnd
  split <;> simp only [List.append_assoc, List.nil_append, List.append_nil]

/-- The labels of the loop stand where they belong. -/
structure Marked (target : Label → Fragment) : Prop where
  main : target labelMain = parts.fromMain plan
  mainLoop : target labelMainLoop = parts.fromMainLoop plan
  rest : target labelRest = parts.fromRest plan
  restLoop : 0 < parts.unroll → target labelRestLoop = parts.fromRestLoop plan
  restEnd : target labelRestEnd = parts.fromRestEnd plan
  row : plan.program.twoD = true → target labelRow = parts.fromRow plan
  final : target labelEnd = parts.after
  tail : Resolves target (parts.fromTail plan)

theorem Marked.of_resolves {target : Label → Fragment}
    (resolves : Resolves target (rowHead plan ++ parts.fromRow plan)) :
    parts.Marked plan target := by
  have row : Resolves target (parts.fromRow plan) := resolves.behind
  have split : Resolves target (parts.fromSplit plan) :=
    row.behind.behind.behind.behind.behind.behind
  have tail : Resolves target (parts.fromTail plan) := split.behind.behind
  have main : Resolves target (mark labelMain ++ parts.fromMain plan) :=
    tail.behind.behind
  have mainLoop :
      Resolves target (mark labelMainLoop ++ parts.fromMainLoop plan) :=
    main.behind.behind
  have rest : Resolves target (mark labelRest ++ parts.fromRest plan) :=
    mainLoop.behind.behind.behind.behind.behind
  have restEnd :
      Resolves target (mark labelRestEnd ++ parts.fromRestEnd plan) := by
    have behind := rest.behind
    unfold fromRest at behind
    split at behind
    · exact behind.behind.behind.behind.behind.behind.behind
    · exact behind
  refine ⟨main.mark, mainLoop.mark, rest.mark, ?_, restEnd.mark, ?_, ?_, tail⟩
  · intro unrolled
    have behind := rest.behind
    unfold fromRest at behind
    rw [if_pos unrolled] at behind
    exact behind.behind.mark
  · intro twoD
    have whole := resolves
    unfold rowHead at whole
    rw [if_pos twoD, List.append_assoc] at whole
    exact whole.behind.mark
  · exact restEnd.behind.behind.mark

end LoopCode

namespace Guide.Onward

variable {guide : Guide (Fragment × Core)} {target : Label → Fragment}
  {mayTrap : Prop} {visits : List Visit} {ahead : Fragment} {core : Core}
  {register : Reg} {label : Label}

theorem marked (onward : guide.Onward target mayTrap visits ahead core) :
    guide.Onward target mayTrap visits (mark label ++ ahead) core :=
  fun log => .marked (onward log)

theorem beqz
    (taken : core.reg register.index = 0 →
      guide.Onward target mayTrap visits (target label) core)
    (notTaken : core.reg register.index ≠ 0 →
      guide.Onward target mayTrap visits ahead core) :
    guide.Onward target mayTrap visits
      (Asm.beqz register label ++ ahead) core :=
  fun log => .beqz (fun isZero => taken isZero log) fun notZero =>
    notTaken notZero log

theorem bnez
    (taken : core.reg register.index ≠ 0 →
      guide.Onward target mayTrap visits (target label) core)
    (notTaken : core.reg register.index = 0 →
      guide.Onward target mayTrap visits ahead core) :
    guide.Onward target mayTrap visits
      (Asm.bnez register label ++ ahead) core :=
  fun log => .bnez (fun notZero => taken notZero log) fun isZero =>
    notTaken isZero log

theorem blez
    (taken : (core.reg register.index).toInt32 ≤ 0 →
      guide.Onward target mayTrap visits (target label) core)
    (notTaken : ¬ (core.reg register.index).toInt32 ≤ 0 →
      guide.Onward target mayTrap visits ahead core) :
    guide.Onward target mayTrap visits
      (Asm.blez register label ++ ahead) core :=
  fun log => .blez (fun low => taken low log) fun high => notTaken high log

end Guide.Onward

/-- All that the loop of a tour runs with. -/
structure Tour.Run (tour : Tour) (parts : LoopCode) (target : Label → Fragment)
    (mayTrap : Prop) (begun : Core) (whole : Nat → Nat → Core → Prop)
    (part : Visit → List (Opcode × Instruction) → Core → Prop) : Prop where
  ready : tour.Ready target mayTrap begun
  carries : tour.Carries whole part
  params : ∀ index, (tour.plan.program.var index).role = .param →
    (0 : Int) ≤ index ∧ index + 8 < (64 : Int)
  marked : parts.Marked tour.plan target
  tailCode : StepsCode (Compiler.site tour.plan true 0) tour.plan.body
    parts.tail
  mainCode : CopiesCode tour.plan (copies parts.unroll) 0 parts.main
  restCode : 0 < parts.unroll →
    StepsCode (Compiler.site tour.plan false 0) tour.plan.body parts.rest

section Loop

variable {tour : Tour} {program : Program} {options : CompileOptions}
  (planned : Planned program options tour.plan tour.body) {parts : LoopCode}
  {target : Label → Fragment} {mayTrap : Prop} {begun core : Core}
  {row place : Nat} {whole : Nat → Nat → Core → Prop}
  {part : Visit → List (Opcode × Instruction) → Core → Prop}
  (run : tour.Run parts target mayTrap begun whole part)
  {finish : Fragment × Core → Prop} {visits : List Visit} {ahead : Fragment}

/-- The registers that walk arrays and the scratch register. -/
def Tour.walking (tour : Tour) : List RegNum :=
  scratch.index :: tour.plan.pointers.map fun entry => entry.2.index

include planned in
theorem Tour.not_walking (register : RegNum)
    (isCounter : register ∈ [(4 : RegNum), 8, 9, 10, 12]) :
    register ∉ tour.walking := by
  have notScratch : ∀ number ∈ [(4 : RegNum), 8, 9, 10, 12],
      number ≠ scratch.index := by decide
  have notPointer : ∀ number ∈ [(4 : RegNum), 8, 9, 10, 12],
      number ∉ Contract.pointerNumbers := by decide
  intro isWalking
  rcases List.mem_cons.mp isWalking with isScratch | isPointer
  · exact notScratch register isCounter isScratch
  · obtain ⟨entry, isEntry, rfl⟩ := List.mem_map.mp isPointer
    exact notPointer _ isCounter (planned.pointer_mem isEntry)

include planned in
theorem Tour.forWalked_onward {code : VarIndex → Reg → Fragment}
    {otherRow otherPlace : Nat} (looping : tour.Looping begun row place core)
    (step : ∀ index register, (index, register) ∈ tour.plan.pointers →
      ∀ (goal : Goal) middle further logged, core.Moved tour.walking middle →
      middle.reg register.index = tour.rowStart index row + UInt32.ofNat place →
      (∀ next accesses, middle.Moved [scratch.index, register.index] next →
        next.reg register.index =
          tour.rowStart index otherRow + UInt32.ofNat otherPlace →
        Leads ⟨target, tour.between, mayTrap⟩ goal further next accesses) →
      Leads ⟨target, tour.between, mayTrap⟩ goal
        (code index register ++ further) middle logged)
    (continues : ∀ next, tour.Looping begun otherRow otherPlace next →
      core.Moved tour.walking next →
      (tour.guide finish).Onward target mayTrap visits ahead next) :
    (tour.guide finish).Onward target mayTrap visits
      (forWalked tour.plan code ++ ahead) core := by
  intro log
  apply Leads.forPointers
    (fun index _ => tour.rowStart index otherRow + UInt32.ofNat otherPlace)
    planned.pointers_nodup
  · intro entry isEntry
    have apart : ∀ number ∈ Contract.pointerNumbers,
        number ≠ scratch.index := by decide
    exact apart _ (planned.pointer_mem isEntry)
  · intro index register isPair middle further logged moved same
    rw [looping.pointers (index, register) isPair] at same
    exact step index register isPair _ middle further logged moved same
  · intro next logged moved isValue
    apply continues next _ moved logged
    refine ⟨looping.keeps.trans (moved.keeps.mono ?_ (List.nil_subset _)), ?_,
      ?_⟩
    · intro register isWalking
      rcases List.mem_cons.mp isWalking with isScratch | isPointer
      · exact List.mem_append_left _ (isScratch ▸ by decide)
      · exact List.mem_append_right _ isPointer
    · rw [moved.ram]
      exact looping.kept
    · exact fun entry isEntry => isValue entry.1 entry.2 isEntry

include planned in
theorem Tour.advanceBy_onward {bytes : Nat}
    (looping : tour.Looping begun row place core)
    (continues : ∀ next, tour.Looping begun row (place + bytes) next →
      core.Moved tour.walking next →
      (tour.guide finish).Onward target mayTrap visits ahead next) :
    (tour.guide finish).Onward target mayTrap visits
      (advanceBy tour.plan bytes ++ ahead) core := by
  apply Tour.forWalked_onward planned looping _ continues
  intro index register isPair goal middle further logged _ isPlace further'
  have nonzero : ∀ number ∈ Contract.pointerNumbers, number ≠ 0 := by decide
  apply Leads.addiu
  apply further' _ _ ((Core.Moved.refl middle).setReg (by simp) _)
  rw [Core.reg_setReg_same _ _ _ (nonzero _ (planned.pointer_mem isPair)),
    isPlace, Core.distance_natCast, tour.rowStart_add]

include planned in
theorem Tour.advanceByTail_onward {bytes : Nat}
    (looping : tour.Looping begun row place core)
    (isTail : core.reg 10 = UInt32.ofNat bytes)
    (continues : ∀ next, tour.Looping begun row (place + bytes) next →
      core.Moved tour.walking next →
      (tour.guide finish).Onward target mayTrap visits ahead next) :
    (tour.guide finish).Onward target mayTrap visits
      (advanceByTail tour.plan ++ ahead) core := by
  apply Tour.forWalked_onward planned looping _ continues
  intro index register isPair goal middle further logged moved isPlace further'
  have nonzero : ∀ number ∈ Contract.pointerNumbers, number ≠ 0 := by decide
  have stillTail : middle.reg tailBytes.index = UInt32.ofNat bytes :=
    (moved.reg (Tour.not_walking planned 10 (by decide))).trans isTail
  apply Leads.addu
  apply further' _ _ ((Core.Moved.refl middle).setReg (by simp) _)
  rw [Core.reg_setReg_same _ _ _ (nonzero _ (planned.pointer_mem isPair)),
    isPlace, stillTail, tour.rowStart_add]

include planned run in
theorem Tour.loadCount_onward {register : Reg}
    (looping : tour.Looping begun row place core)
    (continues : (tour.guide finish).Onward target mayTrap visits ahead
      (core.setReg register.index tour.executor.n.toUInt32)) :
    (tour.guide finish).Onward target mayTrap visits
      (lw register Contract.executor Executor.countOffset ++ ahead) core := by
  intro log
  have record : Record ⟨target, tour.between, mayTrap⟩ tour.executor
      tour.start core :=
    looping.record planned run.ready fun address inRecord => ⟨rfl, inRecord⟩
  apply record.loadCount
  exact fun logged _ => continues logged

include planned run in
theorem Tour.loadRows_onward {register : Reg}
    (looping : tour.Looping begun row place core)
    (continues : (tour.guide finish).Onward target mayTrap visits ahead
      (core.setReg register.index
        (tour.executor.paramWord Executor.rowCountSlot))) :
    (tour.guide finish).Onward target mayTrap visits
      (lw register Contract.executor
        (Executor.paramSlotOffset Executor.rowCountSlot) ++ ahead)
      core := by
  intro log
  have record : Record ⟨target, tour.between, mayTrap⟩ tour.executor
      tour.start core :=
    looping.record planned run.ready fun address inRecord => ⟨rfl, inRecord⟩
  apply record.loadParam (by decide)
  exact fun logged _ => continues logged

/-- The counters that a chunk leaves as they are. -/
structure Tour.Counted (before after : Core) : Prop where
  leftover : after.reg 8 = before.reg 8
  blocks : after.reg 9 = before.reg 9
  tail : after.reg 10 = before.reg 10
  rows : after.reg 12 = before.reg 12

theorem Tour.Counted.of_keeps {vectors : List RegNum} {before after : Core}
    (keeps : before.Keeps working vectors after) : Tour.Counted before after :=
  ⟨keeps.reg 8 (by decide), keeps.reg 9 (by decide), keeps.reg 10 (by decide),
    keeps.reg 12 (by decide)⟩

include planned in
theorem Tour.Counted.of_walking {before after : Core}
    (moved : before.Moved tour.walking after) : Tour.Counted before after :=
  ⟨moved.reg (Tour.not_walking planned 8 (by decide)),
    moved.reg (Tour.not_walking planned 9 (by decide)),
    moved.reg (Tour.not_walking planned 10 (by decide)),
    moved.reg (Tour.not_walking planned 12 (by decide))⟩

theorem Tour.Counted.trans {first second third : Core}
    (before : Tour.Counted first second) (behind : Tour.Counted second third) :
    Tour.Counted first third :=
  ⟨behind.leftover.trans before.leftover, behind.blocks.trans before.blocks,
    behind.tail.trans before.tail, behind.rows.trans before.rows⟩

include planned run in
/-- The copies of the body visit one block after the other. -/
theorem Tour.copies_onward {count copy : Nat} {code : Fragment}
    (codes : CopiesCode tour.plan count copy code)
    (looping : tour.Looping begun row place core)
    (areVisits : ∀ visit ∈ Visit.blocks row (place + 16 * copy) count,
      visit ∈ tour.visits)
    (resolves : Resolves target (code ++ ahead))
    (holds : whole row (place + 16 * copy) core)
    (continues : ∀ next, tour.Looping begun row place next →
      Tour.Counted core next →
      whole row (place + 16 * (copy + count)) next →
      (tour.guide finish).Onward target mayTrap visits ahead next) :
    (tour.guide finish).Onward target mayTrap
      (Visit.blocks row (place + 16 * copy) count ++ visits)
        (code ++ ahead) core := by
  induction codes generalizing core with
  | none => exact continues core looping ⟨rfl, rfl, rfl, rfl⟩ holds
  | @more count copy first more stepsCode _ induction =>
      rw [List.append_assoc] at resolves ⊢
      rw [Visit.blocks] at areVisits ⊢
      rw [List.cons_append]
      apply Tour.visit_onward planned run.ready run.carries run.params
        stepsCode looping ⟨fun _ => rfl, fun inTail => by cases inTail⟩
          (fun inTail => by cases inTail)
        (areVisits _ List.mem_cons_self) resolves holds
      intro next stillLooping keeps isNext
      have isPlace : place + 16 * copy + 16 = place + 16 * (copy + 1) := by
        omega
      have isEnd : copy + 1 + count = copy + (count + 1) := by omega
      rw [isPlace] at areVisits ⊢
      apply induction stillLooping
        (fun visit isVisit => areVisits visit (List.mem_cons_of_mem _ isVisit))
        resolves.behind
      · rw [← isPlace]
        exact isNext
      · intro last lastLooping counted isLast
        apply continues last lastLooping
          ((Tour.Counted.of_keeps keeps).trans counted)
        rw [← isEnd]
        exact isLast

/-- A counter that goes down by one. -/
theorem Guide.Onward.countDown {guide : Guide (Fragment × Core)} {counter : Reg}
    {label : Label} {count : Nat} (nonzero : counter.index ≠ 0)
    (small : count + 1 < 2 ^ 32)
    (isCount : core.reg counter.index = UInt32.ofNat (count + 1))
    (more : 0 < count → guide.Onward target mayTrap visits (target label)
      (core.setReg counter.index (UInt32.ofNat count)))
    (done : count = 0 → guide.Onward target mayTrap visits ahead
      (core.setReg counter.index (UInt32.ofNat count))) :
    guide.Onward target mayTrap visits
      (Asm.addiu counter counter (-1) ++ (Asm.bnez counter label ++ ahead))
        core := by
  intro log
  apply Leads.addiu
  rw [isCount, Moves.ofNat_add_distance_neg
    (show (-1 : Int) = -((1 : Nat) : Int) from rfl) (by omega) small,
    Nat.add_sub_cancel]
  have isValue :
      (core.setReg counter.index (UInt32.ofNat count)).reg counter.index =
      UInt32.ofNat count := Core.reg_setReg_same _ _ _ nonzero
  refine Guide.Onward.bnez ?_ ?_ log
  · intro taken
    rw [isValue] at taken
    apply more (Nat.pos_of_ne_zero _)
    rintro rfl
    exact taken rfl
  · intro notTaken
    rw [isValue] at notTaken
    exact done ((Word.ofNat_inj (by omega) (by decide)).mp notTaken)

/-- The code of a loop that is repeated by a counter. -/
structure Tour.Repeats (tour : Tour) (target : Label → Fragment) (counter : Reg)
    (label : Label) (times : Nat) (code behind : Fragment) : Prop where
  counts : counter.index = 8 ∨ counter.index = 9
  codes : CopiesCode tour.plan times 0 code
  isTarget : target label = code ++ (advanceBy tour.plan (16 * times)
    ++ (addiu counter counter (-1) ++ (bnez counter label ++ behind)))
  resolves : Resolves target (target label)

section Repeats

variable {counter : Reg} {label : Label} {times : Nat} {code behind : Fragment}
  (repeats : tour.Repeats target counter label times code behind)

include planned run repeats

theorem Tour.pass_onward {count : Nat} (small : count + 1 < 2 ^ 32)
    (looping : tour.Looping begun row place core)
    (isCount : core.reg counter.index = UInt32.ofNat (count + 1))
    (areVisits : ∀ visit ∈ Visit.blocks row place times, visit ∈ tour.visits)
    (holds : whole row place core)
    (continues : ∀ next, tour.Looping begun row (place + 16 * times) next →
      next.reg counter.index = UInt32.ofNat count →
      (∀ register ∈ [(8 : RegNum), 12], register ≠ counter.index →
        next.reg register = core.reg register) →
      whole row (place + 16 * times) next →
      (tour.guide finish).Onward target mayTrap visits
        (if count = 0 then behind else target label) next) :
    (tour.guide finish).Onward target mayTrap
      (Visit.blocks row place times ++ visits) (target label) core := by
  have nonzero : counter.index ≠ 0 := by
    rcases repeats.counts with isCounter | isCounter <;>
      rw [isCounter] <;> decide
  have own : ∀ register ∈ [counter.index],
      register ∈ [(8 : RegNum), 9, 10, 11, 12, 13, 14, 15] := by
    intro register isCounter
    rw [List.mem_singleton.mp isCounter]
    rcases repeats.counts with isCounter | isCounter <;>
      rw [isCounter] <;> decide
  have resolves := repeats.resolves
  rw [repeats.isTarget] at resolves ⊢
  apply Tour.copies_onward planned run repeats.codes looping areVisits
    resolves holds
  intro next stillLooping counted isNext
  rw [Nat.zero_add] at isNext
  apply Tour.advanceBy_onward planned stillLooping
  intro moved movedLooping isMoved
  have movedCounted := counted.trans (Tour.Counted.of_walking planned isMoved)
  have movedHolds := run.carries.same _ _ _ _ isNext isMoved.vector isMoved.ram
  have stillCount : moved.reg counter.index = UInt32.ofNat (count + 1) := by
    rw [← isCount]
    rcases repeats.counts with isCounter | isCounter
    · rw [isCounter]
      exact movedCounted.leftover
    · rw [isCounter]
      exact movedCounted.blocks
  have down : moved.Moved [counter.index]
      (moved.setReg counter.index (UInt32.ofNat count)) :=
    (Core.Moved.refl moved).setReg List.mem_cons_self _
  have others : ∀ register ∈ [(8 : RegNum), 12], register ≠ counter.index →
      (moved.setReg counter.index (UInt32.ofNat count)).reg register =
        core.reg register := by
    intro register isOther different
    rw [down.reg (by simpa using different)]
    rcases List.mem_cons.mp isOther with rfl | isRows
    · exact movedCounted.leftover
    · rw [List.mem_singleton.mp isRows]
      exact movedCounted.rows
  have further := continues _ (movedLooping.moved planned down own)
    (Core.reg_setReg_same _ _ _ nonzero) others
    (run.carries.same _ _ _ _ movedHolds down.vector down.ram)
  apply Guide.Onward.countDown nonzero small stillCount
  · intro positive
    rwa [if_neg (by omega)] at further
  · intro isZero
    rwa [if_pos isZero] at further

/-- A loop that is repeated by a counter visits its blocks. -/
theorem Tour.repeats_onward {count : Nat} (small : count + 1 < 2 ^ 32)
    (looping : tour.Looping begun row place core)
    (isCount : core.reg counter.index = UInt32.ofNat (count + 1))
    (areVisits : ∀ visit ∈ Visit.blocks row place (times * (count + 1)),
      visit ∈ tour.visits)
    (holds : whole row place core)
    (continues : ∀ next,
      tour.Looping begun row (place + 16 * (times * (count + 1))) next →
        (∀ register ∈ [(8 : RegNum), 12], register ≠ counter.index →
        next.reg register = core.reg register) →
      whole row (place + 16 * (times * (count + 1))) next →
      (tour.guide finish).Onward target mayTrap visits behind next) :
    (tour.guide finish).Onward target mayTrap
      (Visit.blocks row place (times * (count + 1)) ++ visits)
        (target label) core := by
  induction count generalizing core place with
  | zero =>
      rw [Nat.zero_add, Nat.mul_one] at *
      apply Tour.pass_onward planned run repeats small looping isCount
        areVisits holds
      intro next nextLooping _ others isNext
      rw [if_pos rfl]
      exact continues next nextLooping others isNext
  | succ count induction =>
      have isSplit : Visit.blocks row place (times * (count + 1 + 1)) =
          Visit.blocks row place times ++
            Visit.blocks row (place + 16 * times) (times * (count + 1)) := by
        rw [Nat.mul_add, Nat.mul_one, Nat.add_comm, Visit.blocks_add]
      have isPlace : place + 16 * times + 16 * (times * (count + 1)) =
          place + 16 * (times * (count + 1 + 1)) := by
        rw [Nat.mul_add times (count + 1), Nat.mul_one]
        omega
      rw [isSplit] at areVisits ⊢
      rw [List.append_assoc]
      apply Tour.pass_onward planned run repeats small looping isCount
        (fun visit isVisit => areVisits visit (List.mem_append_left _ isVisit))
        holds
      intro next nextLooping nextCount others isNext
      rw [if_neg (by omega)]
      apply induction (by omega) nextLooping nextCount
        (fun visit isVisit => areVisits visit (List.mem_append_right _ isVisit))
        isNext
      intro last lastLooping stillOthers isLast
      rw [isPlace] at lastLooping isLast
      apply continues last lastLooping _ isLast
      intro register isOther different
      exact (stillOthers register isOther different).trans
        (others register isOther different)

end Repeats

include planned run in
theorem Tour.fromRest_onward {count : Nat} (small : count < 2 ^ 32)
    (looping : tour.Looping begun row place core)
    (isCount : 0 < parts.unroll → core.reg 8 = UInt32.ofNat count)
    (none : parts.unroll = 0 → count = 0)
    (areVisits : ∀ visit ∈ Visit.blocks row place count, visit ∈ tour.visits)
    (holds : whole row place core)
    (continues : ∀ next, tour.Looping begun row (place + 16 * count) next →
      next.reg 12 = core.reg 12 → whole row (place + 16 * count) next →
      (tour.guide finish).Onward target mayTrap visits
        (parts.fromRestEnd tour.plan) next) :
    (tour.guide finish).Onward target mayTrap
      (Visit.blocks row place count ++ visits) (parts.fromRest tour.plan)
        core := by
  unfold LoopCode.fromRest
  split
  case isFalse single =>
    have isZero := none (by omega)
    subst isZero
    exact .marked (continues core looping rfl holds)
  case isTrue unrolled =>
    have repeats : tour.Repeats target leftover labelRestLoop 1 parts.rest
        (mark labelRestEnd ++ parts.fromRestEnd tour.plan) := by
      refine ⟨.inl rfl, ?_, run.marked.restLoop unrolled, ?_⟩
      · have codes : CopiesCode tour.plan 1 0 (parts.rest ++ []) :=
          .more (run.restCode unrolled) .none
        rwa [List.append_nil] at codes
      · rw [run.marked.restLoop unrolled]
        have middle := run.marked.tail.behind.behind.behind.behind.behind
        have behind : Resolves target (parts.fromRest tour.plan) :=
          middle.behind.behind.behind.behind.behind
        unfold LoopCode.fromRest at behind
        rw [if_pos unrolled] at behind
        exact behind.behind.behind
    apply Guide.Onward.beqz
    · intro isZero
      rw [show core.reg leftover.index = core.reg 8 from rfl, isCount unrolled]
        at isZero
      obtain rfl : count = 0 := (Word.ofNat_inj small (by decide)).mp isZero
      rw [run.marked.restEnd]
      exact continues core looping rfl holds
    · intro notZero
      apply Guide.Onward.marked
      rw [← run.marked.restLoop unrolled]
      obtain ⟨fewer, rfl⟩ : ∃ fewer, count = fewer + 1 := by
        refine ⟨count - 1, ?_⟩
        have positive : count ≠ 0 := by
          rintro rfl
          exact notZero (isCount unrolled)
        omega
      rw [← Nat.one_mul (fewer + 1)] at areVisits continues ⊢
      apply Tour.repeats_onward planned run repeats small looping
        (isCount unrolled) areVisits holds
      intro next nextLooping others isNext
      exact .marked (continues next nextLooping
        (others 12 (by decide) (by decide)) isNext)

include planned run in
theorem Tour.fromMain_onward {count left : Nat} (small : count < 2 ^ 32)
    (leftSmall : left < 2 ^ 32) (looping : tour.Looping begun row place core)
    (isCount : core.reg 9 = UInt32.ofNat count)
    (isLeft : 0 < parts.unroll → core.reg 8 = UInt32.ofNat left)
    (none : parts.unroll = 0 → left = 0)
    (areVisits : ∀ visit ∈
      Visit.blocks row place (copies parts.unroll * count + left),
      visit ∈ tour.visits)
    (holds : whole row place core)
    (continues : ∀ next,
      tour.Looping begun row
        (place + 16 * (copies parts.unroll * count + left)) next →
      next.reg 12 = core.reg 12 →
      whole row (place + 16 * (copies parts.unroll * count + left)) next →
      (tour.guide finish).Onward target mayTrap visits
        (parts.fromRestEnd tour.plan) next) :
    (tour.guide finish).Onward target mayTrap
      (Visit.blocks row place (copies parts.unroll * count + left) ++ visits)
      (parts.fromMain tour.plan) core := by
  have isPlace : place + 16 * (copies parts.unroll * count) + 16 * left =
      place + 16 * (copies parts.unroll * count + left) := by omega
  rw [Visit.blocks_add] at areVisits ⊢
  rw [List.append_assoc]
  have leaves : ∀ next,
      tour.Looping begun row (place + 16 * (copies parts.unroll * count)) next →
        next.reg 8 = core.reg 8 → next.reg 12 = core.reg 12 →
      whole row (place + 16 * (copies parts.unroll * count)) next →
      (tour.guide finish).Onward target mayTrap
        (Visit.blocks row (place + 16 * (copies parts.unroll * count)) left ++
          visits)
        (parts.fromRest tour.plan) next := by
    intro next nextLooping sameLeft sameRows isNext
    apply Tour.fromRest_onward planned run leftSmall nextLooping
      (fun unrolled => sameLeft.trans (isLeft unrolled)) none
      (fun visit isVisit => areVisits visit (List.mem_append_right _ isVisit))
        isNext
    intro last lastLooping stillRows isLast
    rw [isPlace] at lastLooping isLast
    exact continues last lastLooping (stillRows.trans sameRows) isLast
  apply Guide.Onward.beqz
  · intro isZero
    rw [show core.reg blocks.index = core.reg 9 from rfl, isCount] at isZero
    obtain rfl : count = 0 := (Word.ofNat_inj small (by decide)).mp isZero
    rw [run.marked.rest]
    exact leaves core looping rfl rfl holds
  · intro notZero
    apply Guide.Onward.marked
    obtain ⟨fewer, rfl⟩ : ∃ fewer, count = fewer + 1 := by
      refine ⟨count - 1, ?_⟩
      have positive : count ≠ 0 := by
        rintro rfl
        exact notZero isCount
      omega
    have repeats :
        tour.Repeats target blocks labelMainLoop (copies parts.unroll)
        parts.main (mark labelRest ++ parts.fromRest tour.plan) := by
      refine ⟨.inr rfl, run.mainCode, run.marked.mainLoop, ?_⟩
      rw [run.marked.mainLoop]
      exact run.marked.tail.behind.behind.behind.behind.behind
    rw [← run.marked.mainLoop]
    apply Tour.repeats_onward planned run repeats small looping isCount
      (fun visit isVisit => areVisits visit (List.mem_append_left _ isVisit))
      holds
    intro next nextLooping others isNext
    exact .marked (leaves next nextLooping (others 8 (by decide) (by decide))
      (others 12 (by decide) (by decide)) isNext)

/-- The counters hold how the bytes of a row are split. -/
structure Tour.Split (tour : Tour) (unroll : Nat) (core : Core) : Prop where
  tail : core.reg 10 = UInt32.ofNat (tour.rowBytes % 16)
  blocks : core.reg 9 = UInt32.ofNat (tour.rowBytes / 16 / copies unroll)
  leftover : 0 < unroll →
    core.reg 8 = UInt32.ofNat (tour.rowBytes / 16 % copies unroll)

theorem Tour.rowBytes_lt (tour : Tour) : tour.rowBytes < 2 ^ 32 :=
  UInt32.toNat_lt _

include planned run in
/-- The three regions together visit every chunk of a row. -/
theorem Tour.fromSplit_onward (looping : tour.Looping begun row 0 core)
    (split : tour.Split parts.unroll core)
    (areVisits : ∀ visit ∈ Visit.ofRow tour.rowBytes row, visit ∈ tour.visits)
    (holds : whole row 0 core)
    (continues : ∀ next, tour.Looping begun row tour.rowBytes next →
      next.reg 12 = core.reg 12 → whole row tour.rowBytes next →
      (tour.guide finish).Onward target mayTrap visits
        (parts.fromRestEnd tour.plan) next) :
    (tour.guide finish).Onward target mayTrap
      (Visit.ofRow tour.rowBytes row ++ visits) (parts.fromSplit tour.plan)
        core := by
  have isBytes := Nat.div_add_mod tour.rowBytes 16
  have isBlocks : tour.rowBytes / 16 =
      copies parts.unroll * (tour.rowBytes / 16 / copies parts.unroll) +
      tour.rowBytes / 16 % copies parts.unroll := (Nat.div_add_mod _ _).symm
  have noWrap := tour.rowBytes_lt
  have blocksSmall : tour.rowBytes / 16 / copies parts.unroll < 2 ^ 32 :=
    Nat.lt_of_le_of_lt (Nat.div_le_self _ _) (by omega)
  have leftSmall : tour.rowBytes / 16 % copies parts.unroll < 2 ^ 32 :=
    Nat.lt_of_le_of_lt (Nat.mod_le _ _) (by omega)
  rw [Visit.ofRow] at areVisits ⊢
  rw [List.cons_append]
  have blocksVisits : ∀ visit ∈ Visit.blocks row (tour.rowBytes % 16)
      (copies parts.unroll * (tour.rowBytes / 16 / copies parts.unroll) +
        tour.rowBytes / 16 % copies parts.unroll), visit ∈ tour.visits := by
    rw [← isBlocks]
    exact fun visit isVisit => areVisits visit (List.mem_cons_of_mem _ isVisit)
  have behindTail : ∀ next, tour.Looping begun row (tour.rowBytes % 16) next →
      Tour.Counted core next → whole row (tour.rowBytes % 16) next →
      (tour.guide finish).Onward target mayTrap
        (Visit.blocks row (tour.rowBytes % 16) (tour.rowBytes / 16) ++ visits)
        (parts.fromMain tour.plan) next := by
    intro next nextLooping counted isNext
    have isEnd : tour.rowBytes % 16 + 16 * (tour.rowBytes / 16) =
        tour.rowBytes := by omega
    rw [isBlocks]
    apply Tour.fromMain_onward planned run blocksSmall leftSmall nextLooping
      (counted.blocks.trans split.blocks)
      (fun unrolled => counted.leftover.trans (split.leftover unrolled)) _
        blocksVisits isNext
    · rw [← isBlocks, isEnd]
      exact fun last lastLooping sameRows =>
        continues last lastLooping (sameRows.trans counted.rows)
    · intro noUnroll
      rw [noUnroll, copies_zero, Nat.mod_one]
  apply Guide.Onward.beqz
  · intro isZero
    have noTail : tour.rowBytes % 16 = 0 :=
      (Word.ofNat_inj (by omega) (by decide)).mp (split.tail.symm.trans isZero)
    rw [noTail] at behindTail ⊢
    rw [run.marked.main]
    apply Guide.Onward.visit
    · intro _ entry isEntry
      rw [looping.pointers entry isEntry, show UInt32.ofNat 0 = 0 from rfl,
        UInt32.add_zero]
    · apply Leads.done
      refine ⟨?_, behindTail core looping ⟨rfl, rfl, rfl, rfl⟩ holds⟩
      intro touch _ address inside
      exact absurd inside (Nat.not_lt_zero _)
  · intro _
    apply Guide.Onward.marked
    have isVisit := areVisits _ List.mem_cons_self
    have fits : tour.Fits true 0 (tour.rowBytes % 16) core :=
      ⟨fun notTail => (by cases notTail), fun _ => ⟨by omega, split.tail, rfl⟩⟩
    apply Tour.visit_onward planned run.ready run.carries run.params
      run.tailCode looping fits (fun _ => rfl) isVisit run.marked.tail holds
    intro next nextLooping keeps isNext
    have counted := Tour.Counted.of_keeps keeps
    apply Tour.advanceByTail_onward planned nextLooping
      (counted.tail.trans split.tail)
    intro moved movedLooping isMoved
    rw [Nat.zero_add] at movedLooping isNext
    exact .marked (behindTail moved movedLooping
      (counted.trans (Tour.Counted.of_walking planned isMoved))
      (run.carries.same _ _ _ _ isNext isMoved.vector isMoved.ram))

theorem Word.ofNat_shiftRight {word : UInt32} {amount : Nat}
    (small : amount < 32) :
    word >>> UInt32.ofNat amount = UInt32.ofNat (word.toNat / 2 ^ amount) := by
  apply UInt32.toNat_inj.mp
  have bound := word.toNat_lt
  rw [UInt32.toNat_shiftRight, UInt32.toNat_ofNat', UInt32.toNat_ofNat',
    Nat.shiftRight_eq_div_pow, Nat.mod_eq_of_lt (show amount < 2 ^ 32 by omega),
    Nat.mod_eq_of_lt small,
    Nat.mod_eq_of_lt (Nat.lt_of_le_of_lt (Nat.div_le_self _ _) bound)]

theorem Word.ofNat_and {word : UInt32} {amount : Nat} (small : amount < 32) :
    word &&& UInt32.ofNat (2 ^ amount - 1) =
      UInt32.ofNat (word.toNat % 2 ^ amount) := by
  apply UInt32.toNat_inj.mp
  have bound := word.toNat_lt
  have power : 2 ^ amount ≤ 2 ^ 31 := Nat.pow_le_pow_right (by omega) (by omega)
  rw [UInt32.toNat_and, UInt32.toNat_ofNat', UInt32.toNat_ofNat',
    Nat.mod_eq_of_lt (show 2 ^ amount - 1 < 2 ^ 32 by omega),
    Nat.and_two_pow_sub_one_eq_mod,
    Nat.mod_eq_of_lt (Nat.lt_of_le_of_lt (Nat.mod_le _ _) bound)]

theorem Word.ofNat_toInt32 {word : UInt32}
    (notNegative : 0 ≤ word.toInt32.toInt) :
    UInt32.ofNat word.toInt32.toInt.toNat = word := by
  have isInt : word.toInt32.toInt = (word.toNat : Int).bmod (2 ^ 32) :=
    BitVec.toInt_eq_toNat_bmod word.toBitVec
  have bound := word.toNat_lt
  apply UInt32.toNat_inj.mp
  rw [UInt32.toNat_ofNat']
  rw [Int.bmod_def] at isInt
  split at isInt <;> omega

/-- The code that splits a number of bytes into blocks and the bytes in front of
them. -/
theorem Tour.splitBytes_leads {setting : Setting} {goal : Goal}
    {log : List Access} {unroll bytes : Nat} (few : unroll ≤ 2)
    (small : bytes < 2 ^ 32) (isBytes : core.reg 10 = UInt32.ofNat bytes)
    (continues : ∀ next, core.Moved [8, 9, 10] next →
      next.reg 10 = UInt32.ofNat (bytes % 16) →
      next.reg 9 = UInt32.ofNat (bytes / 16 / copies unroll) →
      (0 < unroll → next.reg 8 = UInt32.ofNat (bytes / 16 % copies unroll)) →
      Leads setting goal ahead next log) :
    Leads setting goal (srl blocks tailBytes 4
      ++ ((if unroll > 0 then
          andi leftover blocks (copies unroll - 1) ++ srl blocks blocks unroll
            else [])
      ++ (andi tailBytes tailBytes (blockBytes - 1) ++ ahead))) core log := by
  have isBlocks :
      core.reg 10 >>> UInt32.ofNat 4 = UInt32.ofNat (bytes / 16) := by
    rw [isBytes, Word.ofNat_shiftRight (by decide), UInt32.toNat_ofNat',
      Nat.mod_eq_of_lt small, show 2 ^ 4 = 16 from rfl]
  have isTail : core.reg 10 &&& UInt32.ofNat 15 =
      UInt32.ofNat (bytes % 16) := by
    rw [isBytes, show (15 : Nat) = 2 ^ 4 - 1 from rfl,
      Word.ofNat_and (by decide), UInt32.toNat_ofNat', Nat.mod_eq_of_lt small,
      show 2 ^ 4 = 16 from rfl]
  apply Leads.srl
  change Leads _ _ _ (core.setReg 9 (core.reg 10 >>> UInt32.ofNat 4)) _
  rw [isBlocks]
  by_cases unrolled : 0 < unroll
  · rw [if_pos unrolled, List.append_assoc]
    have isLeft : UInt32.ofNat (bytes / 16) &&&
        UInt32.ofNat (copies unroll - 1) =
        UInt32.ofNat (bytes / 16 % copies unroll) := by
      rw [copies_eq, Word.ofNat_and (by omega), UInt32.toNat_ofNat',
        Nat.mod_eq_of_lt (show bytes / 16 < 2 ^ 32 by omega)]
    have isMain : UInt32.ofNat (bytes / 16) >>> UInt32.ofNat unroll =
        UInt32.ofNat (bytes / 16 / copies unroll) := by
      rw [copies_eq, Word.ofNat_shiftRight (by omega), UInt32.toNat_ofNat',
        Nat.mod_eq_of_lt (show bytes / 16 < 2 ^ 32 by omega)]
    have isMask : ((copies unroll : Int) - 1).toNat = copies unroll - 1 := by
      omega
    apply Leads.andi
    apply Leads.srl
    apply Leads.andi
    rw [isMask, Word.ofInt_natCast]
    simp only [show leftover.index = 8 from rfl, show blocks.index = 9 from rfl,
      show tailBytes.index = 10 from rfl,
      Core.reg_setReg_same _ 9 _ (by decide),
      Core.reg_setReg_other _ 8 9 _ (by decide),
      Core.reg_setReg_other _ 9 10 _ (by decide),
      Core.reg_setReg_other _ 8 10 _ (by decide), isLeft, isMain]
    apply continues
    · exact (((((Core.Moved.refl core).setReg (by decide) _).setReg (by decide)
        _).setReg (by decide) _).setReg (by decide) _)
    · rw [Core.reg_setReg_same _ _ _ (by decide)]
      exact isTail
    · rw [Core.reg_setReg_other _ _ _ _ (by decide),
        Core.reg_setReg_same _ _ _ (by decide)]
    · intro _
      rw [Core.reg_setReg_other _ _ _ _ (by decide),
        Core.reg_setReg_other _ _ _ _ (by decide),
        Core.reg_setReg_same _ _ _ (by decide)]
  · rw [if_neg unrolled, List.nil_append]
    obtain rfl : unroll = 0 := by omega
    apply Leads.andi
    apply continues
    · exact ((Core.Moved.refl core).setReg (by decide) _).setReg (by decide) _
    · rw [show tailBytes.index = 10 from rfl,
        Core.reg_setReg_same _ _ _ (by decide),
        Core.reg_setReg_other _ _ _ _ (by decide)]
      exact isTail
    · rw [show tailBytes.index = 10 from rfl,
        Core.reg_setReg_other _ _ _ _ (by decide),
        Core.reg_setReg_same _ _ _ (by decide), copies_zero, Nat.div_one]
    · exact fun isUnrolled => absurd isUnrolled unrolled

theorem Tour.sll_count (tour : Tour) :
    tour.executor.n.toUInt32 <<< UInt32.ofInt tour.plan.shift =
      UInt32.ofNat tour.rowBytes := by
  rw [Word.ofInt_natCast]
  exact UInt32.ofNat_toNat.symm

include planned run in
/-- The code in front of the regions splits the bytes of a row. -/
theorem Tour.fromRow_onward (few : parts.unroll ≤ 2)
    (looping : tour.Looping begun row place core)
    (positive : 0 < tour.executor.n.toInt)
    (continues : ∀ next, tour.Looping begun row place next →
      tour.Split parts.unroll next →
      core.Moved [8, 9, 10] next →
      (tour.guide finish).Onward target mayTrap visits
        (parts.fromSplit tour.plan) next) :
    (tour.guide finish).Onward target mayTrap visits (parts.fromRow tour.plan)
      core := by
  apply Tour.loadCount_onward planned run looping
  have isCount : (core.setReg 10 tour.executor.n.toUInt32).reg 10 =
      tour.executor.n.toUInt32 :=
    Core.reg_setReg_same _ _ _ (by decide)
  apply Guide.Onward.blez
  · intro notPositive
    exfalso
    rw [show tailBytes.index = 10 from rfl, isCount, Int32.toInt32_toUInt32]
      at notPositive
    have notAbove := Int32.le_iff_toInt_le.mp notPositive
    rw [Int32.toInt_zero] at notAbove
    omega
  · intro _ log
    apply Leads.sll
    rw [show tailBytes.index = 10 from rfl, isCount, tour.sll_count]
    apply Tour.splitBytes_leads few tour.rowBytes_lt
      (Core.reg_setReg_same _ _ _ (by decide))
    intro next moved isTail isBlocks isLeft
    have allMoved : core.Moved [8, 9, 10] next :=
      Core.Moved.trans
        (((Core.Moved.refl core).setReg (by decide) _).setReg (by decide) _)
        moved
    have own : ∀ register ∈ [(8 : RegNum), 9, 10],
        register ∈ [(8 : RegNum), 9, 10, 11, 12, 13, 14, 15] := by decide
    exact continues next (looping.moved planned allMoved own)
      ⟨isTail, isBlocks, isLeft⟩ allMoved log

include planned run in
/-- At the end of a row the pointers go to the start of the next one. -/
theorem Tour.nextRow_onward (twoD : tour.plan.program.twoD = true)
    (looping : tour.Looping begun row tour.rowBytes core)
    (continues : ∀ next, tour.Looping begun (row + 1) 0 next →
      next.reg 12 = core.reg 12 →
        (∀ register, next.vector register = core.vector register) →
      next.ram = core.ram →
        (tour.guide finish).Onward target mayTrap visits ahead next) :
    (tour.guide finish).Onward target mayTrap visits
      (lw tailBytes Contract.executor Executor.countOffset
        ++ (sll tailBytes tailBytes tour.plan.shift
        ++ (forWalked tour.plan (fun index pointer =>
          lw scratch Contract.executor (Executor.paramSlotOffset index)
            ++ subu scratch scratch tailBytes ++ addu pointer pointer scratch)
            ++ ahead))) core := by
  intro log
  have record : Record ⟨target, tour.between, mayTrap⟩ tour.executor
      tour.start core :=
    looping.record planned run.ready fun address inRecord => ⟨rfl, inRecord⟩
  apply record.loadCount
  intro logged _
  apply Leads.sll
  rw [show tailBytes.index = 10 from rfl,
    Core.reg_setReg_same _ _ _ (by decide), tour.sll_count]
  have counted : core.Moved [10]
      ((core.setReg 10 tour.executor.n.toUInt32).setReg 10
        (UInt32.ofNat tour.rowBytes)) :=
    ((Core.Moved.refl core).setReg (by decide) _).setReg (by decide) _
  have countedLooping := looping.moved planned counted (by decide)
  have atNext : ∀ next, tour.Looping begun (row + 1) 0 next →
      ((core.setReg 10 tour.executor.n.toUInt32).setReg 10
        (UInt32.ofNat tour.rowBytes)).Moved tour.walking next →
      (tour.guide finish).Onward target mayTrap visits ahead next := by
    intro next nextLooping moved
    apply continues next nextLooping
    · rw [moved.reg (Tour.not_walking planned 12 (by decide)),
        counted.reg (by decide)]
    · exact fun register =>
        (moved.vector register).trans (counted.vector register)
    · exact moved.ram.trans counted.ram
  refine Tour.forWalked_onward planned countedLooping ?_ atNext logged
  · intro index register isPair goal middle further accesses moved isPlace
      further'
    have nonzero : ∀ number ∈ Contract.pointerNumbers, number ≠ 0 ∧
        number ≠ 11 := by decide
    obtain ⟨isRegister, notScratch⟩ := nonzero _ (planned.pointer_mem isPair)
    have isBytes : middle.reg 10 = UInt32.ofNat tour.rowBytes :=
      (moved.reg (Tour.not_walking planned 10 (by decide))).trans
        (Core.reg_setReg_same _ _ _ (by decide))
    have middleRecord :
        Record ⟨target, tour.between, mayTrap⟩ tour.executor tour.start
        middle :=
      (countedLooping.record planned run.ready fun address inRecord =>
        ⟨rfl, inRecord⟩).moved
        (moved.reg (Tour.not_walking planned 4 (by decide))) moved.ram
    rw [List.append_assoc, List.append_assoc]
    apply middleRecord.loadParam (planned.pointer_bounds isPair)
    intro loaded _
    apply Leads.subu
    apply Leads.addu
    apply further'
    · exact (((Core.Moved.refl middle).setReg (by simp) _).setReg (by simp)
        _).setReg (by simp) _
    · rw [Core.reg_setReg_same _ _ _ isRegister,
        show scratch.index = 11 from rfl, show tailBytes.index = 10 from rfl,
        Core.reg_setReg_same _ _ _ (by decide),
        Core.reg_setReg_other _ _ _ _ notScratch,
        Core.reg_setReg_other _ _ _ _ notScratch,
        Core.reg_setReg_same _ _ _ (by decide),
        Core.reg_setReg_other _ 11 10 _ (by decide), isBytes, isPlace]
      unfold Tour.rowStart
      rw [twoD, tour.executor.rowStart_succ, show UInt32.ofNat 0 = 0 from rfl,
        UInt32.add_zero, UInt32.add_assoc, UInt32.add_comm (UInt32.ofNat _),
        UInt32.sub_add_cancel]

section Rows

variable (few : parts.unroll ≤ 2)
  (exits : ∀ next, begun.Keeps tour.changed tour.site.vectorRegs next →
    Ram.Kept tour.reach begun.ram next.ram → whole tour.rows 0 next →
    (tour.guide finish).Onward target mayTrap [] parts.after next)

include planned run few exits

/-- A row is visited, and then the rows behind it. -/
theorem Tour.row_onward {remaining : Nat} (positive : 0 < tour.executor.n.toInt)
    (isLast : row + (remaining + 1) = tour.rows)
    (small : remaining + 1 < 2 ^ 32) (looping : tour.Looping begun row 0 core)
    (isCount : tour.plan.program.twoD = true →
      core.reg 12 = UInt32.ofNat (remaining + 1))
    (single : tour.plan.program.twoD = false → remaining = 0)
    (holds : whole row 0 core)
    (later : 0 < remaining → ∀ next, tour.Looping begun (row + 1) 0 next →
      next.reg 12 = UInt32.ofNat remaining → whole (row + 1) 0 next →
      (tour.guide finish).Onward target mayTrap
        (Visit.ofRows tour.rowBytes (row + 1) remaining)
          (parts.fromRow tour.plan) next) :
    (tour.guide finish).Onward target mayTrap
      (Visit.ofRows tour.rowBytes row (remaining + 1)) (parts.fromRow tour.plan)
        core := by
  have areVisits :
      ∀ visit ∈ Visit.ofRow tour.rowBytes row, visit ∈ tour.visits :=
    fun visit isVisit => Visit.mem_ofRows isVisit ⟨by omega, by omega⟩
  apply Tour.fromRow_onward planned run few looping positive
  intro atSplit splitLooping split isMoved
  apply Tour.fromSplit_onward planned run splitLooping split areVisits
    (run.carries.same _ _ _ _ holds isMoved.vector isMoved.ram)
  intro atEnd endLooping sameRows endHolds
  have nextHolds := run.carries.nextRow row (by omega) atEnd endHolds
  unfold LoopCode.fromRestEnd rowEnd
  by_cases twoD : tour.plan.program.twoD = true
  · rw [if_pos twoD]
    simp only [List.append_assoc]
    apply Tour.nextRow_onward planned run twoD endLooping
    intro next nextLooping stillRows sameVectors sameRam
    have isRows : next.reg Contract.rows.index =
        UInt32.ofNat (remaining + 1) := by
      change next.reg 12 = _
      rw [stillRows, sameRows, isMoved.reg (by decide), isCount twoD]
    have down : next.Moved [12] (next.setReg 12 (UInt32.ofNat remaining)) :=
      (Core.Moved.refl next).setReg (by decide) _
    have downLooping := nextLooping.moved planned down (by decide)
    have downHolds :
        whole (row + 1) 0 (next.setReg 12 (UInt32.ofNat remaining)) :=
      run.carries.same _ _ _ _ nextHolds
        (fun register => (down.vector register).trans (sameVectors register))
        (down.ram.trans sameRam)
    apply Guide.Onward.countDown (by decide) small isRows
    · intro more
      rw [run.marked.row twoD]
      exact later more _ downLooping (Core.reg_setReg_same _ _ _ (by decide))
        downHolds
    · rintro rfl
      apply Guide.Onward.marked
      apply exits _ downLooping.keeps downLooping.kept
      rw [← isLast]
      exact downHolds
  · rw [if_neg twoD, List.nil_append]
    obtain rfl := single (by simpa using twoD)
    apply Guide.Onward.marked
    apply exits _ endLooping.keeps endLooping.kept
    rw [← isLast]
    exact nextHolds

/-- The rows from one on are visited one after the other. -/
theorem Tour.rows_onward {remaining : Nat}
    (positive : 0 < tour.executor.n.toInt)
    (isLast : row + (remaining + 1) = tour.rows)
    (small : remaining + 1 < 2 ^ 32) (looping : tour.Looping begun row 0 core)
    (isCount : tour.plan.program.twoD = true →
      core.reg 12 = UInt32.ofNat (remaining + 1))
    (single : tour.plan.program.twoD = false → remaining = 0)
    (holds : whole row 0 core) :
    (tour.guide finish).Onward target mayTrap
      (Visit.ofRows tour.rowBytes row (remaining + 1)) (parts.fromRow tour.plan)
        core := by
  induction remaining generalizing row core with
  | zero =>
      exact Tour.row_onward planned run few exits positive isLast small looping
        isCount single holds fun impossible =>
          absurd impossible (Nat.lt_irrefl 0)
  | succ remaining induction =>
      apply Tour.row_onward planned run few exits positive isLast small looping
        isCount single holds
      intro _ next nextLooping isNext nextHolds
      exact induction (by omega) (by omega) nextLooping (fun _ => isNext)
        (fun notTwoD => absurd (single notTwoD) (Nat.succ_ne_zero _)) nextHolds

omit few in
theorem Tour.fromRow_exits (notPositive : ¬ 0 < tour.executor.n.toInt)
    (looping : tour.Looping begun row place core)
    (holds : whole tour.rows 0 core) :
    (tour.guide finish).Onward target mayTrap [] (parts.fromRow tour.plan)
      core := by
  apply Tour.loadCount_onward planned run looping
  have moved : core.Moved [10] (core.setReg 10 tour.executor.n.toUInt32) :=
    (Core.Moved.refl core).setReg (by decide) _
  have movedLooping := looping.moved planned moved (by decide)
  apply Guide.Onward.blez
  · intro _
    rw [run.marked.final]
    exact exits _ movedLooping.keeps movedLooping.kept
      (run.carries.same _ _ _ _ holds moved.vector moved.ram)
  · intro isPositive
    exfalso
    rw [show tailBytes.index = 10 from rfl,
      Core.reg_setReg_same _ _ _ (by decide), Int32.toInt32_toUInt32,
      Int32.not_le] at isPositive
    have above := Int32.lt_iff_toInt_lt.mp isPositive
    rw [Int32.toInt_zero] at above
    exact notPositive above

/-- The loop visits the chunks of all rows. -/
theorem Tour.loop_onward (looping : tour.Looping begun 0 0 core)
    (holds : whole 0 0 core) :
    (tour.guide finish).Onward target mayTrap tour.visits
      (rowHead tour.plan ++ parts.fromRow tour.plan) core := by
  unfold rowHead
  by_cases twoD : tour.plan.program.twoD = true
  · rw [if_pos twoD]
    simp only [List.append_assoc]
    have isRows : tour.rows = if 0 < tour.executor.n.toInt then
        (tour.executor.paramWord Executor.rowCountSlot).toInt32.toInt.toNat
          else 0 := by
      unfold Tour.rows Reference.rowCount
      rw [if_pos twoD]
    have moved : core.Moved [12]
        (core.setReg 12 (tour.executor.paramWord Executor.rowCountSlot)) :=
      (Core.Moved.refl core).setReg (by decide) _
    have movedLooping := looping.moved planned moved (by decide)
    have movedHolds := run.carries.same _ _ _ _ holds moved.vector moved.ram
    have isCount :
        (core.setReg 12 (tour.executor.paramWord Executor.rowCountSlot)).reg
        12 = tour.executor.paramWord Executor.rowCountSlot :=
          Core.reg_setReg_same _ _ _ (by decide)
    apply Tour.loadRows_onward planned run looping
    apply Guide.Onward.blez
    · intro noRows
      rw [show Contract.rows.index = 12 from rfl, isCount] at noRows
      have notAbove := Int32.le_iff_toInt_le.mp noRows
      rw [Int32.toInt_zero] at notAbove
      have none : tour.rows = 0 := by
        rw [isRows]
        split <;> omega
      rw [run.marked.final, Tour.visits, none]
      apply exits _ movedLooping.keeps movedLooping.kept
      rw [none]
      exact movedHolds
    · intro someRows
      rw [show Contract.rows.index = 12 from rfl, isCount, Int32.not_le]
        at someRows
      have above := Int32.lt_iff_toInt_lt.mp someRows
      rw [Int32.toInt_zero] at above
      apply Guide.Onward.marked
      by_cases positive : 0 < tour.executor.n.toInt
      · rw [if_pos positive] at isRows
        have below :=
          (tour.executor.paramWord Executor.rowCountSlot).toInt32.toInt_lt
        obtain ⟨remaining, isRemaining⟩ :
            ∃ remaining, tour.rows = remaining + 1 :=
          ⟨tour.rows - 1, by omega⟩
        rw [Tour.visits, isRemaining]
        apply Tour.rows_onward planned run few exits positive
          (by rw [isRemaining, Nat.zero_add]) (by omega) movedLooping _
          (fun notTwoD => absurd twoD (by rw [notTwoD]; decide)) movedHolds
        intro _
        rw [isCount, ← isRemaining, isRows, Word.ofNat_toInt32 (by omega)]
      · rw [if_neg positive] at isRows
        rw [Tour.visits, isRows]
        apply Tour.fromRow_exits planned run exits positive movedLooping
        rw [isRows]
        exact movedHolds
  · rw [if_neg twoD, List.nil_append]
    by_cases positive : 0 < tour.executor.n.toInt
    · have isRows : tour.rows = 0 + 1 := by
        unfold Tour.rows Reference.rowCount
        rw [if_pos positive, if_neg twoD]
      rw [Tour.visits, isRows]
      exact Tour.rows_onward planned run few exits positive (by rw [isRows])
        (by decide) looping (fun isTwoD => absurd isTwoD twoD)
        (fun _ => rfl) holds
    · have isRows : tour.rows = 0 := if_neg positive
      rw [Tour.visits, isRows]
      apply Tour.fromRow_exits planned run exits positive looping
      rw [isRows]
      exact holds

end Rows

end Loop

end LaneKernel
