import LaneKernel.Proofs.Calls
import LaneKernel.Proofs.KernelRun

/-!
# Calls of kernels

The walk of a kernel's labelled code is one of the machine that executes the
assembled code.  Behind it stand four words that restore the frame pointer and
the stack pointer and return; where the halt address is one of them, the machine
stops in front of it.
-/

namespace LaneKernel

open Asm Contract Compiler

namespace Core.Steps

variable {allowed more : Access → Prop} {count : Nat} {core last : Core}
  {log logged : List Access}

theorem weaken (steps : Core.Steps allowed count core log last logged)
    (widen : ∀ access, allowed access → more access) :
    Core.Steps more count core log last logged := by
  induction steps with
  | refl => exact .refl
  | step fetched decoded inside performed _ induction =>
      exact .step fetched decoded
        (fun access isAccess => widen access (inside access isAccess)) performed
        induction

theorem behindLog (steps : Core.Steps allowed count core log last logged)
    (before : List Access) :
    Core.Steps allowed count core (log ++ before) last (logged ++ before) := by
  induction steps with
  | refl => exact .refl
  | step fetched decoded inside performed _ induction =>
      rw [List.append_assoc] at induction
      exact .step fetched decoded inside performed induction

end Core.Steps

/-- Steps of the machine come to a goal, or to a trap where one is accepted. -/
def Core.Running (mayTrap : Prop) : Runner Core := fun may goal core =>
  (∃ count last logged,
    Core.Steps (Access.Stays may) count core [] last logged ∧
      goal last logged) ∨
  (mayTrap ∧ ∃ count last logged,
    Core.Steps (Access.Stays may) count core [] last logged ∧
      last.Traps (Access.Stays may))

namespace Core.Running

variable {mayTrap : Prop} {may more : Permission}
  {goal further : Core → List Access → Prop} {core : Core}

theorem mono (running : Core.Running mayTrap may goal core)
    (implies : ∀ last log, goal last log → further last log) :
    Core.Running mayTrap may further core :=
  running.imp_left fun ⟨count, last, logged, steps, reached⟩ =>
    ⟨count, last, logged, steps, implies last logged reached⟩

theorem weaken (running : Core.Running mayTrap may goal core)
    (widen : ∀ write address, may write address → more write address) :
    Core.Running mayTrap more goal core := by
  have stays : ∀ access : Access, access.Stays may → access.Stays more :=
    fun access inside address covered => widen _ _ (inside address covered)
  rcases running with ⟨count, last, logged, steps, reached⟩ |
    ⟨accepted, count, last, logged, steps, traps⟩
  · exact .inl ⟨count, last, logged, steps.weaken stays, reached⟩
  · refine .inr ⟨accepted, count, last, logged, steps.weaken stays,
      traps.imp_right ?_⟩
    rintro ⟨word, operation, next, trap, fetched, decoded, inside, performed⟩
    exact ⟨word, operation, next, trap, fetched, decoded,
      fun access isAccess => stays access (inside access isAccess), performed⟩

theorem bind {reached : Core → Prop}
    (running : Core.Running mayTrap may
      (fun middle _ =>
        Core.Running mayTrap may (fun last _ => reached last) middle) core) :
    Core.Running mayTrap may (fun last _ => reached last) core := by
  rcases running with ⟨count, middle, logged, steps, later⟩ | traps
  · rcases later with ⟨moreCount, last, all, moreSteps, isReached⟩ |
      ⟨accepted, moreCount, last, all, moreSteps, traps⟩
    · exact .inl ⟨_, last, _, steps.trans (moreSteps.behindLog logged),
        isReached⟩
    · exact .inr ⟨accepted, _, last, _,
        steps.trans (moreSteps.behindLog logged), traps⟩
  · exact .inr traps

theorem after {reached : Core → Prop} {count : Nat} {middle : Core}
    {logged : List Access}
    (steps : Core.Steps (Access.Stays may) count core [] middle logged)
    (later : Core.Running mayTrap may (fun last _ => reached last) middle) :
    Core.Running mayTrap may (fun last _ => reached last) core :=
  bind (.inl ⟨count, middle, logged, steps, later⟩)

end Core.Running

namespace Guide.Walks

variable {mayTrap : Prop} {guide : Guide Core} {visits : List Visit}
  {core : Core}

theorem finishing (guide : Guide Core) {reached : Core → Prop}
    (walks : Guide.Walks { guide with
      finish := Core.Running mayTrap guide.between fun last _ => reached last }
        (Core.Running mayTrap) visits core) :
    Guide.Walks { guide with finish := reached } (Core.Running mayTrap) visits
      core := by
  induction visits generalizing core with
  | nil => exact Core.Running.bind walks
  | cons visit visits induction =>
      refine Core.Running.mono walks ?_
      rintro first _ ⟨entered, inside⟩
      refine ⟨entered, inside.mono ?_⟩
      rintro next log ⟨covered, later⟩
      exact ⟨covered, induction later⟩

/-- A walk is one run that may touch all that the walk may touch. -/
theorem running {may : Permission}
    (betweens : ∀ write address, guide.between write address →
      may write address)
    (durings : ∀ visit ∈ visits, ∀ write address,
      guide.during visit write address → may write address)
    (walks : guide.Walks (Core.Running mayTrap) visits core) :
    Core.Running mayTrap may (fun last _ => guide.finish last) core := by
  induction visits generalizing core with
  | nil => exact Core.Running.weaken walks betweens
  | cons visit visits induction =>
      apply Core.Running.bind
      apply (Core.Running.weaken walks betweens).mono
      rintro first _ ⟨_, inside⟩
      apply Core.Running.bind
      apply (inside.weaken (durings visit List.mem_cons_self)).mono
      rintro next _ ⟨_, later⟩
      exact induction (fun other isOther =>
        durings other (List.mem_cons_of_mem _ isOther)) later

end Guide.Walks

/-- The machine stands in front of the code that is ahead. -/
def Core.StandsAt (body : Fragment) (bytes : Array UInt8) (entry : UInt32)
    (state : Fragment × Core) (core : Core) : Prop :=
  ∃ front, body = front ++ state.1 ∧ CodeAt state.2.ram entry bytes ∧
    core = state.2.setPc (entry + UInt32.ofNat (4 * Fragment.words front))

/-- The machine follows a run of the body. -/
theorem Leading.running {body exit : Fragment} {bytes : Array UInt8}
    {labels : List (Label × Nat)} (image : Image body exit bytes labels)
    {entry : UInt32} {may : Permission} {mayTrap : Prop}
    (safe : ∀ index < bytes.size, ¬ may true (entry + UInt32.ofNat index))
    {goal : Fragment × Core → List Access → Prop} {state : Fragment × Core}
    {core : Core} (stands : Core.StandsAt body bytes entry state core)
    (leads : Leading body.behind mayTrap may goal state) :
    Core.Running mayTrap may (fun last log => ∃ middle,
      Core.StandsAt body bytes entry middle last ∧ goal middle log) core := by
  obtain ⟨front, isBody, code, rfl⟩ := stands
  rcases Leads.simulate image rfl safe leads front isBody code with
    ⟨count, before, rest, last, logged, isBefore, lastCode, reached, steps⟩ |
    ⟨accepted, count, last, logged, steps, traps⟩
  · exact .inl ⟨count, _, logged, steps, (rest, last),
      ⟨before, isBefore, lastCode, rfl⟩, reached⟩
  · exact .inr ⟨accepted, count, last, logged, steps, traps⟩

theorem Leads.single {setting : Setting} {post : Core → Prop}
    {instruction : Insn} {core : Core} {log : List Access}
    (leads : Leads setting (Reaching [] fun next _ => post next)
      [.insn instruction] core log) :
    instruction.Regular ∧
      (∀ access ∈ instruction.accesses core, access.Stays setting.may) ∧
      ((∃ next, (instruction.effect core).next? core = some next ∧ post next) ∨
        (setting.mayTrap ∧ (instruction.effect core).isTrap = true)) := by
  cases leads with
  | done reached => cases reached.1
  | insn regular inside runs later =>
      cases later with
      | done reached => exact ⟨regular, inside, .inl ⟨_, runs, reached.2⟩⟩
  | trap accepted regular inside traps =>
      exact ⟨regular, inside, .inr ⟨accepted, traps⟩⟩

/-- What the last words of a kernel do: they return, with both pointers restored
unless the halt address is one of the addresses of the code.  Where it is the
first of them, the stack pointer stays below the frame. -/
structure Frame.Returned (frame : Frame) (stack : UInt32) (entry : UInt32)
    (bytes : Array UInt8) (position : Nat) (origin core last : Core) :
    Prop where
  halted : last.pc = Machine.haltAddress
  ram : last.ram = core.ram
  reg : ∀ register, register ∉ [(29 : RegNum), 30] →
    last.reg register = core.reg register
  vector : ∀ register, last.vector register = core.vector register
  restored : Machine.haltAddress ∉ (⟨entry, bytes.size⟩ : Region) →
    last.reg 29 = stack + UInt32.ofNat frame.size ∧ last.reg 30 = origin.reg 30
  early : entry + UInt32.ofNat position = Machine.haltAddress →
    last.reg 29 = stack

section Exit

variable {frame : Frame} {body : Fragment} {bytes : Array UInt8}
  {labels : List (Label × Nat)} (image : Image body frame.exit bytes labels)
  {entry stack : UInt32} {may : Permission} {mayTrap : Prop}
  {origin core : Core}

theorem CodeAt.returns {position : Nat} {allowed : Access → Prop}
    {log : List Access} (code : CodeAt core.ram entry bytes)
    (whole : position % 4 = 0)
    (jumps : (Insn.jr .ra).encode = .ok (Word.ofBytes bytes position))
    (delayed : Insn.nop.encode = .ok (Word.ofBytes bytes (position + 4)))
    (bound : position + 8 ≤ bytes.size)
    (caller : core.reg 31 = Machine.haltAddress) :
    ∃ count last, Core.Steps allowed count
      (core.setPc (entry + UInt32.ofNat position)) log last log ∧
        last.pc = Machine.haltAddress ∧ last.ram = core.ram ∧
      (∀ register, last.reg register = core.reg register) ∧
      ∀ register, last.vector register = core.vector register := by
  by_cases halted : entry + UInt32.ofNat position = Machine.haltAddress
  · exact ⟨0, _, .refl, halted, rfl, fun _ => rfl, fun _ => rfl⟩
  have behind : entry + UInt32.ofNat position + 4 =
      entry + UInt32.ofNat (position + 4) := by
    rw [UInt32.add_assoc, UInt32.ofNat_add]
    rfl
  have firstFetch :=
    CodeAt.fetch (core.setPc (entry + UInt32.ofNat position)) code rfl whole
    (by omega) halted
  have firstDecoded :
      Operation.decode? (Word.ofBytes bytes position) = some (.jump 31) :=
    Insn.decode?_encode (show (Insn.jr .ra).NamedFormat from trivial) jumps
  have jumped :
      (Machine.advance (core.setPc (entry + UInt32.ofNat position))).perform
      (entry + UInt32.ofNat position) (.jump 31) =
        ((core.setPc (entry + UInt32.ofNat (position + 4))).setNpc
          Machine.haltAddress, none) := by
    rw [Core.advance_setPc, behind, ← caller]
    rfl
  have first : Core.Steps allowed 1 (core.setPc (entry + UInt32.ofNat position))
      log _ log :=
    .step firstFetch firstDecoded (fun access isAccess => by cases isAccess)
      jumped .refl
  by_cases delayHalted : entry + UInt32.ofNat (position + 4) =
    Machine.haltAddress
  · exact ⟨1, _, first, delayHalted, rfl, fun _ => rfl, fun _ => rfl⟩
  have secondFetch := CodeAt.fetch
    ((core.setPc (entry + UInt32.ofNat (position + 4))).setNpc
      Machine.haltAddress) code rfl
    (by omega) (by omega) delayHalted
  have secondDecoded : Operation.decode? (Word.ofBytes bytes (position + 4)) =
      some (.shift .sll 0 0 0) :=
    Insn.decode?_encode (show Insn.nop.NamedFormat from trivial) delayed
  have second : Core.Steps allowed 1
      ((core.setPc (entry + UInt32.ofNat (position + 4))).setNpc
        Machine.haltAddress) log _ log :=
    .step secondFetch secondDecoded (fun access isAccess => by cases isAccess)
      rfl .refl
  exact ⟨2, _, first.trans second, rfl, rfl, fun _ => rfl, fun _ => rfl⟩

include image in
theorem Frame.exit_words :
    (Insn.mem .lw .fp .sp Frame.fpSlot).encode =
      .ok (Word.ofBytes bytes (4 * body.words)) ∧
      (Insn.signedImm .addiu .sp .sp frame.size).encode =
        .ok (Word.ofBytes bytes (4 * body.words + 4)) ∧
      (Insn.jr .ra).encode = .ok (Word.ofBytes bytes (4 * body.words + 8)) ∧
      Insn.nop.encode = .ok (Word.ofBytes bytes (4 * body.words + 12)) ∧
      4 * body.words + 16 ≤ bytes.size := by
  have word : ∀ (front rest : Fragment) (instruction : Insn),
      frame.exit = front ++ .insn instruction :: rest →
      instruction.encode =
        .ok (Word.ofBytes bytes (4 * body.words + 4 * front.words)) ∧
        4 * body.words + 4 * front.words + 4 ≤ bytes.size := by
    intro front rest instruction isExit
    have isCode : body ++ frame.exit = (body ++ front) ++
        .insn instruction :: rest := by
      rw [isExit, List.append_assoc]
    obtain ⟨encoded, bound⟩ := image.placed.insn_word isCode
    rw [Fragment.words_append, Nat.mul_add] at encoded bound
    exact ⟨encoded, by omega⟩
  have loads := word [] _ _ rfl
  have moves := word [_] _ _ rfl
  have jumps := word [_, _] _ _ rfl
  have delayed := word [_, _, _] _ _ rfl
  exact ⟨loads.1, moves.1, jumps.1, delayed.1, delayed.2⟩

/-- The machine halts in front of a word of code or goes on behind it. -/
theorem CodeAt.performs {instruction : Insn} {position : Nat}
    {reached : Core → Prop} (code : CodeAt core.ram entry bytes) (next : Core)
    (encoded : instruction.encode = .ok (Word.ofBytes bytes position))
    (whole : position % 4 = 0) (bound : position + 4 ≤ bytes.size)
    (leads : Leads ⟨fun _ => [], may, mayTrap⟩
      (Reaching [] fun last _ => last = next) [.insn instruction] core [])
    (halts : entry + UInt32.ofNat position = Machine.haltAddress →
      reached (core.setPc (entry + UInt32.ofNat position)))
    (continues : entry + UInt32.ofNat position ≠ Machine.haltAddress →
      Core.Running mayTrap may (fun last _ => reached last)
        (next.setPc (entry + UInt32.ofNat (position + 4)))) :
    Core.Running mayTrap may (fun last _ => reached last)
      (core.setPc (entry + UInt32.ofNat position)) := by
  by_cases halted : entry + UInt32.ofNat position = Machine.haltAddress
  · exact .inl ⟨0, _, [], .refl, halts halted⟩
  obtain ⟨regular, inside, ⟨_, runs, rfl⟩ | ⟨accepted, traps⟩⟩ := leads.single
  · exact Core.Running.after
      (code.step regular encoded whole bound halted inside runs)
      (continues halted)
  · exact .inr ⟨accepted, 0, _, [], .refl,
      code.trap regular encoded whole bound halted inside traps⟩

include image in
/-- The exit restores both pointers and returns. -/
theorem Frame.exit_running (code : CodeAt core.ram entry bytes)
    (isStack : core.reg 29 = stack) (caller : core.reg 31 = Machine.haltAddress)
    (held : Slot.HeldAt ⟨0, .fp⟩ stack origin core.ram)
    (reads : ∀ address ∈ (⟨stack, 4⟩ : Region), may false address)
    (served : mayTrap ∨ stack.toNat % 4 = 0 ∧ core.ram.Serves ⟨stack, 4⟩) :
    Core.Running mayTrap may (fun last _ =>
      frame.Returned stack entry bytes (4 * body.words) origin core last)
      (core.setPc (entry + UInt32.ofNat (4 * body.words))) := by
  obtain ⟨loadWord, moveWord, jumpWord, delayWord, bound⟩ :=
    Frame.exit_words image
  have whole : 4 * body.words % 4 = 0 := by omega
  generalize 4 * body.words = position at *
  have inCode : ∀ place < bytes.size,
      entry + UInt32.ofNat place = Machine.haltAddress →
      Machine.haltAddress ∈ (⟨entry, bytes.size⟩ : Region) :=
    fun place below isHalt => isHalt ▸ Region.mem_of_lt below
  -- The frame pointer is loaded.
  apply code.performs (core.setReg 30 (origin.reg 30)) loadWord whole (by omega)
  · apply Leads.lw stack _ code.small reads served
    · intro _ _ _
      have isWord := held.word rfl
      rw [show UInt32.ofNat 0 = 0 from rfl, UInt32.add_zero] at isWord
      refine .done ⟨rfl, ?_⟩
      rw [isWord]
      rfl
    · rw [show Reg.sp.index = 29 from rfl, isStack]
      exact UInt32.add_zero _
  · exact fun halted => ⟨halted, rfl, fun _ _ => rfl, fun _ => rfl,
      fun outside => absurd (inCode _ (by omega) halted) outside,
      fun _ => isStack⟩
  intro running
  have secondCode :
      CodeAt (core.setReg 30 (origin.reg 30)).ram entry bytes := by
    rw [Core.ram_setReg]
    exact code
  -- The stack pointer moves back.
  apply secondCode.performs ((core.setReg 30 (origin.reg 30)).setReg 29
    (stack + UInt32.ofNat frame.size)) moveWord (by omega) (by omega)
  · apply Leads.addiu
    refine .done ⟨rfl, ?_⟩
    rw [show Reg.sp.index = 29 from rfl, Core.distance_natCast,
      Core.reg_setReg_other _ _ _ _ (by decide), isStack]
  · exact fun halted => ⟨halted, Core.ram_setReg .., fun register other =>
      Core.reg_setReg_other _ _ _ _ (by simp_all), fun register =>
        Core.vector_setReg ..,
      fun outside => absurd (inCode _ (by omega) halted) outside,
      fun first => absurd first running⟩
  intro _
  have thirdCode : CodeAt ((core.setReg 30 (origin.reg 30)).setReg 29
      (stack + UInt32.ofNat frame.size)).ram entry bytes := by
    rw [Core.ram_setReg]
    exact secondCode
  have stillCaller : ((core.setReg 30 (origin.reg 30)).setReg 29
      (stack + UInt32.ofNat frame.size)).reg 31 = Machine.haltAddress := by
    rw [Core.reg_setReg_other _ _ _ _ (by decide),
      Core.reg_setReg_other _ _ _ _ (by decide)]
    exact caller
  obtain ⟨count, last, steps, isHalted, sameRam, sameReg, sameVector⟩ :=
    thirdCode.returns (by omega) jumpWord delayWord (by omega) stillCaller
  refine .inl ⟨count, last, [], steps, isHalted, ?_, ?_, ?_, ?_,
    fun first => absurd first running⟩
  · rw [sameRam, Core.ram_setReg, Core.ram_setReg]
  · intro register other
    simp only [List.mem_cons, List.not_mem_nil, or_false, not_or] at other
    rw [sameReg, Core.reg_setReg_other _ _ _ _ other.1,
      Core.reg_setReg_other _ _ _ _ other.2]
  · intro register
    rw [sameVector, Core.vector_setReg, Core.vector_setReg]
  · intro _
    rw [sameReg, sameReg, Core.reg_setReg_same _ _ _ (by decide),
      Core.reg_setReg_other _ _ _ _ (by decide),
      Core.reg_setReg_same _ _ _ (by decide)]
    exact ⟨rfl, rfl⟩

end Exit

namespace Tour

variable (tour : Tour)

/-- The walk of the machine through a kernel. -/
def machineGuide (finish : Core → Prop) : Guide Core where
  between := tour.around
  during visit write address := tour.around write address ∨
    ∃ touch, tour.Touches touch ∧ touch.write = write ∧
      address ∈ tour.region visit touch
  enter visit core := visit.start = 0 → ∀ entry ∈ tour.plan.pointers,
    core.reg entry.2.index = tour.rowStart entry.1 visit.row
  covers visit log := ∀ touch, tour.Touches touch →
    Touched log touch.write (tour.region visit touch)
  finish := finish

/-- What a kernel leaves when the machine halts. -/
structure Ended (entry : UInt32) (bytes : Array UInt8) (position : Nat)
    (origin last : Core) :
    Prop where
  halted : last.pc = Machine.haltAddress
  general : ∀ number : RegNum, 16 ≤ number.val ∧ number.val ≤ 23 →
    last.reg number = origin.reg number
  vector : ∀ number : RegNum, 20 ≤ number.val ∧ number.val ≤ 30 →
    last.vector number = origin.vector number
  restored : Machine.haltAddress ∉ (⟨entry, bytes.size⟩ : Region) →
    last.reg 29 = origin.reg 29 ∧ last.reg 30 = origin.reg 30
  early : entry + UInt32.ofNat position = Machine.haltAddress →
    last.reg 29 = tour.stack
  kept : Ram.Kept tour.footprint origin.ram last.ram

end Tour

section Machine

variable {tour : Tour} {program : Program} {options : CompileOptions}
  (planned : Planned program options tour.plan tour.body) {mayTrap : Prop}
  {origin core : Core} (entered : tour.Entered mayTrap origin)
  {whole : Nat → Nat → Core → Prop} {data : Ram → Prop}
  {preparing : List (Opcode × Instruction) → Core → Prop}
  {part : Visit → List (Opcode × Instruction) → Core → Prop} {entry : UInt32}
  {bytes : Array UInt8} {labels : List (Label × Nat)} {body : Fragment}
  (image : Image body tour.plan.frame.exit bytes labels)

include planned entered image in
/-- Behind the body of a kernel the machine returns. -/
theorem Tour.Finished.running (finished : tour.Finished origin core)
    (caller : origin.reg 31 = Machine.haltAddress)
    (code : CodeAt core.ram entry bytes) (holds : data core.ram) :
    Core.Running mayTrap tour.around (fun last _ =>
      tour.Ended entry bytes (4 * body.words) origin last ∧ data last.ram)
      (core.setPc (entry + UInt32.ofNat (4 * body.words))) := by
  have large : 0 + 4 ≤ tour.plan.frame.size :=
    Nat.le_trans (by decide) planned.frame_sound.large
  have atStack : tour.stack + UInt32.ofNat 0 = tour.stack := UInt32.add_zero _
  have inFrame :
      ∀ address ∈ (⟨tour.stack, 4⟩ : Region), tour.around false address := by
    intro address inWord
    rw [← atStack] at inWord
    exact .inr (Region.mem_of_part inWord large)
  have served : mayTrap ∨ tour.stack.toNat % 4 = 0 ∧
      core.ram.Serves ⟨tour.stack, 4⟩ := by
    refine entered.frameServed.imp_right fun ⟨aligned, serves⟩ => ⟨aligned, ?_⟩
    have part := finished.kept.serves (serves.part large)
    rwa [atStack] at part
  apply (Frame.exit_running image code finished.isStack
    (finished.caller.trans caller) finished.framePointer inFrame served).mono
  intro last _ returned
  refine ⟨⟨returned.halted, ?_, ?_, ?_, returned.early, ?_⟩,
    returned.ram ▸ holds⟩
  · intro number bounds
    have other : ∀ register : RegNum, 16 ≤ register.val ∧ register.val ≤ 23 →
        register ∉ [(29 : RegNum), 30] := by decide
    rw [returned.reg number (other number bounds)]
    exact finished.general number bounds
  · intro number bounds
    rw [returned.vector]
    exact finished.vector number bounds
  · intro outside
    rw [entered.isStack]
    exact returned.restored outside
  · rw [returned.ram]
    exact finished.kept

include planned entered in
/-- A kernel in memory visits the chunks of all rows and comes back to its
caller. -/
theorem Tour.machine_walks {unroll : Nat} {fragment : Fragment}
    (few : unroll ≤ 2)
    (plain : ∀ entry ∈ tour.preparations, entry.1.kind = .loadParam)
    (params : ∀ index, (tour.plan.program.var index).role = .param →
      (0 : Int) ≤ index ∧ index + 8 < (64 : Int))
    (prepares : tour.Prepares origin whole preparing)
    (code : KernelCode tour.plan unroll fragment)
    (carries : tour.Carries whole part)
    (settles : ∀ core, whole tour.rows 0 core → data core.ram)
    (placed : Placed fragment bytes labels)
    (codeAt : CodeAt origin.ram entry bytes)
    (safe : ∀ address ∈ (⟨entry, bytes.size⟩ : Region),
      ¬ tour.footprint true address)
    (caller : origin.reg 31 = Machine.haltAddress) :
    (tour.machineGuide fun last =>
      tour.Ended entry bytes (4 * code.body.words) origin last ∧
        data last.ram).Walks
      (Core.Running mayTrap) tour.visits (origin.setPc entry) := by
  have image : Image code.body tour.plan.frame.exit bytes labels := by
    refine ⟨?_, Nat.le_refl 4, rfl⟩
    rw [code.body_append planned.frame_sound]
    exact placed
  have walks := Tour.kernel_walks planned entered plain params prepares few code
    image.resolves carries settles
  have stands : Core.StandsAt code.body bytes entry (code.body, origin)
      (origin.setPc entry) :=
    ⟨[], rfl, codeAt, congrArg origin.setPc (UInt32.add_zero entry).symm⟩
  apply Guide.Walks.finishing (tour.machineGuide fun _ => True)
  refine Guide.Walks.follow (fun may goal further state running => running.mono)
    ?_ ?_ ?_ ?_ ?_ stands walks
  · intro goal state core isAt run
    exact Leading.running image
      (fun index below touched =>
        safe _ (Region.mem_of_lt below) (.inl touched)) isAt run
  · intro visit isVisit goal state core isAt run
    refine Leading.running image
      (fun index below touched => safe _ (Region.mem_of_lt below) ?_) isAt run
    exact touched.imp_right fun inside => ⟨visit, isVisit, inside⟩
  · rintro visit ⟨ahead, core⟩ _ ⟨front, _, _, rfl⟩ isEntered
    exact isEntered
  · exact fun visit log covered => covered
  · rintro ⟨ahead, core⟩ _ ⟨front, isBody, coreCode, rfl⟩
      ⟨isEnd, finished, holds⟩
    obtain rfl : ahead = [] := isEnd
    rw [List.append_nil] at isBody
    subst isBody
    exact finished.running planned entered image caller coreCode holds

end Machine

end LaneKernel
