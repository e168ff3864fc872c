import LaneKernel.Proofs.LoweringMeaning

/-!
# Accesses of lowered code

Lowered code has five forms: arrays and scalars are read into temporaries,
temporaries are combined into temporaries and stored to arrays.  It reads and
writes the elements that the program reads and writes, no more and no less.
-/

namespace LaneKernel

namespace Lowering

variable {program : Program} {state middle next : Lowering}
  {instruction : Instruction} {opcode : Opcode} {index temp : VarIndex}
  {size lanes width : Nat}

/-- The form of an instruction that was made for an instruction of the
program. -/
def Form (program : Program) (instruction : Instruction) (opcode : Opcode)
    (out : Program) (made : Instruction) (kind : Opcode) : Prop :=
  match kind.kind with
  | .load => (out.var made.target).role = .temp ∧ opcode.kind ≠ .loadOffset ∧
      ∃ source ∈ instruction.src, (program.var source).role = .source ∧
        made.src = [source]
  | .loadOffset =>
      (out.var made.target).role = .temp ∧ opcode.kind = .loadOffset ∧
      made.src = instruction.src
  | .loadParam => (out.var made.target).role = .temp
  | .store =>
      made.target = instruction.target ∧
        (program.var instruction.target).role = .dest ∧
      ∃ temp, made.src = [temp] ∧ (out.var temp).role = .temp
  | .arith _ => (out.var made.target).role = .temp ∧
      ∀ index ∈ made.src, (out.var index).role = .temp

/-- An instruction with an opcode has one of the forms. -/
def Made (program : Program) (instruction : Instruction) (opcode : Opcode)
    (out : Program) (made : Instruction) : Prop :=
  ∃ kind, Opcode.lookup? made.opcode = some kind ∧
    Form program instruction opcode out made kind

theorem role_extended {first second : Program}
    (isExtended : first.Extends second)
    (isTemp : (first.var index).role = .temp) :
    (second.var index).role = .temp := by
  rw [isExtended.var index
    (Program.declared_eq_true.mpr (by rw [isTemp]; decide))]
  exact isTemp

theorem Made.extended {made : Instruction} {first second : Program}
    (isExtended : first.Extends second)
    (isMade : Made program instruction opcode first made) :
    Made program instruction opcode second made := by
  obtain ⟨⟨kind, size⟩, found, form⟩ := isMade
  refine ⟨_, found, ?_⟩
  cases kind with
  | load => exact ⟨role_extended isExtended form.1, form.2⟩
  | loadOffset => exact ⟨role_extended isExtended form.1, form.2⟩
  | loadParam => exact role_extended isExtended form
  | store =>
      obtain ⟨isTarget, isDest, temp, isSource, isTemp⟩ := form
      exact ⟨isTarget, isDest, temp, isSource, role_extended isExtended isTemp⟩
  | arith op =>
      exact ⟨role_extended isExtended form.1,
        fun index isIndex => role_extended isExtended (form.2 index isIndex)⟩

theorem Made.marked (code : List Instruction) {made : Instruction}
    {out : Program} (isMade : Made program instruction opcode out made) :
    Made program instruction opcode out (Program.mark code made) := by
  obtain ⟨⟨kind, size⟩, found, form⟩ := isMade
  refine ⟨_, by rw [Program.mark_opcode]; exact found, ?_⟩
  unfold Form at form ⊢
  rw [Program.mark_target, Program.mark_src]
  exact form

/-- All that is appended on the way from one state to another was made for an
instruction. -/
def Makes (program : Program) (instruction : Instruction) (opcode : Opcode)
    (state next : Lowering) : Prop :=
  ∃ emitted, Grows state next emitted ∧
    ∀ made ∈ emitted, Made program instruction opcode next.out made

namespace Makes

theorem refl (state : Lowering) :
    Makes program instruction opcode state state :=
  ⟨[], .refl state, by simp⟩

theorem trans (front : Makes program instruction opcode state middle)
    (behind : Makes program instruction opcode middle next) :
    Makes program instruction opcode state next := by
  obtain ⟨emitted, grows, areMade⟩ := front
  obtain ⟨more, growsMore, areMore⟩ := behind
  refine ⟨emitted ++ more, grows.trans growsMore, fun made isMade => ?_⟩
  rcases List.mem_append.mp isMade with isEarlier | isLater
  · exact (areMade made isEarlier).extended growsMore.isExtended
  · exact areMore made isLater

theorem single {made : Instruction} (grows : Grows state next [made])
    (isMade : Made program instruction opcode next.out made) :
    Makes program instruction opcode state next :=
  ⟨[made], grows, fun _ isOther => List.mem_singleton.mp isOther ▸ isMade⟩

theorem withTemp (free : state.Free temp) (width : Nat) :
    Makes program instruction opcode state (state.withTemp temp width) :=
  ⟨[], .withTemp free width, by simp⟩

end Makes

section Instruction

variable (isSound : Sound program state)
  (checked : program.Checked instruction opcode)

include isSound checked

theorem Operand.makes (notOffset : opcode.kind ≠ .loadOffset)
    (isSource : index ∈ instruction.src)
    (operand : Operand program opcode.size instruction.lanes state index
      temp next) :
    Makes program instruction opcode state next := by
  have isLanes := instruction.lanes_cases
  cases operand with
  | temp _ | loaded _ _ | filled _ _ => exact .refl state
  | load isArray _ free =>
      exact .single (.withLoad free index _)
        ⟨_, Opcode.lookup?_load checked.valid,
          (isSound.fresh free checked.valid).role, notOffset, index, isSource,
          isArray, rfl⟩
  | broadcast _ _ free =>
      exact .single (.withBroadcast free index _ _) ⟨_,
        Opcode.lookup?_loadParam
          (Lane.validSize_of_width isLanes checked.valid),
        (isSound.fresh free checked.valid).role⟩

theorem Operands.makes {indices temps : List VarIndex}
    (notOffset : opcode.kind ≠ .loadOffset) (place : Nat)
    (areSources : ∀ index ∈ indices, index ∈ instruction.src)
    (readable : ∀ number index, indices[number]? = some index →
      program.Readable opcode (opcode.size * instruction.lanes)
        (place + number) index)
    (operands : Operands program opcode.size instruction.lanes state indices
      temps next) :
    Makes program instruction opcode state next := by
  induction operands generalizing place with
  | nil => exact .refl _
  | @cons state middle next index temp rest temps first _ induction =>
      refine (first.makes isSound checked notOffset
        (areSources index List.mem_cons_self)).trans
          (induction (first.sound isSound checked.valid (readable 0 index rfl))
          (place + 1) (fun other isOther =>
            areSources other (List.mem_cons_of_mem _ isOther)) ?_)
      intro number other isOther
      rw [Nat.add_assoc, Nat.add_comm 1]
      exact readable (number + 1) other
        (by rw [List.getElem?_cons_succ]; exact isOther)

/-- The operation of an instruction writes a temporary; if the target is an
array, a store follows. -/
theorem Result.makes {src : List VarIndex}
    (main : ∀ out target, state.out.Extends out →
      (out.var target).role = .temp →
      Made program instruction opcode out ⟨instruction.opcode,
        instruction.flags, [target], src⟩)
    (result : Result program instruction (opcode.size * instruction.lanes) src
      state next) :
    Makes program instruction opcode state next := by
  cases result with
  | temp isTemp =>
      exact .single (.emit _ _ _ _) (main _ _ ⟨fun _ _ => rfl, rfl⟩
        (role_extended (isSound.emit _ _ _ _).isExtended isTemp))
  | @array temp isDest free =>
      have fresh := isSound.fresh free checked.valid
      have isExtended : state.out.Extends
          (state.withTemp temp (opcode.size * instruction.lanes)).out :=
        free.isExtended
      refine (Makes.withTemp free (opcode.size * instruction.lanes)).trans
        (.trans (.single (.emit _ _ _ _)
          (main _ _ ⟨isExtended.var, isExtended.twoD⟩ fresh.role))
            (.single (.emit _ _ _ _) ⟨_, Opcode.lookup?_store checked.valid,
            rfl, isDest, temp, rfl, fresh.role⟩))

theorem Lowers.makes (lowers : Lowers program instruction opcode state next) :
    Makes program instruction opcode state next := by
  have isFirst := checked.first
  cases lowers with
  | move isMove result =>
      refine result.makes isSound checked fun out target isExtended isTemp =>
        ⟨opcode, checked.found, ?_⟩
      unfold Form
      cases isKind : opcode.kind with
      | load =>
          exact ⟨isTemp, by simp, instruction.firstSource,
            List.mem_of_getElem? isFirst, checked.source_of_load (.inl isKind),
            checked.single (by rw [Opcode.sources, isKind])⟩
      | loadOffset => exact ⟨isTemp, rfl, rfl⟩
      | loadParam => exact isTemp
      | store | arith op => simp [Opcode.isLoad, isKind] at isMove
  | @store middle temp isStore operand =>
      have notOffset : opcode.kind ≠ .loadOffset := by
        rw [isStore]
        decide
      have isDest := checked.dest_of_store isStore
      have isTemp :=
        operand.role isSound checked.valid (checked.readable 0 _ isFirst)
      refine (operand.makes isSound checked notOffset
        (List.mem_of_getElem? isFirst)).trans
          (.single (.emit _ _ _ _) ⟨opcode, checked.found, ?_⟩)
      unfold Form
      rw [isStore]
      exact ⟨rfl, isDest, temp, rfl, isTemp⟩
  | @arith middle _ op temps isArith operands result =>
      have notOffset : opcode.kind ≠ .loadOffset := by
        rw [isArith]
        simp
      obtain ⟨_, areTemps⟩ :=
        operands.roles 0 isSound checked.valid checked.readableFrom
      refine (operands.makes isSound checked notOffset 0
        (fun _ isIndex => isIndex) checked.readableFrom).trans
        (result.makes (operands.sound isSound 0 checked.valid
          checked.readableFrom) checked fun out target isExtended isTemp =>
            ⟨opcode, checked.found, ?_⟩)
      unfold Form
      rw [isArith]
      exact ⟨isTemp,
        fun index isIndex => role_extended isExtended (areTemps index isIndex)⟩

end Instruction

/-- Every instruction of lowered code was made for an instruction of the
program. -/
theorem Chain.made {code : List Instruction} (isSound : Sound program state)
    (chain : Chain program state code next) :
    ∃ emitted, Grows state next emitted ∧
      ∀ made ∈ emitted, ∃ instruction ∈ code, ∃ opcode,
      program.Checked instruction opcode ∧
        Made program instruction opcode next.out made := by
  induction chain with
  | nil => exact ⟨[], .refl _, by simp⟩
  | @cons state middle next instruction rest opcode checked lowers _
      induction =>
      obtain ⟨emitted, grows, areMade⟩ := lowers.makes isSound checked
      obtain ⟨more, growsMore, areMore⟩ :=
        induction (lowers.sound isSound checked)
      refine ⟨emitted ++ more, grows.trans growsMore, fun made isMade => ?_⟩
      rcases List.mem_append.mp isMade with isEarlier | isLater
      · exact ⟨instruction, List.mem_cons_self, opcode, checked,
          (areMade made isEarlier).extended growsMore.isExtended⟩
      · obtain ⟨other, isOther, kind, checkedOther, form⟩ :=
          areMore made isLater
        exact ⟨other, List.mem_cons_of_mem _ isOther, kind, checkedOther, form⟩

/-- The code so far has an instruction of a kind. -/
def Has (state : Lowering) (kind : OpKind) (test : Instruction → Prop) : Prop :=
  ∃ made ∈ state.out.code.toList, ∃ size,
    Opcode.lookup? made.opcode = some ⟨kind, size⟩ ∧ test made

theorem Has.grow {kind : OpKind} {test : Instruction → Prop}
    {emitted : List Instruction} (has : state.Has kind test)
    (grows : Grows state next emitted) : next.Has kind test := by
  obtain ⟨made, isMade, found⟩ := has
  refine ⟨made, ?_, found⟩
  rw [grows.code]
  exact List.mem_append_left _ isMade

theorem has_emit {kind : OpKind} {test : Instruction → Prop} {name : String}
    {flags : UInt8} {dest : VarIndex} {src : List VarIndex}
    (found : Opcode.lookup? name = some ⟨kind, size⟩)
    (holds : test ⟨name, flags, [dest], src⟩) :
    (state.emit name flags dest src).Has kind test := by
  refine ⟨⟨name, flags, [dest], src⟩, ?_, size, found, holds⟩
  rw [emit_code]
  exact List.mem_append_right _ List.mem_cons_self

/-- The code so far loads an array. -/
def Loads (state : Lowering) (index : VarIndex) : Prop :=
  state.Has .load fun made => made.src = [index]

/-- What is kept of arrays was loaded. -/
def KeepsLoads (state : Lowering) : Prop :=
  ∀ index temp, (index, temp) ∈ state.loaded → state.Loads index

/-- The code so far does all accesses of an instruction. -/
structure Accesses (program : Program) (instruction : Instruction)
    (opcode : Opcode) (state : Lowering) : Prop where
  loads : opcode.kind ≠ .loadOffset → ∀ source ∈ instruction.src,
    (program.var source).role = .source → state.Loads source
  offsets : opcode.kind = .loadOffset → state.Has .loadOffset fun made =>
    made.src = instruction.src
  stores : (program.var instruction.target).role = .dest →
    state.Has .store fun made => made.target = instruction.target

theorem Accesses.grow {emitted : List Instruction}
    (accesses : Accesses program instruction opcode state)
    (grows : Grows state next emitted) :
    Accesses program instruction opcode next :=
  ⟨fun notOffset source isSource isArray =>
      (accesses.loads notOffset source isSource isArray).grow grows,
    fun isOffset => (accesses.offsets isOffset).grow grows,
    fun isDest => (accesses.stores isDest).grow grows⟩

section Complete

variable (keeps : state.KeepsLoads)
  (checked : program.Checked instruction opcode)

include keeps checked

theorem Operand.loads
    (operand : Operand program opcode.size instruction.lanes state index
      temp next) :
    next.KeepsLoads ∧
      ((program.var index).role = .source → next.Loads index) := by
  cases operand with
  | temp isTemp =>
      refine ⟨keeps, fun isSource => ?_⟩
      rw [isTemp] at isSource
      cases isSource
  | loaded _ isLoaded => exact ⟨keeps, fun _ => keeps index temp isLoaded⟩
  | load isArray _ free =>
      have grows := Grows.withLoad free index (opcode.size * instruction.lanes)
      have loads : (state.withLoad index temp
          (opcode.size * instruction.lanes)).Loads index :=
        has_emit (Opcode.lookup?_load checked.valid) rfl
      refine ⟨fun other kept isKept => ?_, fun _ => loads⟩
      rcases List.mem_cons.mp isKept with isNew | isEarlier
      · cases isNew
        exact loads
      · exact (keeps other kept isEarlier).grow grows
  | filled isScalar _ =>
      refine ⟨keeps, fun isSource => ?_⟩
      rw [isSource] at isScalar
      cases isScalar
  | broadcast isScalar _ free =>
      have grows := Grows.withBroadcast free index opcode.size instruction.lanes
      refine ⟨fun other kept isKept => (keeps other kept isKept).grow grows,
        fun isSource => ?_⟩
      rw [isSource] at isScalar
      cases isScalar

theorem Operands.loads {indices temps : List VarIndex}
    (operands : Operands program opcode.size instruction.lanes state indices
      temps next) :
    next.KeepsLoads ∧
      ∀ index ∈ indices, (program.var index).role = .source →
        next.Loads index := by
  induction operands with
  | nil => exact ⟨keeps, by simp⟩
  | @cons state middle next index temp rest temps first later induction =>
      obtain ⟨middleKeeps, loadsFirst⟩ := first.loads keeps checked
      obtain ⟨nextKeeps, loadsRest⟩ := induction middleKeeps
      obtain ⟨emitted, grows, _⟩ := later.grows
      refine ⟨nextKeeps, fun other isOther isSource => ?_⟩
      rcases List.mem_cons.mp isOther with rfl | isLater
      · exact (loadsFirst isSource).grow grows
      · exact loadsRest other isLater isSource

omit keeps in
theorem Result.stores {src : List VarIndex}
    (result : Result program instruction (opcode.size * instruction.lanes) src
      state next) :
    next.loaded = state.loaded ∧ (∃ emitted, Grows state next emitted) ∧
      (next.Has opcode.kind fun made => made.src = src) ∧
      ((program.var instruction.target).role = .dest →
        next.Has .store fun made => made.target = instruction.target) := by
  cases result with
  | temp isTemp =>
      refine ⟨rfl, ⟨_, .emit _ _ _ _⟩, has_emit checked.found rfl,
        fun isDest => ?_⟩
      rw [isTemp] at isDest
      cases isDest
  | array _ free =>
      refine ⟨rfl, ⟨_,
        (((Grows.withTemp free _).trans (.emit _ _ _ _)).trans
        (.emit _ _ _ _))⟩, ?_,
          fun _ => has_emit (Opcode.lookup?_store checked.valid) rfl⟩
      refine Has.grow ?_ (.emit _ _ _ _)
      exact has_emit checked.found rfl

theorem Lowers.accesses
    (lowers : Lowers program instruction opcode state next) :
    next.KeepsLoads ∧ Accesses program instruction opcode next := by
  cases lowers with
  | move isMove result =>
      obtain ⟨sameLoaded, ⟨emitted, grows⟩, has, stores⟩ :=
        result.stores checked
      refine ⟨fun index temp isLoaded =>
        (keeps index temp (sameLoaded ▸ isLoaded)).grow grows, ?_,
        fun isOffset => isOffset ▸ has, stores⟩
      intro notOffset source isSource isArray
      cases isKind : opcode.kind with
      | load =>
          rw [checked.single (by rw [Opcode.sources, isKind])] at isSource has
          rw [isKind] at has
          rw [List.mem_singleton.mp isSource]
          exact has
      | loadParam =>
          have isScalar := checked.scalar_of_loadParam isKind
          rw [checked.single (by rw [Opcode.sources, isKind]),
            List.mem_singleton] at isSource
          rw [← isSource, isArray] at isScalar
          cases isScalar
      | loadOffset => exact absurd isKind notOffset
      | store | arith op => simp [Opcode.isLoad, isKind] at isMove
  | @store middle temp isStore operand =>
      obtain ⟨middleKeeps, loads⟩ := operand.loads keeps checked
      have grows : Grows middle _ _ :=
        .emit instruction.opcode instruction.flags instruction.target [temp]
      have found := checked.found
      rw [show opcode = ⟨.store, opcode.size⟩ by rw [← isStore]] at found
      refine ⟨fun index kept isKept =>
        (middleKeeps index kept isKept).grow grows, ?_, ?_,
        fun _ => has_emit found rfl⟩
      · intro _ source isSource isArray
        rw [checked.single (by rw [Opcode.sources, isStore]),
          List.mem_singleton] at isSource
        rw [isSource] at isArray ⊢
        exact (loads isArray).grow grows
      · intro isOffset
        rw [isStore] at isOffset
        cases isOffset
  | arith isArith operands result =>
      obtain ⟨middleKeeps, loads⟩ := operands.loads keeps checked
      obtain ⟨sameLoaded, ⟨emitted, grows⟩, _, stores⟩ := result.stores checked
      refine ⟨fun index kept isKept =>
        (middleKeeps index kept (sameLoaded ▸ isKept)).grow grows,
        ?_, ?_, stores⟩
      · exact fun _ source isSource isArray =>
          (loads source isSource isArray).grow grows
      · intro isOffset
        rw [isArith] at isOffset
        cases isOffset

end Complete

/-- Lowered code does all accesses of the program. -/
theorem Chain.accesses {code : List Instruction}
    (chain : Chain program state code next) (keeps : state.KeepsLoads) :
    ∀ instruction ∈ code, ∃ opcode, program.Checked instruction opcode ∧
      Accesses program instruction opcode next := by
  induction chain with
  | nil => simp
  | @cons state middle next instruction rest opcode checked lowers later
      induction =>
      obtain ⟨middleKeeps, accesses⟩ := lowers.accesses keeps checked
      obtain ⟨emitted, grows⟩ := later.grows
      intro other isOther
      rcases List.mem_cons.mp isOther with rfl | isLater
      · exact ⟨opcode, checked, accesses.grow grows⟩
      · exact induction middleKeeps other isLater

end Lowering

namespace Program

variable {program lowered : Program} (isLowered : program.lower = .ok lowered)

/-- An entry of lowered code has one of the five forms. -/
structure Flat (program : Program) (entry : Opcode × Instruction) : Prop where
  checked : program.Checked entry.2 entry.1
  target : entry.1.kind ≠ .store → (program.var entry.2.target).role = .temp
  store : entry.1.kind = .store → (program.var entry.2.target).role = .dest ∧
    (program.var entry.2.firstSource).role = .temp
  sources : ∀ op, entry.1.kind = .arith op → ∀ index ∈ entry.2.src,
    (program.var index).role = .temp

include isLowered

theorem form_of_mem {entry : Opcode × Instruction}
    (isEntry : entry ∈ Reference.resolveCode lowered) :
    ∃ instruction ∈ program.code.toList, ∃ opcode,
      program.Checked instruction opcode ∧
        Lowering.Form program instruction opcode lowered entry.2 entry.1 := by
  obtain ⟨found, _, inCode⟩ := Reference.opcode_of_mem isEntry
  obtain ⟨_, state, chain, rfl⟩ := lower_eq_ok isLowered
  obtain ⟨emitted, grows, areMade⟩ := chain.made (.start program)
  have isCode : state.out.code.toList = emitted := by
    rw [grows.code]
    rfl
  rw [List.toList_toArray, markInvariants_eq, isCode] at inCode
  obtain ⟨made, isMade, isMarked⟩ := List.mem_map.mp inCode
  obtain ⟨instruction, isInstruction, opcode, checked, form⟩ :=
    areMade made isMade
  obtain ⟨kind, foundMarked, formMarked⟩ := form.marked emitted
  rw [isMarked] at foundMarked formMarked
  cases found.symm.trans foundMarked
  exact ⟨instruction, isInstruction, opcode, checked, formMarked⟩

theorem flat_of_mem {entry : Opcode × Instruction}
    (isEntry : entry ∈ Reference.resolveCode lowered) : lowered.Flat entry := by
  obtain ⟨found, _, inCode⟩ := Reference.opcode_of_mem isEntry
  obtain ⟨opcode, checked⟩ :=
    (validate_eq_ok.mp (validate_lower isLowered)).2.checked inCode
  cases found.symm.trans checked.found
  obtain ⟨instruction, _, _, _, form⟩ := form_of_mem isLowered isEntry
  have isExtended := Reference.extends_lower isLowered
  obtain ⟨⟨kind, size⟩, made⟩ := entry
  refine ⟨checked, fun notStore => ?_, fun isStore => ?_, fun op isArith => ?_⟩
  · cases kind with
    | load | loadOffset | arith op => exact form.1
    | loadParam => exact form
    | store => exact absurd rfl notStore
  · cases isStore
    obtain ⟨_, _, temp, isSource, isTemp⟩ := form
    refine ⟨checked.moves, ?_⟩
    have isFirst := checked.first
    rw [isSource] at isFirst
    rw [← Option.some.inj isFirst]
    exact isTemp
  · cases isArith
    exact form.2

theorem kind_of_marked (unmarked : program.Unmarked)
    {entry : Opcode × Instruction}
    (inCode : entry ∈ Reference.resolveCode lowered)
    (isMarked : entry.2.invariant = true) : entry.1.kind = .loadParam := by
  obtain ⟨found, _, isInstruction⟩ := Reference.opcode_of_mem inCode
  have isBroadcast :=
    ((lower_invariant_iff isLowered unmarked isInstruction).mp isMarked).1
  unfold Program.isBroadcast at isBroadcast
  rw [found] at isBroadcast
  simpa using isBroadcast

end Program

namespace Reference

variable {program lowered : Program} (isLowered : program.lower = .ok lowered)
  {executor : Executor} {row element : Nat} {index : VarIndex} {distance : Int}

include isLowered

omit isLowered in
/-- An instruction of the lowering is one of the lowered program. -/
theorem mem_resolveCode_of_has {state : Lowering} {kind : OpKind}
    {test : Instruction → Prop} (has : state.Has kind test) :
    ∃ entry ∈ resolveCode { state.out with
        code := (Program.markInvariants state.out.code.toList).toArray },
          ∃ made,
      entry.1.kind = kind ∧ entry.2.target = made.target ∧
        entry.2.src = made.src ∧ test made := by
  obtain ⟨made, isMade, size, found, holds⟩ := has
  refine ⟨(⟨kind, size⟩, Program.mark state.out.code.toList made), ?_,
    made, rfl, Program.mark_target _ _, Program.mark_src _ _, holds⟩
  apply mem_resolve _ (by rw [Program.mark_opcode]; exact found)
  rw [List.toList_toArray, Program.markInvariants_eq]
  exact List.mem_map_of_mem isMade

/-- A lowered program writes the arrays that the program writes. -/
theorem writesArray_lower :
    WritesArray ⟨lowered, executor, row, element⟩ index ↔
      WritesArray ⟨program, executor, row, element⟩ index := by
  have isExtended := extends_lower isLowered
  constructor
  · rintro ⟨⟨⟨kind, size⟩, made⟩, isEntry, rfl, isDest⟩
    obtain ⟨instruction, isInstruction, opcode, checked, form⟩ :=
      Program.form_of_mem isLowered isEntry
    refine ⟨_, mem_resolve isInstruction checked.found, ?_⟩
    cases kind with
    | load | loadOffset | arith op => cases isDest.symm.trans form.1
    | loadParam => cases isDest.symm.trans form
    | store => exact ⟨form.1, form.1 ▸ form.2.1⟩
  · rintro ⟨⟨opcode, instruction⟩, isEntry, rfl, isDest⟩
    obtain ⟨_, _, inCode⟩ := opcode_of_mem isEntry
    obtain ⟨_, state, chain, rfl⟩ := Program.lower_eq_ok isLowered
    obtain ⟨opcode, checked, accesses⟩ :=
      chain.accesses nofun instruction inCode
    obtain ⟨entry, isEntry, made, _, sameTarget, _, isTarget⟩ :=
      mem_resolveCode_of_has (accesses.stores isDest)
    refine ⟨entry, isEntry, (sameTarget.trans isTarget).symm, ?_⟩
    have declared :=
      Program.declared_eq_true.mpr
        (show (program.var instruction.target).role ≠ _ by
      rw [isDest]; decide)
    exact (congrArg Variable.role
      (isExtended.var instruction.target declared)).trans isDest

section Reads

omit isLowered

variable {site : Site} {opcode : Opcode} {instruction : Instruction}

theorem Site.reads_offset (isOffset : opcode.kind = .loadOffset) :
    site.Reads opcode instruction index distance ↔
      index = instruction.firstSource ∧
        distance = site.distance instruction := by
  unfold Site.Reads
  rw [isOffset]

theorem Site.reads_element (notOffset : opcode.kind ≠ .loadOffset) :
    site.Reads opcode instruction index distance ↔
      index ∈ instruction.src ∧ (site.program.var index).role = .source ∧
        distance = 0 := by
  unfold Site.Reads
  split
  · contradiction
  · rfl

theorem Site.distance_congr {first second : Instruction}
    (sameSources : second.src = first.src) :
    site.distance second = site.distance first := by
  unfold Site.distance Instruction.source?
  rw [sameSources]

/-- More declarations do not change the distance of a load. -/
theorem Site.distance_within {final : Program}
    (isExtended : site.program.Extends final)
    (checked : site.program.Checked instruction opcode)
    (isOffset : opcode.kind = .loadOffset) :
    (site.within final).distance instruction = site.distance instruction := by
  have count := checked.sources
  rw [Opcode.sources, isOffset] at count
  obtain ⟨second, isSecond⟩ : ∃ second, instruction.src[1]? = some second :=
    ⟨_, List.getElem?_eq_getElem (show 1 < instruction.src.length by
      rw [count]; decide)⟩
  have declared :=
    Program.declared_eq_true.mpr (checked.readable 1 second isSecond).usable.1
  unfold Site.distance Instruction.source?
  rw [isSecond, Option.getD_some, Site.scalar_within isExtended declared]

end Reads

omit isLowered in
/-- Only loads read arrays: the sources of the other forms are temporaries and
scalars. -/
theorem reads_of_flat {site : Site} {entry : Opcode × Instruction}
    (flat : site.program.Flat entry)
    (isRead : site.Reads entry.1 entry.2 index distance) :
    index = entry.2.firstSource ∧ (entry.1.kind = .load ∧ distance = 0 ∨
      entry.1.kind = .loadOffset ∧ distance = site.distance entry.2) := by
  obtain ⟨⟨kind, size⟩, made⟩ := entry
  have onlyFirst : Opcode.sources ⟨kind, size⟩ = 1 → index ∈ made.src →
      index = made.firstSource := by
    intro isOne isIndex
    rw [flat.checked.single isOne] at isIndex
    exact List.mem_singleton.mp isIndex
  cases kind with
  | load =>
      obtain ⟨isIndex, _, isDistance⟩ :=
        (Site.reads_element (by simp)).mp isRead
      exact ⟨onlyFirst rfl isIndex, .inl ⟨rfl, isDistance⟩⟩
  | loadOffset =>
      obtain ⟨isIndex, isDistance⟩ := (Site.reads_offset rfl).mp isRead
      exact ⟨isIndex, .inr ⟨rfl, isDistance⟩⟩
  | loadParam =>
      obtain ⟨isIndex, isArray, _⟩ := (Site.reads_element (by simp)).mp isRead
      have isScalar : (site.program.var made.firstSource).role.isScalar =
          true := flat.checked.moves
      rw [← onlyFirst rfl isIndex, isArray] at isScalar
      cases isScalar
  | store =>
      obtain ⟨isIndex, isArray, _⟩ := (Site.reads_element (by simp)).mp isRead
      have isTemp := (flat.store rfl).2
      rw [← onlyFirst rfl isIndex] at isTemp
      cases isArray.symm.trans isTemp
  | arith op =>
      obtain ⟨isIndex, isArray, _⟩ := (Site.reads_element (by simp)).mp isRead
      cases isArray.symm.trans (flat.sources op rfl index isIndex)

theorem readsArray_of_lower
    (reads : ReadsArray ⟨lowered, executor, row, element⟩ index distance) :
    ReadsArray ⟨program, executor, row, element⟩ index distance := by
  obtain ⟨⟨⟨kind, size⟩, made⟩, isEntry, isRead⟩ := reads
  have flat := Program.flat_of_mem isLowered isEntry
  obtain ⟨instruction, isInstruction, opcode, checked, form⟩ :=
    Program.form_of_mem isLowered isEntry
  refine ⟨_, mem_resolve isInstruction checked.found, ?_⟩
  obtain ⟨isIndex, ⟨isKind, isDistance⟩ | ⟨isKind, isDistance⟩⟩ :=
    reads_of_flat flat isRead
  · obtain rfl : kind = .load := isKind
    obtain ⟨_, notOffset, source, isSource, isArray, sameSources⟩ := form
    have isFirst : made.firstSource = source := by
      unfold Instruction.firstSource
      rw [sameSources]
      rfl
    rw [isFirst] at isIndex
    exact (Site.reads_element notOffset).mpr ⟨isIndex ▸ isSource,
      isIndex ▸ isArray, isDistance⟩
  · obtain rfl : kind = .loadOffset := isKind
    obtain ⟨_, isOffset, sameSources⟩ := form
    refine (Site.reads_offset isOffset).mpr ⟨?_, ?_⟩
    · rw [isIndex]
      unfold Instruction.firstSource
      rw [sameSources]
    · have same : (Site.within ⟨program, executor, row, element⟩
          lowered).distance instruction = _ :=
        Site.distance_within (extends_lower isLowered) checked isOffset
      rw [isDistance, Site.distance_congr sameSources]
      exact same

/-- A lowered program reads the elements that the program reads. -/
theorem readsArray_lower :
    ReadsArray ⟨lowered, executor, row, element⟩ index distance ↔
      ReadsArray ⟨program, executor, row, element⟩ index distance := by
  refine ⟨readsArray_of_lower isLowered, ?_⟩
  have isExtended := extends_lower isLowered
  rintro ⟨⟨opcode, instruction⟩, isEntry, isRead⟩
  obtain ⟨found, _, inCode⟩ := opcode_of_mem isEntry
  obtain ⟨_, state, chain, rfl⟩ := Program.lower_eq_ok isLowered
  obtain ⟨other, checked, accesses⟩ := chain.accesses nofun instruction inCode
  obtain rfl : opcode = other :=
    Option.some.inj (found.symm.trans checked.found)
  by_cases isOffset : opcode.kind = .loadOffset
  · obtain ⟨isIndex, isDistance⟩ := (Site.reads_offset isOffset).mp isRead
    obtain ⟨entry, isEntry, made, isKind, _, sameSources, isSources⟩ :=
      mem_resolveCode_of_has (accesses.offsets isOffset)
    refine ⟨entry, isEntry, (Site.reads_offset isKind).mpr ⟨?_, ?_⟩⟩
    · rw [isIndex]
      unfold Instruction.firstSource
      rw [sameSources, isSources]
    · have same : (Site.within ⟨program, executor, row, element⟩ _).distance
          instruction = _ :=
        Site.distance_within isExtended checked isOffset
      rw [isDistance, Site.distance_congr (sameSources.trans isSources)]
      exact same.symm
  · obtain ⟨isIndex, isArray, isDistance⟩ :=
      (Site.reads_element isOffset).mp isRead
    obtain ⟨entry, isEntry, made, isKind, _, sameSources, isSources⟩ :=
      mem_resolveCode_of_has (accesses.loads isOffset index isIndex isArray)
    refine ⟨entry, isEntry,
      (Site.reads_element (by rw [isKind]; decide)).mpr ⟨?_, ?_, isDistance⟩⟩
    · rw [sameSources, isSources]
      exact List.mem_cons_self
    · have declared :=
        Program.declared_eq_true.mpr (show (program.var index).role ≠ _ by
        rw [isArray]; decide)
      exact (congrArg Variable.role (isExtended.var index declared)).trans
        isArray

end Reference

end LaneKernel
