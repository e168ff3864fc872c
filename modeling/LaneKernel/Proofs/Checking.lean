import LaneKernel.Program.Basic
import LaneKernel.Proofs.Outcome
import Mathlib.Tactic.MkIffOfInductiveProp

/-!
# Checked instructions

What the check of an instruction promises, as a proposition, and what the check
of a whole program promises of each of its instructions.  A check that passes
still passes once more slots are declared.
-/

namespace LaneKernel

theorem Opcode.sources_pos (opcode : Opcode) : 0 < opcode.sources := by
  obtain ⟨kind, size⟩ := opcode
  cases kind with
  | arith op => cases op <;> exact Nat.zero_lt_succ _
  | load | loadOffset | loadParam | store => exact Nat.zero_lt_succ _

theorem Role.ne_of_isArray {role other : Role} (isArray : role.isArray = true)
    (notArray : other.isArray = false) : role ≠ other := by
  rintro rfl
  cases isArray.symm.trans notArray

namespace Program

theorem var_setVar (program : Program) {index : VarIndex}
    (declaration : Variable) (inTable : 0 ≤ index ∧ index < 64)
    (other : VarIndex) :
    (program.setVar index declaration).var other =
      if other = index then declaration else program.var other := by
  unfold setVar var
  rw [dif_pos inTable]
  by_cases same : other = index
  · subst same
    rw [dif_pos inTable, if_pos rfl]
    exact Vector.getElem_set_self _
  · rw [if_neg same]
    by_cases otherInTable : 0 ≤ other ∧ other < 64
    · rw [dif_pos otherInTable, dif_pos otherInTable]
      have differ : index.toNat ≠ other.toNat := by
        intro equal
        rw [← Int.toNat_of_nonneg inTable.1,
          ← Int.toNat_of_nonneg otherInTable.1, equal] at same
        exact same rfl
      exact Vector.getElem_set_ne ((Int.toNat_lt inTable.1).2 inTable.2)
        _ differ
    · rw [dif_neg otherInTable, dif_neg otherInTable]

theorem code_setVar (program : Program) (index : VarIndex)
    (declaration : Variable) :
    (program.setVar index declaration).code = program.code := by
  unfold setVar
  split <;> rfl

theorem twoD_setVar (program : Program) (index : VarIndex)
    (declaration : Variable) :
    (program.setVar index declaration).twoD = program.twoD := by
  unfold setVar
  split <;> rfl

/-- What is declared in the first program is declared in the second in the same
way. -/
structure Extends (first second : Program) : Prop where
  var : ∀ index, (first.var index).declared = true →
    second.var index = first.var index
  twoD : second.twoD = first.twoD

theorem Extends.refl (program : Program) : program.Extends program :=
  ⟨fun _ _ => rfl, rfl⟩

theorem Extends.trans {first second third : Program}
    (front : first.Extends second) (behind : second.Extends third) :
    first.Extends third := by
  refine ⟨fun index declared => ?_, behind.twoD.trans front.twoD⟩
  have isSecond := front.var index declared
  rw [behind.var index (by rw [isSecond]; exact declared), isSecond]

/-- What an instruction may read at a place: a constant or parameter, or an
array or temporary that is as wide as the instruction. -/
@[mk_iff]
structure Readable (program : Program) (opcode : Opcode) (width place : Nat)
    (index : VarIndex) :
    Prop where
  role : (program.var index).role = .source ∨ (program.var index).role = .temp ∨
    (program.var index).role.isScalar = true
  size : (program.var index).role.isScalar = true ∨
    (program.var index).size = width
  offset : opcode.kind = .loadOffset → place = 1 →
    (program.var index).role.isScalar = true

/-- What the opcodes that move data want. -/
def Moves (program : Program) (opcode : Opcode)
    (target source : VarIndex) : Prop :=
  match opcode.kind with
  | .load | .loadOffset => (program.var source).role = .source
  | .loadParam => (program.var source).role.isScalar = true
  | .store => (program.var target).role = .dest
  | .arith _ => True

/-- What is known of an instruction that passed its check. -/
structure Checked (program : Program) (instruction : Instruction)
    (opcode : Opcode) : Prop where
  found : Opcode.lookup? instruction.opcode = some opcode
  dest : instruction.dest = [instruction.target]
  sources : instruction.src.length = opcode.sources
  oneFlag : (instruction.x2 && instruction.x4) = false
  valid : Lane.validSize ↑(opcode.size * instruction.lanes) = true
  target : (program.var instruction.target).role = .dest ∨
    (program.var instruction.target).role = .temp
  size : (program.var instruction.target).size =
    ↑(opcode.size * instruction.lanes)
  readable : ∀ place index, instruction.src[place]? = some index →
    program.Readable opcode (opcode.size * instruction.lanes) place index
  moves : program.Moves opcode instruction.target instruction.firstSource

section Checks

variable {program : Program} {name : String} {opcode : Opcode} {width : Nat}

theorem declared_eq_true {declaration : Variable} :
    declaration.declared = true ↔ declaration.role ≠ .none := by
  simp [Variable.declared]

theorem declared_of_isArray {declaration : Variable}
    (isArray : declaration.role.isArray = true) : declaration.declared = true :=
  declared_eq_true.mpr (Role.ne_of_isArray isArray rfl)

theorem checkOperand_eq_ok {index : VarIndex} :
    program.checkOperand name index = .ok () ↔
      (program.var index).role ≠ .none ∧
        (program.var index).role ≠ .accumulator := by
  unfold checkOperand
  rw [Outcome.ite_error_eq_ok, Outcome.ite_error_eq_ok]
  simp [Variable.declared]

theorem checkOperands_eq_ok {indices : List VarIndex} :
    indices.forM (program.checkOperand name) = .ok () ↔
      ∀ index ∈ indices, (program.var index).role ≠ .none ∧
        (program.var index).role ≠ .accumulator := by
  simp only [Outcome.forM_eq_ok, checkOperand_eq_ok]

/-- A source that is declared and no accumulator passes exactly when it is
readable. -/
theorem checkSource_eq_ok {place : Nat} {index : VarIndex}
    (usable : (program.var index).role ≠ .none ∧
      (program.var index).role ≠ .accumulator) :
    program.checkSource name opcode width place index = .ok () ↔
      program.Readable opcode width place index := by
  rw [readable_iff]
  unfold checkSource
  dsimp only
  generalize (program.var index).size = size
  generalize (program.var index).name = sourceName
  generalize (program.var index).role = role at usable ⊢
  obtain ⟨notNone, notAccumulator⟩ := usable
  by_cases isOffset : opcode.kind = .loadOffset ∧ place = 1
  · cases role <;> simp_all [Role.isScalar]
  · rw [if_neg isOffset]
    cases role <;> simp_all [Role.isScalar]

theorem checkSources_eq_ok {place : Nat} {indices : List VarIndex}
    (usable : ∀ index ∈ indices, (program.var index).role ≠ .none ∧
      (program.var index).role ≠ .accumulator) :
    program.checkSources name opcode width place indices = .ok () ↔
      ∀ number index, indices[number]? = some index →
        program.Readable opcode width (place + number) index := by
  induction indices generalizing place with
  | nil => simp [checkSources]
  | cons index rest induction =>
      have restUsable :=
        fun other isOther => usable other (List.mem_cons_of_mem index isOther)
      rw [checkSources, Outcome.check_eq_ok,
        checkSource_eq_ok (usable index List.mem_cons_self),
        induction restUsable]
      constructor
      · rintro ⟨first, later⟩ number other isOther
        cases number with
        | zero =>
            cases isOther
            exact first
        | succ number =>
            rw [List.getElem?_cons_succ] at isOther
            have := later number other isOther
            rwa [Nat.add_assoc, Nat.add_comm 1] at this
      · intro all
        refine ⟨all 0 index rfl, fun number other isOther => ?_⟩
        rw [Nat.add_assoc, Nat.add_comm 1]
        exact all (number + 1) other
          (by rw [List.getElem?_cons_succ]; exact isOther)

theorem checkKind_eq_ok {target source : VarIndex} :
    program.checkKind name opcode target source = .ok () ↔
      program.Moves opcode target source := by
  unfold checkKind Moves
  cases opcode.kind <;> simp

end Checks

variable {program : Program} {instruction : Instruction}

theorem Readable.usable {opcode : Opcode} {width place : Nat} {index : VarIndex}
    (readable : program.Readable opcode width place index) :
    (program.var index).role ≠ .none ∧
      (program.var index).role ≠ .accumulator := by
  have role := readable.role
  generalize (program.var index).role = read at *
  cases read <;> simp_all [Role.isScalar]

/-- The check of an instruction passes exactly when it is in order. -/
theorem checkInstruction_eq_ok :
    program.checkInstruction instruction = .ok () ↔
      ∃ opcode, program.Checked instruction opcode := by
  unfold checkInstruction
  cases found : Opcode.lookup? instruction.opcode with
  | none =>
      simp only [found, reduceCtorEq, false_iff, not_exists]
      intro opcode checked
      cases found.symm.trans checked.found
  | some opcode =>
      have onlyOne : (∃ other, program.Checked instruction other) ↔
          program.Checked instruction opcode := by
        constructor
        · rintro ⟨other, checked⟩
          cases found.symm.trans checked.found
          exact checked
        · exact fun checked => ⟨opcode, checked⟩
      rw [onlyOne]
      rcases isDest : instruction.dest with _ | ⟨target, _ | ⟨other, rest⟩⟩
      · simp only [found, reduceCtorEq, false_iff]
        intro checked
        cases isDest.symm.trans checked.dest
      · have isTarget : instruction.target = target := by
          simp [Instruction.target, isDest]
        have isOperands : instruction.operands = target :: instruction.src := by
          simp [Instruction.operands, isDest]
        simp only [found, Outcome.refuse_eq_ok, Outcome.check_eq_ok,
          checkOperands_eq_ok, isOperands, checkKind_eq_ok]
        constructor
        · rintro ⟨sources, oneFlag, valid, usable, writable, size,
            readable, moves⟩
          have targetUsable := usable target List.mem_cons_self
          have sourcesUsable := fun index isIndex =>
            usable index (List.mem_cons_of_mem target isIndex)
          rw [checkSources_eq_ok sourcesUsable] at readable
          refine ⟨found, by rw [isDest, isTarget], Classical.not_not.mp sources,
            by simpa using oneFlag, by simpa using valid, ?_,
            by rw [isTarget]; exact Classical.not_not.mp size,
            fun place index isIndex => ?_, by rw [isTarget]; exact moves⟩
          · rw [isTarget]
            generalize (program.var target).role = role at *
            cases role <;> simp_all [Role.isScalar]
          · have := readable place index isIndex
            rwa [Nat.zero_add] at this
        · intro checked
          have targetRole := checked.target
          rw [isTarget] at targetRole
          have sourcesUsable :
              ∀ index ∈ instruction.src, (program.var index).role ≠ .none ∧
              (program.var index).role ≠ .accumulator := by
            intro index isIndex
            obtain ⟨place, isPlace⟩ := List.mem_iff_getElem?.mp isIndex
            exact (checked.readable place index isPlace).usable
          refine ⟨not_not_intro checked.sources, by simpa using checked.oneFlag,
            by simpa using checked.valid, ?_, ?_, ?_, ?_,
            by rw [← isTarget]; exact checked.moves⟩
          · intro index isIndex
            rcases List.mem_cons.mp isIndex with rfl | isSource
            · rcases targetRole with isRole | isRole <;> simp [isRole]
            · exact sourcesUsable index isSource
          · rcases targetRole with isRole | isRole <;>
              simp [isRole, Role.isScalar]
          · rw [← isTarget]
            exact not_not_intro checked.size
          · rw [checkSources_eq_ok sourcesUsable]
            intro place index isIndex
            rw [Nat.zero_add]
            exact checked.readable place index isIndex
      · simp only [found, reduceCtorEq, false_iff]
        intro checked
        cases isDest.symm.trans checked.dest

theorem Readable.extended {opcode : Opcode} {width place : Nat}
    {index : VarIndex} {extended : Program}
    (readable : program.Readable opcode width place index)
    (isExtended : program.Extends extended) :
    extended.Readable opcode width place index := by
  have same := isExtended.var index (declared_eq_true.mpr readable.usable.1)
  obtain ⟨role, size, offset⟩ := readable
  exact ⟨by rw [same]; exact role, by rw [same]; exact size,
    by rw [same]; exact offset⟩

theorem Checked.target_declared {opcode : Opcode}
    (checked : program.Checked instruction opcode) :
    (program.var instruction.target).declared = true := by
  rw [declared_eq_true]
  rcases checked.target with isRole | isRole <;> simp [isRole]

theorem Checked.source_declared {opcode : Opcode} {index : VarIndex}
    (checked : program.Checked instruction opcode)
    (isSource : index ∈ instruction.src) :
    (program.var index).declared = true := by
  obtain ⟨place, isPlace⟩ := List.mem_iff_getElem?.mp isSource
  exact declared_eq_true.mpr (checked.readable place index isPlace).usable.1

theorem Checked.first {opcode : Opcode}
    (checked : program.Checked instruction opcode) :
    instruction.src[0]? = some instruction.firstSource := by
  have count := checked.sources
  have positive := opcode.sources_pos
  unfold Instruction.firstSource
  cases isSrc : instruction.src with
  | nil =>
      rw [isSrc, List.length_nil] at count
      omega
  | cons index rest => rfl

theorem Checked.single {opcode : Opcode}
    (checked : program.Checked instruction opcode)
    (isOne : opcode.sources = 1) :
    instruction.src = [instruction.firstSource] := by
  obtain ⟨only, isOnly⟩ :=
    List.length_eq_one_iff.mp (checked.sources.trans isOne)
  have isFirst := checked.first
  rw [isOnly] at isFirst
  rw [isOnly, ← Option.some.inj isFirst]

theorem Checked.first_declared {opcode : Opcode}
    (checked : program.Checked instruction opcode) :
    (program.var instruction.firstSource).declared = true :=
  checked.source_declared (List.mem_of_getElem? checked.first)

theorem Checked.readableFrom {opcode : Opcode}
    (checked : program.Checked instruction opcode) (number : Nat)
    (index : VarIndex) (isIndex : instruction.src[number]? = some index) :
    program.Readable opcode (opcode.size * instruction.lanes)
      (0 + number) index := by
  rw [Nat.zero_add]
  exact checked.readable number index isIndex

theorem Checked.dest_of_store {opcode : Opcode}
    (checked : program.Checked instruction opcode)
    (isStore : opcode.kind = .store) :
    (program.var instruction.target).role = .dest := by
  have moves := checked.moves
  unfold Moves at moves
  rwa [isStore] at moves

theorem Checked.source_of_load {opcode : Opcode}
    (checked : program.Checked instruction opcode)
    (isLoad : opcode.kind = .load ∨ opcode.kind = .loadOffset) :
    (program.var instruction.firstSource).role = .source := by
  have moves := checked.moves
  unfold Moves at moves
  rcases isLoad with isKind | isKind <;> rwa [isKind] at moves

theorem Checked.scalar_of_loadParam {opcode : Opcode}
    (checked : program.Checked instruction opcode)
    (isParam : opcode.kind = .loadParam) :
    (program.var instruction.firstSource).role.isScalar = true := by
  have moves := checked.moves
  unfold Moves at moves
  rwa [isParam] at moves

/-- A check that passes still passes once more slots are declared. -/
theorem Checked.extended {opcode : Opcode} {extended : Program}
    (checked : program.Checked instruction opcode)
    (isExtended : program.Extends extended) :
    extended.Checked instruction opcode := by
  have sameTarget := isExtended.var _ checked.target_declared
  have sameSource := isExtended.var _ checked.first_declared
  refine { checked with
    target := by rw [sameTarget]; exact checked.target
    size := by rw [sameTarget]; exact checked.size
    readable := fun place index isIndex =>
      (checked.readable place index isIndex).extended isExtended
    moves := ?_ }
  unfold Moves
  rw [sameTarget, sameSource]
  exact checked.moves

/-- Checked instructions that read a temporary only when it is in `written` or
an instruction in front wrote it. -/
inductive Valid (program : Program) : (VarIndex → Prop) → List Instruction →
    Prop where
  | nil {written : VarIndex → Prop} : Valid program written []
  | cons {written : VarIndex → Prop} {instruction : Instruction}
      {rest : List Instruction} {opcode : Opcode} :
      program.Checked instruction opcode →
      (∀ index ∈ instruction.src, (program.var index).role = .temp →
        written index) →
      Valid program (fun index => index = instruction.target ∨
        written index) rest →
      Valid program written (instruction :: rest)

namespace Valid

variable {written more : VarIndex → Prop} {code front back : List Instruction}

theorem mono (valid : program.Valid written code)
    (weaker : ∀ index, written index → more index) :
    program.Valid more code := by
  induction valid generalizing more with
  | nil => exact .nil
  | cons checked reads _ induction =>
      refine .cons checked
        (fun index isIndex isTemp => weaker _ (reads index isIndex isTemp)) ?_
      exact induction fun index isWritten => isWritten.imp_right (weaker index)

theorem append (first : program.Valid written front)
    (second : program.Valid
      (fun index => (∃ instruction ∈ front, index = instruction.target) ∨
        written index) back) :
    program.Valid written (front ++ back) := by
  induction first with
  | nil => exact second.mono fun index isWritten => by simpa using isWritten
  | cons checked reads _ induction =>
      refine .cons checked reads (induction (second.mono ?_))
      rintro index (⟨instruction, isInstruction, same⟩ | isWritten)
      · rcases List.mem_cons.mp isInstruction with rfl | isLater
        · exact .inr (.inl same)
        · exact .inl ⟨instruction, isLater, same⟩
      · exact .inr (.inr isWritten)

theorem extended {extended : Program} (valid : program.Valid written code)
    (isExtended : program.Extends extended) : extended.Valid written code := by
  induction valid with
  | nil => exact .nil
  | cons checked reads _ induction =>
      refine .cons (checked.extended isExtended)
        (fun index isIndex isTemp => ?_) induction
      rw [isExtended.var index (checked.source_declared isIndex)] at isTemp
      exact reads index isIndex isTemp

theorem checked (valid : program.Valid written code)
    (isInstruction : instruction ∈ code) :
    ∃ opcode, program.Checked instruction opcode := by
  induction valid with
  | nil => cases isInstruction
  | cons checked _ _ induction =>
      rcases List.mem_cons.mp isInstruction with rfl | isLater
      · exact ⟨_, checked⟩
      · exact induction isLater

end Valid

theorem validateFrom_eq_ok {written : List VarIndex} {code : List Instruction} :
    program.validateFrom written code = .ok () ↔
      program.Valid (· ∈ written) code := by
  induction code generalizing written with
  | nil => exact ⟨fun _ => .nil, fun _ => rfl⟩
  | cons instruction rest induction =>
      rw [validateFrom, Outcome.check_eq_ok, checkInstruction_eq_ok]
      have sameWritten : ∀ index,
          index ∈ (if written.contains instruction.target then written
            else instruction.target :: written) ↔
          index = instruction.target ∨ index ∈ written := by
        intro index
        split
        case isTrue contains =>
          have isMember : instruction.target ∈ written := by
            simpa using contains
          exact ⟨.inr, fun either =>
            either.elim (fun same => same ▸ isMember) id⟩
        case isFalse => exact List.mem_cons
      cases isFound : instruction.src.find? fun index =>
          (program.var index).role == .temp && !written.contains index with
      | some index =>
          have isBad := List.find?_some isFound
          have isSource := List.mem_of_find?_eq_some isFound
          simp only [throw, throwThe, MonadExceptOf.throw, reduceCtorEq,
            and_false, false_iff]
          rintro (_ | ⟨_, reads, _⟩)
          simp only [Bool.and_eq_true, beq_iff_eq, Bool.not_eq_true',
            List.contains_eq_mem, decide_eq_false_iff_not] at isBad
          exact isBad.2 (reads index isSource isBad.1)
      | none =>
          rw [induction]
          have reads : ∀ index ∈ instruction.src,
              (program.var index).role = .temp → index ∈ written := by
            intro index isSource isTemp
            have := List.find?_eq_none.mp isFound index isSource
            simpa [isTemp] using this
          constructor
          · rintro ⟨⟨opcode, checked⟩, valid⟩
            exact .cons checked reads
              (valid.mono fun index => (sameWritten index).mp)
          · rintro (_ | ⟨checked, _, valid⟩)
            exact ⟨⟨_, checked⟩,
              valid.mono fun index => (sameWritten index).mpr⟩

/-- The check of a program passes exactly when it has instructions and all are
in order. -/
theorem validate_eq_ok :
    program.validate = .ok () ↔
      program.code.toList ≠ [] ∧
        program.Valid (fun _ => False) program.code.toList := by
  unfold validate
  rw [Outcome.ite_error_eq_ok, validateFrom_eq_ok]
  simp

end Program

end LaneKernel
