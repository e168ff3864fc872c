import LaneKernel.Proofs.Expressible

/-!
# Arrays that no instruction names

Declaring more arrays of the common element size does not change the kernel of a
program.  The wider program is lowered by the same moves, since temporaries have
slots of their own; its plan hands out the same registers, since only the arrays
that the code touches are walked; and the routines look at the declarations of
their own operands alone.  The main statement is
`Program.compile_unused_arrays`.
-/

namespace LaneKernel

open Program

/-- The second program declares more arrays than the first, all of one element
size. -/
structure Program.Widens (size : Int) (narrow wide : Program) : Prop where
  isExtended : narrow.Extends wide
  code : wide.code = narrow.code
  added : ∀ index, (narrow.var index).declared = false →
    (wide.var index).declared = true →
    (Var.roleOf index).isArray = true ∧ (wide.var index).size = size

namespace Program.Widens

variable {size : Int} {narrow wide next : Program} {index : VarIndex}

theorem refl (size : Int) (program : Program) : program.Widens size program :=
  ⟨.refl program, rfl,
    fun _ new declared => absurd (new.symm.trans declared) nofun⟩

theorem var (widens : narrow.Widens size wide)
    (declared : (narrow.var index).declared = true) :
    wide.var index = narrow.var index := widens.isExtended.var index declared

theorem declared_eq (widens : narrow.Widens size wide)
    (other : (Var.roleOf index).isArray = false) :
    (wide.var index).declared = (narrow.var index).declared := by
  cases new : (narrow.var index).declared with
  | true => rw [widens.var new, new]
  | false =>
      cases declared : (wide.var index).declared with
      | false => rfl
      | true => cases other.symm.trans (widens.added index new declared).1

theorem setVar (widens : narrow.Widens size wide)
    (inTable : 0 ≤ index ∧ index < 64) (declaration : Variable) :
    (narrow.setVar index declaration).Widens size
      (wide.setVar index declaration) where
  isExtended := by
    refine ⟨fun slot declared => ?_, ?_⟩
    · rw [var_setVar _ _ inTable] at declared ⊢
      rw [var_setVar _ _ inTable]
      split
      case isTrue => rfl
      case isFalse other =>
        rw [if_neg other] at declared
        exact widens.var declared
    · rw [twoD_setVar, twoD_setVar]
      exact widens.isExtended.twoD
  code := by
    rw [code_setVar, code_setVar]
    exact widens.code
  added slot new declared := by
    rw [var_setVar _ _ inTable] at new declared ⊢
    split
    case isTrue same =>
      rw [if_pos same] at new declared
      cases new.symm.trans declared
    case isFalse other =>
      rw [if_neg other] at new declared
      exact widens.added slot new declared

theorem withCode (widens : narrow.Widens size wide) (code : Array Instruction) :
    Program.Widens size { narrow with code := code }
      { wide with code := code } :=
  ⟨⟨widens.isExtended.var, widens.isExtended.twoD⟩, rfl, widens.added⟩

theorem validate (widens : narrow.Widens size wide)
    (valid : narrow.validate = .ok ()) : wide.validate = .ok () := by
  rw [validate_eq_ok] at valid ⊢
  rw [widens.code]
  exact ⟨valid.1, valid.2.extended widens.isExtended⟩

end Program.Widens

namespace Lowering

/-- The states of two lowerings that make the same moves, the second one for a
wider program. -/
structure Mirrors (program : Program) (length : Int) (state other : Lowering) :
    Prop where
  widens : state.out.Widens length other.out
  loaded : other.loaded = state.loaded
  broadcast : other.broadcast = state.broadcast
  isExtended : program.Extends state.out

namespace Mirrors

variable {program : Program} {length : Int} {state other next : Lowering}
  {instruction : Instruction} {opcode : Opcode} {index temp : VarIndex}
  {size lanes width : Nat}

theorem start {wide : Program} (widens : program.Widens length wide) :
    Mirrors program length (Lowering.start program) (Lowering.start wide) :=
  ⟨widens.withCode #[], rfl, rfl, ⟨fun _ _ => rfl, rfl⟩⟩

theorem emit (mirrors : Mirrors program length state other) (name : String)
    (flags : UInt8) (dest : VarIndex) (src : List VarIndex) :
    Mirrors program length (state.emit name flags dest src)
      (other.emit name flags dest src) where
  widens := by
    have grown := mirrors.widens.withCode
      (state.out.code.push ⟨name, flags, [dest], src⟩)
    unfold Lowering.emit
    rw [mirrors.widens.code]
    exact grown
  loaded := mirrors.loaded
  broadcast := mirrors.broadcast
  isExtended := ⟨mirrors.isExtended.var, mirrors.isExtended.twoD⟩

theorem withTemp (mirrors : Mirrors program length state other)
    (free : state.Free temp) (width : Nat) :
    Mirrors program length (state.withTemp temp width)
      (other.withTemp temp width) where
  widens := mirrors.widens.setVar free.inTable _
  loaded := mirrors.loaded
  broadcast := mirrors.broadcast
  isExtended := mirrors.isExtended.trans free.isExtended

theorem free (mirrors : Mirrors program length state other)
    (free : state.Free temp) : other.Free temp := by
  have sameTest : ∀ slot ∈ tempSlots,
      (!(other.out.var slot).declared) = !(state.out.var slot).declared := by
    intro slot isSlot
    rw [mirrors.widens.declared_eq]
    rw [(mem_tempSlots isSlot).2]
    rfl
  unfold Free at free ⊢
  rw [← List.head?_filter, List.filter_congr sameTest, List.head?_filter]
  exact free

theorem newTemp (mirrors : Mirrors program length state other)
    (valid : Lane.validSize ↑width = true)
    (isNew : state.newTemp width = .ok (temp, next)) :
    ∃ mirrored, other.newTemp width = .ok (temp, mirrored) ∧
      Mirrors program length next mirrored := by
  obtain ⟨free, rfl⟩ := (newTemp_eq_ok valid).mp isNew
  exact ⟨_, (newTemp_eq_ok valid).mpr ⟨mirrors.free free, rfl⟩,
    mirrors.withTemp free width⟩

theorem var (mirrors : Mirrors program length state other)
    (declared : (program.var index).declared = true) :
    state.out.var index = program.var index ∧
      other.out.var index = program.var index := by
  have isState := mirrors.isExtended.var index declared
  refine ⟨isState, ?_⟩
  rw [mirrors.widens.var (by rw [isState, declared]), isState]

theorem operand (mirrors : Mirrors program length state other)
    (declared : (program.var index).declared = true)
    (valid : Lane.validSize ↑(size * lanes) = true)
    (isOk : state.operand index size lanes = .ok (temp, next)) :
    ∃ mirrored, other.operand index size lanes = .ok (temp, mirrored) ∧
      Mirrors program length next mirrored := by
  obtain ⟨isState, isOther⟩ := mirrors.var declared
  unfold Lowering.operand at isOk ⊢
  rw [isState] at isOk
  rw [isOther, mirrors.loaded, mirrors.broadcast]
  cases isRole : (program.var index).role with
  | source =>
      simp only [isRole] at isOk
      cases isLoaded : state.loaded.lookup index with
      | some kept =>
          rw [isLoaded] at isOk
          cases isOk
          exact ⟨other, rfl, mirrors⟩
      | none =>
          rw [isLoaded] at isOk
          obtain ⟨⟨found, middle⟩, isNew, isOk⟩ := Outcome.bind_eq_ok.mp isOk
          obtain ⟨mirrored, isMirrored, mirrors⟩ := mirrors.newTemp valid isNew
          cases isOk
          have emitted :=
            mirrors.emit (Lane.sizedName "load" (size * lanes)) 0 found [index]
          refine ⟨_, Outcome.bind_eq_ok.mpr ⟨_, isMirrored, rfl⟩, ?_⟩
          exact ⟨emitted.widens, congrArg ((index, found) :: ·) mirrors.loaded,
            emitted.broadcast, emitted.isExtended⟩
  | const | param =>
      simp only [isRole] at isOk
      cases isKept : state.broadcast.lookup (index, size, lanes) with
      | some kept =>
          rw [isKept] at isOk
          cases isOk
          exact ⟨other, rfl, mirrors⟩
      | none =>
          rw [isKept] at isOk
          obtain ⟨⟨found, middle⟩, isNew, isOk⟩ := Outcome.bind_eq_ok.mp isOk
          obtain ⟨mirrored, isMirrored, mirrors⟩ := mirrors.newTemp valid isNew
          cases isOk
          have emitted :=
            mirrors.emit (Lane.sizedName "loadp" size)
              (Instruction.laneFlags lanes)
            found [index]
          refine ⟨_, Outcome.bind_eq_ok.mpr ⟨_, isMirrored, rfl⟩, ?_⟩
          exact ⟨emitted.widens, emitted.loaded,
            congrArg (((index, size, lanes), found) :: ·) mirrors.broadcast,
            emitted.isExtended⟩
  | none | dest | accumulator | temp =>
      simp only [isRole] at isOk
      cases isOk
      exact ⟨other, rfl, mirrors⟩

theorem operands {indices temps : List VarIndex}
    (mirrors : Mirrors program length state other)
    (declared : ∀ index ∈ indices, (program.var index).declared = true)
    (valid : Lane.validSize ↑(size * lanes) = true)
    (isOk : state.operands size lanes indices = .ok (temps, next)) :
    ∃ mirrored, other.operands size lanes indices = .ok (temps, mirrored) ∧
      Mirrors program length next mirrored := by
  induction indices generalizing state other temps with
  | nil =>
      cases isOk
      exact ⟨other, rfl, mirrors⟩
  | cons index rest induction =>
      rw [Lowering.operands] at isOk
      obtain ⟨⟨first, middle⟩, isFirst, isOk⟩ := Outcome.bind_eq_ok.mp isOk
      obtain ⟨⟨more, last⟩, isRest, isOk⟩ := Outcome.bind_eq_ok.mp isOk
      cases isOk
      obtain ⟨halfway, isHalfway, mirrors⟩ :=
        mirrors.operand (declared index List.mem_cons_self) valid isFirst
      obtain ⟨mirrored, isMirrored, mirrors⟩ := induction mirrors
        (fun later isLater =>
          declared later (List.mem_cons_of_mem index isLater)) isRest
      refine ⟨mirrored, ?_, mirrors⟩
      rw [Lowering.operands]
      exact Outcome.bind_eq_ok.mpr
        ⟨_, isHalfway, Outcome.bind_eq_ok.mpr ⟨_, isMirrored, rfl⟩⟩

theorem writeResult {src : List VarIndex}
    (mirrors : Mirrors program length state other)
    (declared : (program.var instruction.target).declared = true)
    (valid : Lane.validSize ↑width = true)
    (isOk : state.writeResult instruction width src = .ok next) :
    ∃ mirrored, other.writeResult instruction width src = .ok mirrored ∧
      Mirrors program length next mirrored := by
  obtain ⟨isState, isOther⟩ := mirrors.var declared
  unfold Lowering.writeResult at isOk ⊢
  simp only [isState, isOther] at isOk ⊢
  split at isOk
  case isTrue isDest =>
    obtain ⟨⟨found, middle⟩, isNew, isOk⟩ := Outcome.bind_eq_ok.mp isOk
    obtain ⟨mirrored, isMirrored, mirrors⟩ := mirrors.newTemp valid isNew
    cases isOk
    rw [if_pos isDest]
    exact ⟨_, Outcome.bind_eq_ok.mpr ⟨_, isMirrored, rfl⟩,
      (mirrors.emit _ _ _ _).emit _ _ _ _⟩
  case isFalse notDest =>
    cases isOk
    rw [if_neg notDest]
    exact ⟨_, rfl, mirrors.emit _ _ _ _⟩

theorem lower (mirrors : Mirrors program length state other)
    (checked : program.Checked instruction opcode)
    (isOk : state.lower instruction = .ok next) :
    ∃ mirrored, other.lower instruction = .ok mirrored ∧
      Mirrors program length next mirrored := by
  have sources :
      ∀ index ∈ instruction.src, (program.var index).declared = true :=
    fun _ isIndex => checked.source_declared isIndex
  unfold Lowering.lower at isOk ⊢
  rw [checked.found] at isOk ⊢
  cases isKind : opcode.kind with
  | load | loadOffset | loadParam =>
      simp only [isKind] at isOk ⊢
      exact mirrors.writeResult checked.target_declared checked.valid isOk
  | store =>
      simp only [isKind] at isOk ⊢
      obtain ⟨⟨found, middle⟩, isOperand, isOk⟩ := Outcome.bind_eq_ok.mp isOk
      obtain ⟨mirrored, isMirrored, mirrors⟩ := mirrors.operand
        (sources _ (List.mem_of_getElem? checked.first)) checked.valid isOperand
      cases isOk
      exact ⟨_, Outcome.bind_eq_ok.mpr ⟨_, isMirrored, rfl⟩,
        mirrors.emit _ _ _ _⟩
  | arith op =>
      simp only [isKind] at isOk ⊢
      obtain ⟨⟨temps, middle⟩, areOperands, isOk⟩ := Outcome.bind_eq_ok.mp isOk
      obtain ⟨halfway, isHalfway, mirrors⟩ :=
        mirrors.operands sources checked.valid areOperands
      obtain ⟨mirrored, isMirrored, mirrors⟩ :=
        mirrors.writeResult checked.target_declared checked.valid isOk
      exact ⟨mirrored, Outcome.bind_eq_ok.mpr ⟨_, isHalfway, isMirrored⟩,
        mirrors⟩

theorem foldlM {code : List Instruction}
    (mirrors : Mirrors program length state other)
    (checked : ∀ instruction ∈ code, ∃ opcode,
      program.Checked instruction opcode)
    (isOk : code.foldlM Lowering.lower state = .ok next) :
    ∃ mirrored, code.foldlM Lowering.lower other = .ok mirrored ∧
      Mirrors program length next mirrored := by
  induction code generalizing state other with
  | nil =>
      cases isOk
      exact ⟨other, rfl, mirrors⟩
  | cons instruction rest induction =>
      rw [List.foldlM_cons] at isOk ⊢
      obtain ⟨middle, isFirst, isRest⟩ := Outcome.bind_eq_ok.mp isOk
      obtain ⟨opcode, isChecked⟩ := checked instruction List.mem_cons_self
      obtain ⟨halfway, isHalfway, mirrors⟩ := mirrors.lower isChecked isFirst
      obtain ⟨mirrored, isMirrored, mirrors⟩ := induction mirrors
        (fun later isLater =>
          checked later (List.mem_cons_of_mem instruction isLater)) isRest
      exact ⟨mirrored, Outcome.bind_eq_ok.mpr ⟨_, isHalfway, isMirrored⟩,
        mirrors⟩

end Mirrors

end Lowering

/-- A wider program is lowered to a wider program. -/
theorem Program.Widens.lower {size : Int} {narrow wide lowered : Program}
    (widens : narrow.Widens size wide)
    (isLowered : narrow.lower = .ok lowered) :
    ∃ wideLowered, wide.lower = .ok wideLowered ∧
      lowered.Widens size wideLowered := by
  unfold Program.lower at isLowered ⊢
  obtain ⟨valid, isLowered⟩ := Outcome.check_eq_ok.mp isLowered
  obtain ⟨state, isState, isLowered⟩ := Outcome.bind_eq_ok.mp isLowered
  cases isLowered
  have inOrder := (validate_eq_ok.mp valid).2
  obtain ⟨mirrored, isMirrored, mirrors⟩ :=
    (Lowering.Mirrors.start widens).foldlM
    (fun instruction isInstruction => inOrder.checked isInstruction) isState
  refine ⟨_, Outcome.check_eq_ok.mpr ⟨widens.validate valid, ?_⟩,
    mirrors.widens.withCode (markInvariants state.out.code.toList).toArray⟩
  rw [widens.code]
  refine Outcome.bind_eq_ok.mpr ⟨mirrored, isMirrored, ?_⟩
  rw [mirrors.widens.code]
  rfl

namespace Compiler

variable {size : Int} {narrow wide : Program} {shift : Nat}

theorem accumulators_widens (widens : narrow.Widens size wide) :
    accumulators wide = accumulators narrow := by
  have notArrays : ∀ index ∈ (List.range Var.accumulatorCount).map fun number =>
      Int.ofNat (Var.firstAccumulator + number),
        (Var.roleOf index).isArray = false := by decide
  exact List.filter_congr fun index isSlot =>
    widens.declared_eq (notArrays index isSlot)

theorem declaredTemps_widens (widens : narrow.Widens size wide) :
    declaredTemps wide = declaredTemps narrow := by
  refine List.filter_congr fun index isSlot => widens.declared_eq ?_
  rw [(Lowering.mem_tempSlots isSlot).2]
  rfl

/-- The element size may be read off another array, but it is the same. -/
theorem elementShift_widens (widens : narrow.Widens size wide)
    (roles : ∀ index, (narrow.var index).declared = true →
      (narrow.var index).role = Var.roleOf index)
    (isSize : ∃ index, (narrow.var index).role.isArray = true ∧
      (narrow.var index).size = size)
    (isShift : elementShift narrow = .ok shift) :
    elementShift wide = .ok shift := by
  obtain ⟨few, ⟨_, isAlign, _⟩, same⟩ := elementShift_eq_ok isShift
  obtain ⟨array, isArray, rfl⟩ := isSize
  have sizes : ∀ index, (wide.var index).declared = true →
      ((narrow.var index).declared = true →
        (narrow.var index).role.isArray = true) →
      (wide.var index).size = (2 ^ shift : Nat) := by
    intro index declared isNarrow
    cases isOld : (narrow.var index).declared with
    | true => rw [widens.var isOld, same index (isNarrow isOld)]
    | false => rw [(widens.added index isOld declared).2, same array isArray]
  have stays : ∀ {index}, (narrow.var index).declared = true →
      (wide.var index).declared = true :=
    fun declared =>
      (congrArg Variable.declared (widens.var declared)).trans declared
  obtain ⟨align, isWideAlign, declared, isRole⟩ := alignmentVariable_succeeds
    ((aligned_of_alignmentVariable isAlign).imp stays stays)
  exact elementShift_of_size few isWideAlign
    (sizes align declared fun isOld => roles align isOld ▸ isRole) fun index
    isWideArray =>
      sizes index (declared_of_isArray isWideArray) fun isOld =>
        widens.var isOld ▸ isWideArray

theorem walkedArrays_widens {program : Program} {steps : List (BodyStep Unit)}
    (isLowered : program.lower = .ok narrow) (widens : narrow.Widens size wide)
    (isSteps : narrow.code.toList.mapM (matchRule Registry.standard) =
      .ok steps) :
    walkedArrays wide steps = walkedArrays narrow steps := by
  obtain ⟨_, rfl⟩ := mapM_matchRule isSteps
  have touched : ∀ entry ∈ Reference.resolveCode narrow, ∀ index,
      (if (Opcode.step entry).isLoad then some entry.2.firstSource
        else if (Opcode.step entry).isStore then some entry.2.target
        else none) = some index → (narrow.var index).declared = true := by
    intro entry isEntry index isIndex
    have checked := (flat_of_mem isLowered isEntry).checked
    split at isIndex
    case isTrue =>
      cases isIndex
      exact checked.first_declared
    case isFalse =>
      split at isIndex
      case isTrue =>
        cases isIndex
        exact checked.target_declared
      case isFalse => cases isIndex
  unfold walkedArrays Program.arrays
  rw [List.filter_filter, List.filter_filter]
  refine List.filter_congr fun index _ => ?_
  rw [Bool.eq_iff_iff, Bool.and_eq_true, Bool.and_eq_true,
    List.contains_iff_mem]
  refine and_congr_right fun isTouched => ?_
  obtain ⟨step, isStep, isIndex⟩ := List.mem_filterMap.mp isTouched
  obtain ⟨entry, isEntry, rfl⟩ := List.mem_map.mp isStep
  rw [widens.var (touched entry isEntry index isIndex)]

/-- A wider program has the same plan, but for the program in it. -/
theorem plan_widens (widens : narrow.Widens size wide) (built : narrow.Built)
    {options : CompileOptions} {made : CompilePlan Unit}
    (isSize : ∃ index, (narrow.var index).role.isArray = true ∧
      (narrow.var index).size = size)
    (isPlan : plan Registry.standard narrow options = .ok made) :
    ∃ lowered, plan Registry.standard wide options =
      .ok { made with program := lowered } ∧
      made.program.Widens size lowered := by
  obtain ⟨steps, parts⟩ := plan_eq_ok.mp isPlan
  obtain ⟨prepared, isInvariants, isBody, isWalked, isPointers, isVectors,
    isRegisters, isFrame⟩ := parts
  obtain ⟨lowered, isLowered, widened⟩ := widens.lower prepared.lowers
  have isLoweredSize : ∃ index, (made.program.var index).role.isArray = true ∧
      (made.program.var index).size = size := by
    obtain ⟨index, isArray, isSize⟩ := isSize
    refine ⟨index,
      (Reference.isArray_lower prepared.lowers index).trans isArray, ?_⟩
    rw [(Reference.extends_lower prepared.lowers).var index
      (declared_of_isArray isArray), isSize]
  refine ⟨lowered, plan_eq_ok.mpr ⟨steps, {
    prepared := {
      unroll := prepared.unroll
      valid := widens.validate prepared.valid
      accumulators := (accumulators_widens widens).trans prepared.accumulators
      lowers := isLowered
      shift := elementShift_widens widened
        (fun _ => role_lower prepared.lowers built) isLoweredSize prepared.shift
      matched := widened.code ▸ prepared.matched }
    invariants := isInvariants
    body := isBody
    walked := isWalked.trans
      (walkedArrays_widens prepared.lowers widened prepared.matched).symm
    pointers := isPointers
    vectors := declaredTemps_widens widened ▸ isVectors
    registers := isRegisters
    frame := isFrame }⟩, widened⟩

end Compiler

section Routines

variable {site : EmitSite} {var : VarIndex → Variable}
  {instruction : Instruction}

theorem Routines.wordAligned_congr {index : VarIndex} (offset : Int)
    (same : var index = site.var index) :
    wordAligned { site with var := var } index offset =
      wordAligned site index offset := by
  simp only [wordAligned, same]

theorem Routines.loadOffset_congr (param : RuleParam)
    (sources : ∀ index ∈ instruction.src, var index = site.var index)
    (first : var instruction.firstSource = site.var instruction.firstSource) :
    loadOffset { site with var := var } param instruction =
      loadOffset site param instruction := by
  unfold loadOffset
  simp only [first]
  cases isSecond : instruction.source? 1 with
  | none => rfl
  | some index => simp only [sources index (List.mem_of_getElem? isSecond)]

/-- The code of an instruction depends on the declarations of its operands
only. -/
theorem Opcode.emit_congr (opcode : Opcode) (site : EmitSite)
    (var : VarIndex → Variable)
    (target : var instruction.target = site.var instruction.target)
    (sources : ∀ index ∈ instruction.src, var index = site.var index)
    (first : var instruction.firstSource = site.var instruction.firstSource) :
    (opcode.rule : Rule Unit).emit { site with var := var }
      (opcode.rule : Rule Unit).param instruction =
        (opcode.rule : Rule Unit).emit site (opcode.rule : Rule Unit).param
        instruction := by
  obtain ⟨kind, size⟩ := opcode
  cases kind with
  | load | loadOffset =>
      simp only [Opcode.rule]
      unfold Routines.load
      simp only [Routines.loadOffset_congr _ sources first,
        Routines.wordAligned_congr _ first]
      rfl
  | store =>
      simp only [Opcode.rule]
      unfold Routines.store
      simp only [Routines.wordAligned_congr _ target]
      rfl
  | loadParam =>
      simp only [Opcode.rule]
      unfold Routine.ofPure Routines.loadParam
      simp only [first]
      rfl
  | arith op =>
      cases op with
      | float op => cases op <;> rfl
      | _ => rfl

end Routines

namespace Compiler

variable {size : Int} {wide : Program} {plan : CompilePlan Unit}
  {steps : List (BodyStep Unit)} {entries : List (Opcode × Instruction)}

theorem emitSteps_widens (widens : plan.program.Widens size wide)
    (inTail : Bool) (offset : Nat) (isSteps : steps = entries.map Opcode.step)
    (checked : ∀ entry ∈ entries, plan.program.Checked entry.2 entry.1) :
    emitSteps (site { plan with program := wide } inTail offset) steps =
      emitSteps (site plan inTail offset) steps := by
  subst isSteps
  induction entries with
  | nil => rfl
  | cons entry rest induction =>
      have here := checked entry List.mem_cons_self
      have same := entry.1.emit_congr (site plan inTail offset) wide.var
        (widens.var here.target_declared)
        (fun index isIndex => widens.var (here.source_declared isIndex))
        (widens.var here.first_declared)
      rw [List.map_cons, emitSteps, emitSteps,
        induction fun later isLater =>
          checked later (List.mem_cons_of_mem entry isLater)]
      unfold Opcode.step
      rw [← same]
      rfl

theorem emitCopies_widens (widens : plan.program.Widens size wide)
    (isBody : plan.body = entries.map Opcode.step)
    (checked : ∀ entry ∈ entries, plan.program.Checked entry.2 entry.1)
    (count copy : Nat) :
    emitCopies { plan with program := wide } count copy =
      emitCopies plan count copy := by
  induction count generalizing copy with
  | zero => rfl
  | succ count induction =>
      rw [emitCopies, emitCopies, induction,
        emitSteps_widens widens false (blockBytes * copy) isBody checked]

theorem loop_widens (widens : plan.program.Widens size wide) (unroll : Nat)
    (tail main rest : Fragment) :
    loop { plan with program := wide } unroll tail main rest =
      loop plan unroll tail main rest := by
  have rows := widens.isExtended.twoD
  simp only [loop, rowHead, rowEnd, rows]
  rfl

theorem emitKernel_widens {program : Program} {options : CompileOptions}
    {body : List (Opcode × Instruction)}
    (planned : Planned program options plan body)
    (widens : plan.program.Widens size wide) (unroll : Nat) :
    emitKernel { plan with program := wide } unroll =
      emitKernel plan unroll := by
  have checked : ∀ entry ∈ Reference.resolveCode plan.program,
      plan.program.Checked entry.2 entry.1 :=
    fun entry isEntry => (Program.flat_of_mem planned.lowered isEntry).checked
  have inBody : ∀ entry ∈ body, plan.program.Checked entry.2 entry.1 :=
    fun entry isEntry => checked entry (planned.mem_resolveCode isEntry).1
  unfold emitKernel
  rw [emitSteps_widens widens false 0 planned.invariants fun entry isEntry =>
      checked entry (List.mem_of_mem_filter isEntry)]
  simp only [emitSteps_widens widens _ _ planned.isBody inBody,
    emitCopies_widens widens planned.isBody inBody, loop_widens widens]
  rfl

end Compiler

namespace Program

/-- The building operations that declare an array and promise, if asked, that it
is aligned. -/
def Edit.array (size : Int) (spare : VarIndex × Bool) : List Edit :=
  .declare spare.1 size :: if spare.2 then [.setAligned spare.1] else []

variable {size : Int} {narrow wide program : Program} {index : VarIndex}

theorem Widens.add (widens : narrow.Widens size wide)
    (isArray : (Var.roleOf index).isArray = true)
    (new : (narrow.var index).declared = false) {declaration : Variable}
    (isSize : declaration.size = size) :
    narrow.Widens size (wide.setVar index declaration) := by
  have inTable := bounds_of_roleOf (Role.ne_of_isArray isArray rfl)
  refine ⟨⟨fun other declared => ?_,
    (twoD_setVar ..).trans widens.isExtended.twoD⟩,
      (code_setVar ..).trans widens.code, fun other isNew declared => ?_⟩
  · have differs : other ≠ index := by
      rintro rfl
      cases new.symm.trans declared
    rw [var_setVar _ _ inTable, if_neg differs, widens.var declared]
  · rw [var_setVar _ _ inTable] at declared ⊢
    split
    case isTrue same => exact ⟨same ▸ isArray, isSize⟩
    case isFalse differs =>
      rw [if_neg differs] at declared
      exact widens.added other isNew declared

theorem declare_array (program : Program)
    (isArray : (Var.roleOf index).isArray = true)
    (valid : Lane.validSize size = true)
    (free : (program.var index).declared = false) :
    program.declare index size = .ok (program.setVar index
      { name := Var.nameOf index, role := Var.roleOf index,
        size := size }) := by
  have hasRole : Var.roleOf index ≠ .none := Role.ne_of_isArray isArray rfl
  have notConst : Var.roleOf index ≠ .const := Role.ne_of_isArray isArray rfl
  have bounds := bounds_of_roleOf hasRole
  have inTable : ¬ (index < 0 ∨ index ≥ (Var.count : Nat)) :=
    not_or.mpr ⟨not_lt.mpr bounds.1, not_le.mpr bounds.2⟩
  unfold declare
  rw [if_neg inTable, if_neg hasRole, if_neg notConst, valid, free]
  rfl

theorem Widens.array (widens : narrow.Widens size wide)
    (valid : Lane.validSize size = true) {spare : VarIndex × Bool}
    (isArray : (Var.roleOf spare.1).isArray = true)
    (new : (narrow.var spare.1).declared = false)
    (free : (wide.var spare.1).declared = false) :
    ∃ next, (Edit.array size spare).foldlM Edit.apply wide = .ok next ∧
      narrow.Widens size next ∧
      ∀ other, other ≠ spare.1 → next.var other = wide.var other := by
  obtain ⟨index, aligned⟩ := spare
  have inTable := bounds_of_roleOf (Role.ne_of_isArray isArray rfl)
  have isDeclared := declare_array wide isArray valid free
  generalize isMade :
    ({ name := Var.nameOf index, role := Var.roleOf index, size := size } :
    Variable) = declaration at isDeclared
  have isHere : (wide.setVar index declaration).var index = declaration := by
    rw [var_setVar _ _ inTable, if_pos rfl]
  have widened := widens.add isArray new (congrArg Variable.size isMade).symm
  have others : ∀ other, other ≠ index →
      (wide.setVar index declaration).var other = wide.var other :=
    fun other differs => by rw [var_setVar _ _ inTable, if_neg differs]
  cases aligned with
  | false =>
      exact ⟨_, Outcome.bind_eq_ok.mpr ⟨_, isDeclared, rfl⟩, widened, others⟩
  | true =>
      have isAligned : (wide.setVar index declaration).setAligned index =
          .ok ((wide.setVar index declaration).setVar index
            { declaration with aligned := true }) := by
        unfold setAligned
        rw [isHere, ← isMade, if_pos isArray]
      refine ⟨_, Outcome.bind_eq_ok.mpr ⟨_, isDeclared,
        Outcome.bind_eq_ok.mpr ⟨_, isAligned, rfl⟩⟩,
          widened.add isArray new (congrArg Variable.size isMade).symm,
          fun other differs => ?_⟩
      rw [var_setVar _ _ inTable, if_neg differs, others other differs]

theorem Widens.arrays (widens : narrow.Widens size wide)
    (valid : Lane.validSize size = true) {spares : List (VarIndex × Bool)}
    (distinct : (spares.map Prod.fst).Nodup)
    (new : ∀ spare ∈ spares, (Var.roleOf spare.1).isArray = true ∧
      (narrow.var spare.1).declared = false)
    (free : ∀ spare ∈ spares, (wide.var spare.1).declared = false) :
    ∃ next, (spares.flatMap (Edit.array size)).foldlM Edit.apply wide =
      .ok next ∧
      narrow.Widens size next := by
  induction spares generalizing wide with
  | nil => exact ⟨wide, rfl, widens⟩
  | cons spare rest induction =>
      rw [List.map_cons, List.nodup_cons] at distinct
      rw [List.forall_mem_cons] at new free
      obtain ⟨⟨isArray, isNew⟩, newRest⟩ := new
      obtain ⟨middle, isMiddle, widened, others⟩ :=
        widens.array valid isArray isNew free.1
      obtain ⟨next, isNext, widened⟩ :=
        induction widened distinct.2 newRest fun later isLater => by
        rw [others _ fun same =>
          distinct.1 (same ▸ List.mem_map_of_mem isLater)]
        exact free.2 later isLater
      refine ⟨next, ?_, widened⟩
      rw [List.flatMap_cons, List.foldlM_append]
      exact Outcome.bind_eq_ok.mpr ⟨middle, isMiddle, isNext⟩

/-- Arrays of the common element size that a program does not have, and so none
of its instructions names, may be declared as well, aligned or not: the kernel
stays the same. -/
theorem compile_unused_arrays {options : CompileOptions}
    {kernel : CompiledKernel} (built : program.Built)
    (compiled : program.compile options = .ok kernel) {array : VarIndex}
    (isArray : array ∈ program.arrays) {spares : List (VarIndex × Bool)}
    (distinct : (spares.map Prod.fst).Nodup)
    (unused : ∀ spare ∈ spares, (Var.roleOf spare.1).isArray = true ∧
      (program.var spare.1).declared = false) :
    ∃ wider, (spares.flatMap (Edit.array (program.var array).size)).foldlM
      Edit.apply program = .ok wider ∧ wider.compile options = .ok kernel := by
  have isRole : (program.var array).role.isArray = true :=
    (List.mem_filter.mp isArray).2
  have valid := (built.slots array).size (declared_of_isArray isRole)
  obtain ⟨wider, isWider, widens⟩ :=
    (Widens.refl (program.var array).size program).arrays valid
    distinct unused fun spare isSpare => (unused spare isSpare).2
  refine ⟨wider, isWider, ?_⟩
  rw [compile_eq] at compiled ⊢
  obtain ⟨made, isPlan, compiled⟩ := Outcome.bind_eq_ok.mp compiled
  obtain ⟨body, planned⟩ := Compiler.planned_of_plan isPlan
  obtain ⟨lowered, isWidePlan, widened⟩ :=
    Compiler.plan_widens widens built ⟨array, isRole, rfl⟩ isPlan
  refine Outcome.bind_eq_ok.mpr ⟨_, isWidePlan, ?_⟩
  rw [Compiler.emitKernel_widens planned widened]
  exact compiled

/-- The increment with a second destination, which is aligned, and a second
source. -/
theorem compile_unused_arrays_increment :
    ∃ kernel wider, increment.compile {} = .ok kernel ∧
    [.declare 1 1, .setAligned 1, .declare 5 1].foldlM Edit.apply increment =
      .ok wider ∧
    wider.compile {} = .ok kernel := by
  obtain ⟨kernel, compiled, _⟩ := increment_kernel
  have isArray : (4 : VarIndex) ∈ increment.arrays := by decide +kernel
  have isSize : (increment.var 4).size = 1 := by decide +kernel
  obtain ⟨wider, isWider, same⟩ :=
    @compile_unused_arrays _ _ _ built_increment compiled _ isArray
    [(1, true), (5, false)] (by decide) (by decide +kernel)
  rw [isSize] at isWider
  exact ⟨kernel, wider, compiled, isWider, same⟩

end Program

end LaneKernel
