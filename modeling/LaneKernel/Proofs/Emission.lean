import LaneKernel.Proofs.LaneArithmetic
import LaneKernel.Proofs.Moves
import LaneKernel.Proofs.Rules

/-!
# What the code of a step does

The code of one step of a kernel loads a chunk of an array into the register of
a temporary, stores it, broadcasts a constant or parameter, or computes lane by
lane.
-/

namespace LaneKernel

open Asm Contract

theorem DataFormat.ofSize?_eq_some {df : DataFormat} {size : Int}
    (isFormat : ofSize? size = some df) :
    df.Named ∧ (df.bytes : Int) = size := by
  unfold ofSize? at isFormat
  repeat' split at isFormat
  all_goals cases isFormat
  all_goals exact ⟨by decide, by subst size; rfl⟩

namespace Routines

variable {site : EmitSite} {param : RuleParam} {instruction : Instruction}
  {label later : Label} {code : Fragment}

theorem dataFormat_eq_ok {df : DataFormat}
    (isFormat : dataFormat param = .ok df) :
    df.Named ∧ (df.bytes : Int) = param.width := by
  unfold dataFormat at isFormat
  split at isFormat
  case h_1 format found =>
    cases isFormat
    exact DataFormat.ofSize?_eq_some found
  case h_2 => cases isFormat

theorem vectorReg_eq_ok {index : VarIndex} {register : Reg}
    (found : site.vectorReg index = .ok register) :
    site.vectors.lookup index = some register := by
  unfold EmitSite.vectorReg at found
  split at found
  case h_1 isFound => exact isFound.trans (congrArg some (Except.ok.inj found))
  case h_2 => cases found

theorem pointerReg_eq_ok {index : VarIndex} {register : Reg}
    (found : site.pointerReg index = .ok register) :
    site.pointers.lookup index = some register := by
  unfold EmitSite.pointerReg at found
  split at found
  case h_1 isFound => exact isFound.trans (congrArg some (Except.ok.inj found))
  case h_2 => cases found

theorem load_eq_ok
    (isCode : (load site param instruction : EmitM Unit Fragment).outcome
      label = .ok (code, later)) :
    ∃ df wd pointer offset, dataFormat param = .ok df ∧
      site.vectors.lookup instruction.target = some wd ∧
      site.pointers.lookup instruction.firstSource = some pointer ∧
      loadOffset site param instruction = .ok offset ∧
      (site.inTail = true ∧ (∃ first, code = Staging.load wd pointer offset
          (wordAligned site instruction.firstSource offset) first) ∨
        site.inTail = false ∧
          (code = insn (.ld df wd pointer (site.offset + offset)) ∨
          code = addiu scratch pointer (site.offset + offset) ++
            insn (.ld df wd scratch 0))) := by
  unfold load at isCode
  obtain ⟨⟨df, wd, pointer, offset⟩, middle, isParts, isCode⟩ :=
    EmitM.outcome_bind_eq_ok.mp isCode
  obtain ⟨isPlain, isMiddle⟩ := EmitM.outcome_lift_eq_ok.mp isParts
  obtain ⟨df, isFormat, isParts⟩ := Outcome.bind_eq_ok.mp isPlain
  obtain ⟨wd, isTarget, isParts⟩ := Outcome.bind_eq_ok.mp isParts
  obtain ⟨pointer, isPointer, isParts⟩ := Outcome.bind_eq_ok.mp isParts
  obtain ⟨offset, isOffset, isParts⟩ := Outcome.bind_eq_ok.mp isParts
  cases isParts
  refine ⟨df, wd, pointer, offset, isFormat, vectorReg_eq_ok isTarget,
    pointerReg_eq_ok isPointer, isOffset, ?_⟩
  cases inTail : site.inTail with
  | true =>
      simp only [inTail, if_true] at isCode
      obtain ⟨first, next, isFirst, isCode⟩ :=
        EmitM.outcome_bind_eq_ok.mp isCode
      exact .inl ⟨rfl, first, (EmitM.outcome_pure_eq_ok.mp isCode).1⟩
  | false =>
      simp only [inTail, Bool.false_eq_true, if_false] at isCode
      refine .inr ⟨rfl, ?_⟩
      split at isCode
      · exact .inl (EmitM.outcome_pure_eq_ok.mp isCode).1
      · exact .inr (EmitM.outcome_pure_eq_ok.mp isCode).1

theorem store_eq_ok
    (isCode : (store site param instruction : EmitM Unit Fragment).outcome
      label = .ok (code, later)) :
    ∃ df pointer ws, dataFormat param = .ok df ∧
      site.pointers.lookup instruction.target = some pointer ∧
      site.vectors.lookup instruction.firstSource = some ws ∧
      (site.inTail = true ∧ (∃ first, code = Staging.store ws pointer
          (wordAligned site instruction.target 0) first) ∨
        site.inTail = false ∧ code = insn (.st df ws pointer site.offset)) := by
  unfold store at isCode
  obtain ⟨⟨df, pointer, ws⟩, middle, isParts, isCode⟩ :=
    EmitM.outcome_bind_eq_ok.mp isCode
  obtain ⟨isPlain, isMiddle⟩ := EmitM.outcome_lift_eq_ok.mp isParts
  obtain ⟨df, isFormat, isParts⟩ := Outcome.bind_eq_ok.mp isPlain
  obtain ⟨pointer, isPointer, isParts⟩ := Outcome.bind_eq_ok.mp isParts
  obtain ⟨ws, isSource, isParts⟩ := Outcome.bind_eq_ok.mp isParts
  cases isParts
  refine ⟨df, pointer, ws, isFormat, pointerReg_eq_ok isPointer,
    vectorReg_eq_ok isSource, ?_⟩
  cases inTail : site.inTail with
  | true =>
      simp only [inTail, if_true] at isCode
      obtain ⟨first, next, isFirst, isCode⟩ :=
        EmitM.outcome_bind_eq_ok.mp isCode
      exact .inl ⟨rfl, first, (EmitM.outcome_pure_eq_ok.mp isCode).1⟩
  | false =>
      simp only [inTail, Bool.false_eq_true, if_false] at isCode
      exact .inr ⟨rfl, (EmitM.outcome_pure_eq_ok.mp isCode).1⟩

theorem ofPure_eq_ok {routine : PureRoutine}
    (isCode : ((Routine.ofPure routine : Routine Unit) site param
      instruction).outcome label = .ok (code, later)) :
      routine site param instruction = .ok code := by
  rw [EmitM.outcome_ofPure] at isCode
  cases isResult : routine site param instruction with
  | error cause =>
      rw [isResult] at isCode
      cases isCode
  | ok found =>
      rw [isResult] at isCode
      cases isCode
      rfl

theorem loadParam_eq_ok (isCode : loadParam site param instruction = .ok code) :
    ∃ df wd, dataFormat param = .ok df ∧
      site.vectors.lookup instruction.target = some wd ∧
      ((site.var instruction.firstSource).role = .const ∧
          code = broadcastConst df wd param.width.toNat
            (site.var instruction.firstSource).value.toUInt64 ∨
        (site.var instruction.firstSource).role = .param ∧
          code = broadcastParam df wd param.width.toNat instruction.firstSource
            (site.var instruction.firstSource).size) := by
  unfold loadParam at isCode
  obtain ⟨df, isFormat, isCode⟩ := Outcome.bind_eq_ok.mp isCode
  obtain ⟨wd, isTarget, isCode⟩ := Outcome.bind_eq_ok.mp isCode
  refine ⟨df, wd, isFormat, vectorReg_eq_ok isTarget, ?_⟩
  simp only at isCode
  split at isCode
  case h_1 isConst =>
    cases isCode
    exact .inl ⟨isConst, rfl⟩
  case h_2 isParam =>
    cases isCode
    exact .inr ⟨isParam, rfl⟩
  case h_3 => cases isCode

end Routines

/-- The address of the staging area behind a stack pointer. -/
def Frame.stage (stack : UInt32) : UInt32 := stack + UInt32.ofNat Frame.staging

namespace EmitSite

/-- The vector that stands for a temporary. -/
def value (site : EmitSite) (core : Core) (index : VarIndex) : VectorRegister :=
  core.vector ((site.vectors.lookup index).getD .zero).index

/-- The address of the chunk of an array that the code at a site handles. -/
def address (site : EmitSite) (core : Core) (index : VarIndex) : UInt32 :=
  core.reg ((site.pointers.lookup index).getD .zero).index +
    UInt32.ofNat site.offset

/-- The vector registers that code at a site may set. -/
def vectorRegs (site : EmitSite) : List RegNum :=
  15 :: site.vectors.map fun entry => entry.2.index

/-- The registers of a site are apart from those with a fixed part and from each
other. -/
structure Sound (site : EmitSite) : Prop where
  pointer : ∀ index register, site.pointers.lookup index = some register →
    register.index ∉ working
  vector : ∀ index register, site.vectors.lookup index = some register →
    register.index ≠ 15
  distinct : ∀ first second register other,
    site.vectors.lookup first = some register → site.vectors.lookup second =
      some other → register.index = other.index → first = second

theorem mem_vectorRegs {site : EmitSite} {index : VarIndex} {register : Reg}
    (found : site.vectors.lookup index = some register) :
    register.index ∈ site.vectorRegs := by
  obtain ⟨before, behind, isVectors, _⟩ := List.lookup_eq_some_iff.mp found
  apply List.mem_cons_of_mem
  rw [isVectors]
  simp

end EmitSite

/-- What the code for a chunk of `length` bytes relies on. -/
structure Chunk (setting : Setting) (site : EmitSite) (stack : UInt32)
    (length : Nat) (core : Core) : Prop where
  small : core.ram.size < 2 ^ 32
  isStack : core.reg 29 = stack
  whole : site.inTail = false → length = 16
  part : site.inTail = true → length < 16 ∧ core.reg 10 = UInt32.ofNat length ∧
    site.offset = 0
  stages : ∀ address ∈ (⟨Frame.stage stack, 16⟩ : Region), ∀ write,
    setting.may write address
  stageServed : setting.mayTrap ∨ stack.toNat % 4 = 0 ∧
    core.ram.Serves ⟨Frame.stage stack, 16⟩

/-- What every step leaves as it was. -/
structure Stepped (site : EmitSite) (stack : UInt32) (target : VarIndex)
    (before after : Core) :
    Prop where
  keeps : before.Keeps working site.vectorRegs after
  base : after.ram.base = before.ram.base
  size : after.ram.size = before.ram.size
  value : ∀ index ≠ target, (site.vectors.lookup index).isSome →
    site.value after index = site.value before index

section Steps

variable {setting : Setting} {goal : Goal} {site : EmitSite} {stack : UInt32}
  {length : Nat} {core : Core} {log : List Access} {rest : Fragment}
  {param : RuleParam} {instruction : Instruction} {label later : Label}
  {code : Fragment}

theorem EmitSite.value_eq {index : VarIndex} {register : Reg}
    (found : site.vectors.lookup index = some register) :
    site.value core index = core.vector register.index := by
  unfold EmitSite.value
  rw [found]
  rfl

theorem EmitSite.address_eq {index : VarIndex} {register : Reg}
    (found : site.pointers.lookup index = some register) :
    site.address core index =
      core.reg register.index + UInt32.ofNat site.offset := by
  unfold EmitSite.address
  rw [found]
  rfl

theorem Stepped.of_keeps (sound : site.Sound) {target : VarIndex} {wd : Reg}
    {after : Core} (found : site.vectors.lookup target = some wd)
    (keeps : core.Keeps working [15, wd.index] after)
    (base : after.ram.base = core.ram.base)
    (size : after.ram.size = core.ram.size) :
    Stepped site stack target core after where
  keeps := by
    apply keeps.mono (List.Subset.refl _)
    intro register isChanged
    simp only [List.mem_cons, List.not_mem_nil, or_false] at isChanged
    rcases isChanged with rfl | rfl
    · exact List.mem_cons_self
    · exact EmitSite.mem_vectorRegs found
  base := base
  size := size
  value index other isHeld := by
    obtain ⟨register, isRegister⟩ := Option.isSome_iff_exists.mp isHeld
    rw [EmitSite.value_eq isRegister, EmitSite.value_eq isRegister]
    apply keeps.vector
    simp only [List.mem_cons, List.not_mem_nil, or_false, not_or]
    exact ⟨sound.vector index register isRegister,
      fun same => other
        (sound.distinct index target register wd isRegister found same)⟩

theorem Stepped.of_keeps_scratch (sound : site.Sound) {target : VarIndex}
    {after : Core} (keeps : core.Keeps working [15] after)
    (base : after.ram.base = core.ram.base)
    (size : after.ram.size = core.ram.size) :
    Stepped site stack target core after where
  keeps := by
    apply keeps.mono (List.Subset.refl _)
    intro register isChanged
    rw [List.mem_singleton.mp isChanged]
    exact List.mem_cons_self
  base := base
  size := size
  value index _ isHeld := by
    obtain ⟨register, isRegister⟩ := Option.isSome_iff_exists.mp isHeld
    rw [EmitSite.value_eq isRegister, EmitSite.value_eq isRegister]
    apply keeps.vector
    rw [List.mem_singleton]
    exact sound.vector index register isRegister

theorem Chunk.loadSite (chunk : Chunk setting site stack length core)
    (inTail : site.inTail = true) {source : UInt32} {aligned : Bool}
    (reads : ∀ address ∈ (⟨source, length⟩ : Region), setting.may false address)
    (served : setting.mayTrap ∨ core.ram.Serves ⟨source, length⟩)
    (atWord : aligned = true → setting.mayTrap ∨ source.toNat % 4 = 0) :
    Moves.LoadSite setting core source (Frame.stage stack) length aligned where
  small := chunk.small
  short := (chunk.part inTail).1
  reads := reads
  stages address inside := chunk.stages address inside true
  served := served
  stageServed := chunk.stageServed.imp_right fun ⟨stackAtWord, serves⟩ =>
    ⟨Moves.toNat_add_mod_four stackAtWord (show Frame.staging % 4 = 0 by
      decide), serves⟩
  wordAligned := atWord

theorem Moves.loadWhole {df : DataFormat} (isNamed : df.Named)
    {wd pointer : Reg} {offset : Int} {source : UInt32}
    (isSource : core.reg pointer.index + Core.distance offset = source)
    (small : core.ram.size < 2 ^ 32)
    (reads : ∀ address ∈ (⟨source, 16⟩ : Region), setting.may false address)
    (served : setting.mayTrap ∨ core.ram.Serves ⟨source, 16⟩)
    (shape : code = insn (.ld df wd pointer offset) ∨
      code = addiu scratch pointer offset ++ insn (.ld df wd scratch 0))
    (continues : ∀ next logged,
      Moves.Loaded core wd.index source (Frame.stage stack) 16 next logged →
      Leads setting goal rest next logged) :
    Leads setting goal (code ++ rest) core log := by
  have loaded : ∀ before : Core, core.Keeps working [wd.index] before →
      before.ram = core.ram →
      ∀ logged, log <:+ logged → Touched logged false ⟨source, 16⟩ →
      Leads setting goal rest
        (before.setVector wd.index (before.ram.vectorAt source)) logged := by
    intro before keeps sameRam logged _ touched
    apply continues
    exact {
      keeps := keeps.setVector List.mem_cons_self _
      base := by rw [Core.ram_setVector, sameRam]
      size := by rw [Core.ram_setVector, sameRam]
      peek := fun address _ => by rw [Core.ram_setVector, sameRam]
      loaded := fun _ index below => by
        rw [Core.vector_setVector, if_pos rfl, Moves.byte_vectorAt _ _ below,
          sameRam]
      touched := touched }
  rcases shape with rfl | rfl
  · exact Leads.ld isNamed source isSource small reads served
      (loaded core (.refl core) rfl)
  · rw [List.append_assoc]
    apply Leads.addiu
    apply Leads.ld isNamed source
    · rw [Core.reg_setReg_same _ _ _ (by decide), isSource]
      exact UInt32.add_zero source
    · simpa using small
    · exact reads
    · simpa using served
    · exact loaded _ ((Core.Keeps.refl core).setReg (by decide) _) (by simp)

/-- The code of a load fills the register of its target with the bytes of the
chunk. -/
theorem Routines.load_leads (sound : site.Sound)
    (chunk : Chunk setting site stack length core)
    (isCode : (Routines.load site param instruction : EmitM Unit
      Fragment).outcome label = .ok (code, later))
    {shift : Int} (isShift : Routines.loadOffset site param instruction =
      .ok shift)
    {source : UInt32}
    (isSource : site.address core instruction.firstSource +
      Core.distance shift = source)
    (reads : ∀ address ∈ (⟨source, length⟩ : Region), setting.may false address)
    (served : setting.mayTrap ∨ core.ram.Serves ⟨source, length⟩)
    (aligned : site.inTail = true →
      Routines.wordAligned site instruction.firstSource shift = true →
      setting.mayTrap ∨ source.toNat % 4 = 0)
    (resolves : Resolves setting.target (code ++ rest))
    (continues : ∀ next logged,
      Stepped site stack instruction.target core next →
        (∀ address ∉ (⟨Frame.stage stack, 16⟩ : Region),
        next.ram.peek address = core.ram.peek address) →
      (Region.Apart ⟨source, length⟩ ⟨Frame.stage stack, 16⟩ → ∀ index < length,
        (site.value next instruction.target).byte index =
          core.ram.peek (source + UInt32.ofNat index)) →
      Touched logged false ⟨source, length⟩ →
        Leads setting goal rest next logged) :
    Leads setting goal (code ++ rest) core log := by
  obtain ⟨df, wd, pointer, offset, isFormat, isTarget, isPointer, isOffset,
    shape⟩ :=
    Routines.load_eq_ok isCode
  cases isShift.symm.trans isOffset
  rw [EmitSite.address_eq isPointer] at isSource
  have loaded : ∀ next logged,
      Moves.Loaded core wd.index source (Frame.stage stack) length next logged →
      Leads setting goal rest next logged := by
    intro next logged loaded
    refine continues next logged ?_ loaded.peek ?_ loaded.touched
    · exact .of_keeps sound isTarget
        (loaded.keeps.mono (List.Subset.refl _) (List.subset_cons_self _ _))
        loaded.base loaded.size
    · rw [EmitSite.value_eq isTarget]
      exact loaded.loaded
  rcases shape with ⟨inTail, first, isStaged⟩ | ⟨notTail, isDirect⟩
  · rw [isStaged] at resolves ⊢
    obtain ⟨_, isLength, noOffset⟩ := chunk.part inTail
    rw [noOffset, show UInt32.ofNat 0 = 0 from rfl, UInt32.add_zero] at isSource
    refine Moves.load (chunk.loadSite inTail reads served (aligned inTail))
      isLength isSource ?_ (sound.pointer _ _ isPointer)
        (fun address inside => chunk.stages address inside false)
      resolves loaded
    rw [chunk.isStack, Core.distance_natCast]
    rfl
  · obtain rfl := chunk.whole notTail
    obtain ⟨isNamed, _⟩ := Routines.dataFormat_eq_ok isFormat
    refine Moves.loadWhole isNamed ?_ chunk.small reads served isDirect loaded
    rw [Core.distance_add, Core.distance_natCast, ← UInt32.add_assoc]
    exact isSource

theorem Moves.storeWhole {df : DataFormat} (isNamed : df.Named)
    {ws pointer : Reg} {offset : Int} {target : UInt32}
    (isTarget : core.reg pointer.index + Core.distance offset = target)
    (small : core.ram.size < 2 ^ 32)
    (writes : ∀ address ∈ (⟨target, 16⟩ : Region), setting.may true address)
    (served : setting.mayTrap ∨ core.ram.Serves ⟨target, 16⟩)
    (continues : ∀ next logged,
      Moves.Stored core (core.vector ws.index) target 16 next logged →
        Leads setting goal rest next logged) :
    Leads setting goal (insn (.st df ws pointer offset) ++ rest) core log := by
  apply Leads.st isNamed target isTarget writes served
  intro logged _ touched present
  have isLength : (core.vector ws.index).toList.length = 16 := by simp
  apply continues
  exact {
    keeps := (Core.Keeps.refl core).store _ _
    base := rfl
    size := by simp
    peek := by
      intro address outside
      rw [← isLength] at outside
      exact Ram.peek_store_of_not_mem small.le
        (by rw [isLength]; exact present) outside
    stored := by
      intro index below
      rw [Core.ram_store,
        Ram.peek_store_of_mem small.le (by rw [isLength]; exact present)
          (by rw [isLength]; decide) (by rw [isLength]; exact below)]
      exact VectorRegister.getElem_toList _ _
    touched := touched }

/-- The code of a store writes the chunk. -/
theorem Routines.store_leads (sound : site.Sound)
    (chunk : Chunk setting site stack length core)
    (isCode : (Routines.store site param instruction : EmitM Unit
      Fragment).outcome label = .ok (code, later))
    {target : UInt32} (isTarget : site.address core instruction.target = target)
    (writes : ∀ address ∈ (⟨target, length⟩ : Region), setting.may true address)
    (served : setting.mayTrap ∨ core.ram.Serves ⟨target, length⟩)
    (aligned : site.inTail = true →
      Routines.wordAligned site instruction.target 0 = true →
      setting.mayTrap ∨ target.toNat % 4 = 0)
    (resolves : Resolves setting.target (code ++ rest))
    (continues : ∀ next logged,
      Stepped site stack instruction.target core next →
        (∀ address ∉ (⟨target, length⟩ : Region),
        next.ram.peek address = core.ram.peek address) →
      (∀ index < length, next.ram.peek (target + UInt32.ofNat index) =
        (site.value core instruction.firstSource).byte index) →
      Touched logged true ⟨target, length⟩ →
        Leads setting goal rest next logged) :
    Leads setting goal (code ++ rest) core log := by
  obtain ⟨df, pointer, ws, isFormat, isPointer, isSource, shape⟩ :=
    Routines.store_eq_ok isCode
  rw [EmitSite.address_eq isPointer] at isTarget
  rw [EmitSite.value_eq isSource] at continues
  have stored : ∀ next logged,
      Moves.Stored core (core.vector ws.index) target length next logged →
        Leads setting goal rest next logged :=
    fun next logged stored => continues next logged
      (.of_keeps_scratch sound stored.keeps stored.base stored.size) stored.peek
      stored.stored
      stored.touched
  rcases shape with ⟨inTail, first, isStaged⟩ | ⟨notTail, isDirect⟩
  · rw [isStaged] at resolves ⊢
    obtain ⟨short, isLength, noOffset⟩ := chunk.part inTail
    rw [noOffset, show UInt32.ofNat 0 = 0 from rfl, UInt32.add_zero] at isTarget
    have siteFacts : Moves.StoreSite setting core target length
        (Routines.wordAligned site instruction.target 0) :=
      ⟨chunk.small, short, writes, served, aligned inTail⟩
    exact Moves.store siteFacts isLength isTarget (sound.pointer _ _ isPointer)
      resolves stored
  · obtain rfl := chunk.whole notTail
    obtain ⟨isNamed, _⟩ := Routines.dataFormat_eq_ok isFormat
    rw [isDirect]
    refine Moves.storeWhole isNamed ?_ chunk.small writes served stored
    rw [Core.distance_natCast]
    exact isTarget

end Steps

end LaneKernel
