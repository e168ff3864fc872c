import LaneKernel.Proofs.Computation

/-!
# Steps of a kernel body

`Performed` says what one instruction of a lowered program does when its code
runs for a chunk: which bytes it moves, and which vector it leaves for its
target.  The code of a whole body performs its instructions one after the other,
so that an invariant of single instructions is one of the body.
-/

namespace LaneKernel

open Asm Contract

/-- An instruction reads or writes an array, some bytes away from its current
element. -/
structure Touch where
  write : Bool
  array : VarIndex
  shift : Int
deriving DecidableEq, Repr

/-- The bytes from the current element to the one that a load at an offset
reads. -/
def Instruction.shift (instruction : Instruction)
    (var : VarIndex → Variable) : Int :=
  (Lane.signExtend (var instruction.secondSource).value.toUInt64 4).toInt
    * (var instruction.firstSource).size

/-- The array that an instruction of a lowered program touches. -/
def Opcode.touch? (opcode : Opcode) (var : VarIndex → Variable)
    (instruction : Instruction) : Option Touch :=
  match opcode.kind with
  | .load => some ⟨false, instruction.firstSource, 0⟩
  | .loadOffset => some ⟨false, instruction.firstSource, instruction.shift var⟩
  | .store => some ⟨true, instruction.target, 0⟩
  | .loadParam | .arith _ => none

/-- The bytes that a touch takes for a chunk. -/
def EmitSite.region (site : EmitSite) (core : Core) (touch : Touch)
    (length : Nat) : Region :=
  ⟨site.address core touch.array + Core.distance touch.shift, length⟩

/-- The value of a constant or parameter. -/
def Executor.scalar (executor : Executor) (var : VarIndex → Variable)
    (index : VarIndex) : UInt64 :=
  if (var index).role = .const then (var index).value.toUInt64
  else executor.param index (var index).size

/-- A run may touch the bytes of a region. -/
structure Permits (setting : Setting) (site : EmitSite) (core : Core)
    (touch : Touch) (region : Region) : Prop where
  may : ∀ address ∈ region, setting.may touch.write address
  served : setting.mayTrap ∨ core.ram.Serves region
  aligned : site.inTail = true →
    Routines.wordAligned site touch.array touch.shift = true →
    setting.mayTrap ∨ region.start.toNat % 4 = 0

/-- What an instruction does for a chunk of which each touch takes a region. -/
structure Performed (site : EmitSite) (executor : Executor) (stack : UInt32)
    (region : Touch → Region) (opcode : Opcode) (instruction : Instruction)
    (before after : Core) :
    Prop where
  stepped : Stepped site stack instruction.target before after
  loaded : ∀ touch, opcode.touch? site.var instruction = some touch →
    touch.write = false →
    (region touch).Apart ⟨Frame.stage stack, 16⟩ →
      ∀ index < (region touch).length,
      (site.value after instruction.target).byte index =
        before.ram.peek ((region touch).start + UInt32.ofNat index)
  stored : ∀ touch, opcode.touch? site.var instruction = some touch →
    touch.write = true →
    ∀ index < (region touch).length,
      after.ram.peek ((region touch).start + UInt32.ofNat index) =
        (site.value before instruction.firstSource).byte index
  filled : opcode.kind = .loadParam → site.value after instruction.target =
    .filled opcode.size (executor.scalar site.var instruction.firstSource)
  computed : ∀ op, opcode.kind = .arith op →
    site.value after instruction.target =
    .computed op opcode.size (site.value before instruction.firstSource)
      (site.value before instruction.secondSource)
  peek : ∀ address ∉ (⟨Frame.stage stack, 16⟩ : Region),
    (∀ touch, opcode.touch? site.var instruction = some touch →
      touch.write = true →
      address ∉ region touch) →
    after.ram.peek address = before.ram.peek address

theorem Routines.loadOffset_eq_ok {site : EmitSite} {opcode : Opcode}
    {instruction : Instruction} {offset : Int}
    (isLoad : opcode.kind = .load ∨ opcode.kind = .loadOffset)
    (isOffset : Routines.loadOffset site (opcode.rule : Rule Unit).param
      instruction = .ok offset) :
    opcode.touch? site.var instruction =
      some ⟨false, instruction.firstSource, offset⟩ := by
  obtain ⟨kind, size⟩ := opcode
  rcases isLoad with isKind | isKind
  · change kind = .load at isKind
    subst isKind
    have plain : (Opcode.rule ⟨.load, size⟩ : Rule Unit).param.loadsAtOffset =
        false :=
      show ((0 : UInt8) &&& RuleParam.flagOffsetLoad != 0) = false by decide
    unfold Routines.loadOffset at isOffset
    rw [plain] at isOffset
    cases isOffset
    rfl
  · change kind = .loadOffset at isKind
    subst isKind
    have shifted :
        (Opcode.rule ⟨.loadOffset, size⟩ : Rule Unit).param.loadsAtOffset =
          true :=
      show (RuleParam.flagOffsetLoad &&& RuleParam.flagOffsetLoad != 0) =
        true by decide
    unfold Routines.loadOffset at isOffset
    rw [shifted] at isOffset
    simp only [Bool.not_true, Bool.false_eq_true, if_false] at isOffset
    split at isOffset
    case h_1 => cases isOffset
    case h_2 second isSecond =>
      split at isOffset
      case isTrue => cases isOffset
      case isFalse =>
        split at isOffset
        case isTrue => cases isOffset
        case isFalse =>
          have isShift : offset = instruction.shift site.var := by
            unfold Instruction.shift Instruction.secondSource
            rw [isSecond]
            exact (Except.ok.inj isOffset).symm
          rw [isShift]
          rfl

section Step

variable {setting : Setting} {goal : Goal} {site : EmitSite}
  {executor : Executor} {start stack : UInt32} {length : Nat} {core : Core}
  {log : List Access} {code rest : Fragment} {opcode : Opcode}
  {instruction : Instruction} {region : Touch → Region}

/-- The code of a broadcast fills the lanes of its target with the constant or
parameter. -/
theorem Routines.loadParam_leads {param : RuleParam}
    (isCode : Routines.loadParam site param instruction = .ok code)
    (params : (site.var instruction.firstSource).role = .param →
      (0 : Int) ≤ instruction.firstSource ∧
        instruction.firstSource + 8 < (64 : Int))
    (record : (site.var instruction.firstSource).role = .param →
      Record setting executor start core)
    (continues : ∀ wd next logged, site.vectors.lookup instruction.target =
      some wd →
      Broadcast wd param.width.toNat
        (executor.scalar site.var instruction.firstSource) core next →
      Leads setting goal rest next logged) :
    Leads setting goal (code ++ rest) core log := by
  obtain ⟨df, wd, isFormat, isTarget, shape⟩ := Routines.loadParam_eq_ok isCode
  obtain ⟨isNamed, isWidth⟩ := Routines.dataFormat_eq_ok isFormat
  have isSize : param.width.toNat = df.bytes := by
    rw [← isWidth]
    rfl
  rw [isSize] at continues shape
  unfold Executor.scalar at continues
  rcases shape with ⟨isConst, isShape⟩ | ⟨isParam, isShape⟩
  · rw [isShape]
    rw [if_pos isConst] at continues
    exact Leads.broadcastConst isNamed fun next =>
      continues wd next log isTarget
  · rw [isShape]
    rw [if_neg (by rw [isParam]; decide)] at continues
    exact Leads.broadcastParam (record isParam) isNamed (params isParam)
      fun next logged _ => continues wd next logged isTarget

theorem Opcode.loadParam_leads (isParam : opcode.kind = .loadParam)
    (sound : site.Sound)
    (params : ∀ index, (site.var index).role = .param → (0 : Int) ≤ index ∧
      index + 8 < (64 : Int))
    (record : Record setting executor start core)
    (codes : Emits ((Routine.ofPure Routines.loadParam : Routine Unit) site
      (opcode.rule : Rule Unit).param instruction) code)
    (continues : ∀ next logged,
      Performed site executor stack region opcode instruction core next →
      Leads setting goal rest next logged) :
    Leads setting goal (code ++ rest) core log := by
  obtain ⟨label, later, isCode⟩ := codes
  have isSize : (opcode.rule : Rule Unit).param.width.toNat = opcode.size := by
    unfold Opcode.rule
    rw [isParam]
    rfl
  have noTouch : opcode.touch? site.var instruction = none := by
    unfold Opcode.touch?
    rw [isParam]
  apply Routines.loadParam_leads (Routines.ofPure_eq_ok isCode)
    (params _) fun _ => record
  intro wd next logged isTarget broadcast
  rw [isSize] at broadcast
  have keeps : core.Keeps working [15, wd.index] next :=
    broadcast.keeps.mono (by decide) (List.subset_cons_self _ _)
  exact continues next logged {
    stepped := .of_keeps sound isTarget keeps (by rw [broadcast.ram])
      (by rw [broadcast.ram])
    loaded := fun touch isTouch => by cases noTouch.symm.trans isTouch
    stored := fun touch isTouch => by cases noTouch.symm.trans isTouch
    filled := fun _ => by rw [EmitSite.value_eq isTarget, broadcast.filled]
    computed := fun op isKind => by cases isParam.symm.trans isKind
    peek := fun address _ _ => by rw [broadcast.ram] }

section Access

variable (sound : site.Sound) (chunk : Chunk setting site stack length core)
  (permits : ∀ touch, opcode.touch? site.var instruction = some touch →
    site.region core touch length = region touch ∧
      Permits setting site core touch (region touch))
  (resolves : Resolves setting.target (code ++ rest))
  (continues : ∀ next logged,
    Performed site executor stack region opcode instruction core next →
    (∀ touch, opcode.touch? site.var instruction = some touch →
      Touched logged touch.write (region touch)) →
    Leads setting goal rest next logged)

include sound chunk permits resolves continues

theorem Opcode.load_leads
    (isLoad : opcode.kind = .load ∨ opcode.kind = .loadOffset)
    (codes : Emits
      (Routines.load site (opcode.rule : Rule Unit).param instruction) code) :
    Leads setting goal (code ++ rest) core log := by
  obtain ⟨label, later, isCode⟩ := codes
  obtain ⟨_, _, _, offset, _, _, _, isOffset, _⟩ := Routines.load_eq_ok isCode
  have isTouch := Routines.loadOffset_eq_ok isLoad isOffset
  obtain ⟨isRegion, may, served, aligned⟩ := permits _ isTouch
  rw [← isRegion] at may served aligned
  apply Routines.load_leads sound chunk isCode isOffset rfl may served aligned
    resolves
  intro next logged stepped peek loaded touched
  apply continues next logged
  · exact {
      stepped := stepped
      loaded := by
        intro touch isOther _
        cases isTouch.symm.trans isOther
        rw [← isRegion]
        exact loaded
      stored := by
        intro touch isOther isWrite
        cases isTouch.symm.trans isOther
        cases isWrite
      filled := by
        intro isKind
        rcases isLoad with isLoad | isLoad <;> cases isLoad.symm.trans isKind
      computed := by
        intro op isKind
        rcases isLoad with isLoad | isLoad <;> cases isLoad.symm.trans isKind
      peek := fun address outside _ => peek address outside }
  · intro touch isOther
    cases isTouch.symm.trans isOther
    rw [← isRegion]
    exact touched

theorem Opcode.store_leads (isStore : opcode.kind = .store)
    (codes : Emits
      (Routines.store site (opcode.rule : Rule Unit).param instruction) code) :
    Leads setting goal (code ++ rest) core log := by
  obtain ⟨label, later, isCode⟩ := codes
  have isTouch : opcode.touch? site.var instruction =
      some ⟨true, instruction.target, 0⟩ := by
    unfold Opcode.touch?
    rw [isStore]
  have isAddress : site.address core instruction.target =
      (site.region core ⟨true, instruction.target, 0⟩ length).start :=
    (UInt32.add_zero _).symm
  obtain ⟨isRegion, may, served, aligned⟩ := permits _ isTouch
  rw [← isRegion] at may served aligned
  apply Routines.store_leads sound chunk isCode isAddress may served aligned
    resolves
  intro next logged stepped peek stored touched
  apply continues next logged
  · exact {
      stepped := stepped
      loaded := by
        intro touch isOther isRead
        cases isTouch.symm.trans isOther
        cases isRead
      stored := by
        intro touch isOther _
        cases isTouch.symm.trans isOther
        rw [← isRegion]
        exact stored
      filled := by
        intro isKind
        cases isStore.symm.trans isKind
      computed := by
        intro op isKind
        cases isStore.symm.trans isKind
      peek := by
        intro address _ outside
        have apart := outside _ isTouch rfl
        rw [← isRegion] at apart
        exact peek address apart }
  · intro touch isOther
    cases isTouch.symm.trans isOther
    rw [← isRegion]
    exact touched

/-- The code of an instruction does what the instruction says. -/
theorem Opcode.step_leads (isOpcode : opcode ∈ Opcode.all)
    (params : ∀ index, (site.var index).role = .param → (0 : Int) ≤ index ∧
      index + 8 < (64 : Int))
    (record : Record setting executor start core)
    (codes : Emits
      ((opcode.rule : Rule Unit).emit site (opcode.rule : Rule Unit).param
      instruction) code) :
    Leads setting goal (code ++ rest) core log := by
  obtain ⟨kind, size⟩ := opcode
  cases kind with
  | load =>
      exact load_leads sound chunk permits resolves continues (.inl rfl) codes
  | loadOffset =>
      exact load_leads sound chunk permits resolves continues (.inr rfl) codes
  | store => exact store_leads sound chunk permits resolves continues rfl codes
  | loadParam =>
      apply Opcode.loadParam_leads rfl sound params record codes
      intro next logged performed
      exact continues next logged performed fun touch isTouch => by
        cases isTouch
  | arith op =>
      obtain ⟨label, later, isCode⟩ := codes
      apply ArithOp.leads isOpcode sound (Routines.ofPure_eq_ok isCode)
      intro next computed
      refine continues next log ?_ fun touch isTouch => by cases isTouch
      exact {
        stepped := computed.stepped
        loaded := fun touch isTouch => by cases isTouch
        stored := fun touch isTouch => by cases isTouch
        filled := fun isKind => by cases isKind
        computed := fun other isKind => by
          cases isKind
          exact computed.value
        peek := fun address _ _ => by rw [computed.ram] }

end Access

end Step

/-- An instruction of a lowered program as a step with the rule of its
opcode. -/
def Opcode.step (entry : Opcode × Instruction) : BodyStep Unit :=
  ⟨entry.2, entry.1.rule, entry.1.isLoad, entry.1.isStore⟩

section Body

variable {setting : Setting} {goal : Goal} {site : EmitSite}
  {executor : Executor} {start stack : UInt32} {length : Nat} {core next : Core}
  {log : List Access} {code rest : Fragment} {vectors : List RegNum}

theorem EmitSite.address_keep (sound : site.Sound)
    (keeps : core.Keeps working vectors next) (index : VarIndex) :
    site.address next index = site.address core index := by
  cases found : site.pointers.lookup index with
  | none =>
      unfold EmitSite.address
      rw [found]
      rfl
  | some register =>
      rw [EmitSite.address_eq found, EmitSite.address_eq found,
        keeps.reg _ (sound.pointer index register found)]

theorem EmitSite.region_keep (sound : site.Sound)
    (keeps : core.Keeps working vectors next) (touch : Touch) :
    site.region next touch length = site.region core touch length := by
  unfold EmitSite.region
  rw [EmitSite.address_keep sound keeps]

theorem Chunk.keep (chunk : Chunk setting site stack length core)
    (keeps : core.Keeps working vectors next)
    (base : next.ram.base = core.ram.base)
    (size : next.ram.size = core.ram.size) :
    Chunk setting site stack length next := by
  obtain ⟨small, isStack, whole, part, stages, stageServed⟩ := chunk
  have kept : Ram.Kept (fun _ _ => True) core.ram next.ram :=
    ⟨base, size, fun _ untouched => absurd trivial untouched⟩
  refine ⟨size ▸ small, (keeps.reg 29 (by decide)).trans isStack, whole, ?_,
    stages, ?_⟩
  · intro inTail
    obtain ⟨short, isLength, noOffset⟩ := part inTail
    exact ⟨short, (keeps.reg 10 (by decide)).trans isLength, noOffset⟩
  · exact stageServed.imp_right fun ⟨aligned, serves⟩ =>
      ⟨aligned, kept.serves serves⟩

theorem Permits.keep {touch : Touch} {region : Region}
    (permits : Permits setting site core touch region)
    (base : next.ram.base = core.ram.base)
    (size : next.ram.size = core.ram.size) :
    Permits setting site next touch region := by
  obtain ⟨may, served, aligned⟩ := permits
  have kept : Ram.Kept (fun _ _ => True) core.ram next.ram :=
    ⟨base, size, fun _ untouched => absurd trivial untouched⟩
  exact ⟨may, served.imp_right kept.serves, aligned⟩

/-- What the code of a body leaves behind. -/
structure Ran (setting : Setting) (site : EmitSite) (region : Touch → Region)
    (entries : List (Opcode × Instruction)) (before after : Core)
    (log : List Access) : Prop where
  keeps : before.Keeps working site.vectorRegs after
  kept : Ram.Kept setting.may before.ram after.ram
  touched : ∀ entry ∈ entries, ∀ touch, entry.1.touch? site.var entry.2 =
    some touch →
    Touched log touch.write (region touch)

/-- The code of a body performs its instructions in order; an invariant of the
instructions still to be performed holds to the end. -/
theorem StepsCode.leads {invariant : List (Opcode × Instruction) → Core → Prop}
    {entries : List (Opcode × Instruction)} {region : Touch → Region}
    (codes : StepsCode site (entries.map Opcode.step) code)
    (known : ∀ entry ∈ entries, entry.1 ∈ Opcode.all) (sound : site.Sound)
    (params : ∀ index, (site.var index).role = .param → (0 : Int) ≤ index ∧
      index + 8 < (64 : Int))
    (chunk : Chunk setting site stack length core)
    (record : Record setting executor start core)
    (safe : ∀ address ∈ (⟨start, Executor.recordSize⟩ : Region),
      ¬ setting.may true address)
    (permits : ∀ entry ∈ entries, ∀ touch, entry.1.touch? site.var entry.2 =
      some touch →
      site.region core touch length = region touch ∧
        Permits setting site core touch (region touch))
    (holds : invariant entries core)
    (advance : ∀ entry remaining before after,
      invariant (entry :: remaining) before →
        Performed site executor stack region entry.1 entry.2 before after →
      invariant remaining after)
    (resolves : Resolves setting.target (code ++ rest))
    (continues : ∀ next logged,
      Ran setting site region entries core next logged → invariant [] next →
        log <:+ logged → Leads setting goal rest next logged) :
    Leads setting goal (code ++ rest) core log := by
  induction entries generalizing code core log with
  | nil =>
      cases codes
      refine continues core log ⟨.refl core, .refl _, ?_⟩ holds
        (List.suffix_refl log)
      intro entry isEntry
      cases isEntry
  | cons entry remaining induction =>
      cases codes with
      | @cons _ _ first more stepCodes moreCodes =>
          rw [List.append_assoc] at resolves ⊢
          have run : Leads setting (Reaching (more ++ rest) fun middle logged =>
              Performed site executor stack region entry.1 entry.2 core middle ∧
              ∀ touch, entry.1.touch? site.var entry.2 = some touch →
                Touched logged touch.write (region touch))
              (first ++ (more ++ rest)) core log :=
            Opcode.step_leads sound chunk (permits entry List.mem_cons_self)
              resolves (fun middle logged performed touched =>
                .done ⟨rfl, performed, touched⟩)
              (known entry List.mem_cons_self) params record stepCodes
          apply run.keeping.bind
          rintro ahead middle logged ⟨⟨rfl, performed, touched⟩, kept, later⟩
          obtain ⟨keeps, base, size, _⟩ := performed.stepped
          refine induction moreCodes
            (fun other isOther => known other (List.mem_cons_of_mem _ isOther))
            (chunk.keep keeps base size)
            (record.keep (keeps.reg _ (by decide)) kept safe) ?_
            (advance entry remaining core middle holds performed)
              resolves.behind ?_
          · intro other isOther touch isTouch
            obtain ⟨isRegion, permitted⟩ :=
              permits other (List.mem_cons_of_mem _ isOther) touch isTouch
            exact ⟨(EmitSite.region_keep sound keeps touch).trans isRegion,
              permitted.keep base size⟩
          · intro next all ran finished further
            refine continues next all ⟨keeps.trans ran.keeps,
              kept.trans ran.kept, ?_⟩ finished (later.trans further)
            intro other isOther touch isTouch
            rcases List.mem_cons.mp isOther with rfl | isLater
            · exact (touched touch isTouch).mono further
            · exact ran.touched other isLater touch isTouch

end Body

end LaneKernel
