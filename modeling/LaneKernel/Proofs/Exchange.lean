import LaneKernel.Proofs.LoweredAccess

/-!
# Exchanges of instructions

When two neighbouring instructions may change places, and what follows for the
order in which a kernel performs a lowered program: the broadcasts that no
element changes come first, and loads move up.  What an element leaves in memory
does not depend on what the temporaries held before it.
-/

namespace LaneKernel.Reference

namespace Site

variable {site : Site} {state next first second : State} {opcode : Opcode}
  {instruction : Instruction} {index other : VarIndex} {word otherWord : UInt64}

theorem read_congr {size lanes width place : Nat}
    (readable : site.program.Readable opcode width place index)
    (memory : second.memory = first.memory)
    (temps : (site.program.var index).role = .temp →
      value second index = value first index) :
    site.read second index size lanes = site.read first index size lanes := by
  rcases readable.role with isSource | isTemp | isScalar
  · rw [read_source isSource, read_source isSource, memory]
  · rw [read_temp isTemp, read_temp isTemp, temps isTemp]
  · rw [read_scalar isScalar, read_scalar isScalar]

/-- A result depends on the memory and on the temporaries that the instruction
reads. -/
theorem result_congr (checked : site.program.Checked instruction opcode)
    (memory : second.memory = first.memory)
    (temps : ∀ index ∈ instruction.src, (site.program.var index).role = .temp →
      value second index = value first index) :
    site.result second opcode instruction =
      site.result first opcode instruction := by
  have reads : ∀ place index, instruction.src[place]? = some index →
      ∀ size lanes,
      site.read second index size lanes = site.read first index size lanes :=
    fun place index isIndex size lanes =>
      read_congr (checked.readable place index isIndex) memory
      (temps index (List.mem_of_getElem? isIndex))
  have firstReads := reads 0 _ checked.first
  obtain ⟨kind, size⟩ := opcode
  cases kind with
  | load | store | loadParam => exact firstReads _ _
  | loadOffset =>
      change second.memory.load _ _ = first.memory.load _ _
      rw [memory]
  | arith op =>
      have sameReads :
          (instruction.src.mapM fun index => site.read second index size
          instruction.lanes) = instruction.src.mapM fun index =>
            site.read first index size instruction.lanes := by
        generalize instruction.src = sources at reads
        induction sources with
        | nil => rfl
        | cons source rest induction =>
            rw [List.mapM_cons, List.mapM_cons, reads 0 source rfl,
              induction fun place index isIndex =>
                reads (place + 1) index isIndex]
      rw [result_arith rfl checked.sources, result_arith rfl checked.sources,
        sameReads]

theorem step_temp (isTemp : (site.program.var instruction.target).role = .temp)
    (isResult : site.result state opcode instruction = .ok word) :
    site.step state opcode instruction = (setValue state instruction.target
      (Lane.truncate word (site.program.var instruction.target).size.toNat),
        none) := by
  unfold step
  rw [isResult]
  exact write_temp isTemp

theorem step_dest (isDest : (site.program.var instruction.target).role = .dest)
    (isResult : site.result state opcode instruction = .ok word) :
    site.step state opcode instruction =
      (⟨state.values, (state.memory.store (site.address instruction.target 0)
        (site.program.var instruction.target).size.toNat
        (Lane.truncate word
          (site.program.var instruction.target).size.toNat)).1⟩,
      (state.memory.store (site.address instruction.target 0)
        (site.program.var instruction.target).size.toNat
        (Lane.truncate word
          (site.program.var instruction.target).size.toNat)).2) := by
  unfold step
  rw [isResult]
  exact write_dest isDest

theorem result_of_step
    (isStep : site.step state opcode instruction = (next, none)) :
    ∃ word, site.result state opcode instruction = .ok word := by
  unfold step at isStep
  split at isStep
  case h_1 word isResult => exact ⟨word, isResult⟩
  case h_2 => cases isStep

theorem runCode_cons_eq {rest : List (Opcode × Instruction)} :
    site.runCode state ((opcode, instruction) :: rest) = (next, none) ↔
      ∃ middle, site.step state opcode instruction = (middle, none) ∧
        site.runCode middle rest = (next, none) := by
  rw [runCode]
  rcases site.step state opcode instruction with ⟨middle, _ | fault⟩
  · constructor
    · exact fun isRest => ⟨middle, rfl, isRest⟩
    · rintro ⟨_, same, isRest⟩
      cases same
      exact isRest
  · constructor
    · intro isRest
      cases isRest
    · rintro ⟨_, same, _⟩
      cases same

theorem runCode_append_eq {front back : List (Opcode × Instruction)} :
    site.runCode state (front ++ back) = (next, none) ↔
      ∃ middle, site.runCode state front = (middle, none) ∧
        site.runCode middle back = (next, none) := by
  rw [runCode_append]
  rcases site.runCode state front with ⟨middle, _ | fault⟩
  · constructor
    · exact fun isBack => ⟨middle, rfl, isBack⟩
    · rintro ⟨_, same, isBack⟩
      cases same
      exact isBack
  · constructor
    · exact nofun
    · rintro ⟨_, same, _⟩
      cases same

theorem setValue_comm (inTable : 0 ≤ index ∧ index < 64)
    (otherInTable : 0 ≤ other ∧ other < 64) (differ : index ≠ other) :
    setValue (setValue state index word) other otherWord =
      setValue (setValue state other otherWord) index word := by
  rw [setValue_eq (Executor.place?_of_bounds inTable),
    setValue_eq (Executor.place?_of_bounds otherInTable),
    setValue_eq (Executor.place?_of_bounds inTable),
    setValue_eq (Executor.place?_of_bounds otherInTable)]
  congr 1
  apply Vector.set_comm
  intro same
  have sameNat : index.toNat = other.toNat := same
  rw [← Int.toNat_of_nonneg inTable.1, ← Int.toNat_of_nonneg otherInTable.1,
    sameNat] at differ
  exact differ rfl

end Site

/-- What a run leaves: its memory, and why it stopped. -/
def ending (outcome : State × Option Error) : FlatMemory × Option Error :=
  (outcome.1.memory, outcome.2)

/-- States with the same memory that agree on the written temporaries end in the
same way. -/
theorem ending_runCode {site : Site} {written : VarIndex → Prop}
    {code : List Instruction} (valid : site.program.Valid written code)
    {first second : State} (memory : second.memory = first.memory)
    (temps : ∀ index, written index → (site.program.var index).role = .temp →
      Site.value second index = Site.value first index) :
    ending (site.runCode second (resolve code)) =
      ending (site.runCode first (resolve code)) := by
  induction valid generalizing first second with
  | nil => exact congrArg (·, none) memory
  | @cons written instruction rest opcode checked reads _ induction =>
      rw [resolve_cons checked.found, Site.runCode, Site.runCode]
      have sameResult := Site.result_congr checked memory
        fun index isIndex isTemp =>
          temps index (reads index isIndex isTemp) isTemp
      cases isResult : site.result first opcode instruction with
      | error fault =>
          rw [isResult] at sameResult
          unfold Site.step
          rw [isResult, sameResult]
          exact congrArg (·, some _) memory
      | ok word =>
          rw [isResult] at sameResult
          rcases checked.target with isDest | isTemp
          · rw [Site.step_dest isDest isResult,
              Site.step_dest isDest sameResult, memory]
            rcases first.memory.store _ _ _ with ⟨stored, _ | fault⟩
            · refine induction rfl fun index isWritten isTemp => ?_
              rcases isWritten with rfl | isWritten
              · cases isDest.symm.trans isTemp
              · exact temps index isWritten isTemp
            · rfl
          · rw [Site.step_temp isTemp isResult,
              Site.step_temp isTemp sameResult]
            have inTable := Program.bounds_of_declared
              (Program.declared_eq_true.mpr (by rw [isTemp]; decide))
            apply induction
            · rw [Site.memory_setValue, Site.memory_setValue, memory]
            · intro index isWritten isIndexTemp
              rw [Site.value_setValue inTable, Site.value_setValue inTable]
              split
              case isTrue => rfl
              case isFalse differs =>
                exact temps index (isWritten.resolve_left differs) isIndexTemp

/-- An instruction may change places with the one in front of it. -/
structure Commutes (program : Program) (previous later : Opcode × Instruction) :
    Prop where
  isTemp : (program.var later.2.target).role = .temp
  differ : previous.2.target ≠ later.2.target
  notRead : later.2.target ∉ previous.2.src
  notWritten : previous.2.target ∉ later.2.src
  memory : (program.var previous.2.target).role = .temp ∨
    later.1.kind = .loadParam

section Exchange

variable {site : Site} {state last : State}
  {previous later : Opcode × Instruction} {rest : List (Opcode × Instruction)}

theorem Site.inTable_of_temp {index : VarIndex}
    (isTemp : (site.program.var index).role = .temp) : 0 ≤ index ∧ index < 64 :=
  Program.bounds_of_declared
    (Program.declared_eq_true.mpr (by rw [isTemp]; decide))

/-- An instruction computes the same behind the one that it changes places
with. -/
theorem Commutes.result_eq (commutes : Commutes site.program previous later)
    (checked : site.program.Checked previous.2 previous.1)
    (laterChecked : site.program.Checked later.2 later.1) {middle : State}
    (isStep : site.step state previous.1 previous.2 = (middle, none)) :
    site.result middle later.1 later.2 = site.result state later.1 later.2 := by
  obtain ⟨word, isWord⟩ := Site.result_of_step isStep
  rcases checked.target with isDest | isTemp
  · have isParam := commutes.memory.resolve_left (by rw [isDest]; decide)
    obtain ⟨⟨kind, size⟩, instruction⟩ := later
    obtain rfl : kind = .loadParam := isParam
    have isScalar :
        (site.program.var instruction.firstSource).role.isScalar = true :=
      laterChecked.moves
    exact (Site.read_scalar isScalar _ _).trans
      (Site.read_scalar isScalar _ _).symm
  · rw [Site.step_temp isTemp isWord] at isStep
    cases isStep
    apply Site.result_congr laterChecked Site.memory_setValue
    intro index isSource _
    rw [Site.value_setValue (Site.inTable_of_temp isTemp), if_neg]
    rintro rfl
    exact commutes.notWritten isSource

/-- The two orders of instructions that may change places. -/
theorem Commutes.swap (commutes : Commutes site.program previous later)
    (checked : site.program.Checked previous.2 previous.1)
    (laterChecked : site.program.Checked later.2 later.1)
    (isRun : site.runCode state (previous :: later :: rest) = (last, none)) :
    site.runCode state (later :: previous :: rest) = (last, none) := by
  obtain ⟨middle, isFirst, isMore⟩ := Site.runCode_cons_eq.mp isRun
  obtain ⟨both, isSecond, isRest⟩ := Site.runCode_cons_eq.mp isMore
  obtain ⟨word, isWord⟩ := Site.result_of_step isFirst
  obtain ⟨laterWord, isLaterWord⟩ := Site.result_of_step isSecond
  have laterTable := Site.inTable_of_temp commutes.isTemp
  rw [Site.step_temp commutes.isTemp isLaterWord] at isSecond
  rw [commutes.result_eq checked laterChecked isFirst] at isLaterWord
  have sameWord : site.result (Site.setValue state later.2.target
      (Lane.truncate laterWord (site.program.var later.2.target).size.toNat))
        previous.1 previous.2 = .ok word := by
    rw [← isWord]
    apply Site.result_congr checked Site.memory_setValue
    intro index isSource _
    rw [Site.value_setValue laterTable, if_neg]
    rintro rfl
    exact commutes.notRead isSource
  refine Site.runCode_cons_eq.mpr ⟨_,
    Site.step_temp commutes.isTemp isLaterWord,
    Site.runCode_cons_eq.mpr ⟨both, ?_, isRest⟩⟩
  rcases checked.target with isDest | isTemp
  · rw [Site.step_dest isDest isWord] at isFirst
    rw [Site.step_dest isDest sameWord, Site.memory_setValue]
    obtain ⟨isMiddle, isFine⟩ := Prod.mk.inj isFirst
    rw [isFine, ← (Prod.mk.inj isSecond).1, ← isMiddle,
      Site.setValue_eq (Executor.place?_of_bounds laterTable),
      Site.setValue_eq (Executor.place?_of_bounds laterTable)]
  · rw [Site.step_temp isTemp isWord] at isFirst
    rw [Site.step_temp isTemp sameWord, ← (Prod.mk.inj isSecond).1,
      ← (Prod.mk.inj isFirst).1,
      Site.setValue_comm (Site.inTable_of_temp isTemp) laterTable
      commutes.differ]

theorem Commutes.swap_behind (commutes : Commutes site.program previous later)
    (checked : site.program.Checked previous.2 previous.1)
    (laterChecked : site.program.Checked later.2 later.1)
    {front : List (Opcode × Instruction)}
    (isRun : site.runCode state (front ++ previous :: later :: rest) =
      (last, none)) :
    site.runCode state (front ++ later :: previous :: rest) = (last, none) := by
  obtain ⟨middle, isFront, isMore⟩ := Site.runCode_append_eq.mp isRun
  exact Site.runCode_append_eq.mpr ⟨middle, isFront,
    commutes.swap checked laterChecked isMore⟩

end Exchange

section Order

variable {site : Site} {state last : State}
  {code body : List (Opcode × Instruction)}

/-- A load may move above an instruction that does not touch memory. -/
theorem commutes_of_mayPass {program : Program}
    {previous load : Opcode × Instruction} (flat : program.Flat previous)
    (loadFlat : program.Flat load) (isLoad : load.1.isLoad = true)
    (mayPass : Opcode.mayPass previous load = true) :
    Commutes program previous load := by
  unfold Opcode.mayPass BodyStep.canSwap at mayPass
  simp only [Bool.and_eq_true, Bool.not_eq_true', bne_iff_ne,
    List.contains_eq_mem, decide_eq_false_iff_not] at mayPass
  obtain ⟨⟨⟨⟨notStore, _⟩, notWritten⟩, differ⟩, notRead⟩ := mayPass
  refine ⟨loadFlat.target ?_, differ, notRead, notWritten,
    .inl (flat.target ?_)⟩
  · intro isStore
    unfold Opcode.isLoad at isLoad
    rw [isStore] at isLoad
    cases isLoad
  · intro isStore
    have isStep : previous.1.isStore = true := by
      unfold Opcode.isStore
      rw [isStore]
      rfl
    exact absurd (notStore.symm.trans isStep) nofun

/-- Moving loads up changes nothing for an element that completes. -/
theorem runCode_reordered (reordered : Reordered code body)
    (flat : ∀ entry ∈ code, site.program.Flat entry)
    (isRun : site.runCode state code = (last, none)) :
    site.runCode state body = (last, none) := by
  induction reordered with
  | refl => exact isRun
  | @swap front back previous load isLoad mayPass =>
      have flatPrevious := flat previous (by simp)
      have flatLoad := flat load (by simp)
      exact (commutes_of_mayPass flatPrevious flatLoad isLoad
        mayPass).swap_behind flatPrevious.checked flatLoad.checked isRun
  | @trans first second third front _ firstInduction secondInduction =>
      exact secondInduction
        (fun entry isEntry => flat entry (front.perm.mem_iff.mpr isEntry))
        (firstInduction flat isRun)

/-- Instructions that may move above the one in front of them all. -/
theorem runCode_behind {previous : Opcode × Instruction}
    {moved rest : List (Opcode × Instruction)}
    (checked : site.program.Checked previous.2 previous.1)
    (movedChecked : ∀ entry ∈ moved, site.program.Checked entry.2 entry.1)
    (commutes : ∀ entry ∈ moved, Commutes site.program previous entry)
    (isRun : site.runCode state (previous :: (moved ++ rest)) = (last, none)) :
    site.runCode state (moved ++ previous :: rest) = (last, none) := by
  induction moved generalizing state with
  | nil => exact isRun
  | cons entry moved induction =>
      have swapped := (commutes entry List.mem_cons_self).swap checked
        (movedChecked entry List.mem_cons_self) isRun
      obtain ⟨middle, isStep, isMore⟩ := Site.runCode_cons_eq.mp swapped
      exact Site.runCode_cons_eq.mpr ⟨middle, isStep,
        induction (fun other isOther =>
          movedChecked other (List.mem_cons_of_mem _ isOther))
          (fun other isOther => commutes other (List.mem_cons_of_mem _ isOther))
            isMore⟩

/-- Marked instructions may be performed first. -/
theorem runCode_marked_first
    (checked : ∀ entry ∈ code, site.program.Checked entry.2 entry.1)
    (commutes : code.Pairwise fun previous entry => entry.2.invariant = true →
      previous.2.invariant = false → Commutes site.program previous entry)
    (isRun : site.runCode state code = (last, none)) :
    site.runCode state ((code.filter fun entry => entry.2.invariant) ++
      code.filter fun entry => !entry.2.invariant) = (last, none) := by
  induction code generalizing state with
  | nil => exact isRun
  | cons entry code induction =>
      obtain ⟨middle, isStep, isMore⟩ := Site.runCode_cons_eq.mp isRun
      obtain ⟨here, laterCommutes⟩ := List.pairwise_cons.mp commutes
      have sorted := Site.runCode_cons_eq.mpr ⟨middle, isStep, induction
        (fun other isOther => checked other (List.mem_cons_of_mem _ isOther))
        laterCommutes isMore⟩
      cases isMarked : entry.2.invariant with
      | true =>
          rw [List.filter_cons, if_pos isMarked, List.filter_cons,
            if_neg (by simp [isMarked])]
          exact sorted
      | false =>
          rw [List.filter_cons, if_neg (by simp [isMarked]), List.filter_cons,
            if_pos (by simp [isMarked])]
          apply runCode_behind (checked entry List.mem_cons_self) _ _ sorted
          · exact fun other isOther => checked other
              (List.mem_cons_of_mem _ (List.mem_of_mem_filter isOther))
          · intro other isOther
            obtain ⟨inCode, otherMarked⟩ := List.mem_filter.mp isOther
            exact here other inCode otherMarked isMarked

end Order

section Marked

variable {program lowered : Program}

/-- A temporary that an instruction of valid code reads was written in front of
it. -/
theorem written_before {written : VarIndex → Prop}
    {front back : List Instruction} {instruction : Instruction}
    (valid : program.Valid written (front ++ instruction :: back))
    {index : VarIndex} (isSource : index ∈ instruction.src)
    (isTemp : (program.var index).role = .temp) :
    written index ∨ ∃ earlier ∈ front, earlier.target = index := by
  generalize isCode : front ++ instruction :: back = code at valid
  induction valid generalizing front with
  | nil => simp at isCode
  | cons _ reads _ induction =>
      cases front with
      | nil =>
          cases isCode
          exact .inl (reads index isSource isTemp)
      | cons earlier front =>
          cases isCode
          rcases induction rfl with (isTarget | isWritten) |
            ⟨other, isOther, isTarget⟩
          · exact .inr ⟨_, List.mem_cons_self, isTarget.symm⟩
          · exact .inl isWritten
          · exact .inr ⟨other, List.mem_cons_of_mem _ isOther, isTarget⟩

/-- A slot with one writer has none in front of it. -/
theorem not_two_writers {front back : List Instruction} {index : VarIndex}
    (isSole : Program.writers (front ++ back) index = 1)
    {first second : Instruction} (isFirst : first ∈ front)
    (isSecond : second ∈ back) (firstWrites : first.target = index)
    (secondWrites : second.target = index) : False := by
  unfold Program.writers at isSole
  rw [List.countP_append] at isSole
  have isWriter : ∀ instruction : Instruction, instruction.target = index →
      (instruction.target == index) = true :=
    fun instruction writes => by simpa using writes
  have some : 0 < front.countP fun instruction => instruction.target == index :=
    List.countP_pos_iff.mpr ⟨first, isFirst, isWriter first firstWrites⟩
  have more : 0 < back.countP fun instruction => instruction.target == index :=
    List.countP_pos_iff.mpr ⟨second, isSecond, isWriter second secondWrites⟩
  omega

theorem sublist_resolve (code : List Instruction) :
    ((resolve code).map Prod.snd).Sublist code := by
  induction code with
  | nil => exact .slnil
  | cons instruction code induction =>
      unfold resolve at induction ⊢
      rw [List.filterMap_cons]
      cases Opcode.lookup? instruction.opcode with
      | none => exact induction.cons _
      | some opcode => exact induction.cons_cons _

variable (isLowered : program.lower = .ok lowered)
  (plain : ∀ instruction ∈ program.code.toList, instruction.invariant = false)

include isLowered plain

/-- Marked instructions may move to the front of a lowered program. -/
theorem pairwise_commutes :
    (resolveCode lowered).Pairwise fun previous entry =>
      entry.2.invariant = true →
      previous.2.invariant = false → Commutes lowered previous entry := by
  rw [List.pairwise_iff_forall_sublist]
  intro previous entry isPair isMarked _
  obtain ⟨inFront, inBack⟩ :
      previous ∈ resolveCode lowered ∧ entry ∈ resolveCode lowered :=
    ⟨isPair.subset (by simp), isPair.subset (by simp)⟩
  have flat := Program.flat_of_mem isLowered inFront
  have entryFlat := Program.flat_of_mem isLowered inBack
  have inCode := (opcode_of_mem inBack).2.2
  obtain ⟨_, isSole⟩ :=
    (Program.lower_invariant_iff isLowered plain inCode).mp isMarked
  have isParam := Program.kind_of_marked isLowered plain inBack isMarked
  have isTemp := entryFlat.target (by rw [isParam]; decide)
  -- The pair stands in the code, so the code splits between the two.
  have inList : [previous.2, entry.2].Sublist lowered.code.toList :=
    (isPair.map Prod.snd).trans (sublist_resolve _)
  obtain ⟨before, behind, isCode, isBefore, isBehind⟩ :=
    List.cons_sublist_iff.mp inList
  rw [List.singleton_sublist] at isBehind
  have valid := (Program.validate_eq_ok.mp (Program.validate_lower isLowered)).2
  rw [isCode] at isSole valid
  refine ⟨isTemp,
    fun same => not_two_writers isSole isBefore isBehind same rfl, ?_, ?_,
    .inr isParam⟩
  · intro isSource
    obtain ⟨front, middle, rfl⟩ := List.append_of_mem isBefore
    rw [List.append_assoc] at valid
    rcases written_before valid isSource isTemp with
      impossible | ⟨earlier, isEarlier, isTarget⟩
    · exact impossible
    · exact not_two_writers isSole (List.mem_append_left _ isEarlier) isBehind
        isTarget rfl
  · intro isSource
    have isScalar := entryFlat.checked.scalar_of_loadParam isParam
    obtain ⟨only, isOnly⟩ := List.length_eq_one_iff.mp
      (entryFlat.checked.sources.trans (by unfold Opcode.sources; rw [isParam]))
    have isFirst := entryFlat.checked.first
    rw [isOnly] at isFirst isSource
    rw [← Option.some.inj isFirst, ← List.mem_singleton.mp isSource] at isScalar
    rcases flat.checked.target with isDest | isTarget
    · rw [isDest] at isScalar
      cases isScalar
    · rw [isTarget] at isScalar
      cases isScalar

/-- An element that completes may perform the marked instructions first and the
others in the order of a kernel's body. -/
theorem runCode_kernel {site : Site} (isProgram : site.program = lowered)
    {state last : State} {body : List (Opcode × Instruction)}
    (reordered : Reordered
      ((resolveCode lowered).filter fun entry => !entry.2.invariant) body)
    (isRun : site.runCode state (resolveCode lowered) = (last, none)) :
    site.runCode state
      (((resolveCode lowered).filter fun entry => entry.2.invariant) ++ body) =
        (last, none) := by
  subst isProgram
  have flat : ∀ entry ∈ resolveCode site.program, site.program.Flat entry :=
    fun entry isEntry => Program.flat_of_mem isLowered isEntry
  have sorted :=
    runCode_marked_first (fun entry isEntry => (flat entry isEntry).checked)
    (pairwise_commutes isLowered plain) isRun
  obtain ⟨middle, isMarked, isRest⟩ := Site.runCode_append_eq.mp sorted
  exact Site.runCode_append_eq.mpr ⟨middle, isMarked,
    runCode_reordered reordered
      (fun entry isEntry => flat entry (List.mem_of_mem_filter isEntry)) isRest⟩

end Marked

end LaneKernel.Reference
