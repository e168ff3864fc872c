import LaneKernel.Proofs.CallSites
import LaneKernel.Proofs.ElementRuns
import LaneKernel.Proofs.RegisterLanes

/-!
# Elements in lanes

While the body of a kernel runs over a chunk, every lane of its registers
follows the interpreter on one element.  An instruction that the interpreter
completes for the element keeps the lane in step.
-/

namespace LaneKernel

open Compiler Reference

namespace Compilation

variable {program : Program} {options : CompileOptions} {site : CallSite}
  (compilation : Compilation program options site.kernel)

/-- The size of the elements of all arrays. -/
abbrev width : Nat := 2 ^ compilation.plan.shift

/-- An element of the lowered program. -/
abbrev element (row element : Nat) : Reference.Site :=
  ⟨compilation.plan.program, site.executor, row, element⟩

theorem width_pos : 0 < compilation.width := Nat.two_pow_pos _

theorem width_le : compilation.width ≤ 8 :=
  Nat.pow_le_pow_right (by decide) compilation.shift_le

theorem width_dvd : compilation.width ∣ 16 :=
  Nat.pow_dvd_pow 2 (show compilation.plan.shift ≤
    4 from compilation.shift_le.trans (by decide))

theorem flat {entry : Opcode × Instruction}
    (isEntry : entry ∈ compilation.body) :
    compilation.plan.program.Flat entry :=
  Program.flat_of_mem compilation.planned.lowered
    (compilation.planned.mem_resolveCode isEntry).1

theorem size_array_lowered {index : VarIndex}
    (isArray : (compilation.plan.program.var index).role.isArray = true) :
    (compilation.plan.program.var index).size = (compilation.width : Int) :=
  (Compiler.elementShift_eq_ok compilation.planned.shift).2.2 index isArray

theorem has_vector (built : program.Built) {index : VarIndex}
    (isTemp : (compilation.plan.program.var index).role = .temp) :
    (compilation.tourAt.site.vectors.lookup index).isSome := by
  have declared : (compilation.plan.program.var index).declared = true :=
    Program.declared_eq_true.mpr (by rw [isTemp]; decide)
  have isSlot := Program.temp_slot compilation.planned.lowered built isTemp
  have isVector : index ∈ compilation.plan.vectors.map Prod.fst := by
    rw [compilation.planned.vectors]
    exact List.mem_filter.mpr ⟨isSlot, declared⟩
  obtain ⟨entry, isEntry, rfl⟩ := List.mem_map.mp isVector
  exact List.lookup_isSome_iff.mpr ⟨entry, isEntry, beq_self_eq_true _⟩

/-- A lane of every register holds the value of its temporary. -/
def Mirrors (core : Core) (number : Nat) (state : State) : Prop :=
  ∀ index, (compilation.plan.program.var index).role = .temp →
    (compilation.plan.program.var index).size = (compilation.width : Int) →
    Site.value state index =
      (compilation.tourAt.site.value core index).lane compilation.width number

variable {compilation} {before after : Core} {number : Nat} {state : State}
  {opcode : Opcode} {instruction : Instruction} {region : Touch → Region}
  {row element : Nat}

theorem Mirrors.setValue {core : Core} {target : VarIndex} {word : UInt64}
    (isTemp : (compilation.plan.program.var target).role = .temp)
    (isLane : (compilation.plan.program.var target).size =
      (compilation.width : Int) →
      word = (compilation.tourAt.site.value core target).lane
        compilation.width number)
    (others : ∀ index : VarIndex, index ≠ target →
      (compilation.plan.program.var index).role = .temp →
      (compilation.plan.program.var index).size = (compilation.width : Int) →
      Site.value state index =
        (compilation.tourAt.site.value core index).lane compilation.width
          number) :
    compilation.Mirrors core number (Site.setValue state target word) := by
  intro index isIndexTemp isSize
  rw [Site.value_setValue (Program.bounds_of_declared
    (Program.declared_eq_true.mpr (by rw [isTemp]; decide)))]
  split
  case isTrue same =>
    rw [same] at isSize ⊢
    exact isLane isSize
  case isFalse differs => exact others index differs isIndexTemp isSize

/-- A new value of a temporary is mirrored if it is the new lane. -/
theorem Mirrors.set (built : program.Built)
    (mirrors : compilation.Mirrors before number state) {target : VarIndex}
    {stack : UInt32} {word : UInt64}
    (stepped : Stepped compilation.tourAt.site stack target before after)
    (isTemp : (compilation.plan.program.var target).role = .temp)
    (isLane : (compilation.plan.program.var target).size =
      (compilation.width : Int) →
      word = (compilation.tourAt.site.value after target).lane compilation.width
        number) :
    compilation.Mirrors after number (Site.setValue state target word) := by
  refine .setValue isTemp isLane fun index differs isIndexTemp isSize => ?_
  rw [stepped.value index differs (compilation.has_vector built isIndexTemp)]
  exact mirrors index isIndexTemp isSize

theorem lane_param (flat : compilation.plan.program.Flat (opcode, instruction))
    (isSize : (compilation.plan.program.var instruction.target).size =
      (compilation.width : Int))
    (inside : (number + 1) * compilation.width ≤ 16) (word : UInt64) :
    (VectorRegister.filled opcode.size word).lane compilation.width number =
      Lane.truncate (Lane.replicate word opcode.size instruction.lanes)
        compilation.width := by
  have isWidth : compilation.width = opcode.size * instruction.lanes := by
    exact_mod_cast isSize.symm.trans flat.checked.size
  have product := compilation.width_pos
  have small := compilation.width_le
  rw [isWidth] at product small inside ⊢
  exact VectorRegister.lane_filled (Nat.pos_of_mul_pos_right product)
    (Nat.pos_of_mul_pos_left product) small inside word

section Step

variable {next : State} (built : program.Built)
  (flat : compilation.plan.program.Flat (opcode, instruction))
  (mirrors : compilation.Mirrors before number state)
  (performed : Performed compilation.tourAt.site site.executor
    compilation.tourAt.stack region opcode instruction before after)
  (inside : (number + 1) * compilation.width ≤ 16)

include flat mirrors performed inside

/-- The lane of a computed register is the result of the interpreter. -/
theorem Mirrors.computed {op : ArithOp} (isArith : opcode.kind = .arith op)
    (isSize : (compilation.plan.program.var instruction.target).size =
      (compilation.width : Int))
    {word : UInt64}
    (isWord : (compilation.element row element).result state opcode
      instruction = .ok word) :
    Lane.truncate word compilation.width =
      (compilation.tourAt.site.value after instruction.target).lane
        compilation.width number := by
  have checked := flat.checked
  have isWidth : compilation.width = opcode.size * instruction.lanes := by
    exact_mod_cast isSize.symm.trans checked.size
  have areTemps := flat.sources op isArith
  have isLane : ∀ index ∈ instruction.src, Site.value state index =
      (compilation.tourAt.site.value before index).lane compilation.width
      number := by
    intro index isIndex
    obtain ⟨place, isPlace⟩ := List.mem_iff_getElem?.mp isIndex
    have isTemp := areTemps index isIndex
    apply mirrors index isTemp
    rw [(checked.readable place index isPlace).size.resolve_left
      (by rw [isTemp]; decide)]
    exact_mod_cast isWidth.symm
  have positive : 0 < opcode.size ∧ 0 < instruction.lanes := by
    have product := compilation.width_pos
    rw [isWidth] at product
    exact ⟨Nat.pos_of_mul_pos_right product, Nat.pos_of_mul_pos_left product⟩
  have small := compilation.width_le
  rw [isWidth] at small inside isLane ⊢
  rw [performed.computed op isArith,
    VectorRegister.lane_computed _ _ positive.1 positive.2 small inside]
  rw [Site.result_arith isArith checked.sources, Site.readTemps areTemps]
    at isWord
  have isValue : Site.combine op opcode.size instruction.lanes
      (instruction.src.map (Site.value state)) = word := Except.ok.inj isWord
  have count := checked.sources
  rw [Opcode.sources, isArith] at count
  rw [← isValue]
  unfold Site.combine Instruction.firstSource Instruction.secondSource
    Instruction.source?
  rcases isSrc : instruction.src with
    _ | ⟨first, _ | ⟨second, _ | ⟨third, rest⟩⟩⟩
  all_goals rw [isSrc] at count isLane
  · cases op <;> cases count
  · obtain rfl : op = .copy := by cases op <;> first | rfl | cases count
    change Lane.truncate
      (ArithOp.copy.evalLanes _ (Site.value state first) 0 _) _ = _
    rw [isLane first List.mem_cons_self]
    rfl
  · change Lane.truncate
      (op.evalLanes _ (Site.value state first) (Site.value state second) _) _ =
      _
    rw [isLane first List.mem_cons_self, isLane second (by simp)]
    rfl
  · cases op <;> cases count

include built

/-- An instruction that writes a temporary keeps a lane in step. -/
theorem Mirrors.step (notStore : opcode.kind ≠ .store)
    (loads : ∀ index distance,
      (compilation.element row element).Reads opcode instruction index
        distance → ∀ place < compilation.width,
      (compilation.tourAt.site.value after instruction.target).byte
          (number * compilation.width + place) =
        state.memory.byteAt
          (((compilation.element row element).address index distance).toNat +
            place))
    (isStep : (compilation.element row element).step state opcode instruction =
      (next, none)) :
    compilation.Mirrors after number next ∧ next.memory = state.memory := by
  have isTemp : (compilation.plan.program.var instruction.target).role =
      .temp :=
    flat.target notStore
  obtain ⟨word, isWord⟩ := Site.result_of_step isStep
  rw [Site.step_temp isTemp isWord] at isStep
  obtain ⟨rfl, _⟩ := Prod.mk.inj isStep
  refine ⟨mirrors.set built performed.stepped isTemp fun isSize => ?_,
    Site.memory_setValue⟩
  change Lane.truncate word
    (compilation.plan.program.var instruction.target).size.toNat = _
  rw [isSize, Int.toNat_natCast]
  obtain ⟨kind, size⟩ := opcode
  cases kind with
  | load =>
      have isSource :
          (compilation.plan.program.var instruction.firstSource).role =
            .source :=
        flat.checked.moves
      have reads : (compilation.element row element).Reads ⟨.load, size⟩
          instruction instruction.firstSource 0 :=
        (Site.reads_element (by simp)).mpr
          ⟨List.mem_of_getElem? flat.checked.first, isSource, rfl⟩
      change (compilation.element row element).read state
        instruction.firstSource _ _ = _ at isWord
      rw [Site.read_source isSource,
        compilation.size_array_lowered (by rw [isSource]; rfl),
        Int.toNat_natCast] at isWord
      exact (VectorRegister.lane_loaded _ compilation.width_le isWord
        (loads _ _ reads)).symm
  | loadOffset =>
      have isSource :
          (compilation.plan.program.var instruction.firstSource).role =
            .source :=
        flat.checked.moves
      have reads : (compilation.element row element).Reads ⟨.loadOffset, size⟩
          instruction instruction.firstSource
            ((compilation.element row element).distance instruction) :=
        (Site.reads_offset rfl).mpr ⟨rfl, rfl⟩
      change state.memory.load
        ((compilation.element row element).address instruction.firstSource
          ((compilation.element row element).distance instruction))
        (compilation.plan.program.var instruction.firstSource).size.toNat =
          _ at isWord
      rw [compilation.size_array_lowered (by rw [isSource]; rfl),
        Int.toNat_natCast] at isWord
      exact (VectorRegister.lane_loaded _ compilation.width_le isWord
        (loads _ _ reads)).symm
  | loadParam =>
      have isScalar :
          (compilation.plan.program.var instruction.firstSource).role.isScalar =
            true :=
        flat.checked.moves
      change (compilation.element row element).read state
        instruction.firstSource _ _ = _ at isWord
      rw [Site.read_scalar isScalar] at isWord
      rw [← Except.ok.inj isWord, performed.filled rfl]
      exact (compilation.lane_param flat isSize inside _).symm
  | arith op => exact mirrors.computed flat performed inside rfl isSize isWord
  | store => exact absurd rfl notStore

end Step

/-- The broadcasts that no element changes are in their registers. -/
def Filled (compilation : Compilation program options site.kernel)
    (core : Core) : Prop :=
  ∀ entry ∈ compilation.tourAt.preparations,
    compilation.tourAt.site.value core entry.2.target =
      .filled entry.1.size
        (site.executor.scalar compilation.plan.program.var entry.2.firstSource)

theorem Mirrors.prepared {core : Core} {params : List (Opcode × Instruction)}
    {last : State} (mirrors : compilation.Mirrors core number state)
    (inside : (number + 1) * compilation.width ≤ 16)
    (flat : ∀ entry ∈ params, compilation.plan.program.Flat entry)
    (plain : ∀ entry ∈ params, entry.1.kind = .loadParam)
    (filled : ∀ entry ∈ params,
      compilation.tourAt.site.value core entry.2.target =
        .filled entry.1.size
        (site.executor.scalar compilation.plan.program.var entry.2.firstSource))
    (isRun : (compilation.element row element).runCode state params =
      (last, none)) :
    compilation.Mirrors core number last ∧ last.memory = state.memory := by
  induction params generalizing state with
  | nil =>
      cases isRun
      exact ⟨mirrors, rfl⟩
  | cons entry params induction =>
      obtain ⟨⟨kind, size⟩, instruction⟩ := entry
      obtain ⟨middle, isStep, isRest⟩ := Site.runCode_cons_eq.mp isRun
      have entryFlat := flat _ List.mem_cons_self
      obtain rfl : kind = .loadParam := plain _ List.mem_cons_self
      have isTemp : (compilation.plan.program.var instruction.target).role =
          .temp :=
        entryFlat.target (by simp)
      have isScalar :
          (compilation.plan.program.var instruction.firstSource).role.isScalar =
            true :=
        entryFlat.checked.moves
      have isWord : (compilation.element row element).result state ⟨.loadParam,
          size⟩ instruction =
            .ok (Lane.replicate
            ((compilation.element row element).scalar instruction.firstSource)
            size instruction.lanes) := Site.read_scalar isScalar _ _
      rw [Site.step_temp isTemp isWord] at isStep
      obtain ⟨rfl, _⟩ := Prod.mk.inj isStep
      have here : compilation.Mirrors core number
          (Site.setValue state instruction.target
            (Lane.truncate
            (Lane.replicate
              ((compilation.element row element).scalar instruction.firstSource)
              size instruction.lanes)
            (compilation.plan.program.var instruction.target).size.toNat)) := by
        refine .setValue isTemp (fun isSize => ?_) fun index _ => mirrors index
        rw [filled _ List.mem_cons_self, isSize, Int.toNat_natCast]
        exact (compilation.lane_param entryFlat isSize inside _).symm
      obtain ⟨mirrored, sameMemory⟩ := induction here
        (fun other isOther => flat other (List.mem_cons_of_mem _ isOther))
        (fun other isOther => plain other (List.mem_cons_of_mem _ isOther))
        (fun other isOther => filled other (List.mem_cons_of_mem _ isOther))
          isRest
      exact ⟨mirrored, sameMemory.trans Site.memory_setValue⟩

/-- A state whose temporaries are what a lane of the registers holds. -/
def laneState (compilation : Compilation program options site.kernel)
    (core : Core) (number : Nat) (memory : FlatMemory) : State where
  values := Vector.ofFn fun place : Fin 64 =>
    (compilation.tourAt.site.value core (place.val : Int)).lane
      compilation.width number
  memory := memory

theorem memory_laneState (core : Core) (memory : FlatMemory) :
    (compilation.laneState core number memory).memory = memory := rfl

theorem mirrors_laneState (core : Core) (memory : FlatMemory) :
    compilation.Mirrors core number
      (compilation.laneState core number memory) := by
  intro index isTemp _
  have inTable := Program.bounds_of_declared
    (Program.declared_eq_true.mpr
      (show (compilation.plan.program.var index).role ≠ .none by
      rw [isTemp]; decide))
  have inside : index.toNat < 64 := (Int.toNat_lt inTable.1).2 inTable.2
  have isLane : Site.value (compilation.laneState core number memory) index =
      (compilation.tourAt.site.value core (index.toNat : Int)).lane
      compilation.width number := by
    unfold Site.value
    rw [Executor.place?_of_bounds inTable]
    exact Vector.getElem_ofFn inside
  rw [isLane, Int.toNat_of_nonneg inTable.1]

end Compilation

end LaneKernel
