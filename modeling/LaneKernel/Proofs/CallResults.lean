import LaneKernel.Proofs.Coverage
import LaneKernel.Proofs.KernelData

/-!
# Results of calls

A call of a kernel leaves the memory that the interpreter of the lowered program
leaves.  The only thing to know about the executor is that no element writes
what another element of its row needs: a kernel works on several elements at a
time.
-/

namespace LaneKernel

open Compiler Reference

namespace Compilation

variable {program : Program} {options : CompileOptions} {site : CallSite}
  {compilation : Compilation program options site.kernel} {memory : FlatMemory}
  {states : Nat → Nat → State} {write : Bool} {index : VarIndex}
  {distance : Int}

/-- The elements of a row stand one behind the other. -/
theorem address_element (row element : Nat)
    (isSize : (compilation.plan.program.var index).size =
      (compilation.width : Int)) :
    (compilation.element row element).address index distance =
      (compilation.element row 0).address index distance +
        UInt32.ofNat (element * compilation.width) := by
  change site.executor.rowStart compilation.plan.program.twoD index row +
    Core.distance _ =
    site.executor.rowStart compilation.plan.program.twoD index row +
      Core.distance _ + _
  rw [UInt32.add_assoc, UInt32.add_right_inj, ← Core.distance_natCast,
    ← Core.distance_add, isSize]
  congr 1
  rw [Int.add_mul, Int.add_mul, Int.natCast_mul]
  change (element : Int) * _ + _ = ((0 : Nat) : Int) * _ + _ + _
  omega

theorem accesses_lowered (compilation : Compilation program options site.kernel)
    {row element : Nat} :
    Accesses (compilation.element row element) write index distance ↔
      Accesses ⟨program, site.executor, row, element⟩ write index distance := by
  cases write with
  | true =>
      exact and_congr_left' (writesArray_lower compilation.planned.lowered)
  | false => exact readsArray_lower compilation.planned.lowered

section Rows

variable {ram : Ram} (arranged : site.Arranged memory ram)
  (traced : compilation.Traced memory states)

include arranged traced

/-- The elements that are accessed in a row are inside the data. -/
theorem Traced.row_covers {row element : Nat}
    (inRows : row < compilation.tourAt.rows)
    (accesses : Accesses (compilation.element row element) write index
      distance) :
    memory.Covers ((compilation.element row 0).address index distance)
      (site.executor.n.toInt.toNat * compilation.width) := by
  have isSize := compilation.size_accessed accesses
  have positive := (compilation.row_lt inRows).1
  apply FlatMemory.covers_run arranged.below arranged.data_small (by omega)
  intro number isNumber
  rw [← compilation.address_element row number isSize]
  have covers := traced.covers inRows isNumber accesses.elsewhere
  rwa [isSize, Int.toNat_natCast] at covers

theorem Traced.short
    (accesses : Accesses (compilation.element 0 0) write index distance)
    (some : 0 < compilation.tourAt.rows) :
    site.executor.n.toInt.toNat * compilation.width < 2 ^ 32 := by
  obtain ⟨above, inside⟩ := traced.row_covers arranged some accesses
  have small := arranged.data_small
  omega

theorem Traced.inside : site.RowsInside program memory := by
  intro row inRows write index distance accesses positive
  have lowered := compilation.accesses_lowered.mpr accesses
  have covers :=
    traced.row_covers arranged (by rwa [compilation.rows_eq positive]) lowered
  have isExtended := extends_lower compilation.planned.lowered
  have isArray := compilation.isArray_accessed lowered
  rw [isArray_lower compilation.planned.lowered] at isArray
  have isSize := compilation.size_array isArray
  have isStart : (compilation.element row 0).address index distance =
      (site.row program index distance row).start := by
    change site.executor.rowStart compilation.plan.program.twoD index row +
      Core.distance ((((0 : Nat) : Int) + distance) * _) =
      site.executor.rowStart program.twoD index row +
        Core.distance (distance * _)
    rw [isExtended.twoD, Int.natCast_zero, Int.zero_add, isSize,
      compilation.size_accessed lowered]
  have isLength : (site.row program index distance row).length =
      site.executor.n.toInt.toNat * compilation.width := by
    change _ * (program.var index).size.toNat = _
    rw [isSize, Int.toNat_natCast]
  rwa [isLength, ← isStart]

end Rows

end Compilation

namespace Reference

/-- No element of a row writes what another element of the row needs. -/
def Isolated (program : Program) (executor : Executor) : Prop :=
  ∀ row < rowCount program executor, ∀ first < executor.n.toInt.toNat,
    ∀ second < executor.n.toInt.toNat, first ≠ second → ∀ place,
    Site.Needs ⟨program, executor, row, first⟩ place →
      ¬ Site.Changes ⟨program, executor, row, second⟩ place

namespace Trace

variable {program : Program} {executor : Executor} {elements rows : Nat}
  {states : Nat → Nat → State}
  (trace : Trace program executor elements rows states)

include trace

theorem fewer {less : Nat} (isLess : less ≤ rows) :
    Trace program executor elements less states :=
  ⟨fun row inRows => trace.step row (by omega),
    fun row inRows => trace.next row (by omega)⟩

/-- Rows without elements change nothing. -/
theorem still (none : elements = 0) {row : Nat} (inRows : row ≤ rows) :
    states row 0 = states 0 0 := by
  subst none
  induction row with
  | zero => rfl
  | succ row induction => rw [trace.next row inRows, induction (by omega)]

/-- Rows in which no element writes leave the memory. -/
theorem unchanged
    (checked : ∀ entry ∈ resolveCode program, program.Checked entry.2 entry.1)
    (idle : ∀ row element place,
      ¬ Site.Changes ⟨program, executor, row, element⟩ place)
    {row : Nat} (inRows : row ≤ rows) :
    (states row 0).memory = (states 0 0).memory := by
  induction row with
  | zero => rfl
  | succ row induction =>
      obtain ⟨shape, bytes⟩ :=
        trace.frame checked inRows (show 0 + elements ≤ elements by omega)
      rw [Nat.zero_add] at shape bytes
      rw [trace.next row inRows, ← induction (by omega)]
      exact FlatMemory.ext_byteAt shape fun place above _ =>
        bytes place above fun number _ => idle row _ place

end Trace

end Reference

namespace Compilation

variable {program : Program} {options : CompileOptions} {site : CallSite}
  {compilation : Compilation program options site.kernel}
  {memory final : FlatMemory}

theorem exists_traced (compilation : Compilation program options site.kernel)
    (completes : Reference.run compilation.plan.program site.executor memory =
      (final, none)) :
    checkAligned compilation.plan.program site.executor = .ok () ∧ ∃ states,
      compilation.Traced memory states ∧
        (states compilation.tourAt.rows 0).memory = final := by
  rw [run_eq (Program.validate_lower compilation.planned.lowered)] at completes
  cases isAligned : checkAligned compilation.plan.program site.executor with
  | error cause =>
      rw [isAligned] at completes
      cases completes
  | ok _ =>
      rw [isAligned] at completes
      obtain ⟨isFinal, isFine⟩ := Prod.mk.inj completes
      rw [compilation.rowCount_lowered] at isFinal isFine
      obtain ⟨states, trace, isFirst, isLast⟩ :=
        exists_trace (Prod.ext rfl isFine)
      refine ⟨rfl, states, ?_⟩
      have initial : (states 0 0).memory = memory := by rw [isFirst]
      by_cases positive : 0 < site.executor.n.toInt
      · rw [compilation.rows_eq positive]
        refine ⟨⟨compilation.rows_eq positive ▸ trace, initial⟩, ?_⟩
        rw [isLast]
        exact isFinal
      · rw [compilation.rows_eq_zero positive]
        refine ⟨⟨trace.fewer ?_, initial⟩, ?_⟩
        · rw [compilation.rows_eq_zero positive]
          exact Nat.zero_le _
        · rw [← trace.still (by omega) (Nat.le_refl _), isLast]
          exact isFinal

section Walk

variable {core : Core} (built : program.Built) (unmarked : program.Unmarked)
  (arranged : site.Arranged memory core.ram) {states : Nat → Nat → State}
  (traced : compilation.Traced memory states)
  (isAligned : checkAligned compilation.plan.program site.executor = .ok ())

include built unmarked arranged traced isAligned

/-- The kernel comes to its end without a trap, with what a proof about its data
has to say. -/
theorem Traced.running {whole : Nat → Nat → Core → Prop}
    {preparing : List (Opcode × Instruction) → Core → Prop}
    {part : Visit → List (Opcode × Instruction) → Core → Prop}
    (data : Ram → Prop)
    (prepares : compilation.tourAt.Prepares (site.origin core) whole preparing)
    (carries : compilation.tourAt.Carries whole part)
    (settles : ∀ core, whole compilation.tourAt.rows 0 core → data core.ram) :
    Core.Running False compilation.tourAt.footprint (fun last _ =>
      compilation.Ends core last ∧ data last.ram)
        ((site.origin core).setPc site.entry) := by
  have inside := traced.inside arranged
  have served := arranged.served inside
    (by rwa [← checkAligned_lower compilation.planned.lowered])
  have running :=
    compilation.running_of_walks
      (compilation.walks built unmarked arranged.loaded
    (arranged.separate inside) data prepares carries settles)
  exact running.imp_right fun ⟨unserved, _⟩ => absurd served unserved

/-- What a kernel leaves is what the interpreter leaves. -/
theorem Traced.results
    (isolated : Isolated compilation.plan.program site.executor) :
    Core.Running False compilation.tourAt.footprint (fun last _ =>
      compilation.Ends core last ∧
        last.ram.Shows (states compilation.tourAt.rows 0).memory)
      ((site.origin core).setPc site.entry) := by
  have shows : (site.origin core).ram.Shows memory := by
    rw [CallSite.ram_origin]
    exact arranged.data.shows
  have apart : ∀ place, memory.base.toNat ≤ place →
      place < memory.base.toNat + memory.data.size →
        UInt32.ofNat place ∉ site.frame :=
    fun place above inside =>
      arranged.dataFrame _ (FlatMemory.mem_region_of_place above inside)
  by_cases accessed : ∃ write index distance,
      Accesses (compilation.element 0 0) write index distance
  · obtain ⟨write, index, distance, accesses⟩ := accessed
    have follows : compilation.Follows memory states := by
      refine ⟨traced, arranged.below, traced.short arranged accesses, ?_, apart⟩
      intro row inRows
      exact isolated row (by
        rw [compilation.rowCount_lowered]
        exact (compilation.row_lt inRows).2)
    refine traced.running built unmarked arranged isAligned
      (fun ram => ram.Shows _) (follows.prepares built unmarked shows)
      (follows.carries built unmarked) ?_
    rintro last ⟨_, isShown⟩
    rwa [Nat.zero_div] at isShown
  · -- Without accesses the rows need not be those of the interpreter, but
    -- nothing is written.
    have untouched : ∀ touch, ¬ compilation.tourAt.Touches touch := by
      intro touch touches
      obtain ⟨distance, _, accesses⟩ :=
        compilation.accesses_of_touches 0 0 touches
      exact accessed ⟨_, _, distance, compilation.accesses_lowered.mpr accesses⟩
    have isIdle : (states compilation.tourAt.rows 0).memory = memory := by
      rw [← traced.initial]
      apply traced.trace.unchanged compilation.checked _ (Nat.le_refl _)
      rintro row element place ⟨index, writes, _⟩
      exact accessed ⟨true, index, 0, ⟨writes, rfl⟩⟩
    rw [isIdle]
    refine (traced.running built unmarked arranged isAligned (fun _ => True)
      (compilation.tourAt.prepares_nothing _) compilation.tourAt.carries_nothing
      fun _ _ => trivial).mono ?_
    rintro last _ ⟨ended, _⟩
    refine ⟨ended, fun place above inside => ?_⟩
    rw [← shows place above inside]
    apply ended.kept.peek
    rintro ((⟨impossible, _⟩ | inFrame) | ⟨_, _, touch, touches, _⟩)
    · cases impossible
    · rw [compilation.frame_tour] at inFrame
      exact apart place above inside inFrame
    · exact untouched touch touches

end Walk

end Compilation

/-- A call that may take enough steps and is not cancelled returns without an
error and leaves a core with a property. -/
def CallSite.Returns (site : CallSite) (core : Core)
    (leaves : Core → Prop) : Prop :=
  ∃ count, ∀ (machine : Machine) (cancelled : Nat → Bool), machine.core = core →
    machine.Unlimited count → (∀ batch, cancelled batch = false) →
    (machine.call cancelled site.entry site.argument site.stack).2 = none ∧
      leaves (machine.call cancelled site.entry site.argument site.stack).1.core

/-- Runs without a trap are calls that return. -/
theorem CallSite.returns_of_running {site : CallSite} {core : Core}
    {may : Permission} {finish : Core → Prop}
    (halts : ∀ last, finish last → last.pc = Machine.haltAddress)
    (running : Core.Running False may (fun last _ => finish last)
      (Machine.entered core site.entry site.argument site.stack)) :
      site.Returns core finish := by
  rcases running with ⟨count, last, logged, steps, isEnd⟩ | ⟨impossible, _⟩
  case inr => exact impossible.elim
  refine ⟨count, fun machine cancelled isCore unlimited goesOn => ?_⟩
  subst isCore
  rcases @Machine.call_of_halt _ _ machine _ _ cancelled _ _ _ steps
    (halts last isEnd) with
    isCall | ⟨limited | ⟨batch, isCancelled⟩, _⟩
  · rw [isCall]
    exact ⟨rfl, isEnd⟩
  · exact absurd unlimited limited
  · rw [goesOn batch] at isCancelled
    cases isCancelled

/-- A call returns with certain data from an address on. -/
def CallSite.Yields (site : CallSite) (core : Core) (base : UInt32)
    (data : Array UInt8) : Prop :=
  site.Returns core fun last => last.ram.Holds base data

namespace Compilation

variable {program : Program} {options : CompileOptions} {site : CallSite}
  {compilation : Compilation program options site.kernel} {memory : FlatMemory}
  {core : Core} {states : Nat → Nat → State}
  (traced : compilation.Traced memory states) (built : program.Built)
  (unmarked : program.Unmarked) (arranged : site.Arranged memory core.ram)
  (isAligned : checkAligned compilation.plan.program site.executor = .ok ())
  (isolated : Isolated compilation.plan.program site.executor)

include traced built unmarked arranged isAligned isolated

theorem Traced.returns :
    site.Returns core fun last => compilation.Ends core last ∧
    last.ram.Shows (states compilation.tourAt.rows 0).memory :=
  CallSite.returns_of_running (fun _ isEnd => isEnd.1.halted)
    (traced.results built unmarked arranged isAligned isolated)

/-- A call returns with the data that the interpreter of the lowered program
leaves. -/
theorem Traced.yields :
    site.Yields core memory.base
      (states compilation.tourAt.rows 0).memory.data := by
  obtain ⟨count, returns⟩ :=
    traced.returns built unmarked arranged isAligned isolated
  refine ⟨count, fun machine cancelled isCore unlimited goesOn => ?_⟩
  obtain ⟨isFine, ended, shows⟩ :=
    returns machine cancelled isCore unlimited goesOn
  refine ⟨isFine, ?_⟩
  have shape := traced.trace.shape compilation.checked (Nat.le_refl _)
  rw [traced.initial] at shape
  refine shows.holds shape (ended.kept.serves ?_)
  rw [CallSite.ram_origin]
  exact arranged.data.serves

end Compilation

end LaneKernel
