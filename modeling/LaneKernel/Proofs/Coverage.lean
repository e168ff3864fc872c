import LaneKernel.Proofs.Arrangements
import LaneKernel.Proofs.CallWalks

/-!
# Coverage and footprint

A kernel walks over the chunks of every row in order.  On a chunk it reads and
writes the bytes that belong to it in each array that the program uses, and on
the way it keeps to its record and its frame.  So no access leaves the elements
that the interpreter of the program touches.
-/

namespace LaneKernel

open Compiler

/-- The size of the elements of a program's arrays. -/
def Program.elementSize (program : Program) : Nat :=
  match alignmentVariable program with
  | .ok index => (program.var index).size.toNat
  | .error _ => 0

namespace Reference

/-- The bytes of the element that is a number of elements away. -/
def Site.bytes (site : Site) (index : VarIndex) (distance : Int) : Region :=
  ⟨site.address index distance, (site.program.var index).size.toNat⟩

end Reference

namespace CallSite

variable (site : CallSite) (program : Program)

/-- On the way the record is read and the frame is used. -/
def around : Permission := fun write address =>
  write = false ∧ address ∈ site.record ∨ address ∈ site.frame

/-- The bytes of a chunk in an array, some elements away. -/
def chunk (index : VarIndex) (distance : Int) (visit : Visit) : Region :=
  ⟨site.executor.rowStart program.twoD index visit.row
    + UInt32.ofNat visit.start
    + Core.distance (distance * (program.var index).size), visit.length⟩

/-- The walk of a kernel whose pointers are in certain registers: a row starts
with every pointer at its row, and a chunk is left when all its bytes are
touched. -/
def guide (pointers : List (VarIndex × RegNum)) (finish : Core → Prop) :
    Guide Core where
  between := site.around
  during visit write address := site.around write address ∨ ∃ index distance,
    Reference.Accesses ⟨program, site.executor, visit.row, 0⟩ write index
      distance ∧ address ∈ site.chunk program index distance visit
  enter visit core := visit.start = 0 → ∀ entry ∈ pointers,
    core.reg entry.2 = site.executor.rowStart program.twoD entry.1 visit.row
  covers visit log := ∀ write index distance,
    Reference.Accesses ⟨program, site.executor, visit.row, 0⟩ write index
      distance → Touched log write (site.chunk program index distance visit)
  finish := finish

/-- The bytes that a call may touch: besides record and frame the elements that
the interpreter touches. -/
def footprint : Permission := fun write address =>
  site.around write address ∨
    ∃ row < Reference.rowCount program site.executor,
      ∃ element < site.executor.n.toInt.toNat, ∃ index distance,
        Reference.Accesses ⟨program, site.executor, row, element⟩ write index
          distance ∧
        address ∈ Reference.Site.bytes ⟨program, site.executor, row, element⟩
          index distance

end CallSite

namespace Compilation

variable {program : Program} {options : CompileOptions} {site : CallSite}
  (compilation : Compilation program options site.kernel)

include compilation in
theorem elementSize_eq : program.elementSize = 2 ^ compilation.plan.shift := by
  obtain ⟨_, ⟨align, isAlign, isSize⟩, _⟩ :=
    Compiler.elementShift_eq_ok compilation.planned.shift
  have isExtended := Reference.extends_lower compilation.planned.lowered
  have isAlign :=
    (alignmentVariable_lower compilation.planned.lowered).mp isAlign
  have declared : (program.var align).declared = true := by
    unfold alignmentVariable at isAlign
    split at isAlign
    case isTrue isDeclared => cases isAlign; exact isDeclared
    case isFalse =>
      split at isAlign
      case isTrue isDeclared => cases isAlign; exact isDeclared
      case isFalse => cases isAlign
  unfold Program.elementSize
  rw [isAlign]
  dsimp only
  rw [← isExtended.var align declared, isSize, Int.toNat_natCast]

theorem around_of_tour {write : Bool} {address : UInt32}
    (isAround : compilation.tourAt.around write address) :
    site.around write address :=
  isAround.imp_right fun inFrame => compilation.frame_tour ▸ inFrame

theorem region_tour {touch : Touch} {distance : Int} (visit : Visit)
    (isShift : touch.shift = distance * (program.var touch.array).size) :
    compilation.tourAt.region visit touch =
      site.chunk program touch.array distance visit := by
  unfold Tour.region CallSite.chunk
  rw [compilation.rowStart_tour, isShift]

theorem mem_pointers (unmarked : program.Unmarked) (index : VarIndex) :
    index ∈ compilation.plan.pointers.map Prod.fst ↔ ∃ write distance,
      Reference.Accesses ⟨program, site.executor, 0, 0⟩ write index
        distance := by
  constructor
  · intro isPointer
    rw [compilation.planned.pointers] at isPointer
    obtain ⟨_, isTouched⟩ := List.mem_filter.mp isPointer
    rw [List.contains_iff_mem] at isTouched
    obtain ⟨step, isStep, isArray⟩ := List.mem_filterMap.mp isTouched
    obtain ⟨⟨⟨kind, size⟩, instruction⟩, inCode, rfl⟩ := List.mem_map.mp isStep
    obtain ⟨touch, touches, rfl⟩ : ∃ touch, compilation.tourAt.Touches touch ∧
        touch.array = index := by
      cases kind with
      | load | loadOffset | store =>
          cases isArray
          exact ⟨_, ⟨_, compilation.planned.mem_body unmarked inCode (by simp),
            rfl⟩, rfl⟩
      | loadParam | arith op => cases isArray
    obtain ⟨distance, _, accesses⟩ :=
      compilation.accesses_of_touches 0 0 touches
    exact ⟨_, distance, accesses⟩
  · rintro ⟨write, distance, accesses⟩
    obtain ⟨entry, isEntry, isTouch⟩ :=
  compilation.touches_of_accesses unmarked accesses
    have codes := compilation.code.tailCode
    rw [compilation.planned.isBody] at codes
    obtain ⟨register, found⟩ := codes.pointer isEntry isTouch
    exact List.mem_map.mpr ⟨_, mem_of_lookup found, rfl⟩

theorem mem_bytes {visit : Visit} {index : VarIndex} {distance : Int}
    {address : UInt32}
    (isSize : (program.var index).size = (2 ^ compilation.plan.shift : Nat))
    (isVisit : visit ∈ compilation.tourAt.visits)
    (inside : address ∈ site.chunk program index distance visit) :
    ∃ element < site.executor.n.toInt.toNat, address ∈
      Reference.Site.bytes ⟨program, site.executor, visit.row, element⟩ index
        distance := by
  obtain ⟨isRow, inRow⟩ := compilation.visit_lt isVisit
  obtain ⟨positive, inRows⟩ := compilation.row_lt isRow
  obtain ⟨offset, below, rfl⟩ := Region.mem_iff_exists.mp inside
  change offset < visit.length at below
  have inElements : visit.start + offset <
      site.executor.n.toInt.toNat * 2 ^ compilation.plan.shift := by
    have bound := Nat.mod_le
      (site.executor.n.toInt.toNat * 2 ^ compilation.plan.shift) (2 ^ 32)
    rw [compilation.rowBytes_eq positive] at inRow
    omega
  have split := Nat.div_add_mod (visit.start + offset)
    (2 ^ compilation.plan.shift)
  have position : (0 : Nat) < 2 ^ compilation.plan.shift := Nat.two_pow_pos _
  refine ⟨(visit.start + offset) / 2 ^ compilation.plan.shift, ?_, ?_⟩
  · exact (Nat.div_lt_iff_lt_mul position).mpr inElements
  · refine Region.mem_iff_exists.mpr
      ⟨(visit.start + offset) % 2 ^ compilation.plan.shift, ?_, ?_⟩
    · change _ < (program.var index).size.toNat
      rw [isSize, Int.toNat_natCast]
      exact Nat.mod_lt _ position
    · change _ + _ + _ + _ =
        site.executor.rowStart program.twoD index visit.row +
        Core.distance _ + _
      rw [isSize, UInt32.add_assoc, UInt32.add_assoc, UInt32.add_assoc,
        UInt32.add_right_inj, ← Core.distance_natCast, ← Core.distance_natCast,
        ← Core.distance_natCast, ← Core.distance_add, ← Core.distance_add,
        ← Core.distance_add]
      congr 1
      have splitInt : ((2 ^ compilation.plan.shift : Nat) : Int) *
          ((visit.start + offset) / 2 ^ compilation.plan.shift : Nat) +
          ((visit.start + offset) % 2 ^ compilation.plan.shift : Nat) =
          visit.start + offset := by exact_mod_cast split
      rw [Int.mul_comm] at splitInt
      rw [Int.add_mul]
      change (visit.start : Int) + (_ + offset) =
        ((_ / _ : Nat) : Int) * _ + _ + _
      omega

section Walk

variable (positive : 0 < site.executor.n.toInt)
  (small : site.executor.n.toInt.toNat * program.elementSize < 2 ^ 32)

include positive small in
/-- The chunks of a tour are those of the program's rows. -/
theorem visits_eq : compilation.tourAt.visits =
    Visit.ofRows (site.executor.n.toInt.toNat * program.elementSize) 0
      (Reference.rowCount program site.executor) := by
  unfold Tour.visits
  rw [compilation.rows_eq positive, compilation.rowBytes_eq positive,
    ← compilation.elementSize_eq, Nat.mod_eq_of_lt small]

theorem footprint_of_tour (write : Bool) (address : UInt32)
    (touched : compilation.tourAt.footprint write address) :
    site.footprint program write address := by
  rcases touched with isAround | ⟨visit, isVisit, touch, touches, rfl, inside⟩
  · exact .inl (compilation.around_of_tour isAround)
  · obtain ⟨distance, isShift, accesses⟩ :=
      compilation.accesses_of_touches visit.row 0 touches
    rw [compilation.region_tour visit isShift] at inside
    obtain ⟨element, below, inElement⟩ :=
      compilation.mem_bytes (compilation.size_touched touches) isVisit inside
    exact .inr ⟨visit.row,
      (compilation.row_lt (compilation.visit_lt isVisit).1).2, element, below,
      touch.array, distance, accesses.elsewhere, inElement⟩

theorem walks_guide (unmarked : program.Unmarked) {mayTrap : Prop}
    {finish reached : Core → Prop} {visits : List Visit} {core : Core}
    (ends : ∀ last, finish last → reached last)
    (walks : (compilation.tourAt.machineGuide finish).Walks
      (Core.Running mayTrap) visits core) :
    (site.guide program
      (compilation.plan.pointers.map fun entry => (entry.1, entry.2.index))
        reached).Walks (Core.Running mayTrap) visits core := by
  have same : ∀ may goal further core, Core.Running mayTrap may goal core →
      (∀ last log, goal last log → further last log) →
        Core.Running mayTrap may further core :=
    fun _ _ _ _ running => running.mono
  refine Guide.Walks.follow same ?_ ?_ ?_ ?_ ?_ rfl walks
  · rintro goal state _ rfl run
    apply (run.weaken fun write address isAround =>
      compilation.around_of_tour isAround).mono
    exact fun last log isReached => ⟨last, rfl, isReached⟩
  · rintro visit _ goal state _ rfl run
    refine (run.weaken ?_).mono fun last log isReached => ⟨last, rfl, isReached⟩
    rintro write address (isAround | ⟨touch, touches, rfl, inside⟩)
    · exact .inl (compilation.around_of_tour isAround)
    · obtain ⟨distance, isShift, accesses⟩ :=
        compilation.accesses_of_touches visit.row 0 touches
      rw [compilation.region_tour visit isShift] at inside
      exact .inr ⟨touch.array, distance, accesses, inside⟩
  · rintro visit state _ rfl isEntered atStart _ isPointer
    obtain ⟨entry, isEntry, rfl⟩ := List.mem_map.mp isPointer
    exact (isEntered atStart entry isEntry).trans
      (compilation.rowStart_tour entry.1 visit.row)
  · intro visit log covered write index distance accesses
    have touched :=
      covered _ (compilation.touches_of_accesses unmarked accesses)
    rwa [compilation.region_tour visit rfl] at touched
  · rintro state _ rfl isEnd
    exact ends state isEnd

end Walk

end Compilation

section Footprint

/-- A call walks over rows of elements and keeps to its footprint.  It traps
only if something is not served. -/
structure CallSite.Covered (site : CallSite) (program : Program) (core : Core) :
    Prop where
  /-- The chunks of a row are its bytes in order. -/
  chunks : ∀ row,
    (Visit.ofRow (site.executor.n.toInt.toNat * program.elementSize)
    row).flatMap Visit.places =
      List.range (site.executor.n.toInt.toNat * program.elementSize)
  /-- The arrays that the program uses have pointers, which walk over the chunks
  of all rows. -/
  walk : ∃ pointers : List (VarIndex × RegNum),
    (∀ index, index ∈ pointers.map Prod.fst ↔ ∃ write distance,
      Reference.Accesses ⟨program, site.executor, 0, 0⟩ write index distance) ∧
    (pointers.map Prod.snd).Nodup ∧
    (site.guide program pointers fun last => last.pc =
      Machine.haltAddress).Walks
      (Core.Running (¬ site.Served program core.ram))
      (Visit.ofRows (site.executor.n.toInt.toNat * program.elementSize) 0
        (Reference.rowCount program site.executor))
      (Machine.entered core site.entry site.argument site.stack)
  /-- All accesses stay in the footprint, and all other bytes stay as they
  are. -/
  within : Core.Running (¬ site.Served program core.ram)
    (site.footprint program) (fun last _ => last.pc = Machine.haltAddress ∧
      Ram.Kept (site.footprint program) core.ram last.ram)
    (Machine.entered core site.entry site.argument site.stack)

variable {program : Program} {options : CompileOptions} {site : CallSite}
  {core : Core}

/-- A kernel walks over the chunks of every row, which are the row cut into
pieces, and touches nothing but its record, its frame and the elements that the
interpreter touches. -/
theorem Program.call_covers (built : program.Built)
    (unmarked : program.Unmarked)
    (compiled : program.compile options = .ok site.kernel)
    (loaded : site.Loaded core.ram) (separate : site.Separate program)
    (positive : 0 < site.executor.n.toInt)
    (small : site.executor.n.toInt.toNat * program.elementSize < 2 ^ 32) :
    site.Covered program core := by
  obtain ⟨compilation⟩ := Program.compilation compiled
  have walks := compilation.walks_anyhow built unmarked loaded separate
  refine ⟨fun row => Visit.places_ofRow _ row,
    ⟨compilation.plan.pointers.map fun entry =>
    (entry.1, entry.2.index), ?_, ?_, ?_⟩, ?_⟩
  · intro index
    rw [List.map_map]
    exact compilation.mem_pointers unmarked index
  · rw [List.map_map]
    exact compilation.planned.pointers_nodup
  · rw [← compilation.visits_eq positive small]
    exact compilation.walks_guide unmarked
      (fun last ended => ended.halted) walks
  · apply ((compilation.running_of_walks walks).weaken
      compilation.footprint_of_tour).mono
    intro last _ ended
    refine ⟨ended.halted, ?_⟩
    have kept := ended.kept
    rw [CallSite.ram_origin] at kept
    exact ⟨kept.base, kept.size, fun address outside =>
      kept.peek address fun touched =>
        outside (compilation.footprint_of_tour true address touched)⟩

theorem Program.call_covers_increment :
    ∃ kernel, increment.compile {} = .ok kernel ∧
    (CallSite.packed kernel Reference.pair Reference.pairMemory).Served
      increment (CallSite.packedRam kernel Reference.pair
        Reference.pairMemory) ∧
    (CallSite.packed kernel Reference.pair Reference.pairMemory).Covered
      increment (.reset
        (CallSite.packedRam kernel Reference.pair Reference.pairMemory)) := by
  obtain ⟨kernel, compiled, isFrame, isSize⟩ := increment_kernel
  have arranged := Reference.arranged_pairMemory isFrame isSize Reference.pair
  have inside := @Reference.inside_pair kernel
  have aligned : Reference.checkAligned increment Reference.pair = .ok () := by
    decide +kernel
  have positive : 0 < Reference.pair.n.toInt := by decide
  have small : Reference.pair.n.toInt.toNat * increment.elementSize <
      2 ^ 32 := by decide +kernel
  refine ⟨kernel, compiled, arranged.served inside aligned, ?_⟩
  exact call_covers built_increment unmarked_increment compiled arranged.loaded
    (arranged.separate inside) positive small

end Footprint

end LaneKernel
