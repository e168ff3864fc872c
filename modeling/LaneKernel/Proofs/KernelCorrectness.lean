import LaneKernel.Proofs.CallResults

/-!
# Correctness of kernels

A call of a compiled kernel returns with the memory that the interpreter of its
program leaves, provided that within a row nothing that is written through one
array is accessed through another.  Arrays that a program reads and writes in
place may also be one and the same, as long as every element is read where it is
written; then the kernel does what the lowered program does.
-/

namespace LaneKernel

open Compiler Reference

/-- Two arrays start every row at the same address. -/
def Executor.Identical (executor : Executor) (twoD : Bool)
    (first second : VarIndex) : Prop :=
  executor.array first = executor.array second ∧
    (twoD = true → executor.paramWord first = executor.paramWord second)

theorem Executor.Identical.rowStart {executor : Executor} {twoD : Bool}
    {first second : VarIndex} (identical : executor.Identical twoD first second)
    (row : Nat) :
    executor.rowStart twoD first row = executor.rowStart twoD second row := by
  unfold Executor.rowStart
  split
  case isTrue isTwoD => rw [identical.1, identical.2 isTwoD]
  case isFalse => exact identical.1

namespace Reference

variable (program : Program) (executor : Executor)

/-- A row reads or writes the byte at a place through an array. -/
def RowAccess (row : Nat) (write : Bool) (index : VarIndex)
    (place : Nat) : Prop :=
  ∃ element < executor.n.toInt.toNat, ∃ distance,
    Accesses ⟨program, executor, row, element⟩ write index distance ∧
      Site.Touches ⟨program, executor, row, element⟩ index distance place

/-- Within a row the bytes that are written through an array are neither read
nor written through another array. -/
structure RowsApart : Prop where
  reads : ∀ row < rowCount program executor, ∀ dest source place,
    RowAccess program executor row true dest place →
      ¬ RowAccess program executor row false source place
  writes : ∀ row < rowCount program executor, ∀ first second place,
    first ≠ second → RowAccess program executor row true first place →
      ¬ RowAccess program executor row true second place

/-- Arrays of which one is written are identical or have no accessed byte of a
row in common, and no load at an offset reads an array that is identical to a
written one. -/
structure InPlace : Prop where
  arrays : ∀ first second, executor.Identical program.twoD first second ∨
    ∀ row < rowCount program executor, ∀ write place,
      RowAccess program executor row true first place →
        ¬ RowAccess program executor row write second place
  offsets : ∀ entry ∈ resolveCode program, entry.1.kind = .loadOffset → ∀ dest,
    WritesArray ⟨program, executor, 0, 0⟩ dest →
      ¬ executor.Identical program.twoD dest entry.2.firstSource

end Reference

namespace Compilation

variable {program : Program} {options : CompileOptions} {site : CallSite}
  (compilation : Compilation program options site.kernel) {memory : FlatMemory}
  {core : Core} {states : Nat → Nat → State} {row element : Nat} {write : Bool}
  {index : VarIndex} {distance : Int} {place : Nat}

theorem rowAccess_lowered (inRow : element < site.executor.n.toInt.toNat)
    (accesses : Accesses (compilation.element row element) write index distance)
    (touches : (compilation.element row element).Touches index distance place) :
    RowAccess program site.executor row write index place := by
  refine ⟨element, inRow, distance,
    compilation.accesses_lowered.mp accesses, ?_⟩
  have isExtended := extends_lower compilation.planned.lowered
  have isArray := compilation.isArray_accessed accesses
  rw [isArray_lower compilation.planned.lowered] at isArray
  have declared := Program.declared_of_isArray isArray
  unfold Site.Touches Site.address at touches ⊢
  dsimp only at touches ⊢
  rwa [isExtended.var index declared, isExtended.twoD] at touches

theorem row_lt_lowered
    (inRows : row < rowCount compilation.plan.program site.executor)
    (inRow : element < site.executor.n.toInt.toNat) :
    row < rowCount program site.executor ∧ row < compilation.tourAt.rows := by
  rw [compilation.rowCount_lowered] at inRows
  rw [compilation.rows_eq (by omega)]
  exact ⟨inRows, inRows⟩

/-- Where rows are apart, the lowered program completes like the program. -/
theorem run_lowered {final : FlatMemory}
    (apart : RowsApart program site.executor)
    (completes : Reference.run program site.executor memory = (final, none)) :
    Reference.run compilation.plan.program site.executor memory =
      (final, none) := by
  obtain ⟨sameOutcome, sameMemory⟩ :=
    run_lower_of_used compilation.planned.lowered site.executor
    memory fun row inRows element inRow dest source writes reads place touches
      otherTouches =>
      apart.reads row inRows dest source place ⟨element, inRow, 0,
        ⟨writes, rfl⟩, touches⟩ ⟨element, inRow, 0, reads, otherTouches⟩
  rw [completes] at sameOutcome sameMemory
  exact Prod.ext sameMemory (sameOutcome.mpr rfl)

section Isolation

variable {compilation} (arranged : site.Arranged memory core.ram)
  (traced : compilation.Traced memory states)

include arranged traced

/-- The place of a byte tells its element. -/
theorem Traced.element_of_touches (inRows : row < compilation.tourAt.rows)
    (inRow : element < site.executor.n.toInt.toNat)
    (accesses : Accesses (compilation.element row element) write index distance)
    (touches : (compilation.element row element).Touches index distance place) :
    (place - ((compilation.element row 0).address index distance).toNat) /
      compilation.width =
      element := by
  have isSize := compilation.size_accessed accesses
  obtain ⟨above, inside⟩ := traced.row_covers arranged inRows accesses
  obtain ⟨fromStart, upTo⟩ := touches
  change place < _ + (compilation.plan.program.var index).size.toNat at upTo
  rw [isSize, Int.toNat_natCast] at upTo
  rw [compilation.address_element row element isSize, UInt32.toNat_add,
    UInt32.toNat_ofNat'] at fromStart upTo
  have within : (element + 1) * compilation.width ≤
      site.executor.n.toInt.toNat * compilation.width :=
    Nat.mul_le_mul_right _ inRow
  have below := arranged.below
  have positive := compilation.width_pos
  rw [Nat.add_mul, Nat.one_mul] at within
  rw [Nat.div_eq_iff positive]
  generalize compilation.width = width at *
  generalize element * width = offset at *
  omega

/-- Identical arrays share no bytes of different elements. -/
theorem Traced.element_eq {first second : Nat} {other : VarIndex}
    {otherWrite : Bool}
    (identical : site.executor.Identical program.twoD index other)
    (inRows : row < compilation.tourAt.rows)
    (inFirst : first < site.executor.n.toInt.toNat)
    (inSecond : second < site.executor.n.toInt.toNat)
    (accesses : Accesses (compilation.element row first) write index 0)
    (touches : (compilation.element row first).Touches index 0 place)
    (otherAccesses : Accesses (compilation.element row second) otherWrite
      other 0)
    (otherTouches : (compilation.element row second).Touches other 0 place) :
    first = second := by
  have sameStart : (compilation.element row 0).address index 0 =
      (compilation.element row 0).address other 0 := by
    change site.executor.rowStart compilation.plan.program.twoD index row +
      Core.distance ((((0 : Nat) : Int) + 0) * _) =
      site.executor.rowStart compilation.plan.program.twoD other row +
      Core.distance ((((0 : Nat) : Int) + 0) * _)
    rw [(extends_lower compilation.planned.lowered).twoD,
      identical.rowStart row, Int.natCast_zero, Int.add_zero, Int.zero_mul,
      Int.zero_mul]
  rw [← traced.element_of_touches arranged inRows inFirst accesses touches,
    ← traced.element_of_touches arranged inRows inSecond otherAccesses
      otherTouches, sameStart]

/-- A program whose rows are apart is isolated. -/
theorem Traced.isolated_apart (apart : RowsApart program site.executor) :
    Isolated compilation.plan.program site.executor := by
  rintro row inLowered first inFirst second inSecond differ place
    ⟨write, index, distance, accesses, touches⟩ ⟨dest, writes, destTouches⟩
  obtain ⟨inRows, inTour⟩ := compilation.row_lt_lowered inLowered inFirst
  have access := compilation.rowAccess_lowered inFirst accesses touches
  have written :
      Accesses (compilation.element row second) true dest 0 := ⟨writes, rfl⟩
  have destAccess := compilation.rowAccess_lowered inSecond written destTouches
  cases write with
  | false => exact apart.reads row inRows dest index place destAccess access
  | true =>
      by_cases same : index = dest
      · subst same
        obtain ⟨isWritten, rfl⟩ := accesses
        exact differ (traced.element_eq arranged ⟨rfl, fun _ => rfl⟩ inTour
          inFirst inSecond (show Accesses _ true index 0 from ⟨isWritten, rfl⟩)
            touches written destTouches)
      · exact apart.writes row inRows dest index place (Ne.symm same)
          destAccess access

theorem Traced.isolated_inPlace (inPlace : InPlace program site.executor) :
    Isolated compilation.plan.program site.executor := by
  rintro row inLowered first inFirst second inSecond differ place
    ⟨write, index, distance, accesses, touches⟩ ⟨dest, writes, destTouches⟩
  obtain ⟨inRows, inTour⟩ := compilation.row_lt_lowered inLowered inFirst
  have written :
      Accesses (compilation.element row second) true dest 0 := ⟨writes, rfl⟩
  rcases inPlace.arrays dest index with identical | apart
  · obtain rfl : distance = 0 := by
      by_contra away
      cases write with
      | true => exact away accesses.2
      | false =>
          obtain ⟨entry, isEntry, reads⟩ :=
            compilation.accesses_lowered.mp accesses
          by_cases isOffset : entry.1.kind = .loadOffset
          · obtain ⟨rfl, _⟩ := (Site.reads_offset isOffset).mp reads
            exact inPlace.offsets entry isEntry isOffset dest
              ((writesArray_lower compilation.planned.lowered).mp writes)
              identical
          · exact away ((Site.reads_element isOffset).mp reads).2.2
    exact differ (traced.element_eq arranged identical inTour inSecond inFirst
      written destTouches accesses touches).symm
  · exact apart row inRows write place
      (compilation.rowAccess_lowered inSecond written destTouches)
      (compilation.rowAccess_lowered inFirst accesses touches)

end Isolation

end Compilation

section Call

variable {program lowered : Program} {options : CompileOptions}
  {site : CallSite} {memory final : FlatMemory} {core : Core}

/-- A call returns with the memory that the interpreter of the program
leaves. -/
theorem Program.call_computes (built : program.Built)
    (unmarked : program.Unmarked)
    (compiled : program.compile options = .ok site.kernel)
    (arranged : site.Arranged memory core.ram)
    (apart : RowsApart program site.executor)
    (completes : Reference.run program site.executor memory = (final, none)) :
    site.Yields core memory.base final.data := by
  obtain ⟨compilation⟩ := Program.compilation compiled
  obtain ⟨isAligned, states, traced, rfl⟩ :=
    compilation.exists_traced (compilation.run_lowered apart completes)
  exact traced.yields built unmarked arranged isAligned
    (traced.isolated_apart arranged apart)

theorem Reference.apart_pair : RowsApart Program.increment pair := by
  have apart : ∀ row < rowCount Program.increment pair,
      ∀ element < pair.n.toInt.toNat, ∀ other < pair.n.toInt.toNat,
      (Site.address ⟨Program.increment, pair, row, other⟩ 4 0).toNat +
          (Program.increment.var 4).size.toNat ≤
        (Site.address ⟨Program.increment, pair, row, element⟩ 0 0).toNat := by
    decide +kernel
  constructor
  · rintro row inRows dest source place ⟨element, inRow, distance, accesses,
      above, _⟩ ⟨other, otherInRow, otherDistance, otherAccesses, _, below⟩
    obtain ⟨rfl, rfl⟩ := accesses_increment accesses
    obtain ⟨rfl, rfl⟩ := accesses_increment otherAccesses
    exact Nat.lt_irrefl _
      (Nat.lt_of_lt_of_le below
        ((apart row inRows element inRow other otherInRow).trans above))
  · rintro row inRows first second place differ ⟨_, _, _, accesses, _⟩
      ⟨_, _, _, otherAccesses, _⟩
    exact differ ((accesses_increment accesses).1.trans
      (accesses_increment otherAccesses).1.symm)

theorem Program.call_computes_increment :
    ∃ kernel, increment.compile {} = .ok kernel ∧
    (CallSite.packed kernel pair pairMemory).Yields
      (.reset (CallSite.packedRam kernel pair pairMemory)) pairMemory.base #[5,
        6, 8, 9] := by
  obtain ⟨kernel, compiled, isFrame, isSize⟩ := increment_kernel
  have completes : Reference.run increment pair pairMemory =
      (⟨0x100, #[5, 6, 8, 9]⟩, none) := by
    decide +kernel
  have arranged : (CallSite.packed kernel pair pairMemory).Arranged pairMemory
      (Core.reset (CallSite.packedRam kernel pair pairMemory)).ram :=
    arranged_pairMemory isFrame isSize pair
  exact ⟨kernel, compiled,
    call_computes built_increment unmarked_increment compiled arranged
      apart_pair completes⟩

/-- A call in place returns with the memory that the interpreter of the lowered
program leaves. -/
theorem Program.call_in_place (built : program.Built)
    (unmarked : program.Unmarked)
    (compiled : program.compile options = .ok site.kernel)
    (isLowered : program.lower = .ok lowered)
    (arranged : site.Arranged memory core.ram)
    (inPlace : InPlace program site.executor)
    (completes : Reference.run lowered site.executor memory = (final, none)) :
    site.Yields core memory.base final.data := by
  obtain ⟨compilation⟩ := Program.compilation compiled
  obtain rfl : compilation.plan.program = lowered :=
    Except.ok.inj (compilation.planned.lowered.symm.trans isLowered)
  obtain ⟨isAligned, states, traced, rfl⟩ := compilation.exists_traced completes
  exact traced.yields built unmarked arranged isAligned
    (traced.isolated_inPlace arranged inPlace)

/-- An executor that increments two bytes in place. -/
def Reference.single : Executor :=
  { pair with arrays := pair.arrays.setIfInBounds 0 0x100 }

theorem Reference.inPlace_single : InPlace Program.increment single := by
  have plain : ∀ entry ∈ resolveCode Program.increment,
      entry.1.kind ≠ .loadOffset := by
    decide +kernel
  refine ⟨fun first second => ?_,
    fun entry isEntry isOffset => absurd isOffset (plain entry isEntry)⟩
  by_cases same : single.array first = single.array second
  · exact .inl ⟨same, fun isTwoD => absurd isTwoD (by decide +kernel)⟩
  · refine .inr fun row _ write place => ?_
    rintro ⟨_, _, _, accesses, _⟩ ⟨_, _, _, otherAccesses, _⟩
    have areSame : ∀ write : Bool,
        single.array 0 = single.array (if write then 0 else 4) := by
      decide
    rw [(accesses_increment accesses).1, (accesses_increment otherAccesses).1]
      at same
    exact same (areSame write)

theorem Program.call_in_place_increment :
    ∃ kernel, increment.compile {} = .ok kernel ∧
    (CallSite.packed kernel single pairMemory).Yields
      (.reset (CallSite.packedRam kernel single pairMemory)) pairMemory.base
        #[8, 9, 0, 0] := by
  obtain ⟨kernel, compiled, isFrame, isSize⟩ := increment_kernel
  have all : increment.lower.toOption.map
      (fun lowered => Reference.run lowered single pairMemory) =
        some (⟨0x100, #[8, 9, 0, 0]⟩, none) := by decide +kernel
  obtain ⟨lowered, isSome, completes⟩ := Option.map_eq_some_iff.mp all
  have isLowered := Outcome.toOption_eq_some.mp isSome
  have arranged : (CallSite.packed kernel single pairMemory).Arranged pairMemory
      (Core.reset (CallSite.packedRam kernel single pairMemory)).ram :=
    arranged_pairMemory isFrame isSize single
  exact ⟨kernel, compiled,
    call_in_place built_increment unmarked_increment compiled isLowered arranged
      inPlace_single completes⟩

end Call

end LaneKernel
