import LaneKernel.Proofs.Pointers

/-!
# The tour of a kernel

A tour collects what the loop of a kernel works on: its plan, the executor and
where it stands, and the stack.  It fixes the chunks that the loop comes to and
the bytes that it touches on each.  A chunk is visited by the code of the body,
whichever copy of it runs.
-/

namespace LaneKernel

open Asm Contract

/-- Where a row of an array starts. -/
def Executor.rowStart (executor : Executor) (twoD : Bool) (index : VarIndex)
    (row : Nat) : UInt32 :=
  if twoD then executor.array index + executor.paramWord index *
    UInt32.ofNat row
  else executor.array index

theorem Executor.rowStart_zero (executor : Executor) (twoD : Bool)
    (index : VarIndex) :
    executor.rowStart twoD index 0 = executor.array index := by
  unfold rowStart
  split
  · rw [show UInt32.ofNat 0 = 0 from rfl, UInt32.mul_zero, UInt32.add_zero]
  · rfl

theorem Executor.rowStart_succ (executor : Executor) (index : VarIndex)
    (row : Nat) :
    executor.rowStart true index (row + 1) =
      executor.rowStart true index row + executor.paramWord index := by
  unfold rowStart
  rw [if_pos rfl, if_pos rfl, UInt32.ofNat_add, UInt32.mul_add,
    UInt32.add_assoc]
  congr 2
  exact UInt32.mul_one _

/-- What the loop of a kernel works on. -/
structure Tour where
  plan : CompilePlan Unit
  body : List (Opcode × Instruction)
  executor : Executor
  /-- The address of the record. -/
  start : UInt32
  /-- The stack pointer below the frame. -/
  stack : UInt32

namespace Tour

variable (tour : Tour)

/-- The number of bytes of a row, as the kernel counts them. -/
def rowBytes :
    Nat := (tour.executor.n.toUInt32 <<< UInt32.ofNat tour.plan.shift).toNat

/-- The number of rows that the kernel goes through. -/
def rows : Nat :=
  if 0 < tour.executor.n.toInt then
    Reference.rowCount tour.plan.program tour.executor else 0

/-- The chunks of all rows. -/
def visits : List Visit := Visit.ofRows tour.rowBytes 0 tour.rows

/-- An instruction of the body touches an array. -/
def Touches (touch : Touch) : Prop :=
  ∃ entry ∈ tour.body, entry.1.touch? tour.plan.program.var entry.2 = some touch

/-- Where a row of an array starts. -/
def rowStart (index : VarIndex) (row : Nat) : UInt32 :=
  tour.executor.rowStart tour.plan.program.twoD index row

/-- The bytes that a touch takes on a chunk. -/
def region (visit : Visit) (touch : Touch) : Region :=
  ⟨tour.rowStart touch.array visit.row + UInt32.ofNat visit.start +
    Core.distance touch.shift,
    visit.length⟩

def record : Region := ⟨tour.start, Executor.recordSize⟩

def stage : Region := ⟨Frame.stage tour.stack, 16⟩

/-- Between two chunks only the record is read. -/
def between : Permission := fun write address => write = false ∧
    address ∈ tour.record

/-- On a chunk its bytes are touched, the record is read and the staging area is
used. -/
def during (visit : Visit) : Permission := fun write address =>
  tour.between write address ∨ address ∈ tour.stage ∨
    ∃ touch, tour.Touches touch ∧ touch.write = write ∧
      address ∈ tour.region visit touch

/-- The bytes that are touched on any chunk. -/
def reach : Permission := fun write address =>
  tour.between write address ∨ ∃ visit ∈ tour.visits,
    tour.during visit write address

/-- The registers that the loop changes. -/
def changed : List RegNum :=
  [8, 9, 10, 11, 12, 13, 14, 15] ++ tour.plan.pointers.map fun entry =>
    entry.2.index

/-- The site of the body that is not unrolled. -/
def site : EmitSite := Compiler.site tour.plan false 0

/-- The walk of the loop. -/
def guide (finish : Fragment × Core → Prop) : Guide (Fragment × Core) where
  between := tour.between
  during := tour.during
  enter visit state := visit.start = 0 → ∀ entry ∈ tour.plan.pointers,
    state.2.reg entry.2.index = tour.rowStart entry.1 visit.row
  covers visit log := ∀ touch, tour.Touches touch →
    Touched log touch.write (tour.region visit touch)
  finish := finish

/-- What the loop relies on when it starts. -/
structure Ready (target : Label → Fragment) (mayTrap : Prop) (begun : Core) :
    Prop where
  record : Record ⟨target, tour.between, mayTrap⟩ tour.executor tour.start begun
  isStack : begun.reg 29 = tour.stack
  stageServed : mayTrap ∨ tour.stack.toNat % 4 = 0 ∧ begun.ram.Serves tour.stage
  served : ∀ visit ∈ tour.visits, ∀ touch, tour.Touches touch →
    mayTrap ∨ begun.ram.Serves (tour.region visit touch)
  aligned : ∀ row < tour.rows, ∀ touch, tour.Touches touch →
    Routines.wordAligned tour.site touch.array touch.shift = true →
    mayTrap ∨
      (tour.rowStart touch.array row + Core.distance touch.shift).toNat % 4 = 0
  safe : ∀ address ∈ tour.record, ¬ tour.reach true address

/-- What holds all through the loop: the pointers are at a place of a row. -/
structure Looping (begun : Core) (row place : Nat) (core : Core) : Prop where
  keeps : begun.Keeps tour.changed tour.site.vectorRegs core
  kept : Ram.Kept tour.reach begun.ram core.ram
  pointers : ∀ entry ∈ tour.plan.pointers,
    core.reg entry.2.index = tour.rowStart entry.1 row + UInt32.ofNat place

/-- What a proof about the data has to say: `whole` holds at every place of a
row, `part` in front of the instructions that are still ahead on a chunk. -/
structure Carries (whole : Nat → Nat → Core → Prop)
    (part : Visit → List (Opcode × Instruction) → Core → Prop) : Prop where
  same : ∀ row place core next, whole row place core → (∀ register,
    next.vector register = core.vector register) → next.ram = core.ram →
      whole row place next
  opens : ∀ visit ∈ tour.visits, ∀ core, whole visit.row visit.start core →
    part visit tour.body core
  advance : ∀ visit ∈ tour.visits, ∀ entry remaining before after,
    part visit (entry :: remaining) before →
    Performed tour.site tour.executor tour.stack (tour.region visit) entry.1
      entry.2 before after →
    part visit remaining after
  closes : ∀ visit ∈ tour.visits, ∀ core, part visit [] core →
    whole visit.row (visit.start + visit.length) core
  nextRow : ∀ row < tour.rows, ∀ core, whole row tour.rowBytes core →
    whole (row + 1) 0 core

end Tour

section Visiting

variable {tour : Tour} {program : Program} {options : CompileOptions}
  (planned : Planned program options tour.plan tour.body)
  {target : Label → Fragment} {mayTrap : Prop} {begun core next : Core}
  {row place : Nat} (ready : tour.Ready target mayTrap begun)

theorem Tour.during_reach {visit : Visit} (isVisit : visit ∈ tour.visits)
    (write : Bool) (address : UInt32)
    (isDuring : tour.during visit write address) : tour.reach write address :=
  .inr ⟨visit, isVisit, isDuring⟩

namespace Tour.Looping

include planned in
theorem fixed (register : RegNum) (isFixed : register ∈ [0, 4, 29, 30, 31]) :
    register ∉ tour.changed := by
  have notLoop : ∀ number ∈ [(0 : RegNum), 4, 29, 30, 31],
      number ∉ [(8 : RegNum), 9, 10, 11, 12, 13, 14, 15] := by decide
  have notPointer : ∀ number ∈ [(0 : RegNum), 4, 29, 30, 31],
      number ∉ Contract.pointerNumbers := by decide
  intro isChanged
  rcases List.mem_append.mp isChanged with isLoop | isPointer
  · exact notLoop register isFixed isLoop
  · obtain ⟨entry, isEntry, rfl⟩ := List.mem_map.mp isPointer
    exact notPointer _ isFixed (planned.pointer_mem isEntry)

include planned ready in
theorem record (looping : tour.Looping begun row place core) {may : Permission}
    (reads : ∀ address ∈ tour.record, may false address) :
    Record ⟨target, may, mayTrap⟩ tour.executor tour.start core := by
  have kept : Record _ tour.executor tour.start core := ready.record.keep
    (looping.keeps.reg _ (fixed planned 4 (by decide))) looping.kept ready.safe
  exact ⟨kept.small, kept.pointer, reads, kept.served, kept.held⟩

include planned in
theorem moved (looping : tour.Looping begun row place core)
    {registers : List RegNum} (moved : core.Moved registers next)
    (own : ∀ register ∈ registers,
      register ∈ [(8 : RegNum), 9, 10, 11, 12, 13, 14, 15]) :
    tour.Looping begun row place next where
  keeps := looping.keeps.trans
    (moved.keeps.mono (fun register isChanged =>
      List.mem_append_left _ (own register isChanged))
      (List.nil_subset _))
  kept := looping.kept.trans (by rw [moved.ram]; exact .refl _)
  pointers entry isEntry := by
    have apart : ∀ number ∈ Contract.pointerNumbers,
        number ∉ [(8 : RegNum), 9, 10, 11, 12, 13, 14, 15] := by decide
    rw [moved.reg fun isChanged =>
      apart _ (planned.pointer_mem isEntry) (own _ isChanged)]
    exact looping.pointers entry isEntry

include planned in
theorem ran (looping : tour.Looping begun row place core) {inTail : Bool}
    {offset : Nat} {visit : Visit} (isVisit : visit ∈ tour.visits)
    {log : List Access}
    (ran : Ran ⟨target, tour.during visit, mayTrap⟩
      (Compiler.site tour.plan inTail offset) (tour.region visit) tour.body core
        next log) :
    tour.Looping begun row place next where
  keeps := looping.keeps.trans (ran.keeps.mono
    (fun register isWorking => List.mem_append_left _
      (show register ∈ [(8 : RegNum), 9, 10, 11, 12, 13, 14, 15] by
        have inside : ∀ number ∈ working,
            number ∈ [(8 : RegNum), 9, 10, 11, 12, 13, 14, 15] := by
          decide
        exact inside register isWorking))
    (List.Subset.refl _))
  kept := looping.kept.trans ⟨ran.kept.base, ran.kept.size,
    fun address untouched => ran.kept.peek address
      fun isDuring =>
        untouched (tour.during_reach isVisit true address isDuring)⟩
  pointers entry isEntry := by
    have apart : ∀ number ∈ Contract.pointerNumbers, number ∉ working := by
      decide
    rw [ran.keeps.reg _ (apart _ (planned.pointer_mem isEntry))]
    exact looping.pointers entry isEntry

end Tour.Looping

theorem Tour.rowStart_add (tour : Tour) (index : VarIndex)
    (row place offset : Nat) :
    tour.rowStart index row + UInt32.ofNat place + UInt32.ofNat offset =
      tour.rowStart index row + UInt32.ofNat (place + offset) := by
  rw [UInt32.add_assoc, UInt32.ofNat_add]

theorem Performed.ofCopy {plan : CompilePlan Unit} {inTail : Bool}
    {offset : Nat} {executor : Executor} {stack : UInt32}
    {region : Touch → Region} {opcode : Opcode} {instruction : Instruction}
    {before after : Core}
    (performed : Performed (Compiler.site plan inTail offset) executor stack
      region opcode instruction before after) :
    Performed (Compiler.site plan false 0) executor stack region opcode
      instruction before after := by
  obtain ⟨⟨keeps, base, size, value⟩, loaded, stored, filled, computed, peek⟩ :=
    performed
  exact ⟨⟨keeps, base, size, value⟩, loaded, stored, filled, computed, peek⟩

/-- What the code for a chunk may rely on. -/
structure Tour.Fits (tour : Tour) (inTail : Bool) (offset length : Nat)
    (core : Core) : Prop where
  whole : inTail = false → length = 16
  part : inTail = true → length < 16 ∧ core.reg 10 = UInt32.ofNat length ∧
    offset = 0

namespace Tour.Looping

variable {inTail : Bool} {offset length : Nat}

include planned ready in
/-- In the loop the code for a chunk has what it relies on. -/
theorem chunk (looping : tour.Looping begun row place core)
    (fits : tour.Fits inTail offset length core) {may : Permission}
    (stages : ∀ address ∈ tour.stage, ∀ write, may write address) :
    Chunk ⟨target, may, mayTrap⟩ (Compiler.site tour.plan inTail offset)
      tour.stack length core where
  small := by
    rw [looping.kept.size]
    exact ready.record.small
  isStack := (looping.keeps.reg 29 (fixed planned 29 (by decide))).trans
    ready.isStack
  whole := fits.whole
  part := fits.part
  stages := stages
  stageServed := ready.stageServed.imp_right fun ⟨aligned, serves⟩ =>
    ⟨aligned, looping.kept.serves serves⟩

theorem region_eq (looping : tour.Looping begun row place core)
    {code : Fragment}
    (codes : StepsCode (Compiler.site tour.plan inTail offset)
      (tour.body.map Opcode.step) code)
    {entry : Opcode × Instruction} (isEntry : entry ∈ tour.body) {touch : Touch}
    (isTouch : entry.1.touch? tour.plan.program.var entry.2 = some touch) :
    (Compiler.site tour.plan inTail offset).region core touch length =
      tour.region ⟨row, place + offset, length⟩ touch := by
  obtain ⟨register, found⟩ := codes.pointer isEntry isTouch
  unfold EmitSite.region Tour.region
  rw [EmitSite.address_eq found,
    looping.pointers (touch.array, register) (mem_of_lookup found)]
  change (⟨tour.rowStart _ _ + _ + UInt32.ofNat offset + _, _⟩ : Region) = _
  rw [tour.rowStart_add]

end Tour.Looping

include planned ready in
/-- The code of the body visits a chunk. -/
theorem Tour.visit_onward {whole : Nat → Nat → Core → Prop}
    {part : Visit → List (Opcode × Instruction) → Core → Prop}
    (carries : tour.Carries whole part)
    (params : ∀ index, (tour.plan.program.var index).role = .param →
      (0 : Int) ≤ index ∧ index + 8 < (64 : Int))
    {inTail : Bool} {offset length : Nat} {code rest : Fragment}
    {visits : List Visit} {finish : Fragment × Core → Prop}
    (codes : StepsCode (Compiler.site tour.plan inTail offset)
      tour.plan.body code)
    (looping : tour.Looping begun row place core)
    (fits : tour.Fits inTail offset length core)
    (atStart : inTail = true → place = 0)
    (isVisit : (⟨row, place + offset, length⟩ : Visit) ∈ tour.visits)
    (resolves : Resolves target (code ++ rest))
    (holds : whole row (place + offset) core)
    (continues : ∀ next, tour.Looping begun row place next →
      core.Keeps working tour.site.vectorRegs next →
        whole row (place + offset + length) next →
      (tour.guide finish).Onward target mayTrap visits rest next) :
    (tour.guide finish).Onward target mayTrap
      (⟨row, place + offset, length⟩ :: visits) (code ++ rest) core := by
  have inRow := (Visit.of_mem_ofRows isVisit).1.2
  rw [Nat.zero_add] at inRow
  rw [planned.isBody] at codes
  apply Guide.Onward.visit
  · intro atZero entry isEntry
    change place + offset = 0 at atZero
    rw [looping.pointers entry isEntry, show place = 0 by omega,
      show UInt32.ofNat 0 = 0 from rfl, UInt32.add_zero]
  · have record :
        Record ⟨target, tour.during ⟨row, place + offset, length⟩, mayTrap⟩
          tour.executor tour.start core :=
      looping.record planned ready fun address inRecord => .inl ⟨rfl, inRecord⟩
    have chunk : Chunk ⟨target, tour.during ⟨row, place + offset, length⟩,
        mayTrap⟩ (Compiler.site tour.plan inTail offset) tour.stack
          length core :=
      looping.chunk planned ready fits fun _ inStage _ => .inr (.inl inStage)
    apply StepsCode.leads codes
      (fun entry isEntry =>
        (Reference.opcode_of_mem (planned.mem_resolveCode isEntry).1).2.1)
      (planned.site_sound inTail offset) params chunk record
      (fun address inRecord isDuring =>
        ready.safe address inRecord
          (tour.during_reach isVisit true address isDuring))
    · intro entry isEntry touch isTouch
      have touches : tour.Touches touch := ⟨entry, isEntry, isTouch⟩
      refine ⟨looping.region_eq codes isEntry isTouch, ?_, ?_, ?_⟩
      · exact fun address inside => .inr (.inr ⟨touch, touches, rfl, inside⟩)
      · exact (ready.served _ isVisit touch touches).imp_right
          looping.kept.serves
      · intro tailed isAligned
        obtain ⟨_, _, noOffset⟩ := fits.part tailed
        have aligned := ready.aligned row inRow touch touches isAligned
        change mayTrap ∨
          (tour.rowStart touch.array row + UInt32.ofNat (place + offset) +
          Core.distance touch.shift).toNat % 4 = 0
        rw [noOffset, atStart tailed]
        rw [show UInt32.ofNat (0 + 0) = 0 from rfl, UInt32.add_zero]
        exact aligned
    · exact carries.opens _ isVisit core holds
    · intro entry remaining before after held performed
      exact carries.advance _ isVisit entry remaining before after held
        performed.ofCopy
    · exact resolves
    · intro next logged ran finished _
      apply Leads.done
      refine ⟨?_, ?_⟩
      · rintro touch ⟨entry, isEntry, isTouch⟩
        exact ran.touched entry isEntry touch isTouch
      · exact continues next (looping.ran planned isVisit ran) ran.keeps
          (carries.closes _ isVisit next finished)

end Visiting

end LaneKernel
