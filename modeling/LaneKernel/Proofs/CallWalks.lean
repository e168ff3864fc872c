import LaneKernel.Proofs.CallSites

/-!
# Walks of calls

A kernel that is called with its code and its record in memory walks over the
chunks of all rows and returns, or traps on the way.  This holds whatever the
memory holds besides.
-/

namespace LaneKernel

open Compiler

theorem Tour.carries_nothing (tour : Tour) :
    tour.Carries (fun _ _ _ => True) (fun _ _ _ => True) := by
  constructor <;> intros <;> trivial

theorem Tour.prepares_nothing (tour : Tour) (origin : Core) :
    tour.Prepares origin (fun _ _ _ => True) (fun _ _ => True) := by
  constructor <;> intros <;> trivial

/-- In front of code that starts inside a word the machine traps. -/
theorem Core.traps_misaligned {core : Core} {allowed : Access → Prop}
    (misaligned : core.pc.toNat % 4 ≠ 0) : core.Traps allowed := by
  have notHalt : core.pc ≠ Machine.haltAddress := by
    intro isHalt
    rw [isHalt] at misaligned
    exact misaligned (by decide)
  have notWord : core.pc % 4 ≠ 0 := by
    intro isWord
    apply misaligned
    simpa using congrArg UInt32.toNat isWord
  refine .inl ⟨⟨.addressErrorLoad, core.pc, core.pc⟩, ?_⟩
  unfold Machine.fetch
  rw [if_neg notHalt, if_pos notWord]

/-- A walk may end with a trap before it comes to a chunk. -/
theorem Guide.Walks.of_traps {mayTrap : Prop} {guide : Guide Core}
    {visits : List Visit} {core : Core} (accepted : mayTrap)
    (traps : ∀ allowed, core.Traps allowed) :
    guide.Walks (Core.Running mayTrap) visits core := by
  cases visits <;> exact .inr ⟨accepted, 0, core, [], .refl, traps _⟩

namespace Compilation

variable {program : Program} {options : CompileOptions} {site : CallSite}
  (compilation : Compilation program options site.kernel) {core : Core}
  (built : program.Built) (unmarked : program.Unmarked)
  (loaded : site.Loaded core.ram) (separate : site.Separate program)

include built unmarked loaded separate

/-- A kernel walks over the chunks of all rows, whatever the memory holds.  A
proof about its data may go along. -/
theorem walks {whole : Nat → Nat → Core → Prop}
    {preparing : List (Opcode × Instruction) → Core → Prop}
    {part : Visit → List (Opcode × Instruction) → Core → Prop}
    (data : Ram → Prop)
    (prepares : compilation.tourAt.Prepares (site.origin core) whole preparing)
    (carries : compilation.tourAt.Carries whole part)
    (settles : ∀ core, whole compilation.tourAt.rows 0 core → data core.ram) :
    (compilation.tourAt.machineGuide fun last => compilation.Ends core last ∧
      data last.ram).Walks
      (Core.Running (¬ site.Served program core.ram)) compilation.tourAt.visits
      ((site.origin core).setPc site.entry) := by
  by_cases aligned : site.entry.toNat % 4 = 0
  case neg =>
    exact .of_traps (fun served => aligned served.entryAligned)
      fun _ => Core.traps_misaligned aligned
  have codeAt : CodeAt (site.origin core).ram site.entry
      site.kernel.code.bytes := by
    rw [CallSite.ram_origin]
    exact loaded.codeAt aligned
  exact Tour.machine_walks compilation.planned
    (compilation.entered loaded separate) compilation.few
    (compilation.plain unmarked) (compilation.params built) prepares
    compilation.code carries settles compilation.placed codeAt
    (compilation.code_safe separate) (CallSite.caller_origin core)

theorem walks_anyhow :
    (compilation.tourAt.machineGuide (compilation.Ends core)).Walks
      (Core.Running (¬ site.Served program core.ram)) compilation.tourAt.visits
      ((site.origin core).setPc site.entry) := by
  have walks := compilation.walks built unmarked loaded separate (fun _ => True)
    (compilation.tourAt.prepares_nothing _) compilation.tourAt.carries_nothing
    fun _ _ => trivial
  simpa only [and_true] using walks

omit built unmarked loaded separate in
/-- A walk is a run within the footprint. -/
theorem running_of_walks {mayTrap : Prop} {finish : Core → Prop}
    (walks : (compilation.tourAt.machineGuide finish).Walks
      (Core.Running mayTrap) compilation.tourAt.visits
        ((site.origin core).setPc site.entry)) :
    Core.Running mayTrap compilation.tourAt.footprint
      (fun last _ => finish last) ((site.origin core).setPc site.entry) := by
  apply Guide.Walks.running _ _ walks
  · exact fun write address touched => .inl touched
  · exact fun visit isVisit write address => Or.imp_right fun inside =>
      ⟨visit, isVisit, inside⟩

end Compilation

end LaneKernel
