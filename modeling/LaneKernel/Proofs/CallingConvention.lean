import LaneKernel.Proofs.KernelCorrectness

/-!
# The calling convention

A kernel gives back the registers that its caller expects back, whichever way
its run takes.  The last four words of a kernel restore the frame pointer and
the stack pointer; a machine whose halt address is one of them stops too early,
so these two need the code to be elsewhere.
-/

namespace LaneKernel

open Compiler Reference

section Convention

variable {program : Program} {options : CompileOptions} {site : CallSite}
  {machine : Machine} {cancelled : Nat → Bool}

/-- A call that returns without an error gives back the registers that the
caller expects back. -/
theorem Program.call_restores (built : program.Built)
    (unmarked : program.Unmarked)
    (compiled : program.compile options = .ok site.kernel)
    (loaded : site.Loaded machine.core.ram) (separate : site.Separate program)
    (returned : (machine.call cancelled site.entry site.argument site.stack).2 =
      none) :
    (∀ number : RegNum, 16 ≤ number.val ∧ number.val ≤ 23 →
      (machine.call cancelled site.entry site.argument site.stack).1.core.reg
        number = machine.core.reg number) ∧
    (∀ number : RegNum, 20 ≤ number.val ∧ number.val ≤ 30 →
      (machine.call cancelled site.entry site.argument site.stack).1.core.vector
        number = machine.core.vector number) ∧
    (Machine.haltAddress ∉ site.code →
      (machine.call cancelled site.entry site.argument site.stack).1.core.reg
        29 = site.stack ∧
      (machine.call cancelled site.entry site.argument site.stack).1.core.reg
        30 = machine.core.reg 30) := by
  obtain ⟨compilation⟩ := Program.compilation compiled
  rcases compilation.running_of_walks
    (compilation.walks_anyhow built unmarked loaded separate) with
    ⟨count, last, logged, steps, ended⟩ | ⟨_, count, last, logged, steps, traps⟩
  case inr => exact absurd returned (Machine.call_of_trap steps traps)
  rcases @Machine.call_of_halt _ _ machine _ _ cancelled _ _ _ steps
    ended.halted with
    isCall | ⟨_, failed⟩
  case inr => exact absurd returned failed
  rw [isCall]
  have general : ∀ number : RegNum, 16 ≤ number.val ∧ number.val ≤ 23 →
      number ∉ [(4 : RegNum), 29, 31] := by decide
  refine ⟨fun number bounds => ?_, fun number bounds => ?_, fun outside => ?_⟩
  · exact (ended.general number bounds).trans
      (CallSite.reg_origin _ (general number bounds))
  · exact (ended.vector number bounds).trans (CallSite.vector_origin _ number)
  · obtain ⟨isStack, isFrame⟩ := ended.restored outside
    exact ⟨isStack.trans (CallSite.stack_origin _),
      isFrame.trans (CallSite.reg_origin _ (by decide))⟩

/-- A core with values in registers that a call has to give back. -/
def Core.marked (ram : Ram) : Core := ((Core.reset ram).setReg 16 7).setReg 30 9

theorem Core.ram_marked (ram : Ram) : (Core.marked ram).ram = ram := by
  unfold Core.marked
  rw [Core.ram_setReg, Core.ram_setReg]
  rfl

theorem Core.reg_marked (ram : Ram) :
    (Core.marked ram).reg 16 = 7 ∧ (Core.marked ram).reg 30 = 9 := by
  unfold Core.marked
  rw [Core.reg_setReg_other _ _ _ _ (by decide),
    Core.reg_setReg_same _ _ _ (by decide),
    Core.reg_setReg_same _ _ _ (by decide)]
  exact ⟨rfl, rfl⟩

theorem CallSite.stack_packed {kernel : CompiledKernel} (executor : Executor)
    (memory : FlatMemory) (isFrame : kernel.frameSize = 32) :
    (packed kernel executor memory).stack =
      memory.base + UInt32.ofNat
        (memory.data.size + Executor.recordSize + 32) := by
  unfold packed
  rw [isFrame]

theorem Reference.returns_packed {kernel : CompiledKernel} {executor : Executor}
    {memory final : FlatMemory} {core : Core}
    (compiled : Program.increment.compile {} = .ok kernel)
    (arranged : (CallSite.packed kernel executor memory).Arranged memory
      core.ram)
    (apart : RowsApart Program.increment executor)
    (completes : run Program.increment executor memory = (final, none)) :
    ∃ compilation : Compilation Program.increment {}
      (CallSite.packed kernel executor memory).kernel,
        (CallSite.packed kernel executor memory).Separate Program.increment ∧
      (CallSite.packed kernel executor memory).Returns core
        (compilation.Ends core) := by
  obtain ⟨compilation⟩ := Program.compilation
    (show Program.compile _ _ =
      .ok (CallSite.packed kernel executor memory).kernel from compiled)
  obtain ⟨isAligned, states, traced, _⟩ :=
    compilation.exists_traced (compilation.run_lowered apart completes)
  obtain ⟨count, returns⟩ :=
    traced.returns Program.built_increment Program.unmarked_increment
    arranged isAligned (traced.isolated_apart arranged apart)
  refine ⟨compilation, arranged.separate (traced.inside arranged), count, ?_⟩
  intro machine cancelled isCore unlimited goesOn
  exact (returns machine cancelled isCore unlimited goesOn).imp_right And.left

theorem Program.call_restores_increment :
    ∃ kernel, increment.compile {} = .ok kernel ∧
    ∃ machine : Machine,
      machine.core = .marked (CallSite.packedRam kernel pair pairMemory) ∧
        ∃ last, machine.call (fun _ => false)
        (CallSite.packed kernel pair pairMemory).entry
          (CallSite.packed kernel pair pairMemory).argument
          (CallSite.packed kernel pair pairMemory).stack = (last, none) ∧
        last.core.reg 16 = 7 ∧ last.core.reg 30 = 9 ∧
        last.core.reg 29 = (CallSite.packed kernel pair pairMemory).stack := by
  obtain ⟨kernel, compiled, isFrame, isSize⟩ := increment_kernel
  have arranged : (CallSite.packed kernel pair pairMemory).Arranged pairMemory
      (Core.marked (CallSite.packedRam kernel pair pairMemory)).ram := by
    rw [Core.ram_marked]
    exact arranged_pairMemory isFrame isSize pair
  have completes : Reference.run increment pair pairMemory =
      (⟨0x100, #[5, 6, 8, 9]⟩, none) := by
    decide +kernel
  obtain ⟨compilation, separate, count, returns⟩ :=
    returns_packed compiled arranged apart_pair completes
  obtain ⟨returned, _⟩ :=
    returns ⟨_, 0, 0, 0⟩ (fun _ => false) rfl (.inl rfl) fun _ => rfl
  obtain ⟨general, _, pointers⟩ :=
    call_restores built_increment unmarked_increment
    (show increment.compile {} =
      .ok (CallSite.packed kernel pair pairMemory).kernel from compiled)
    arranged.loaded separate returned
  have elsewhere :
      Machine.haltAddress ∉ (CallSite.packed kernel pair pairMemory).code := by
    change _ ∉ (⟨(CallSite.packed kernel pair pairMemory).stack,
      kernel.code.bytes.size⟩ : Region)
    rw [CallSite.stack_packed pair pairMemory isFrame, isSize]
    decide
  refine ⟨kernel, compiled, _, rfl, _, Prod.ext rfl returned, ?_, ?_,
    (pointers elsewhere).1⟩
  · exact (general 16 (by decide)).trans (Core.reg_marked _).1
  · exact (pointers elsewhere).2.trans (Core.reg_marked _).2

/-- The last addresses of the machine. -/
def Reference.topMemory : FlatMemory := ⟨0xfffffc08, #[]⟩

/-- Code up to the last address holds the halt address, where the machine stops
with the stack pointer still below the frame. -/
theorem Program.not_call_restores_pointers :
    ¬ ∀ (program : Program) (options : CompileOptions) (site : CallSite)
      (machine : Machine) (cancelled : Nat → Bool), program.Built →
        program.Unmarked →
      program.compile options = .ok site.kernel → site.Loaded machine.core.ram →
      site.Separate program →
      (machine.call cancelled site.entry site.argument site.stack).2 = none →
      (∀ number : RegNum, 16 ≤ number.val ∧ number.val ≤ 23 →
        (machine.call cancelled site.entry site.argument site.stack).1.core.reg
          number = machine.core.reg number) ∧
      (∀ number : RegNum, 20 ≤ number.val ∧ number.val ≤ 30 →
        (machine.call cancelled site.entry site.argument
          site.stack).1.core.vector number = machine.core.vector number) ∧
      (machine.call cancelled site.entry site.argument site.stack).1.core.reg
        29 = site.stack ∧
      (machine.call cancelled site.entry site.argument site.stack).1.core.reg
        30 = machine.core.reg 30 := by
  intro restores
  obtain ⟨kernel, compiled, isFrame, isSize⟩ := increment_kernel
  have arranged : (CallSite.packed kernel {} topMemory).Arranged topMemory
      (Core.reset (CallSite.packedRam kernel {} topMemory)).ram :=
    CallSite.arranged_packed (by rw [isFrame, isSize]; decide)
      (by rw [isFrame, isSize]; decide) (by decide) (by decide)
      (by rw [isFrame]) (by rw [isSize]; decide)
  have apart : RowsApart increment {} := by
    constructor
    · rintro _ _ _ _ _ ⟨_, impossible, _⟩
      exact absurd impossible (Nat.not_lt_zero _)
    · rintro _ _ _ _ _ _ ⟨_, impossible, _⟩
      exact absurd impossible (Nat.not_lt_zero _)
  have completes : Reference.run increment {} topMemory =
      (topMemory, none) := by decide +kernel
  obtain ⟨compilation, separate, count, returns⟩ :=
    returns_packed compiled arranged apart completes
  obtain ⟨returned, ended⟩ :=
    returns ⟨_, 0, 0, 0⟩ (fun _ => false) rfl (.inl rfl) fun _ => rfl
  obtain ⟨_, _, isRestored, _⟩ :=
    restores increment {} (CallSite.packed kernel {} topMemory) _ _
    built_increment unmarked_increment compiled arranged.loaded separate
      returned
  have isExit : compilation.exit = 420 := by
    have isCode := compilation.exit_eq rfl
    change kernel.code.bytes.size = _ at isCode
    omega
  have isStack := CallSite.stack_packed {} topMemory isFrame
  have isHalt : (CallSite.packed kernel {} topMemory).stack +
      UInt32.ofNat compilation.exit =
      Machine.haltAddress := by
    rw [isExit, isStack]
    decide
  have notRestored := (ended.early isHalt).symm.trans isRestored
  change (CallSite.packed kernel {} topMemory).stack -
    UInt32.ofNat kernel.frameSize =
    (CallSite.packed kernel {} topMemory).stack at notRestored
  rw [isStack, isFrame] at notRestored
  exact absurd notRestored (by decide)

end Convention

end LaneKernel
