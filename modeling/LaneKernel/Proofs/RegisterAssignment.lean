import LaneKernel.Proofs.KernelFrame
import LaneKernel.Proofs.PlanConditions

/-!
# Registers and frames that do not overlap

A planner that has come to the registers of a program does not run out of them.
Every array that the code touches and every temporary gets a register of its
own, the first one that is left, and none that has a fixed part.  A compiled
kernel lists these registers in ascending order, and saves exactly those that
its caller expects back.  The places of a frame, whatever it keeps, stand one
behind the other.  The main statement is `Compiler.assigns_apart`.
-/

namespace LaneKernel

namespace Contract

/-- Each variable of a list has got the first register of an order that was left
for it. -/
structure HandsOut (order : List Reg) (indices : List VarIndex)
    (pairs : List (VarIndex × Reg)) :
    Prop where
  keys : pairs.map Prod.fst = indices
  once : indices.Nodup
  registers : (pairs.map Prod.snd).Nodup
  firstFit : ∀ front entry back, pairs = front ++ entry :: back →
    order.find? (fun register => !(front.map Prod.snd).contains register) =
      some entry.2
  free : ∀ entry ∈ pairs, reserved entry.2 = false

theorem handsOut_of_assign {what : String} {order : List Reg}
    {indices : List VarIndex} {pairs : List (VarIndex × Reg)}
    (isAssigned : assign what order indices = .ok pairs)
    (distinct : order.Nodup)
    (apart : ∀ register ∈ order, reserved register = false)
    (once : indices.Nodup) : HandsOut order indices pairs := by
  obtain ⟨keys, isPrefix⟩ := assign_eq_ok isAssigned
  refine ⟨keys, once, distinct.sublist isPrefix.sublist, ?_, ?_⟩
  · rintro front entry back rfl
    obtain ⟨left, rfl⟩ := isPrefix
    rw [List.map_append, List.map_cons, List.append_assoc] at distinct ⊢
    have isNew : entry.2 ∉ front.map Prod.snd := fun isUsed =>
      (List.disjoint_of_nodup_append distinct) isUsed List.mem_cons_self
    have allUsed : (front.map Prod.snd).find?
        (fun register => !(front.map Prod.snd).contains register) = none :=
      List.find?_eq_none.mpr fun register isUsed => by simpa using isUsed
    rw [List.find?_append, allUsed, Option.none_or, List.cons_append,
      List.find?_cons_of_pos]
    simpa using isNew
  · intro entry isEntry
    exact apart _ (isPrefix.subset (List.mem_map_of_mem isEntry))

theorem mem_ascending {registers : List Reg}
    (known : ∀ register ∈ registers, register ∈ allRegisters) (register : Reg) :
    register ∈ ascending registers ↔ register ∈ registers := by
  rw [ascending, List.mem_filter, List.contains_iff_mem]
  exact and_iff_right_of_imp (known register)

theorem ascending_pairwise (registers : List Reg) :
    (ascending registers).Pairwise fun first second =>
      first.number < second.number := by
  have inOrder : allRegisters.Pairwise fun first second =>
      first.number < second.number := by decide
  exact inOrder.sublist List.filter_sublist

theorem ascending_filter (registers : List Reg) (keep : Reg → Bool) :
    ascending (registers.filter keep) = (ascending registers).filter keep := by
  unfold ascending
  rw [List.filter_filter]
  refine List.filter_congr fun register _ => ?_
  rw [Bool.eq_iff_iff]
  simp [and_comm]

theorem ascending_banks (registers : List Reg) :
    ascending (registers.filter Reg.isGeneral) ++
      ascending (registers.filter Reg.isVector) =
      ascending registers := by
  have banks : allRegisters.filter Reg.isGeneral ++
      allRegisters.filter Reg.isVector =
      allRegisters := by decide
  rw [ascending_filter, ascending_filter]
  unfold ascending
  rw [List.filter_comm Reg.isGeneral, List.filter_comm Reg.isVector,
    ← List.filter_append, banks]

end Contract

section Kernels

open Compiler

variable {σ : Type} {rules : Registry σ} {program lowered : Program}
  {options : CompileOptions} {shift : Nat} {steps : List (BodyStep σ)}
  {plan : CompilePlan σ}

/-- A plan hands out pointers to the arrays that are touched and vectors to the
temporaries. -/
theorem PlanParts.handsOut
    (parts : PlanParts rules program options plan steps) :
    Contract.HandsOut Contract.pointerOrder (walkedArrays plan.program steps)
      plan.pointers ∧
        Contract.HandsOut Contract.vectorOrder (declaredTemps plan.program)
        plan.vectors := by
  have isPointers := parts.pointers
  rw [parts.walked] at isPointers
  exact ⟨Contract.handsOut_of_assign isPointers (by decide) (by decide)
      (plan.program.nodup_arrays.filter _),
    Contract.handsOut_of_assign parts.vectors (by decide) (by decide)
      (Lowering.nodup_tempSlots.filter _)⟩

/-- The frame of a plan keeps the registers that the caller expects back, in
ascending order. -/
theorem PlanParts.frame_saved
    (parts : PlanParts rules program options plan steps) :
    plan.frame.saved =
      (Contract.ascending ((plan.pointers ++ plan.vectors).map Prod.snd)).filter
      Contract.calleeSaved := by
  obtain ⟨isGeneral, isVector, -⟩ := Frame.layout_eq_ok.mp parts.frame
  rw [Frame.saved, isGeneral, isVector, Contract.ascending_banks,
    ← Contract.ascending_filter]
  rfl

theorem Compiler.registers_of_compile {state after : σ}
    {kernel : CompiledKernel}
    (isPlan : Compiler.plan rules program options = .ok plan)
    (compiled : compile rules program options state = (.ok kernel, after)) :
    kernel.registers = plan.registers ∧ kernel.saved = plan.frame.saved := by
  simp only [compile, isPlan] at compiled
  split at compiled
  case h_1 => cases compiled
  case h_2 =>
    obtain ⟨code, -, isKernel⟩ := Outcome.bind_eq_ok.mp (Prod.mk.inj compiled).1
    cases isKernel
    exact ⟨rfl, rfl⟩

/-- The registers of a kernel are those that its plan hands out, in ascending
order, and those that it saves are the ones among them that the caller expects
back. -/
theorem PlanParts.kernel_registers
    (parts : PlanParts rules program options plan steps) {state after : σ}
    {kernel : CompiledKernel}
    (compiled : compile rules program options state = (.ok kernel, after)) :
    kernel.registers.Pairwise
      (fun first second => first.number < second.number) ∧
        (∀ register, register ∈ kernel.registers ↔
        register ∈ (plan.pointers ++ plan.vectors).map Prod.snd) ∧
      kernel.saved = kernel.registers.filter Contract.calleeSaved := by
  obtain ⟨isRegisters, isSaved⟩ :=
    registers_of_compile (plan_eq_ok.mpr ⟨steps, parts⟩) compiled
  rw [isSaved, isRegisters, parts.registers, parts.frame_saved]
  refine ⟨Contract.ascending_pairwise _, Contract.mem_ascending ?_, rfl⟩
  obtain ⟨-, fromPointers⟩ := Contract.assign_eq_ok parts.pointers
  obtain ⟨-, fromVectors⟩ := Contract.assign_eq_ok parts.vectors
  have everywhere : ∀ register ∈ Contract.pointerOrder ++ Contract.vectorOrder,
      register ∈ Contract.allRegisters := by decide
  intro register isHanded
  rw [List.map_append, List.mem_append] at isHanded
  exact everywhere register (List.mem_append.mpr
    (isHanded.imp (fromPointers.subset ·) (fromVectors.subset ·)))

/-- A built program that comes to its registers gets them: the arrays that it
touches get pointers and its temporaries get vectors, each the first free one
and none twice or with a fixed part.  A kernel compiled from it lists them in
ascending order, general ones first, and saves those that the caller expects
back.  In any frame that is laid out the places stand in the frame one behind
the other, those of the vectors at multiples of sixteen bytes. -/
theorem Compiler.assigns_apart :
    (∀ {σ : Type} (rules : Registry σ) (program lowered : Program)
      (options : CompileOptions)
        (shift : Nat) (steps : List (BodyStep σ)), program.Built →
      Prepared rules program options lowered shift steps →
      ∃ plan, Compiler.plan rules program options = .ok plan ∧
        plan.program = lowered ∧
        Contract.HandsOut Contract.pointerOrder (walkedArrays lowered steps)
          plan.pointers ∧
        Contract.HandsOut Contract.vectorOrder (declaredTemps lowered)
          plan.vectors ∧
        ∀ state kernel after, compile rules program options state =
          (.ok kernel, after) →
          kernel.registers.Pairwise
            (fun first second => first.number < second.number) ∧
          (∀ register, register ∈ kernel.registers ↔
            register ∈ (plan.pointers ++ plan.vectors).map Prod.snd) ∧
          kernel.saved = kernel.registers.filter Contract.calleeSaved) ∧
    ∀ (general vector : List Reg) (frame : Frame),
      Frame.layout general vector = .ok frame → frame.generalSaves = general ∧
        frame.vectorSaves = vector ∧
      frame.areas.Pairwise Frame.Area.Before ∧
      (∀ area ∈ frame.areas, area.offset + area.size ≤ frame.size) ∧
      (∀ index, frame.vectorSlot index % 16 = 0) ∧ frame.size % 16 = 0 := by
  constructor
  · intro σ rules program lowered options shift steps built prepared
    obtain ⟨plan, parts, rfl⟩ := built.plan_of_prepared prepared
    obtain ⟨pointers, vectors⟩ := parts.handsOut
    exact ⟨plan, plan_eq_ok.mpr ⟨steps, parts⟩, rfl, pointers, vectors,
      fun _ _ _ compiled => parts.kernel_registers compiled⟩
  · intro general vector frame isLayout
    obtain ⟨isGeneral, isVector, -⟩ := Frame.layout_eq_ok.mp isLayout
    obtain ⟨ordered, inside⟩ := Frame.areas_apart isLayout
    obtain ⟨atBlocks, whole⟩ := Frame.whole_blocks isLayout
    exact ⟨isGeneral, isVector, ordered, inside, atBlocks, whole⟩

/-- The increment gets registers, and a frame for one register of each bank
keeps its five places apart. -/
theorem Compiler.assigns_apart_increment :
    (∃ lowered shift steps,
      Prepared (Registry.standard : Registry Unit) Program.increment {} lowered
        shift steps ∧ ∃ plan : CompilePlan Unit,
          Compiler.plan Registry.standard Program.increment {} = .ok plan ∧
          Contract.HandsOut Contract.pointerOrder (walkedArrays lowered steps)
            plan.pointers) ∧
    ∃ frame, Frame.layout [.s0] [.vec 20] = .ok frame ∧
      frame.areas.Pairwise Frame.Area.Before := by
  constructor
  · have isSome :
        (Compiler.plan (Registry.standard : Registry Unit) Program.increment
        {}).toOption.isSome = true := by decide +kernel
    obtain ⟨made, isMade⟩ := Option.isSome_iff_exists.mp isSome
    obtain ⟨steps, parts⟩ := plan_eq_ok.mp (Outcome.toOption_eq_some.mp isMade)
    obtain ⟨plan, isPlan, -, pointers, -⟩ :=
      assigns_apart.1 _ _ _ _ _ _ Program.built_increment parts.prepared
    exact ⟨_, _, _, parts.prepared, plan, isPlan, pointers⟩
  · have isLayout : Frame.layout [.s0] [.vec 20] =
        .ok ⟨64, [.s0], [.vec 20], 48⟩ := by decide
    exact ⟨_, isLayout, (assigns_apart.2 _ _ _ isLayout).2.2.1⟩

end Kernels

end LaneKernel
