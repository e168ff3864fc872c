import Mathlib.Data.List.Basic
import LaneKernel.Proofs.Broadcasts
import LaneKernel.Proofs.Emission

/-!
# Code that computes

The code of an arithmetic opcode sets the register of its target to the
operation of the opcode on every lane of its operands.
-/

namespace LaneKernel

open Asm Contract

theorem Opcode.sizes_of_mem {opcode : Opcode} (isOpcode : opcode ∈ Opcode.all) :
    (opcode.size = 1 ∨ opcode.size = 2 ∨ opcode.size = 4 ∨ opcode.size = 8) ∧
      ∀ op, opcode.kind = .arith op →
        (op ∈ Opcode.narrowOps → opcode.size ≤ 4) ∧
        ∀ float, op = .float float →
          (float = .add ∨ float = .sub) ∧
            (opcode.size = 4 ∨ opcode.size = 8) := by
  have sizes : ∀ other ∈ Opcode.all,
      other.size = 1 ∨ other.size = 2 ∨ other.size = 4 ∨ other.size = 8 := by
    decide
  have narrow : ∀ other ∈ Opcode.all, ∀ op ∈ Opcode.narrowOps,
      other.kind = .arith op → other.size ≤ 4 := by
    decide
  have floats : ∀ other ∈ Opcode.all, ∀ float ∈ [FloatOp.add, .sub, .mul, .div],
      other.kind = .arith (.float float) →
        (float = .add ∨ float = .sub) ∧ (other.size = 4 ∨ other.size = 8) := by
    decide
  refine ⟨sizes opcode isOpcode, fun op isKind => ⟨fun isNarrow => ?_, ?_⟩⟩
  · exact narrow opcode isOpcode op isNarrow isKind
  · rintro float rfl
    refine floats opcode isOpcode float ?_ isKind
    cases float <;> simp

theorem DataFormat.ofSize?_of_sizes {size : Int}
    (sizes : size = 1 ∨ size = 2 ∨ size = 4 ∨ size = 8) :
    ∃ df, ofSize? size = some df ∧ df.Named ∧ df.size = size := by
  rcases sizes with rfl | rfl | rfl | rfl <;> exact ⟨_, rfl, by decide, rfl⟩

theorem Routines.format_of_mem {opcode : Opcode}
    (isOpcode : opcode ∈ Opcode.all) :
    ∃ df, DataFormat.ofSize? opcode.size = some df ∧ df.Named ∧
      df.size = opcode.size := by
  have sizes := (Opcode.sizes_of_mem isOpcode).1
  exact DataFormat.ofSize?_of_sizes (by omega)

namespace RuleParam

variable (width : Int) (kind : Semantics)

theorem swapsOperands_plain : swapsOperands ⟨width, kind, 0⟩ = false :=
  show ((0 : UInt8) &&& flagSwapOperands != 0) = false by decide

theorem swapsOperands_swap :
    swapsOperands ⟨width, kind, flagSwapOperands⟩ = true :=
  show (flagSwapOperands &&& flagSwapOperands != 0) = true by decide

theorem swapsOperands_invert :
    swapsOperands ⟨width, kind, flagInvertSecond⟩ = false :=
  show (flagInvertSecond &&& flagSwapOperands != 0) = false by decide

theorem invertsSecond_plain : invertsSecond ⟨width, kind, 0⟩ = false :=
  show ((0 : UInt8) &&& flagInvertSecond != 0) = false by decide

theorem invertsSecond_invert :
    invertsSecond ⟨width, kind, flagInvertSecond⟩ = true :=
  show (flagInvertSecond &&& flagInvertSecond != 0) = true by decide

end RuleParam

/-- The second source of an instruction that has one. -/
def Instruction.secondSource (instruction : Instruction) : VarIndex :=
  (instruction.source? 1).getD 0

namespace ArithOp

theorem size_of_mem {op : ArithOp} {size : Nat}
    (isOpcode : ⟨.arith op, size⟩ ∈ Opcode.all) : 0 < size ∧ size ≤ 8 := by
  have sizes := (Opcode.sizes_of_mem isOpcode).1
  simp only at sizes
  omega

theorem arity_of_ne_copy {op : ArithOp} (notCopy : op ≠ .copy) :
    op.arity = 2 := by
  cases op <;> first | rfl | exact absurd rfl notCopy

/-- The instructions for an operation on registers. -/
def insns (op : ArithOp) (df : DataFormat) (wd ws wt : Reg) : List Insn :=
  match op with
  | copy => if wd = ws then [] else [.moveV wd ws]
  | and => [.bits .and wd ws wt]
  | or => [.bits .or wd ws wt]
  | xor => [.bits .xor wd ws wt]
  | andNot =>
      [.byteImm .xor vectorScratch wt 0xff, .bits .and wd ws vectorScratch]
  | cmpGtS => [.lanes .cltS df wd wt ws]
  | float op => [.float op (df == .double) wd ws wt]
  | op => op.laneOp?.toList.map fun laneOp => .lanes laneOp df wd ws wt

/-- The code of an opcode. -/
def code (op : ArithOp) (df : DataFormat) (wd ws wt : Reg) : Fragment :=
  (op.insns df wd ws wt).map .insn

end ArithOp

section Emission

variable {site : EmitSite} {instruction : Instruction} {wd ws wt : Reg}
  {param : RuleParam} {code : Fragment}

namespace Routines

theorem binaryRegs_of_lookups {first second : VarIndex}
    (isSources : instruction.src = [first, second])
    (isTarget : site.vectors.lookup instruction.target = some wd)
    (isFirst : site.vectors.lookup first = some ws)
    (isSecond : site.vectors.lookup second = some wt) :
    binaryRegs site param instruction =
      .ok (if param.swapsOperands then (wd, wt, ws) else (wd, ws, wt)) := by
  simp only [binaryRegs, isSources, EmitSite.vectorReg, isTarget, isFirst,
    isSecond]
  rfl

theorem lanes_of_lookups {choose : Semantics → Option LaneOp} {op : LaneOp}
    {df : DataFormat} {first second : VarIndex}
    (chosen : choose param.kind = some op)
    (isFormat : DataFormat.ofSize? param.width = some df)
    (isSources : instruction.src = [first, second])
    (isTarget : site.vectors.lookup instruction.target = some wd)
    (isFirst : site.vectors.lookup first = some ws)
    (isSecond : site.vectors.lookup second = some wt) :
    lanes choose site param instruction =
      .ok (if param.swapsOperands then insn (.lanes op df wd wt ws)
        else insn (.lanes op df wd ws wt)) := by
  unfold lanes dataFormat
  rw [chosen, isFormat,
    binaryRegs_of_lookups isSources isTarget isFirst isSecond]
  cases param.swapsOperands <;> rfl

theorem bits_of_lookups {op : BitOp} {param : RuleParam}
    {first second : VarIndex} (plain : param.swapsOperands = false)
    (isSources : instruction.src = [first, second])
    (isTarget : site.vectors.lookup instruction.target = some wd)
    (isFirst : site.vectors.lookup first = some ws)
    (isSecond : site.vectors.lookup second = some wt) :
    bits op site param instruction =
      .ok (if param.invertsSecond then
          insn (.byteImm .xor vectorScratch wt 0xff) ++
            insn (.bits op wd ws vectorScratch)
        else insn (.bits op wd ws wt)) := by
  unfold bits
  rw [binaryRegs_of_lookups isSources isTarget isFirst isSecond, plain]
  cases param.invertsSecond <;> rfl

end Routines

/-- The routine of an opcode emits its instructions when its operands have
registers. -/
theorem ArithOp.routine_eq_code {op : ArithOp} {size : Nat} {df : DataFormat}
    (isOpcode : ⟨.arith op, size⟩ ∈ Opcode.all)
    (isFormat : DataFormat.ofSize? size = some df)
    (isCount : op.arity = 2 → instruction.src.length = 2)
    (isTarget : site.vectors.lookup instruction.target = some wd)
    (isFirst : site.vectors.lookup instruction.firstSource = some ws)
    (isSecond : op.arity = 2 →
      site.vectors.lookup instruction.secondSource = some wt) :
    op.routine.1 site ⟨size, op.routine.2.1, op.routine.2.2⟩ instruction =
      .ok (op.code df wd ws wt) := by
  by_cases isCopy : op = .copy
  · subst isCopy
    simp only [ArithOp.routine, Routines.copy, EmitSite.vectorReg, isTarget,
      isFirst, ArithOp.code, ArithOp.insns, bind, Except.bind, pure,
      Except.pure]
    split <;> rfl
  have isTwo := arity_of_ne_copy isCopy
  obtain ⟨first, second, isSources⟩ := List.length_eq_two.mp (isCount isTwo)
  have isFirst : site.vectors.lookup first = some ws := by
    simpa [Instruction.firstSource, isSources] using isFirst
  have isOther : site.vectors.lookup second = some wt := by
    simpa [Instruction.secondSource, Instruction.source?, isSources] using
      isSecond isTwo
  have plainLanes :
      ∀ (choose : Semantics → Option LaneOp) (kind : Semantics)
      (laneOp : LaneOp), choose kind = some laneOp →
      Routines.lanes choose site ⟨size, kind, 0⟩ instruction =
        .ok (insn (.lanes laneOp df wd ws wt)) := by
    intro choose kind laneOp chosen
    have emitted : Routines.lanes choose site ⟨size, kind, 0⟩ instruction = _ :=
      Routines.lanes_of_lookups chosen isFormat isSources isTarget
        isFirst isOther
    rwa [RuleParam.swapsOperands_plain] at emitted
  have plainBits : ∀ bitOp : BitOp,
      Routines.bits bitOp site ⟨size, .bitwise, 0⟩ instruction =
        .ok (insn (.bits bitOp wd ws wt)) := by
    intro bitOp
    have emitted :
        Routines.bits bitOp site ⟨size, .bitwise, 0⟩ instruction = _ :=
      Routines.bits_of_lookups (RuleParam.swapsOperands_plain _ _) isSources
        isTarget isFirst isOther
    rwa [RuleParam.invertsSecond_plain] at emitted
  cases op with
  | copy => exact absurd rfl isCopy
  | add | addSS | addUS | sub | subSS | subUS =>
      simp only [routine, Routines.add, Routines.sub, Routines.lanesOrFloat,
        reduceCtorEq, if_false]
      exact plainLanes _ _ _ (by rfl)
  | cmpEq | mulLow | maxS | maxU | minS | minU | avgS | avgU =>
      simp only [routine, Routines.compareEqual, Routines.mul, Routines.max,
        Routines.min, Routines.average]
      exact plainLanes _ _ _ (by rfl)
  | and | or | xor => exact plainBits _
  | andNot =>
      have emitted :
          Routines.bits .and site ⟨size, .bitwise, RuleParam.flagInvertSecond⟩
          instruction = _ :=
        Routines.bits_of_lookups (RuleParam.swapsOperands_invert _ _) isSources
          isTarget isFirst isOther
      rwa [RuleParam.invertsSecond_invert] at emitted
  | cmpGtS =>
      have emitted :
          Routines.compareLess site ⟨size, .signed, RuleParam.flagSwapOperands⟩
          instruction = _ :=
        Routines.lanes_of_lookups (show _ = some LaneOp.cltS from rfl) isFormat
          isSources isTarget isFirst isOther
      rwa [RuleParam.swapsOperands_swap] at emitted
  | float float =>
      obtain ⟨isFloat, isWide⟩ :=
        ((Opcode.sizes_of_mem isOpcode).2 _ rfl).2 float rfl
      have emitted :
          Routines.float float site ⟨size, .floating, 0⟩ instruction =
          .ok (insn (.float float (df == .double) wd ws wt)) := by
        unfold Routines.float
        rw [Routines.binaryRegs_of_lookups isSources isTarget isFirst isOther,
          RuleParam.swapsOperands_plain]
        change size = 4 ∨ size = 8 at isWide
        rcases isWide with rfl | rfl
        · cases isFormat
          rfl
        · cases isFormat
          rfl
      rcases isFloat with rfl | rfl
      · exact emitted
      · exact emitted

namespace Routines

theorem binaryRegs_of_lanes {choose : Semantics → Option LaneOp}
    (isCode : lanes choose site param instruction = .ok code) :
    ∃ registers, binaryRegs site param instruction = .ok registers := by
  unfold lanes at isCode
  split at isCode
  case h_1 => cases isCode
  case h_2 =>
    obtain ⟨_, _, isCode⟩ := Outcome.bind_eq_ok.mp isCode
    obtain ⟨registers, isRegs, _⟩ := Outcome.bind_eq_ok.mp isCode
    exact ⟨registers, isRegs⟩

theorem binaryRegs_of_lanesOrFloat {op : FloatOp}
    {choose : Semantics → Option LaneOp}
    (isCode : lanesOrFloat op choose site param instruction = .ok code) :
    ∃ registers, binaryRegs site param instruction = .ok registers := by
  unfold lanesOrFloat at isCode
  split at isCode
  case isTrue =>
    unfold float at isCode
    split at isCode
    case isTrue => cases isCode
    case isFalse =>
      obtain ⟨registers, isRegs, _⟩ := Outcome.bind_eq_ok.mp isCode
      exact ⟨registers, isRegs⟩
  case isFalse => exact binaryRegs_of_lanes isCode

theorem binaryRegs_of_bits {op : BitOp}
    (isCode : bits op site param instruction = .ok code) :
    ∃ registers, binaryRegs site param instruction = .ok registers := by
  obtain ⟨registers, isRegs, _⟩ := Outcome.bind_eq_ok.mp isCode
  exact ⟨registers, isRegs⟩

theorem lookups_of_binaryRegs {registers : Reg × Reg × Reg}
    (isRegs : binaryRegs site param instruction = .ok registers) :
    ∃ wd ws wt, site.vectors.lookup instruction.target = some wd ∧
      site.vectors.lookup instruction.firstSource = some ws ∧
      instruction.src.length = 2 ∧
        site.vectors.lookup instruction.secondSource = some wt := by
  unfold binaryRegs at isRegs
  split at isRegs
  case h_1 first second isSources =>
    obtain ⟨wd, isTarget, isRegs⟩ := Outcome.bind_eq_ok.mp isRegs
    obtain ⟨ws, isFirst, isRegs⟩ := Outcome.bind_eq_ok.mp isRegs
    obtain ⟨wt, isSecond, _⟩ := Outcome.bind_eq_ok.mp isRegs
    have isFirst := vectorReg_eq_ok isFirst
    have isSecond := vectorReg_eq_ok isSecond
    refine ⟨wd, ws, wt, vectorReg_eq_ok isTarget, ?_,
      by rw [isSources]; rfl, ?_⟩
    · simpa [Instruction.firstSource, isSources] using isFirst
    · simpa [Instruction.secondSource, Instruction.source?, isSources] using
        isSecond
  case h_2 => cases isRegs

end Routines

/-- A routine that emits code has found a register for every operand. -/
theorem ArithOp.registers_of_routine (op : ArithOp) {size : Int}
    (isCode : op.routine.1 site ⟨size, op.routine.2.1, op.routine.2.2⟩
      instruction = .ok code) :
    ∃ wd ws wt, site.vectors.lookup instruction.target = some wd ∧
      site.vectors.lookup instruction.firstSource = some ws ∧
      (op.arity = 2 → instruction.src.length = 2 ∧
        site.vectors.lookup instruction.secondSource = some wt) := by
  by_cases isCopy : op = .copy
  · subst isCopy
    obtain ⟨wd, isTarget, isCode⟩ := Outcome.bind_eq_ok.mp isCode
    obtain ⟨ws, isSource, _⟩ := Outcome.bind_eq_ok.mp isCode
    exact ⟨wd, ws, ws, Routines.vectorReg_eq_ok isTarget,
      Routines.vectorReg_eq_ok isSource, fun isTwo => by cases isTwo⟩
  have hasRegs : ∃ registers,
      Routines.binaryRegs site ⟨size, op.routine.2.1, op.routine.2.2⟩
        instruction = .ok registers := by
    cases op with
    | copy => exact absurd rfl isCopy
    | add | addSS | addUS | sub | subSS | subUS =>
        simp only [routine, Routines.add, Routines.sub] at isCode
        exact Routines.binaryRegs_of_lanesOrFloat isCode
    | float float =>
        cases float
        all_goals
          simp only [routine, Routines.add, Routines.sub] at isCode
          exact Routines.binaryRegs_of_lanesOrFloat isCode
    | and | andNot | or | xor => exact Routines.binaryRegs_of_bits isCode
    | cmpEq | cmpGtS | mulLow | maxS | maxU | minS | minU | avgS | avgU =>
        simp only [routine, Routines.compareEqual, Routines.compareLess,
          Routines.mul, Routines.max, Routines.min, Routines.average] at isCode
        exact Routines.binaryRegs_of_lanes isCode
  obtain ⟨registers, isRegs⟩ := hasRegs
  obtain ⟨wd, ws, wt, isTarget, isFirst, areTwo, isSecond⟩ :=
    Routines.lookups_of_binaryRegs isRegs
  exact ⟨wd, ws, wt, isTarget, isFirst, fun _ => ⟨areTwo, isSecond⟩⟩

end Emission

/-- Instructions that set vector registers, one after the other, and touch no
memory. -/
inductive Insn.Computes : List Insn → Core → Core → Prop
  | nil {core : Core} : Computes [] core core
  | cons {instruction : Insn} {rest : List Insn} {register : RegNum}
      {value : VectorRegister} {core last : Core}
        (regular : instruction.Regular)
      (isEffect : instruction.effect core = .vector register value)
      (noAccess : instruction.accesses core = [])
      (later : Computes rest (core.setVector register value) last) :
      Computes (instruction :: rest) core last

namespace ArithOp

variable {op : ArithOp} {size : Nat} {df : DataFormat} {core : Core}
  {wd ws wt : Reg}

/-- The core behind the instructions of an operation. -/
structure Results (op : ArithOp) (size : Nat) (wd ws wt : Reg)
    (core next : Core) : Prop where
  value : next.vector wd.index =
    .computed op size (core.vector ws.index) (core.vector wt.index)
  keeps : core.Keeps [] [15, wd.index] next
  ram : next.ram = core.ram

/-- One instruction that sets the destination. -/
theorem computes_single {instruction : Insn} (regular : instruction.Regular)
    (isEffect : instruction.effect core = .vector wd.index
      (.computed op size (core.vector ws.index) (core.vector wt.index)))
    (noAccess : instruction.accesses core = []) :
    ∃ next, Insn.Computes [instruction] core next ∧
      op.Results size wd ws wt core next := by
  refine ⟨_, .cons regular isEffect noAccess .nil, ?_, ?_,
    Core.ram_setVector ..⟩
  · rw [Core.vector_setVector, if_pos rfl]
  · exact (Core.Keeps.refl core).setVector (by simp) _

/-- The instructions of an opcode set the destination to the operation on every
lane. -/
theorem computes_insns (isOpcode : ⟨.arith op, size⟩ ∈ Opcode.all)
    (isFormat : DataFormat.ofSize? size = some df) (wd ws wt : Reg)
    (notScratch : ws.index ≠ 15) (core : Core) :
    ∃ next, Insn.Computes (op.insns df wd ws wt) core next ∧
      op.Results size wd ws wt core next := by
  obtain ⟨narrow, floats⟩ := (Opcode.sizes_of_mem isOpcode).2 op rfl
  obtain ⟨positive, small⟩ := size_of_mem isOpcode
  obtain ⟨isNamed, isWidth⟩ := DataFormat.ofSize?_eq_some isFormat
  have isBytes : df.bytes = size := Int.ofNat.inj isWidth
  cases isLane : op.laneOp? with
  | some laneOp =>
      have isInsns : op.insns df wd ws wt = [.lanes laneOp df wd ws wt] := by
        cases op <;> cases isLane <;> rfl
      rw [isInsns]
      refine computes_single ⟨isNamed, id⟩ ?_ rfl
      rw [Insn.effect, isBytes,
        VectorRegister.apply_eq_computed _ _ isLane positive small narrow]
  | none =>
      cases op with
      | copy =>
          have isCopy : core.vector ws.index =
              .computed .copy size (core.vector ws.index)
                (core.vector wt.index) :=
            VectorRegister.copy_eq_computed _ _ positive small
          simp only [insns]
          split
          case isTrue same =>
            subst same
            exact ⟨core, .nil, isCopy, .refl core, rfl⟩
          case isFalse =>
            exact computes_single ⟨trivial, id⟩
              (congrArg (Effect.vector wd.index) isCopy) rfl
      | cmpGtS =>
          refine computes_single ⟨isNamed, id⟩ ?_ rfl
          rw [Insn.effect, isBytes, VectorRegister.less_eq_computed]
      | float float =>
          refine computes_single ⟨trivial, id⟩ ?_ rfl
          rw [Insn.effect, VectorRegister.float_eq_computed]
          have isWide : size = 4 ∨ size = 8 := (floats float rfl).2
          rcases isWide with rfl | rfl <;> cases isFormat <;> rfl
      | andNot =>
          -- The scratch register takes the complement of the second operand.
          refine ⟨_, .cons ⟨trivial, id⟩ rfl rfl
            (.cons ⟨trivial, id⟩ rfl rfl .nil), ?_, ?_, ?_⟩
          · rw [Core.vector_setVector, if_pos rfl, index_vectorScratch,
              Core.vector_setVector, if_neg notScratch, Core.vector_setVector,
              if_pos rfl]
            exact VectorRegister.andNot_eq_computed _ _ positive small
          · exact ((Core.Keeps.refl core).setVector List.mem_cons_self
              _).setVector (by simp) _
          · rw [Core.ram_setVector, Core.ram_setVector]
      | and | or | xor =>
          refine computes_single ⟨trivial, id⟩ ?_ rfl
          exact congrArg (Effect.vector wd.index)
            (VectorRegister.bits_eq_computed _ _ (by decide) positive small)
      | _ => cases isLane

end ArithOp

section Leads

variable {setting : Setting} {goal : Goal} {site : EmitSite} {stack : UInt32}
  {core : Core} {log : List Access} {rest : Fragment}
  {instruction : Instruction} {code : Fragment}

/-- What an arithmetic step leaves behind. -/
structure Computed (site : EmitSite) (stack : UInt32) (op : ArithOp)
    (size : Nat) (instruction : Instruction) (before after : Core) : Prop where
  stepped : Stepped site stack instruction.target before after
  ram : after.ram = before.ram
  value : site.value after instruction.target =
    .computed op size (site.value before instruction.firstSource)
      (site.value before instruction.secondSource)

theorem Computed.of_value (sound : site.Sound) {op : ArithOp} {size : Nat}
    {wd : Reg} {next : Core}
    (isTarget : site.vectors.lookup instruction.target = some wd)
    (keeps : core.Keeps working [15, wd.index] next)
    (sameRam : next.ram = core.ram) (isValue : next.vector wd.index =
      .computed op size (site.value core instruction.firstSource)
        (site.value core instruction.secondSource)) :
    Computed site stack op size instruction core next where
  stepped := .of_keeps sound isTarget keeps (by rw [sameRam]) (by rw [sameRam])
  ram := sameRam
  value := by
    rw [EmitSite.value_eq isTarget]
    exact isValue

theorem Insn.Computes.leads {instructions : List Insn} {last : Core}
    (computes : Insn.Computes instructions core last)
    (continues : Leads setting goal rest last log) :
    Leads setting goal (instructions.map .insn ++ rest) core log := by
  induction computes with
  | nil => exact continues
  | cons regular isEffect noAccess _ induction =>
      exact Leads.vector regular isEffect noAccess (induction continues)

/-- The code of an arithmetic opcode computes the operation on every lane. -/
theorem ArithOp.leads {op : ArithOp} {size : Nat}
    (isOpcode : ⟨.arith op, size⟩ ∈ Opcode.all) (sound : site.Sound)
    (isCode : op.routine.1 site ⟨size, op.routine.2.1, op.routine.2.2⟩
      instruction = .ok code)
    (continues : ∀ next, Computed site stack op size instruction core next →
      Leads setting goal rest next log) :
    Leads setting goal (code ++ rest) core log := by
  obtain ⟨wd, ws, wt, isTarget, isFirst, hasSecond⟩ :=
    op.registers_of_routine isCode
  obtain ⟨df, isFormat, -⟩ := Routines.format_of_mem isOpcode
  have emitted :=
    ArithOp.routine_eq_code isOpcode isFormat (fun isTwo => (hasSecond isTwo).1)
    isTarget isFirst fun isTwo => (hasSecond isTwo).2
  cases emitted.symm.trans isCode
  obtain ⟨next, computes, isValue, keeps, sameRam⟩ :=
    op.computes_insns isOpcode isFormat wd ws wt
      (sound.vector _ ws isFirst) core
  apply computes.leads
  apply continues
  refine .of_value sound isTarget
    (keeps.mono (List.nil_subset _) (List.Subset.refl _)) sameRam ?_
  rw [isValue, EmitSite.value_eq isFirst]
  by_cases isCopy : op = .copy
  · subst isCopy
    obtain ⟨positive, small⟩ := size_of_mem isOpcode
    rw [← VectorRegister.copy_eq_computed _ _ positive small,
      ← VectorRegister.copy_eq_computed _ _ positive small]
  · rw [EmitSite.value_eq (hasSecond (arity_of_ne_copy isCopy)).2]

end Leads

end LaneKernel
