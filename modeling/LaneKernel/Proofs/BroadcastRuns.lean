import LaneKernel.Proofs.Hosts
import LaneKernel.Proofs.StepEmission

/-!
# Broadcasts on the machine

The code of a broadcast, executed by the machine.  Every lane of its register
holds the low bytes of the constant or parameter afterwards, so that every
element in the register is what the interpreter reads for it, whatever the
declared size is.  Nothing else changes but the scratch register.
-/

namespace LaneKernel

open Asm Contract

namespace VectorRegister

variable (word : UInt64) {size lanes number : Nat}

theorem lane_filled_eq_replicate (positive : 0 < size) (several : 0 < lanes)
    (small : size * lanes ≤ 8) (inside : (number + 1) * (size * lanes) ≤ 16) :
    (filled size word).lane (size * lanes) number =
      Lane.replicate word size lanes := by
  rw [lane_filled positive several small inside]
  exact (Lane.fits_replicate word positive several).truncate_eq

theorem lane_filled_eq_truncate (positive : 0 < size) (small : size ≤ 8)
    (inside : (number + 1) * size ≤ 16) :
    (filled size word).lane size number = Lane.truncate word size := by
  have isLane : (filled size word).lane (size * 1) number =
      Lane.replicate word size 1 :=
    lane_filled_eq_replicate word positive Nat.one_pos (by omega)
      (by rwa [Nat.mul_one])
  rwa [Nat.mul_one] at isLane

end VectorRegister

/-- The record of an executor is in memory, at the word that its register
says. -/
structure Core.HasRecord (core : Core) (executor : Executor) : Prop where
  aligned : (core.reg Contract.executor.index).toNat % 4 = 0
  served : core.ram.Serves ⟨core.reg Contract.executor.index,
    Executor.recordSize⟩
  held : executor.HeldAt core.ram (core.reg Contract.executor.index)

/-- The record of the executor may be read, and nothing may be written. -/
def Core.readsRecord (core : Core) : Permission := fun write address =>
  write = false ∧ address ∈
    (⟨core.reg Contract.executor.index, Executor.recordSize⟩ : Region)

theorem Core.HasRecord.record {core : Core} {executor : Executor}
    (hasRecord : core.HasRecord executor) (small : core.ram.size < 2 ^ 32)
    (target : Label → Fragment) :
    Record ⟨target, core.readsRecord, False⟩ executor
      (core.reg Contract.executor.index) core :=
  ⟨small, rfl, fun _ inside => ⟨rfl, inside⟩,
    .inr ⟨hasRecord.aligned, hasRecord.served⟩, hasRecord.held⟩

namespace Routines

/-- A site with a vector register for the lanes of a scalar of a program.  Both
slots of a parameter are in the table. -/
structure ScalarSite (site : EmitSite) (param : RuleParam)
    (instruction : Instruction) (reference : Reference.Site) (wd : Reg) :
    Prop where
  width : param.width = 1 ∨ param.width = 2 ∨ param.width = 4 ∨ param.width = 8
  target : site.vectors.lookup instruction.target = some wd
  isVector : wd.isVector = true
  declared : site.var instruction.firstSource =
    reference.program.var instruction.firstSource
  isScalar : (site.var instruction.firstSource).role.isScalar = true
  slots : (site.var instruction.firstSource).role = .param →
    (0 : Int) ≤ instruction.firstSource ∧
      instruction.firstSource + 8 < (64 : Int)

/-- What a broadcast leaves: the lanes of a scalar, and elements as the
interpreter reads them. -/
structure Spreads (reference : Reference.Site) (index : VarIndex) (wd : Reg)
    (width : Nat) (core last : Core) : Prop where
  keeps : core.Keeps [scratch.index] [wd.index] last
  ram : last.ram = core.ram
  lanes : ∀ number, (number + 1) * width ≤ 16 →
    (last.vector wd.index).lane width number =
      Lane.truncate (reference.scalar index) width
  elements : ∀ lanes number, 0 < lanes → width * lanes ≤ 8 →
    (number + 1) * (width * lanes) ≤ 16 →
    (last.vector wd.index).lane (width * lanes) number =
      Lane.replicate (reference.scalar index) width lanes
  reads : ∀ state lanes number, 0 < lanes → width * lanes ≤ 8 →
    (number + 1) * (width * lanes) ≤ 16 →
      reference.read state index width lanes =
      .ok ((last.vector wd.index).lane (width * lanes) number)

variable {site : EmitSite} {param : RuleParam} {instruction : Instruction}
  {reference : Reference.Site} {wd : Reg} {code : Fragment}

namespace ScalarSite

variable (scalarSite : ScalarSite site param instruction reference wd)

include scalarSite

theorem widthNat : 0 < param.width.toNat ∧ param.width.toNat ≤ 8 := by
  have width := scalarSite.width
  omega

theorem role : (site.var instruction.firstSource).role = .const ∨
    (site.var instruction.firstSource).role = .param := by
  have isScalar := scalarSite.isScalar
  cases isRole : (site.var instruction.firstSource).role with
  | const => exact .inl rfl
  | param => exact .inr rfl
  | none | dest | source | accumulator | temp =>
      rw [isRole] at isScalar
      cases isScalar

/-- Constants and parameters have code, which is plain. -/
theorem exists_code : ∃ code, loadParam site param instruction = .ok code ∧
    code.Plain 7 := by
  obtain ⟨df, isFormat, _⟩ := DataFormat.ofSize?_of_sizes scalarSite.width
  have isTarget := EmitSite.vectorReg_of_lookup scalarSite.target
  unfold loadParam dataFormat
  rw [isFormat, isTarget]
  rcases scalarSite.role with isConst | isParam
  · simp only [isConst]
    exact ⟨_, rfl, broadcastConst_plain scalarSite.isVector _⟩
  · simp only [isParam]
    exact ⟨_, rfl,
      broadcastParam_plain scalarSite.isVector (scalarSite.slots isParam) _⟩

theorem scalar_eq : reference.executor.scalar site.var instruction.firstSource =
    reference.scalar instruction.firstSource := by
  unfold Executor.scalar Reference.Site.scalar
  rw [scalarSite.declared]

theorem spreads {core next : Core} (broadcast : Broadcast wd param.width.toNat
      (reference.executor.scalar site.var instruction.firstSource) core next) :
    Spreads reference instruction.firstSource wd param.width.toNat core
      next := by
  obtain ⟨positive, small⟩ := scalarSite.widthNat
  have filled := broadcast.filled
  rw [scalarSite.scalar_eq] at filled
  have elements : ∀ lanes number, 0 < lanes → param.width.toNat * lanes ≤ 8 →
      (number + 1) * (param.width.toNat * lanes) ≤ 16 →
      (next.vector wd.index).lane (param.width.toNat * lanes) number =
        Lane.replicate (reference.scalar instruction.firstSource)
          param.width.toNat lanes := by
    intro lanes number several fits inside
    rw [filled]
    exact VectorRegister.lane_filled_eq_replicate _ positive several fits inside
  refine ⟨broadcast.keeps, broadcast.ram, fun number inside => ?_, elements, ?_⟩
  · rw [filled]
    exact VectorRegister.lane_filled_eq_truncate _ positive small inside
  · intro state lanes number several fits inside
    rw [elements lanes number several fits inside]
    exact Reference.Site.read_scalar (scalarSite.declared ▸
      scalarSite.isScalar) _ _

theorem executes (isCode : loadParam site param instruction = .ok code)
    (plain : code.Plain 7) {host : Host code} {entry : UInt32} {core : Core}
    (entered : host.Entered entry core)
    (record : (site.var instruction.firstSource).role = .param →
      core.HasRecord reference.executor) :
    core.Executes code core.readsRecord
      (Spreads reference instruction.firstSource wd param.width.toNat
        core) := by
  have inward : code.Inward := Fragment.inward_of_fits (plain.fits _)
  -- Nothing is written, so that the code stays wherever it stands.
  refine entered.executes inward (fun address _ isRead => by
    cases isRead.1) ?_ ?_
  · intro target rest _
    have placed isParam := (record isParam).record entered.loaded.small target
    refine loadParam_leads isCode scalarSite.slots placed fun other next logged
      isTarget spread => ?_
    cases scalarSite.target.symm.trans isTarget
    exact .done ⟨rfl, scalarSite.spreads spread⟩
  · exact fun last pc spreads =>
      ⟨⟨spreads.keeps.reg, spreads.keeps.vector⟩, spreads.ram,
      spreads.lanes, spreads.elements, spreads.reads⟩

end ScalarSite

/-- The code of a broadcast spreads the scalar of the interpreter over its
register.  There is code for every scalar, it can be assembled, and it touches
nothing but its register and the scratch register. -/
theorem loadParam_agrees
    (scalarSite : ScalarSite site param instruction reference wd) :
    ∃ code, loadParam site param instruction = .ok code ∧ Nonempty (Host code) ∧
      ∀ (host : Host code) (entry : UInt32) (core : Core),
        host.Entered entry core →
          ((site.var instruction.firstSource).role = .param →
          core.HasRecord reference.executor) →
        core.Executes code core.readsRecord
          (Spreads reference instruction.firstSource wd param.width.toNat
            core) := by
  obtain ⟨code, isCode, plain⟩ := scalarSite.exists_code
  obtain ⟨host, _⟩ :=
    Host.exists_of_closed (.of_plain plain 0) (by decide) (by decide)
  exact ⟨code, isCode, ⟨host⟩, fun _ _ _ => scalarSite.executes isCode plain⟩

/-- The second parameter has eight bytes; its high word is eight slots further
on. -/
def wideSite : Reference.Site where
  program := (Program.named "wide").setVar 25 { role := .param, size := 8 }
  executor := (({} : Executor).setParamWord 25 0x89abcdef).setParamWord 33
    0x01234567
  row := 0
  element := 0

/-- Both words of a wide parameter arrive in both lanes of eight bytes. -/
theorem loadParam_agrees_wide : ∃ (code : Fragment) (core : Core),
    loadParam ⟨wideSite.program.var, [], [(32, .vec 4)], false, 0⟩
      ⟨8, .wrapping, 0⟩ ⟨"loadpq", 0, [32], [25]⟩ = .ok code ∧
    core.Executes code core.readsRecord fun last =>
      (last.vector 4).lane 8 0 = 0x0123456789abcdef ∧
        (last.vector 4).lane 8 1 = 0x0123456789abcdef := by
  have scalarSite :
      ScalarSite ⟨wideSite.program.var, [], [(32, .vec 4)], false, 0⟩
      ⟨8, .wrapping, 0⟩ ⟨"loadpq", 0, [32], [25]⟩ wideSite (.vec 4) :=
    ⟨.inr (.inr (.inr rfl)), rfl, rfl, rfl, rfl, fun _ => by decide⟩
  have isScalar : wideSite.scalar 25 = 0x0123456789abcdef := by decide +kernel
  obtain ⟨code, isCode, _, executes⟩ := loadParam_agrees scalarSite
  obtain ⟨_, isSame, plain⟩ := scalarSite.exists_code
  cases isCode.symm.trans isSame
  obtain ⟨host, _, fourBehind, isSize⟩ :=
    Host.exists_of_closed (.of_plain plain 0) (by decide) (by decide)
  have short := plain.short
  have isRecord := wideSite.executor.size_toBytes
  have below : (0x1000 : UInt32).toNat +
      (wideSite.executor.toBytes.size + host.code.bytes.size) < 2 ^ 32 := by
    rw [isRecord, isSize]
    change 4096 + (548 + _) < _
    omega
  have entered :=
    Host.entered_packed below rfl (by rw [isRecord]; rfl) fourBehind.ge
    ((Core.reset (host.packed 0x1000 wideSite.executor.toBytes)).setReg 4
      0x1000) rfl
  have holds := Host.holds_packed below
  have serves := holds.serves
  rw [isRecord] at serves
  refine ⟨code, _, isCode,
    (executes host _ _ entered fun _ => ?_).mono fun last spreads => ?_⟩
  · exact ⟨show (0x1000 : UInt32).toNat % 4 = 0 by decide, serves,
      holds.heldAt entered.loaded.small rfl⟩
  · have isLane : ∀ number, (number + 1) * 8 ≤ 16 →
        (last.vector 4).lane 8 number =
          Lane.truncate (wideSite.scalar 25) 8 := spreads.lanes
    rw [isScalar] at isLane
    exact ⟨isLane 0 (by decide), isLane 1 (by decide)⟩

end Routines

end LaneKernel
