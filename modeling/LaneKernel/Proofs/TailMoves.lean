import LaneKernel.Proofs.Hosts
import LaneKernel.Proofs.StepEmission

/-!
# Tail moves on the machine

The code that moves the bytes which do not fill a vector, executed by the
machine.  A load reads the bytes and goes through the staging area of the frame;
a store writes the bytes and nothing else.  Neither traps: words at any address
are moved with partial accesses, and whole words only where alignment is
promised.
-/

namespace LaneKernel

namespace Fragment

/-- The labels that the code branches to, in order. -/
def targets (code : Fragment) : List Label :=
  code.filterMap fun
    | .branch _ _ _ label => some label
    | _ => none

variable {front back : Fragment}

@[simp] theorem targets_append :
    (front ++ back).targets = front.targets ++ back.targets :=
  List.filterMap_append

@[simp] theorem targets_insn (instruction : Insn) :
    (Asm.insn instruction).targets = [] := rfl

@[simp] theorem targets_mark (label : Label) :
    (Asm.mark label).targets = [] := rfl

@[simp] theorem targets_branch (condition : Condition) (left right : Reg)
    (label : Label) :
    (Asm.branch condition left right label).targets = [label] := rfl

theorem inward_of_targets {code : Fragment} (same : code.targets = code.marks) :
    code.Inward :=
  fun _ _ _ _ isBranch => same ▸ List.mem_filterMap.mpr ⟨_, isBranch, rfl⟩

end Fragment

namespace Staging

open Asm Contract Fragment

theorem straight_loadWords (aligned : Bool) (offsets : List Int) :
    (loadWords aligned offsets).targets = [] ∧
      (loadWords aligned offsets).marks = [] := by
  induction offsets with
  | nil => exact ⟨rfl, rfl⟩
  | cons offset rest induction =>
      unfold loadWords at induction ⊢
      rw [List.flatMap_cons, targets_append, marks_append, induction.1,
        induction.2]
      cases aligned <;> exact ⟨rfl, rfl⟩

theorem skips_loadChunk (aligned : Bool) (chunk : Int) (offsets : List Int)
    (skip : Label) :
    (loadChunk aligned chunk offsets skip).targets = [skip] ∧
      (loadChunk aligned chunk offsets skip).marks = [skip] := by
  obtain ⟨noTargets, noMarks⟩ := straight_loadWords aligned offsets
  rw [loadChunk_eq]
  simp only [sltiu, bnez, addiu, targets_append, targets_insn, targets_branch,
    targets_mark, noTargets, marks_append, marks_insn, marks_branch, marks_mark,
    noMarks, List.nil_append, List.append_nil, and_self]

theorem load_inward (wd pointer : Reg) (offset : Int) (aligned : Bool)
    (first : Label) : (load wd pointer offset aligned first).Inward := by
  obtain ⟨eightTargets, eightMarks⟩ := skips_loadChunk aligned 8 [0, 4] first
  obtain ⟨fourTargets, fourMarks⟩ := skips_loadChunk aligned 4 [0] (first + 1)
  obtain ⟨start, isStart⟩ : ∃ start : Insn,
      (if offset = 0 then move memoryWalk pointer
       else addiu memoryWalk pointer offset) =
        insn start := by
    split <;> exact ⟨_, rfl⟩
  apply inward_of_targets
  unfold load
  rw [isStart]
  simp only [move, addiu, sltiu, bnez, beqz, lbu, sb, targets_append,
    targets_insn, targets_branch, targets_mark, eightTargets, fourTargets,
    marks_append, marks_insn, marks_branch, marks_mark, eightMarks, fourMarks,
    List.nil_append, List.append_nil]

theorem store_inward (ws pointer : Reg) (aligned : Bool) (first : Label) :
    (store ws pointer aligned first).Inward := by
  have isStraight :
      ∀ offset : Int, (if aligned = true then sw scratch memoryWalk offset
      else storeUnaligned scratch memoryWalk offset).targets = [] ∧
      (if aligned = true then sw scratch memoryWalk offset
        else storeUnaligned scratch memoryWalk offset).marks = [] := by
    intro offset
    cases aligned <;> exact ⟨rfl, rfl⟩
  apply inward_of_targets
  unfold store
  simp only [move, addiu, sltiu, srl, bnez, beqz, sb, targets_append,
    targets_insn, targets_branch, targets_mark, marks_append, marks_insn,
    marks_branch, marks_mark, (isStraight _).1, (isStraight _).2,
    List.nil_append, List.append_nil]

variable {wd ws pointer : Reg} {offset : Int} {aligned : Bool} {first : Label}
  {entry : UInt32} {core : Core} {length : Nat} {source target stage : UInt32}

/-- A load of tail bytes through a frame: the bytes and the staging area are in
memory and apart, and the staging area is apart from the code. -/
structure LoadCall (host : Host (load wd pointer offset aligned first))
    (entry : UInt32) (core : Core) (length : Nat) (source stage : UInt32) :
    Prop where
  entered : host.Entered entry core
  someBytes : 1 ≤ length ∧ length ≤ 15
  isLength : core.reg tailBytes.index = UInt32.ofNat length
  isSource : core.reg pointer.index + Core.distance offset = source
  isStage : core.reg Reg.sp.index + Core.distance Frame.staging = stage
  notWorking : pointer.index ∉ working
  stackAligned : (core.reg Reg.sp.index).toNat % 4 = 0
  wordAligned : aligned = true → source.toNat % 4 = 0
  served : core.ram.Serves ⟨source, length⟩
  stageServed : core.ram.Serves ⟨stage, 16⟩
  apart : Region.Apart ⟨source, length⟩ ⟨stage, 16⟩
  codeApart : Region.Apart (host.region entry) ⟨stage, 16⟩

/-- A load reads its bytes, and it reads and writes the staging area. -/
def loadPermission (source stage : UInt32) (length : Nat) : Permission :=
  fun write address =>
  address ∈ (⟨stage, 16⟩ : Region) ∨ write = false ∧
    address ∈ (⟨source, length⟩ : Region)

/-- What a load of tail bytes leaves. -/
structure LoadsTail (wd : Reg) (source stage : UInt32) (length : Nat)
    (core last : Core) :
    Prop where
  keeps : core.Keeps working [wd.index] last
  kept : Ram.Kept (loadPermission source stage length) core.ram last.ram
  loaded : ∀ index < length,
    (last.vector wd.index).byte index =
      core.ram.peek (source + UInt32.ofNat index)

theorem LoadCall.leads {host : Host (load wd pointer offset aligned first)}
    (call : LoadCall host entry core length source stage)
    (target : Label → Fragment) (rest : Fragment)
    (resolves : Resolves target
      (load wd pointer offset aligned first ++ rest)) :
    Leads ⟨target, loadPermission source stage length, False⟩
      (Reaching rest fun last _ => LoadsTail wd source stage length core last)
      (load wd pointer offset aligned first ++ rest) core [] := by
  have stageAligned : stage.toNat % 4 = 0 := by
    have stackAligned := call.stackAligned
    rw [← call.isStage, show Core.distance Frame.staging = 16 from rfl,
      UInt32.toNat_add]
    change (_ + 16) % 2 ^ 32 % 4 = 0
    omega
  have site : Moves.LoadSite ⟨target, loadPermission source stage length, False⟩
      core source stage length aligned :=
    { small := call.entered.loaded.small
      short := Nat.lt_succ_of_le call.someBytes.2
      reads := fun _ inside => .inr ⟨rfl, inside⟩
      stages := fun _ inside => .inl inside
      served := .inr call.served
      stageServed := .inr ⟨stageAligned, call.stageServed⟩
      wordAligned := fun isAligned => .inr (call.wordAligned isAligned) }
  apply Moves.load site call.isLength call.isSource call.isStage call.notWorking
    (fun _ inside => .inl inside) resolves
  intro next logged loaded
  refine .done ⟨rfl, loaded.keeps, ⟨loaded.base, loaded.size, ?_⟩,
    loaded.loaded call.apart⟩
  exact fun _ untouched => loaded.peek _ fun inStage => untouched (.inl inStage)

theorem LoadCall.executes {host : Host (load wd pointer offset aligned first)}
    (call : LoadCall host entry core length source stage) :
    core.Executes (load wd pointer offset aligned first)
      (loadPermission source stage length)
        (LoadsTail wd source stage length core) := by
  refine call.entered.executes (load_inward wd pointer offset aligned first) ?_
    call.leads ?_
  · rintro address inCode (inStage | ⟨isRead, _⟩)
    · exact call.codeApart address inCode inStage
    · cases isRead
  · exact fun last pc loads =>
      ⟨⟨loads.keeps.reg, loads.keeps.vector⟩, loads.kept, loads.loaded⟩

/-- A store of tail bytes to memory apart from the code. -/
structure StoreCall (host : Host (store ws pointer aligned first))
    (entry : UInt32) (core : Core) (length : Nat) (target : UInt32) : Prop where
  entered : host.Entered entry core
  someBytes : 1 ≤ length ∧ length ≤ 15
  isLength : core.reg tailBytes.index = UInt32.ofNat length
  isTarget : core.reg pointer.index = target
  notWorking : pointer.index ∉ working
  wordAligned : aligned = true → target.toNat % 4 = 0
  served : core.ram.Serves ⟨target, length⟩
  codeApart : Region.Apart (host.region entry) ⟨target, length⟩

/-- A store writes its bytes. -/
def storePermission (target : UInt32) (length : Nat) : Permission :=
  fun write address =>
  write = true ∧ address ∈ (⟨target, length⟩ : Region)

/-- What a store of tail bytes leaves. -/
structure StoresTail (ws : Reg) (target : UInt32) (length : Nat)
    (core last : Core) : Prop where
  keeps : core.Keeps working [vectorScratch.index] last
  kept : Ram.Kept (storePermission target length) core.ram last.ram
  stored : ∀ index < length,
    last.ram.peek (target + UInt32.ofNat index) =
      (core.vector ws.index).byte index

theorem StoreCall.leads {host : Host (store ws pointer aligned first)}
    (call : StoreCall host entry core length target) (labels : Label → Fragment)
    (rest : Fragment)
    (resolves : Resolves labels (store ws pointer aligned first ++ rest)) :
    Leads ⟨labels, storePermission target length, False⟩
      (Reaching rest fun last _ => StoresTail ws target length core last)
      (store ws pointer aligned first ++ rest) core [] := by
  have site : Moves.StoreSite ⟨labels, storePermission target length, False⟩
      core target length
      aligned :=
    { small := call.entered.loaded.small
      short := Nat.lt_succ_of_le call.someBytes.2
      writes := fun _ inside => ⟨rfl, inside⟩
      served := .inr call.served
      wordAligned := fun isAligned => .inr (call.wordAligned isAligned) }
  apply Moves.store site call.isLength call.isTarget call.notWorking resolves
  intro next logged stored
  refine .done ⟨rfl, stored.keeps, ⟨stored.base, stored.size, ?_⟩,
    stored.stored⟩
  exact fun _ untouched => stored.peek _ fun inTarget =>
    untouched ⟨rfl, inTarget⟩

theorem StoreCall.executes {host : Host (store ws pointer aligned first)}
    (call : StoreCall host entry core length target) :
    core.Executes (store ws pointer aligned first)
      (storePermission target length) (StoresTail ws target length core) := by
  refine call.entered.executes (store_inward ws pointer aligned first) ?_
    call.leads ?_
  · exact fun address inCode inTarget =>
      call.codeApart address inCode inTarget.2
  · exact fun last pc stores =>
      ⟨⟨stores.keeps.reg, stores.keeps.vector⟩, stores.kept, stores.stored⟩

/-- A load of tail bytes fills the low bytes of its register with them, a store
writes the low bytes of its register, and each leaves everything else but its
working registers, at any address and on every machine. -/
theorem tail_moves :
    (∀ {wd pointer : Reg} {offset : Int} {aligned : Bool} {first : Label}
        {host : Host (load wd pointer offset aligned first)} {entry : UInt32}
          {core : Core}
        {length : Nat} {source stage : UInt32},
          LoadCall host entry core length source stage →
        core.Executes (load wd pointer offset aligned first)
          (loadPermission source stage length)
            (LoadsTail wd source stage length core)) ∧
      ∀ {ws pointer : Reg} {aligned : Bool} {first : Label}
        {host : Host (store ws pointer aligned first)} {entry : UInt32}
          {core : Core}
        {length : Nat} {target : UInt32},
          StoreCall host entry core length target →
        core.Executes (store ws pointer aligned first)
          (storePermission target length) fun last =>
          StoresTail ws target length core last ∧
            (ws.index ≠ vectorScratch.index →
              last.vector ws.index = core.vector ws.index) :=
  ⟨fun call => call.executes, fun call => call.executes.mono fun _ stores =>
    ⟨stores, fun notScratch =>
      stores.keeps.vector _ (by simpa using notScratch)⟩⟩

theorem exists_entered {code : Fragment} (closed : code.Closed 0 4 40)
    (start : UInt32) :
    ∃ (host : Host code) (core : Core), host.Entered 0x1030 core ∧
      core.reg tailBytes.index = UInt32.ofNat 7 ∧ core.reg 16 = start ∧
      core.reg Reg.sp.index = 0x1010 ∧ core.ram.Serves ⟨0x1000, 48⟩ ∧
      ∀ region : Region, region.start.toNat + region.length ≤ 0x1030 →
        (host.region 0x1030).Apart region := by
  obtain ⟨host, noFront, fourBehind, isSize⟩ :=
    Host.exists_of_closed closed (by decide) (by decide)
  have short := closed.short
  obtain ⟨data, dataSize⟩ : ∃ data : Array UInt8, data.size = 48 :=
    ⟨Array.replicate 48 0, Array.size_replicate⟩
  have below : (0x1000 : UInt32).toNat + (data.size + host.code.bytes.size) <
      2 ^ 32 := by
    rw [isSize, dataSize]
    change 4096 + _ < _
    omega
  have entered := Host.entered_packed below rfl (by rw [dataSize]) fourBehind.ge
    ((((Core.reset (host.packed 0x1000 data)).setReg 10 7).setReg 16
      start).setReg 29 0x1010) rfl
  have serves := (Host.holds_packed below).serves
  rw [dataSize] at entered serves
  refine ⟨host, _, entered, rfl, rfl, rfl, serves, fun region before => ?_⟩
  refine (Region.apart_of_le before ?_).symm
  change 4144 + host.code.bytes.size ≤ _
  omega

/-- Seven bytes from an odd address go through a frame, and seven bytes go to an
odd address. -/
theorem tail_moves_odd :
    (∃ (host : Host (load (.vec 3) (.gp 16) 1 false 0)) (core : Core),
      LoadCall host 0x1030 core 7 0x1003 0x1020 ∧
        core.Executes (load (.vec 3) (.gp 16) 1 false 0)
          (loadPermission 0x1003 0x1020 7)
            (LoadsTail (.vec 3) 0x1003 0x1020 7 core)) ∧
      ∃ (host : Host (store (.vec 3) (.gp 16) false 0)) (core : Core),
        StoreCall host 0x1030 core 7 0x1003 ∧
          core.Executes (store (.vec 3) (.gp 16) false 0)
            (storePermission 0x1003 7) fun last =>
            StoresTail (.vec 3) 0x1003 7 core last ∧
              ((3 : RegNum) ≠ vectorScratch.index →
                last.vector 3 = core.vector 3) := by
  constructor
  · obtain ⟨host, core, entered, isLength, isPointer, isStack, serves,
      codeApart⟩ :=
      exists_entered
        (@load_closed (.vec 3) (.gp 16) 1 0 false rfl rfl (by decide)) 0x1002
    have call : LoadCall host 0x1030 core 7 0x1003 0x1020 :=
      { entered := entered
        someBytes := by decide
        isLength := isLength
        isSource := by rw [show (Reg.gp 16).index = 16 from rfl, isPointer]; rfl
        isStage := by rw [isStack]; rfl
        notWorking := by decide
        stackAligned := by rw [isStack]; rfl
        wordAligned := fun aligned => by cases aligned
        served := @Ram.Serves.part _ _ 48 3 7 serves (by decide)
        stageServed := @Ram.Serves.part _ _ 48 32 16 serves (by decide)
        apart := Region.apart_of_le (by decide) (by decide)
        codeApart := codeApart _ (by decide) }
    exact ⟨host, core, call, tail_moves.1 call⟩
  · obtain ⟨host, core, entered, isLength, isPointer, _, serves, codeApart⟩ :=
      exists_entered (@store_closed (.vec 3) (.gp 16) 0 false rfl rfl) 0x1003
    have call : StoreCall host 0x1030 core 7 0x1003 :=
      { entered := entered
        someBytes := by decide
        isLength := isLength
        isTarget := isPointer
        notWorking := by decide
        wordAligned := fun aligned => by cases aligned
        served := @Ram.Serves.part _ _ 48 3 7 serves (by decide)
        codeApart := codeApart _ (by decide) }
    exact ⟨host, core, call, tail_moves.2 call⟩

end Staging

end LaneKernel
