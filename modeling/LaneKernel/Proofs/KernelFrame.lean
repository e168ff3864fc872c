import LaneKernel.Proofs.KernelLoop

/-!
# The frame of a kernel

The entry code of a kernel stores registers into slots of its frame, the exit
code loads them back.  A slot is a register with a place in the frame; the
places of a frame stand one behind the other, so that no store disturbs an
earlier one.
-/

namespace LaneKernel

open Asm Contract

/-- A place of the frame that keeps a register. -/
structure Slot where
  offset : Nat
  register : Reg
deriving DecidableEq, Repr

namespace Slot

def size (slot : Slot) : Nat := if slot.register.isVector then 16 else 4

/-- The bytes that a slot keeps for a core. -/
def bytes (slot : Slot) (core : Core) : List UInt8 :=
  if slot.register.isVector then (core.vector slot.register.index).toList
  else MemOp.cut (core.reg slot.register.index) 0 4

def saveCode (slot : Slot) : Fragment :=
  if slot.register.isVector then
    insn (.st .double slot.register .sp slot.offset)
  else sw slot.register .sp slot.offset

def restoreCode (slot : Slot) : Fragment :=
  if slot.register.isVector then
    insn (.ld .double slot.register .sp slot.offset)
  else lw slot.register .sp slot.offset

def region (slot : Slot) (stack : UInt32) :
    Region := ⟨stack + UInt32.ofNat slot.offset, slot.size⟩

/-- The memory keeps the register of a core in the slot. -/
def HeldAt (slot : Slot) (stack : UInt32) (origin : Core) (ram : Ram) : Prop :=
  ∀ index < slot.size,
    ram.peek (stack + UInt32.ofNat slot.offset + UInt32.ofNat index) =
      (slot.bytes origin).getD index 0

/-- One slot ends where the other starts, or in front of it. -/
def Before (first second : Slot) :
    Prop := first.offset + first.size ≤ second.offset

theorem length_bytes (slot : Slot) (core : Core) :
    (slot.bytes core).length = slot.size := by
  unfold bytes size
  split
  · exact Vector.length_toList
  · exact Core.length_cut _ _ _

theorem size_le (slot : Slot) : slot.size ≤ 16 := by
  unfold size
  split <;> decide

theorem bytes_congr {slot : Slot} {first second : Core}
    (reg : slot.register.isVector = false →
      second.reg slot.register.index = first.reg slot.register.index)
    (vector : slot.register.isVector = true →
      second.vector slot.register.index = first.vector slot.register.index) :
    slot.bytes second = slot.bytes first := by
  unfold bytes
  split
  case isTrue isVector => rw [vector isVector]
  case isFalse notVector => rw [reg (by simpa using notVector)]

theorem HeldAt.word {slot : Slot} {stack : UInt32} {origin : Core} {ram : Ram}
    (held : slot.HeldAt stack origin ram)
    (general : slot.register.isVector = false) :
    ram.word (stack + UInt32.ofNat slot.offset) =
      origin.reg slot.register.index := by
  have isSize : slot.size = 4 := by
    unfold size
    rw [general]
    rfl
  have isBytes :
      slot.bytes origin = MemOp.cut (origin.reg slot.register.index) 0 4 := by
    unfold bytes
    rw [general]
    rfl
  unfold HeldAt at held
  rw [isSize, isBytes] at held
  have zeroth := held 0 (by decide)
  rw [show UInt32.ofNat 0 = 0 from rfl, UInt32.add_zero] at zeroth
  unfold Ram.word
  rw [zeroth, show (1 : UInt32) = UInt32.ofNat 1 from rfl, held 1 (by decide),
    show (2 : UInt32) = UInt32.ofNat 2 from rfl, held 2 (by decide),
    show (3 : UInt32) = UInt32.ofNat 3 from rfl, held 3 (by decide)]
  have whole := Word.assemble_bytes (origin.reg slot.register.index)
  rw [← UInt32.shiftRight_zero (a := origin.reg slot.register.index)] at whole
  exact whole

theorem HeldAt.vector {slot : Slot} {stack : UInt32} {origin : Core} {ram : Ram}
    (held : slot.HeldAt stack origin ram)
    (isVector : slot.register.isVector = true) :
    ram.vectorAt (stack + UInt32.ofNat slot.offset) =
      origin.vector slot.register.index := by
  have isSize : slot.size = 16 := by
    unfold size
    rw [isVector]
    rfl
  have isBytes :
      slot.bytes origin = (origin.vector slot.register.index).toList := by
    unfold bytes
    rw [isVector]
    rfl
  apply Vector.ext
  intro index below
  have isByte := held index (isSize ▸ below)
  rw [isBytes] at isByte
  simp only [Ram.vectorAt, Vector.getElem_ofFn]
  rw [isByte, List.getD_eq_getElem?_getD,
    List.getElem?_eq_getElem (by simpa using below), Option.getD_some,
    Vector.getElem_toList]

/-- A slot keeps its register as long as its bytes stay. -/
theorem HeldAt.keep {slot : Slot} {stack : UInt32} {origin : Core}
    {ram next : Ram} (held : slot.HeldAt stack origin ram)
    (same : ∀ address ∈ slot.region stack,
      next.peek address = ram.peek address) :
    slot.HeldAt stack origin next := by
  intro index below
  rw [same _ (Region.mem_of_lt below)]
  exact held index below

theorem HeldAt.congr {slot : Slot} {stack : UInt32} {origin other : Core}
    {ram : Ram} (held : slot.HeldAt stack origin ram)
    (same : slot.bytes other = slot.bytes origin) :
    slot.HeldAt stack other ram := by
  intro index below
  rw [same]
  exact held index below

/-- A slot stands in a frame at a word. -/
def Fits (slot : Slot) (size : Nat) : Prop := slot.offset + slot.size ≤ size ∧
    slot.offset % 4 = 0

theorem Before.apart {first second : Slot} (before : first.Before second)
    {size : Nat} (fits : second.Fits size) (short : size ≤ 2 ^ 32)
    (stack : UInt32) : (first.region stack).Apart (second.region stack) :=
  Region.apart_parts before (fits.1.trans short)

end Slot

/-- What code that saves or restores slots relies on. -/
structure Framed (setting : Setting) (stack : UInt32) (size : Nat)
    (core : Core) : Prop where
  small : core.ram.size < 2 ^ 32
  isStack : core.reg 29 = stack
  may : ∀ address ∈ (⟨stack, size⟩ : Region), ∀ write, setting.may write address
  served : setting.mayTrap ∨ stack.toNat % 4 = 0 ∧ core.ram.Serves ⟨stack, size⟩

/-- The registers of slots are saved in a frame, and nothing else changes. -/
structure Saved (stack : UInt32) (slots : List Slot) (before after : Core) :
    Prop where
  keeps : before.Keeps [] [] after
  base : after.ram.base = before.ram.base
  size : after.ram.size = before.ram.size
  held : ∀ slot ∈ slots, slot.HeldAt stack before after.ram
  peek : ∀ address, (∀ slot ∈ slots, address ∉ slot.region stack) →
    after.ram.peek address = before.ram.peek address

theorem Saved.kept {stack : UInt32} {size : Nat} {slots : List Slot}
    {before after : Core} (saved : Saved stack slots before after)
    (fits : ∀ slot ∈ slots, slot.Fits size) {may : Permission}
    (covers : ∀ address ∈ (⟨stack, size⟩ : Region), may true address) :
    Ram.Kept may before.ram after.ram := by
  refine ⟨saved.base, saved.size, fun address outside => saved.peek address ?_⟩
  intro slot isSlot inSlot
  exact outside (covers address
    (Region.mem_of_part inSlot (fits slot isSlot).1))

section Runs

variable {setting : Setting} {goal : Goal} {rest : Fragment} {core : Core}
  {log : List Access} {stack : UInt32} {size : Nat} {slot : Slot}
  {slots : List Slot}

theorem Framed.keep (framed : Framed setting stack size core) {next : Core}
    (isStack : next.reg 29 = core.reg 29) (base : next.ram.base = core.ram.base)
    (same : next.ram.size = core.ram.size) :
    Framed setting stack size next where
  small := same ▸ framed.small
  isStack := isStack.trans framed.isStack
  may := framed.may
  served := by
    have kept : Ram.Kept (fun _ _ => True) core.ram next.ram :=
      ⟨base, same, fun _ untouched => absurd trivial untouched⟩
    exact framed.served.imp_right fun ⟨aligned, serves⟩ =>
      ⟨aligned, kept.serves serves⟩

theorem Framed.store (framed : Framed setting stack size core) (start : UInt32)
    (data : List UInt8) : Framed setting stack size (core.store start data) :=
  framed.keep rfl Ram.base_store Ram.size_store

/-- The address of a slot is aligned and served as the frame is. -/
theorem Framed.slot_served (framed : Framed setting stack size core)
    (fits : slot.Fits size) :
    setting.mayTrap ∨ (stack + UInt32.ofNat slot.offset).toNat % 4 = 0 ∧
      core.ram.Serves ⟨stack + UInt32.ofNat slot.offset, slot.size⟩ := by
  refine framed.served.imp_right fun ⟨aligned, serves⟩ =>
    ⟨?_, serves.part fits.1⟩
  have atWord := fits.2
  rw [UInt32.toNat_add, UInt32.toNat_ofNat']
  omega

theorem Leads.save (framed : Framed setting stack size core)
    (fits : slot.Fits size)
    (continues : ∀ logged,
      slot.size ≤ core.ram.available (stack + UInt32.ofNat slot.offset) →
        Leads setting goal rest
        (core.store (stack + UInt32.ofNat slot.offset) (slot.bytes core))
          logged) :
    Leads setting goal (slot.saveCode ++ rest) core log := by
  have isAddress : core.reg Reg.sp.index + Core.distance slot.offset =
      stack + UInt32.ofNat slot.offset := by
    rw [Core.distance_natCast]
    exact congrArg (· + _) framed.isStack
  have stays : ∀ other ∈ slot.region stack, setting.may true other :=
    fun other inSlot => framed.may other (Region.mem_of_part inSlot fits.1) true
  have served := framed.slot_served fits
  unfold Slot.region at stays
  unfold Slot.saveCode
  unfold Slot.size at served continues stays
  unfold Slot.bytes at continues
  split
  case isTrue isVector =>
    rw [if_pos isVector] at served continues stays
    apply Leads.st (by decide) _ isAddress stays (served.imp_right And.right)
    intro logged _ _ present
    rw [if_pos isVector] at continues
    exact continues logged present
  case isFalse isGeneral =>
    rw [if_neg isGeneral] at served continues stays
    apply Leads.sw _ isAddress stays served
    intro logged _ _ present
    rw [if_neg isGeneral] at continues
    exact continues logged present

/-- The code for slots that stand one behind the other saves all their
registers. -/
theorem Leads.saves (framed : Framed setting stack size core)
    (short : size ≤ 2 ^ 32) (fits : ∀ slot ∈ slots, slot.Fits size)
    (ordered : slots.Pairwise Slot.Before)
    (continues : ∀ next logged, Saved stack slots core next →
      Leads setting goal rest next logged) :
    Leads setting goal (slots.flatMap Slot.saveCode ++ rest) core log := by
  induction slots generalizing core log with
  | nil =>
      exact continues core log ⟨.refl core, rfl, rfl,
        fun slot isSlot => (by cases isSlot), fun _ _ => rfl⟩
  | cons slot slots induction =>
      rw [List.pairwise_cons] at ordered
      rw [List.flatMap_cons, List.append_assoc]
      have slotFits := fits slot List.mem_cons_self
      apply Leads.save framed slotFits
      intro logged present
      apply induction (framed.store _ _)
        (fun other isOther => fits other (List.mem_cons_of_mem _ isOther))
        ordered.2
      intro next accesses saved
      obtain ⟨keeps, base, isSize, held, peek⟩ := saved
      have served : (slot.bytes core).length ≤
          core.ram.available (stack + UInt32.ofNat slot.offset) := by
        rw [slot.length_bytes]
        exact present
      have isRegion :
          (⟨stack + UInt32.ofNat slot.offset,
          (slot.bytes core).length⟩ : Region) = slot.region stack := by
        rw [slot.length_bytes]
        rfl
      apply continues next accesses
      refine ⟨⟨fun register _ => ?_, fun register _ => ?_⟩,
        base.trans Ram.base_store, isSize.trans Ram.size_store, ?_, ?_⟩
      · exact keeps.reg register List.not_mem_nil
      · exact keeps.vector register List.not_mem_nil
      · intro other isOther
        rcases List.mem_cons.mp isOther with rfl | isLater
        · intro index below
          rw [peek]
          · have inside : index < (other.bytes core).length := by
              rwa [other.length_bytes]
            rw [Core.ram_store, Ram.peek_store_of_mem framed.small.le served
              (by rw [other.length_bytes]; have := other.size_le; omega) inside,
              List.getD_eq_getElem?_getD, List.getElem?_eq_getElem inside,
              Option.getD_some]
          · intro later isLater
            exact (ordered.1 later isLater).apart
              (fits later (List.mem_cons_of_mem _ isLater)) short stack _
              (Region.mem_of_lt below)
        · exact held other isLater
      · intro address outside
        rw [peek address fun later isLater =>
          outside later (List.mem_cons_of_mem _ isLater)]
        apply Ram.peek_store_of_not_mem framed.small.le served
        rw [isRegion]
        exact outside slot List.mem_cons_self

theorem Leads.restore {origin : Core} (framed : Framed setting stack size core)
    (fits : slot.Fits size) (held : slot.HeldAt stack origin core.ram)
    (vector : slot.register.isVector = true → ∀ logged, Leads setting goal rest
      (core.setVector slot.register.index (origin.vector slot.register.index))
        logged)
    (general : slot.register.isVector = false →
      ∀ logged, Leads setting goal rest
      (core.setReg slot.register.index (origin.reg slot.register.index))
        logged) :
    Leads setting goal (slot.restoreCode ++ rest) core log := by
  have isAddress : core.reg Reg.sp.index + Core.distance slot.offset =
      stack + UInt32.ofNat slot.offset := by
    rw [Core.distance_natCast]
    exact congrArg (· + _) framed.isStack
  have stays : ∀ other ∈ slot.region stack, setting.may false other :=
    fun other inSlot =>
      framed.may other (Region.mem_of_part inSlot fits.1) false
  have served := framed.slot_served fits
  unfold Slot.region at stays
  unfold Slot.restoreCode
  unfold Slot.size at served stays
  split
  case isTrue isVector =>
    rw [if_pos isVector] at served stays
    apply Leads.ld (by decide) _ isAddress framed.small stays
      (served.imp_right And.right)
    intro logged _ _
    rw [held.vector isVector]
    exact vector isVector logged
  case isFalse notVector =>
    have isGeneral : slot.register.isVector = false := by simpa using notVector
    rw [if_neg notVector] at served stays
    apply Leads.lw _ isAddress framed.small stays served
    intro logged _ _
    rw [held.word isGeneral]
    exact general isGeneral logged

/-- The registers of slots are the ones of an earlier core again, the others are
as they were. -/
structure Restored (slots : List Slot) (origin before after : Core) : Prop where
  ram : after.ram = before.ram
  reg : ∀ number, after.reg number =
    if Reg.gp number ∈ slots.map Slot.register then origin.reg number
    else before.reg number
  vector : ∀ number, after.vector number =
    if Reg.vec number ∈ slots.map Slot.register then origin.vector number
    else before.vector number

/-- A slot keeps a register that can be loaded and does not lead to the
frame. -/
def Slot.Loadable (slot : Slot) : Prop :=
  ∃ number, slot.register = .vec number ∨
    slot.register = .gp number ∧ number ≠ 0 ∧ number ≠ 29 ∧ number ≠ 30

theorem Leads.restores {origin : Core} (framed : Framed setting stack size core)
    (fits : ∀ slot ∈ slots, slot.Fits size)
    (loadable : ∀ slot ∈ slots, slot.Loadable)
    (held : ∀ slot ∈ slots, slot.HeldAt stack origin core.ram)
    (continues : ∀ next logged, Restored slots origin core next →
      Leads setting goal rest next logged) :
    Leads setting goal (slots.flatMap Slot.restoreCode ++ rest) core log := by
  induction slots generalizing core log with
  | nil =>
      exact continues core log ⟨rfl, fun number => by simp,
        fun number => by simp⟩
  | cons slot slots induction =>
      rw [List.flatMap_cons, List.append_assoc]
      have laterFits : ∀ other ∈ slots, other.Fits size :=
        fun other isOther => fits other (List.mem_cons_of_mem _ isOther)
      have laterLoadable : ∀ other ∈ slots, other.Loadable :=
        fun other isOther => loadable other (List.mem_cons_of_mem _ isOther)
      have laterHeld : ∀ other ∈ slots, other.HeldAt stack origin core.ram :=
        fun other isOther => held other (List.mem_cons_of_mem _ isOther)
      obtain ⟨small, isStack, may, served⟩ := framed
      obtain ⟨number, isVector | ⟨isGeneral, nonzero, notStack, _⟩⟩ :=
        loadable slot List.mem_cons_self
      · apply Leads.restore ⟨small, isStack, may, served⟩
          (fits slot List.mem_cons_self) (held slot List.mem_cons_self)
        · intro _ logged
          rw [isVector]
          refine induction ⟨small, isStack, may, served⟩ laterFits laterLoadable
            laterHeld ?_
          intro next accesses restored
          apply continues next accesses
          refine ⟨restored.ram, fun other => ?_, fun other => ?_⟩
          · rw [restored.reg other, List.map_cons, isVector]
            simp
          · rw [restored.vector other, List.map_cons, isVector,
              Core.vector_setVector]
            by_cases same : other = number
            · subst same
              simp [Reg.index]
            · simp [same, Reg.index]
        · intro impossible
          rw [isVector] at impossible
          cases impossible
      · apply Leads.restore ⟨small, isStack, may, served⟩
          (fits slot List.mem_cons_self) (held slot List.mem_cons_self)
        · intro impossible
          rw [isGeneral] at impossible
          cases impossible
        · intro _ logged
          rw [isGeneral]
          have sameRam :
              (core.setReg number (origin.reg number)).ram = core.ram :=
            Core.ram_setReg ..
          have framed : Framed setting stack size
              (core.setReg number (origin.reg number)) :=
            ⟨sameRam ▸ small,
              (Core.reg_setReg_other _ _ _ _ (Ne.symm notStack)).trans isStack,
              may, sameRam ▸ served⟩
          refine induction framed laterFits laterLoadable
            (sameRam ▸ laterHeld) ?_
          intro next accesses restored
          apply continues next accesses
          refine ⟨restored.ram.trans sameRam, fun other => ?_, fun other => ?_⟩
          · rw [restored.reg other, List.map_cons, isGeneral]
            by_cases same : other = number
            · subst same
              simp [Reg.index, Core.reg_setReg_same _ _ _ nonzero]
            · simp [same, Core.reg_setReg_other _ _ _ _ same, Reg.index]
          · rw [restored.vector other, List.map_cons, isGeneral]
            simp

end Runs

namespace Frame

/-- A place of a frame, in bytes from the adjusted stack pointer. -/
structure Area where
  offset : Nat
  size : Nat

/-- One place ends where the other starts, or in front of it. -/
def Area.Before (first second : Area) :
    Prop := first.offset + first.size ≤ second.offset

/-- Everything that a frame keeps. -/
def areas (frame : Frame) : List Area :=
  [⟨fpSlot, 4⟩, ⟨argumentSlot, 4⟩, ⟨staging, 16⟩]
    ++ (List.range frame.generalSaves.length).map
      (fun index => ⟨generalSlot index, 4⟩)
    ++ (List.range frame.vectorSaves.length).map fun index =>
      ⟨frame.vectorSlot index, 16⟩

/-- Places of one size from an offset on. -/
def row (start size count : Nat) : List Area :=
  (List.range count).map fun index => ⟨start + size * index, size⟩

theorem row_bounds {start size count : Nat} {area : Area}
    (isArea : area ∈ row start size count) :
    start ≤ area.offset ∧ area.offset + area.size ≤ start + size * count := by
  obtain ⟨index, isIndex, rfl⟩ := List.mem_map.mp isArea
  have next : size * (index + 1) ≤ size * count :=
    Nat.mul_le_mul_left size (List.mem_range.mp isIndex)
  rw [Nat.mul_succ] at next
  have isEnd : start + size * index + size ≤ start + size * count := by omega
  exact ⟨Nat.le_add_right _ _, isEnd⟩

theorem row_ordered (start size count : Nat) :
    (row start size count).Pairwise Area.Before := by
  refine List.pairwise_map.mpr
    (List.pairwise_lt_range.imp fun {first second} below => ?_)
  have next : size * (first + 1) ≤ size * second :=
    Nat.mul_le_mul_left size below
  rw [Nat.mul_succ] at next
  change start + size * first + size ≤ start + size * second
  omega

theorem alignUp_bounds (value : Nat) :
    value ≤ alignUp value ∧ alignUp value % 16 = 0 := by
  unfold alignUp
  omega

/-- The places of a frame stand in it, one behind the other. -/
theorem areas_apart {general vector : List Reg} {frame : Frame}
    (isLayout : layout general vector = .ok frame) :
    frame.areas.Pairwise Area.Before ∧
      ∀ area ∈ frame.areas, area.offset + area.size ≤ frame.size := by
  obtain ⟨isGeneral, isVector, isOffset, isSize, -⟩ := layout_eq_ok.mp isLayout
  have offsetBounds := (alignUp_bounds (saves + 4 * general.length)).1
  have sizeBounds :=
    (alignUp_bounds (frame.vectorOffset + 16 * vector.length)).1
  rw [← isOffset] at offsetBounds
  rw [← isSize] at sizeBounds
  have isAreas :
      frame.areas = [⟨fpSlot, 4⟩, ⟨argumentSlot, 4⟩, ⟨staging, 16⟩] ++
      row saves 4 general.length ++
        row frame.vectorOffset 16 vector.length := by
    rw [areas, isGeneral, isVector]
    rfl
  have fixedEnd :
      ∀ area ∈ ([⟨fpSlot, 4⟩, ⟨argumentSlot, 4⟩, ⟨staging, 16⟩] : List Area),
      area.offset + area.size ≤ saves := by
    simp [fpSlot, argumentSlot, staging, saves]
  have frontEnd :
      ∀ area ∈ ([⟨fpSlot, 4⟩, ⟨argumentSlot, 4⟩, ⟨staging, 16⟩] : List Area) ++
      row saves 4 general.length,
        area.offset + area.size ≤ frame.vectorOffset := by
    intro area isArea
    rcases List.mem_append.mp isArea with isFixed | isSaved
    · exact (fixedEnd area isFixed).trans
        ((Nat.le_add_right _ _).trans offsetBounds)
    · exact (row_bounds isSaved).2.trans offsetBounds
  rw [isAreas]
  constructor
  · refine List.pairwise_append.mpr
      ⟨List.pairwise_append.mpr ⟨?_, row_ordered _ _ _, ?_⟩,
        row_ordered _ _ _, ?_⟩
    · simp [Area.Before, fpSlot, argumentSlot, staging]
    · exact fun first isFirst second isSecond =>
        (fixedEnd first isFirst).trans (row_bounds isSecond).1
    · exact fun first isFirst second isSecond =>
        (frontEnd first isFirst).trans (row_bounds isSecond).1
  · intro area isArea
    rcases List.mem_append.mp isArea with isFront | isSaved
    · exact (frontEnd area isFront).trans
        ((Nat.le_add_right _ _).trans sizeBounds)
    · exact (row_bounds isSaved).2.trans sizeBounds

theorem whole_blocks {general vector : List Reg} {frame : Frame}
    (isLayout : layout general vector = .ok frame) :
    (∀ index, frame.vectorSlot index % 16 = 0) ∧ frame.size % 16 = 0 := by
  obtain ⟨-, -, isOffset, isSize, -⟩ := layout_eq_ok.mp isLayout
  have wholeOffset := (alignUp_bounds (saves + 4 * general.length)).2
  have wholeSize := (alignUp_bounds (frame.vectorOffset + 16 * vector.length)).2
  rw [← isOffset] at wholeOffset
  rw [← isSize] at wholeSize
  refine ⟨fun index => ?_, wholeSize⟩
  rw [vectorSlot, Nat.add_mul_mod_self_left, wholeOffset]

end Frame

def Slot.area (slot : Slot) : Frame.Area := ⟨slot.offset, slot.size⟩

namespace Frame

def generalSlots (frame : Frame) : List Slot :=
  frame.generalSaves.zipIdx.map fun (register, index) =>
    ⟨generalSlot index, register⟩

def vectorSlots (frame : Frame) : List Slot :=
  frame.vectorSaves.zipIdx.map fun (register, index) =>
    ⟨frame.vectorSlot index, register⟩

/-- The slots of the saved registers. -/
def slots (frame : Frame) : List Slot := frame.generalSlots ++ frame.vectorSlots

/-- The slots that are written behind the one of the frame pointer. -/
def entrySlots (frame : Frame) : List Slot :=
  ⟨4, Contract.executor⟩ :: frame.slots

/-- The code that loads the saved registers back. -/
def restores (frame : Frame) : Fragment :=
  frame.slots.reverse.flatMap Slot.restoreCode

/-- The words behind the code that restores registers. -/
def exit (frame : Frame) : Fragment :=
  lw .fp .sp fpSlot ++ (addiu .sp .sp frame.size ++ (insn (.jr .ra) ++ nop))

/-- A frame that was laid out for registers of both banks. -/
structure Sound (frame : Frame) : Prop where
  general : ∀ register ∈ frame.generalSaves, ∃ number,
    register = .gp number ∧ number ≠ 0 ∧ number ≠ 29 ∧ number ≠ 30
  vector : ∀ register ∈ frame.vectorSaves, ∃ number, register = .vec number
  isLayout : layout frame.generalSaves frame.vectorSaves = .ok frame

variable {frame : Frame}

namespace Sound

variable (sound : frame.Sound)

include sound

theorem offsets :
    frame.vectorOffset = alignUp (32 + 4 * frame.generalSaves.length) ∧
    frame.size = alignUp (frame.vectorOffset + 16 * frame.vectorSaves.length) ∧
    frame.size ≤ 0x7ff0 := by
  obtain ⟨-, -, isOffset, isSize, small⟩ := layout_eq_ok.mp sound.isLayout
  exact ⟨isOffset, isSize, small⟩

theorem large : 32 ≤ frame.size :=
  (areas_apart sound.isLayout).2 ⟨staging, 16⟩ (by simp [areas])

theorem mem_generalSlots {slot : Slot} (isSlot : slot ∈ frame.generalSlots) :
    ∃ index < frame.generalSaves.length, slot.offset = 32 + 4 * index ∧
      slot.size = 4 ∧
      slot.register ∈ frame.generalSaves := by
  obtain ⟨⟨register, index⟩, isPair, rfl⟩ := List.mem_map.mp isSlot
  obtain ⟨_, below, isRegister⟩ := List.mem_zipIdx isPair
  have isMember : register ∈ frame.generalSaves :=
    isRegister ▸ List.getElem_mem _
  obtain ⟨number, rfl, _⟩ := sound.general register isMember
  exact ⟨index, by omega, rfl, rfl, isMember⟩

theorem mem_vectorSlots {slot : Slot} (isSlot : slot ∈ frame.vectorSlots) :
    ∃ index < frame.vectorSaves.length,
      slot.offset = frame.vectorOffset + 16 * index ∧ slot.size = 16 ∧
        slot.register ∈ frame.vectorSaves := by
  obtain ⟨⟨register, index⟩, isPair, rfl⟩ := List.mem_map.mp isSlot
  obtain ⟨_, below, isRegister⟩ := List.mem_zipIdx isPair
  have isMember : register ∈ frame.vectorSaves :=
    isRegister ▸ List.getElem_mem _
  obtain ⟨number, rfl⟩ := sound.vector register isMember
  exact ⟨index, by omega, rfl, rfl, isMember⟩

theorem loadable {slot : Slot} (isSlot : slot ∈ frame.slots) :
    slot.Loadable := by
  rcases List.mem_append.mp isSlot with isGeneral | isVector
  · obtain ⟨_, _, _, _, isMember⟩ := sound.mem_generalSlots isGeneral
    obtain ⟨number, isRegister⟩ := sound.general _ isMember
    exact ⟨number, .inr isRegister⟩
  · obtain ⟨_, _, _, _, isMember⟩ := sound.mem_vectorSlots isVector
    obtain ⟨number, isRegister⟩ := sound.vector _ isMember
    exact ⟨number, .inl isRegister⟩

theorem areas_eq :
    frame.areas = [⟨fpSlot, 4⟩, ⟨argumentSlot, 4⟩, ⟨staging, 16⟩] ++
      frame.slots.map Slot.area := by
  have general : frame.generalSlots.map Slot.area =
      row saves 4 frame.generalSaves.length := by
    rw [row, List.range_eq_range', ← List.zipIdx_map_snd 0 frame.generalSaves,
      generalSlots, List.map_map, List.map_map]
    refine List.map_congr_left fun ⟨register, index⟩ isPair => ?_
    obtain ⟨_, _, isRegister⟩ := List.mem_zipIdx isPair
    obtain ⟨number, rfl, _⟩ :=
      sound.general register (isRegister ▸ List.getElem_mem _)
    rfl
  have vector : frame.vectorSlots.map Slot.area =
      row frame.vectorOffset 16 frame.vectorSaves.length := by
    rw [row, List.range_eq_range', ← List.zipIdx_map_snd 0 frame.vectorSaves,
      vectorSlots, List.map_map, List.map_map]
    refine List.map_congr_left fun ⟨register, index⟩ isPair => ?_
    obtain ⟨_, _, isRegister⟩ := List.mem_zipIdx isPair
    obtain ⟨number, rfl⟩ :=
      sound.vector register (isRegister ▸ List.getElem_mem _)
    rfl
  rw [slots, List.map_append, general, vector, ← List.append_assoc]
  rfl

theorem fits {slot : Slot} (isSlot : slot ∈ frame.slots) :
    slot.Fits frame.size ∧ 32 ≤ slot.offset := by
  obtain ⟨apart, inside⟩ := areas_apart sound.isLayout
  rw [sound.areas_eq] at apart inside
  have isArea : slot.area ∈ frame.slots.map Slot.area :=
    List.mem_map_of_mem isSlot
  have behind : (⟨staging, 16⟩ : Area).Before slot.area :=
    (List.pairwise_append.mp apart).2.2 _ (by simp) _ isArea
  have whole : slot.offset % 4 = 0 := by
    have blocks := (whole_blocks sound.isLayout).1
    rcases List.mem_append.mp isSlot with isGeneral | isVector
    · obtain ⟨index, -, atOffset, -⟩ := sound.mem_generalSlots isGeneral
      omega
    · obtain ⟨index, -, atOffset, -⟩ := sound.mem_vectorSlots isVector
      have block : slot.offset % 16 = 0 := atOffset ▸ blocks index
      omega
  exact ⟨⟨inside _ (List.mem_append_right _ isArea), whole⟩, behind⟩

theorem ordered : frame.slots.Pairwise Slot.Before := by
  obtain ⟨apart, -⟩ := areas_apart sound.isLayout
  rw [sound.areas_eq] at apart
  have inOrder :
      frame.slots.Pairwise fun first second => first.area.Before second.area :=
    List.pairwise_map.mp (List.pairwise_append.mp apart).2.1
  exact inOrder

theorem fp_fits : Slot.Fits ⟨0, .fp⟩ frame.size :=
  ⟨Nat.le_trans (by decide) sound.large, rfl⟩

theorem entry_fits {slot : Slot} (isSlot : slot ∈ frame.entrySlots) :
    slot.Fits frame.size := by
  rcases List.mem_cons.mp isSlot with rfl | isSlot
  · exact ⟨Nat.le_trans (by decide) sound.large, rfl⟩
  · exact (sound.fits isSlot).1

/-- All slots of a frame stand one behind the other. -/
theorem entry_ordered :
    (⟨0, .fp⟩ :: frame.entrySlots).Pairwise Slot.Before := by
  have behind : ∀ slot ∈ frame.slots, 4 + 4 ≤ slot.offset :=
    fun slot isSlot => Nat.le_trans (by decide) (sound.fits isSlot).2
  refine List.pairwise_cons.mpr ⟨fun slot isSlot => ?_,
    List.pairwise_cons.mpr ⟨behind, sound.ordered⟩⟩
  rcases List.mem_cons.mp isSlot with rfl | isSlot
  · exact Nat.le_refl 4
  · exact Nat.le_trans (show 0 + 4 ≤ 4 + 4 by decide) (behind slot isSlot)

theorem prologue_eq : frame.prologue =
    addiu .sp .sp (-(frame.size : Int))
      ++ (Slot.saveCode ⟨0, .fp⟩ ++ (move .fp .sp
      ++ frame.entrySlots.flatMap Slot.saveCode)) := by
  have general : frame.generalSaves.zipIdx.flatMap (fun (register, index) =>
      sw register .sp (generalSlot index)) =
        frame.generalSlots.flatMap Slot.saveCode := by
    unfold generalSlots
    rw [List.flatMap_map]
    apply List.flatMap_congr
    rintro ⟨register, index⟩ isPair
    obtain ⟨_, _, isRegister⟩ := List.mem_zipIdx isPair
    obtain ⟨number, rfl, _⟩ :=
      sound.general register (isRegister ▸ List.getElem_mem _)
    rfl
  have vector : frame.vectorSaves.zipIdx.flatMap (fun (register, index) =>
      insn (.st .double register .sp (frame.vectorSlot index))) =
        frame.vectorSlots.flatMap Slot.saveCode := by
    unfold vectorSlots
    rw [List.flatMap_map]
    apply List.flatMap_congr
    rintro ⟨register, index⟩ isPair
    obtain ⟨_, _, isRegister⟩ := List.mem_zipIdx isPair
    obtain ⟨number, rfl⟩ :=
      sound.vector register (isRegister ▸ List.getElem_mem _)
    rfl
  unfold prologue entrySlots slots
  rw [List.flatMap_cons, List.flatMap_append, ← general, ← vector]
  simp only [List.append_assoc]
  rfl

theorem epilogue_eq :
    frame.epilogue = frame.restores ++ frame.exit := by
  have general :
      frame.generalSaves.zipIdx.reverse.flatMap (fun (register, index) =>
      lw register .sp (generalSlot index)) =
        frame.generalSlots.reverse.flatMap Slot.restoreCode := by
    unfold generalSlots
    rw [← List.map_reverse, List.flatMap_map]
    apply List.flatMap_congr
    rintro ⟨register, index⟩ isPair
    obtain ⟨_, _, isRegister⟩ := List.mem_zipIdx (List.mem_reverse.mp isPair)
    obtain ⟨number, rfl, _⟩ :=
      sound.general register (isRegister ▸ List.getElem_mem _)
    rfl
  have vector : frame.vectorSaves.zipIdx.reverse.flatMap
      (fun (register, index) =>
      insn (.ld .double register .sp (frame.vectorSlot index))) =
        frame.vectorSlots.reverse.flatMap Slot.restoreCode := by
    unfold vectorSlots
    rw [← List.map_reverse, List.flatMap_map]
    apply List.flatMap_congr
    rintro ⟨register, index⟩ isPair
    obtain ⟨_, _, isRegister⟩ := List.mem_zipIdx (List.mem_reverse.mp isPair)
    obtain ⟨number, rfl⟩ :=
      sound.vector register (isRegister ▸ List.getElem_mem _)
    rfl
  unfold epilogue restores slots exit
  rw [List.reverse_append, List.flatMap_append, ← general, ← vector]
  simp only [List.append_assoc]

end Sound

end Frame

namespace Planned

variable {program : Program} {options : CompileOptions}
  {plan : CompilePlan Unit} {body : List (Opcode × Instruction)}
  (planned : Planned program options plan body)

include planned

theorem saves_eq :
    plan.frame.generalSaves =
      Contract.ascending (plan.saved.filter Reg.isGeneral) ∧
      plan.frame.vectorSaves =
        Contract.ascending (plan.saved.filter Reg.isVector) := by
  obtain ⟨isGeneral, isVector, -⟩ := Frame.layout_eq_ok.mp planned.frame
  exact ⟨isGeneral, isVector⟩

theorem mem_saved {register : Reg} (isSaved : register ∈ plan.saved) :
    (register ∈ Contract.pointerOrder ∨ register ∈ Contract.vectorOrder) ∧
      Contract.calleeSaved register = true := by
  obtain ⟨isAssigned, callee⟩ := List.mem_filter.mp isSaved
  refine ⟨?_, callee⟩
  rw [List.map_append, List.mem_append] at isAssigned
  exact isAssigned.imp (fun isPointer => planned.pointerOrder.subset isPointer)
    fun isVector => planned.vectorOrder.subset isVector

theorem frame_sound : plan.frame.Sound := by
  obtain ⟨isGeneral, isVector⟩ := planned.saves_eq
  have generals : ∀ register ∈ Contract.pointerOrder ++ Contract.vectorOrder,
      register.isGeneral = true →
        ∃ number, register = .gp number ∧ number ≠ 0 ∧ number ≠ 29 ∧
          number ≠ 30 := by
    decide
  have vectors : ∀ register ∈ Contract.pointerOrder ++ Contract.vectorOrder,
      register.isVector = true → ∃ number, register = .vec number := by
    decide
  refine ⟨?_, ?_, ?_⟩
  · intro register isSaved
    rw [isGeneral] at isSaved
    have isMember := List.contains_iff_mem.mp (List.mem_filter.mp isSaved).2
    obtain ⟨inSaved, general⟩ := List.mem_filter.mp isMember
    exact generals register
      (List.mem_append.mpr (planned.mem_saved inSaved).1) general
  · intro register isSaved
    rw [isVector] at isSaved
    have isMember := List.contains_iff_mem.mp (List.mem_filter.mp isSaved).2
    obtain ⟨inSaved, vector⟩ := List.mem_filter.mp isMember
    exact vectors register
      (List.mem_append.mpr (planned.mem_saved inSaved).1) vector
  · rw [isGeneral, isVector]
    exact planned.frame

omit planned in
theorem registers_slots (frame : Frame) :
    frame.slots.map Slot.register = frame.generalSaves ++
      frame.vectorSaves := by
  unfold Frame.slots Frame.generalSlots Frame.vectorSlots
  rw [List.map_append, List.map_map, List.map_map]
  congr 1 <;> exact List.zipIdx_map_fst ..

theorem calleeSaved_of_mem {register : Reg}
    (isSlot : register ∈ plan.frame.slots.map Slot.register) :
    Contract.calleeSaved register = true := by
  obtain ⟨isGeneral, isVector⟩ := planned.saves_eq
  rw [registers_slots, isGeneral, isVector, List.mem_append] at isSlot
  have isSaved : register ∈ plan.saved := by
    rcases isSlot with isSlot | isSlot
    · exact List.mem_of_mem_filter
        (List.contains_iff_mem.mp (List.mem_filter.mp isSlot).2)
    · exact List.mem_of_mem_filter
        (List.contains_iff_mem.mp (List.mem_filter.mp isSlot).2)
  exact (planned.mem_saved isSaved).2

theorem mem_slots {entry : VarIndex × Reg}
    (isEntry : entry ∈ plan.pointers ++ plan.vectors)
    (callee : Contract.calleeSaved entry.2 = true) :
    entry.2 ∈ plan.frame.slots.map Slot.register := by
  obtain ⟨isGeneral, isVector⟩ := planned.saves_eq
  have isSaved : entry.2 ∈ plan.saved :=
    List.mem_filter.mpr ⟨List.mem_map_of_mem isEntry, callee⟩
  have everywhere : ∀ register ∈ Contract.pointerOrder ++ Contract.vectorOrder,
      register ∈ Contract.allRegisters ∧
        (register.isGeneral = true ∨ register.isVector = true) := by
    decide
  obtain ⟨isRegister, isBank⟩ :=
    everywhere _ (List.mem_append.mpr (planned.mem_saved isSaved).1)
  rw [registers_slots, isGeneral, isVector, List.mem_append]
  refine isBank.imp (fun general => ?_) fun vector => ?_
  · exact List.mem_filter.mpr ⟨isRegister,
      List.contains_iff_mem.mpr (List.mem_filter.mpr ⟨isSaved, general⟩)⟩
  · exact List.mem_filter.mpr ⟨isRegister,
      List.contains_iff_mem.mpr (List.mem_filter.mpr ⟨isSaved, vector⟩)⟩

theorem pointer_slot {number : RegNum}
    (isPointer : number ∈ plan.pointers.map fun entry => entry.2.index)
    (callee : Contract.calleeSaved (.gp number) = true) :
    .gp number ∈ plan.frame.slots.map Slot.register := by
  obtain ⟨entry, isEntry, rfl⟩ := List.mem_map.mp isPointer
  rw [← planned.pointer_eq isEntry] at callee ⊢
  exact planned.mem_slots (List.mem_append_left _ isEntry) callee

theorem vector_slot {number : RegNum}
    (isVector : number ∈ plan.vectors.map fun entry => entry.2.index)
    (callee : Contract.calleeSaved (.vec number) = true) :
    .vec number ∈ plan.frame.slots.map Slot.register := by
  obtain ⟨entry, isEntry, rfl⟩ := List.mem_map.mp isVector
  rw [← planned.vector_eq isEntry] at callee ⊢
  exact planned.mem_slots (List.mem_append_right _ isEntry) callee

end Planned

end LaneKernel
