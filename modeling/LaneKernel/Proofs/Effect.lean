import LaneKernel.Proofs.Decoding
import LaneKernel.Proofs.Memory

/-!
# What instructions do

`Insn.effect` gives the one thing that an instruction does to a core, in terms
of the registers and immediates that it names: it sets a general or a vector
register, stores a stretch of bytes, jumps, or traps at an access that memory
does not serve.  `Core.executeMem_eq` brings the scalar accesses, the ones to
parts of a word included, into this form.
-/

namespace LaneKernel

/-- A stretch of memory that an instruction loads or stores. -/
structure Access where
  write : Bool
  start : UInt32
  length : Nat
deriving DecidableEq, Repr

/-- Whether the access reaches a position of a memory that starts at `base`. -/
def Access.Reaches (access : Access) (base : UInt32) (position : Nat) : Prop :=
  (access.start - base).toNat ≤ position ∧
    position < (access.start - base).toNat + access.length

/-- The effect of one instruction. -/
inductive Effect where
  | nothing
  | general (register : RegNum) (value : UInt32)
  | vector (register : RegNum) (value : VectorRegister)
  | memory (start : UInt32) (data : List UInt8)
  | jump (target : UInt32)
  /-- A trap, with the bytes that were stored before it. -/
  | trap (cause : Cause) (value start : UInt32) (data : List UInt8)

/-- Carries out the effect of the instruction at `pc`. -/
def Effect.apply (core : Core) (pc : UInt32) : Effect → Core × Option Exception
  | nothing => (core, none)
  | general register value => (core.setReg register value, none)
  | vector register value => (core.setVector register value, none)
  | memory start data =>
      (core.mapRam fun ram => ram.loadAt (start - ram.base).toNat data.toArray,
        none)
  | jump target => (core.setNpc target, none)
  | trap cause value start data =>
      (core.mapRam fun ram => ram.loadAt (start - ram.base).toNat data.toArray,
        some ⟨cause, pc, value⟩)

namespace MemOp

def isStore : MemOp → Bool
  | sb | sh | sw | swl | swr => true
  | _ => false

/-- Whether the access takes only part of a word, so that no address is
misaligned. -/
def isPart : MemOp → Bool
  | lwl | lwr | swl | swr => true
  | _ => false

/-- The address of the first byte of an access. -/
def start (op : MemOp) (address : UInt32) : UInt32 :=
  match op with
  | lwl | swl => address &&& ~~~3
  | _ => address

/-- The number of bytes of an access. -/
def count (op : MemOp) (address : UInt32) : Nat :=
  match op with
  | lwl | swl => (address &&& 3).toNat + 1
  | lwr | swr => 4 - (address &&& 3).toNat
  | _ => op.width

/-- The register byte that the first byte of an access belongs to. -/
def firstByte (op : MemOp) (address : UInt32) : Nat :=
  match op with
  | lwl | swl => 3 - (address &&& 3).toNat
  | _ => 0

/-- A word with consecutive bytes replaced from byte number `first` on. -/
def merge (word : UInt32) (first : Nat) : List UInt8 → UInt32
  | [] => word
  | byte :: rest =>
      merge (Core.setByte word (UInt32.ofNat first) byte) (first + 1) rest

/-- Consecutive bytes of a word from byte number `first` on. -/
def cut (word : UInt32) (first : Nat) : Nat → List UInt8
  | 0 => []
  | count + 1 =>
      (word >>> UInt32.ofNat (8 * first)).toUInt8 :: cut word (first + 1) count

/-- The register value behind a load that memory serves. -/
def loaded (op : MemOp) (ram : Ram) (old address : UInt32) : UInt32 :=
  if op.isPart then
    merge old (op.firstByte address)
      (ram.bytesAt (op.start address) (op.count address))
  else op.extend
    (FlatMemory.valueAt ram.bytes (address - ram.base).toNat op.width)

/-- The effect of a scalar load or store at an address. -/
def effect (op : MemOp) (core : Core) (rt : RegNum) (address : UInt32) :
    Effect :=
  let start := op.start address
  let count := op.count address
  let present := core.ram.available start
  let data := cut (core.reg rt) (op.firstByte address) count
  if !op.isPart ∧ address % UInt32.ofNat op.width ≠ 0 then
    .trap (if op.isStore then .addressErrorStore else .addressErrorLoad) address
      start []
  else if count ≤ present then
    if op.isStore then .memory start data
    else .general rt (op.loaded core.ram (core.reg rt) address)
  else if op.isPart then
    .trap .busError (start + UInt32.ofNat present) start
      (if op.isStore then data.take present else [])
  else .trap .busError address start []

section Whole

variable {op : MemOp} (notPart : op.isPart = false) (address : UInt32)

include notPart

theorem start_of_whole : op.start address = address := by
  cases op <;> first | rfl | cases notPart

theorem count_of_whole : op.count address = op.width := by
  cases op <;> first | rfl | cases notPart

theorem firstByte_of_whole : op.firstByte address = 0 := by
  cases op <;> first | rfl | cases notPart

end Whole

end MemOp

namespace Insn

/-- The effect of an instruction on a core. -/
def effect (core : Core) : Insn → Effect
  | nop => .nothing
  | alu op rd rs rt =>
      .general rd.index
        (op.registerFn.compute (core.reg rs.index) (core.reg rt.index))
  | move rd rs => .general rd.index (core.reg rs.index)
  | shift op rd rt amount =>
      .general rd.index (op.compute (core.reg rt.index) (UInt32.ofInt amount))
  | jr rs => .jump (core.reg rs.index)
  | signedImm op rt rs imm =>
      .general rt.index (op.compute (core.reg rs.index) (Core.distance imm))
  | unsignedImm op rt rs imm =>
      .general rt.index
        (op.compute (core.reg rs.index) (UInt32.ofNat imm.toNat))
  | lui rt imm => .general rt.index (UInt32.ofNat imm.toNat <<< 16)
  | mem op rt base offset =>
      op.effect core rt.index (core.reg base.index + Core.distance offset)
  | lanes op df wd ws wt =>
      .vector wd.index
        (op.apply df.bytes (core.vector ws.index) (core.vector wt.index))
  | float op double wd ws wt =>
      .vector wd.index
        (op.apply double (core.vector ws.index) (core.vector wt.index))
  | bits op wd ws wt =>
      .vector wd.index
        ((core.vector ws.index).zipBytes (core.vector wt.index) op.compute)
  | byteImm op wd ws imm =>
      .vector wd.index ((core.vector ws.index).mapBytes fun byte =>
        op.compute byte imm)
  | moveV wd ws => .vector wd.index (core.vector ws.index)
  | ldi df wd imm =>
      .vector wd.index (.ofLanes df.bytes fun _ => UInt64.ofInt imm)
  | fill df wd rs =>
      .vector wd.index (.ofLanes df.bytes fun _ => (core.reg rs.index).toUInt64)
  | ld _ wd base offset =>
      let address := core.reg base.index + Core.distance offset
      if 16 ≤ core.ram.available address then
        .vector wd.index
          (.ofBytes core.ram.bytes (address - core.ram.base).toNat)
      else .trap .busError address address []
  | st _ wd base offset =>
      let address := core.reg base.index + Core.distance offset
      if 16 ≤ core.ram.available address then
        .memory address (core.vector wd.index).toList
      else .trap .busError address address []
  | copyS df rd ws lane =>
      .general rd.index
        (Lane.signExtend ((core.vector ws.index).lane df.bytes lane.toNat)
          df.bytes).toUInt64.toUInt32
  | copyU df rd ws lane =>
      .general rd.index
        ((core.vector ws.index).lane df.bytes lane.toNat).toUInt32
  | insert df wd lane rs =>
      .vector wd.index
        ((core.vector wd.index).setLane df.bytes lane.toNat
          (core.reg rs.index).toUInt64)
  | shf df wd ws pattern =>
      .vector wd.index ((core.vector ws.index).shuffle df.bytes pattern)

/-- The instructions that the format can express and a 32-bit core does not
have. -/
def Unsupported : Insn → Prop
  | fill df _ _ | copyS df _ _ _ | insert df _ _ _ => df = .double
  | copyU df _ _ _ => df = .word ∨ df = .double
  | _ => False

instance : DecidablePred Unsupported
  | fill df _ _ | copyS df _ _ _ | insert df _ _ _ =>
    inferInstanceAs (Decidable (df = .double))
  | copyU df _ _ _ => inferInstanceAs (Decidable (df = .word ∨ df = .double))
  | nop | alu .. | move .. | shift .. | jr .. | signedImm .. | unsignedImm ..
  | lui .. | mem ..
  | lanes .. | float .. | bits .. | byteImm .. | moveV .. | ldi .. | ld ..
  | st .. | shf .. =>
      inferInstanceAs (Decidable False)

/-- The general register that an instruction sets. -/
def generalTarget : Insn → Option RegNum
  | alu _ rd _ _ | move rd _ | shift _ rd _ _ | copyS _ rd _ _
  | copyU _ rd _ _ => some rd.index
  | signedImm _ rt _ _ | unsignedImm _ rt _ _ | lui rt _ => some rt.index
  | mem op rt _ _ => if op.isStore then none else some rt.index
  | _ => none

/-- The vector register that an instruction sets. -/
def vectorTarget : Insn → Option RegNum
  | lanes _ _ wd _ _ | float _ _ wd _ _ | bits _ wd _ _ | byteImm _ wd _ _
  | moveV wd _
  | ldi _ wd _ | fill _ wd _ | ld _ wd _ _ | insert _ wd _ _ | shf _ wd _ _ =>
      some wd.index
  | _ => none

/-- The accesses of an instruction to memory, served or not. -/
def accesses (core : Core) : Insn → List Access
  | mem op _ base offset =>
      let address := core.reg base.index + Core.distance offset
      [⟨op.isStore, op.start address, op.count address⟩]
  | ld _ _ base offset =>
      [⟨false, core.reg base.index + Core.distance offset, 16⟩]
  | st _ _ base offset =>
      [⟨true, core.reg base.index + Core.distance offset, 16⟩]
  | _ => []

end Insn

/-- Places of memory and of a register that go up side by side. -/
def Core.sideBySide : Nat → Nat → Nat → List (UInt32 × UInt32)
  | 0, _, _ => []
  | count + 1, distance, place =>
      (UInt32.ofNat distance, UInt32.ofNat place) ::
        sideBySide count (distance + 1) (place + 1)

namespace Core

theorem and_three_lt (address : UInt32) : (address &&& 3).toNat < 4 := by
  rw [Word.toNat_and_mask address 3 2 rfl]
  exact Nat.mod_lt _ (by decide)

theorem partBytes_left (address : UInt32) :
    partBytes true address =
      sideBySide ((address &&& 3).toNat + 1) 0 (3 - (address &&& 3).toNat) := by
  have everyPlace : ∀ number < 4,
      (([0, 1, 2, 3].filter (· ≤ UInt32.ofNat number)).map fun distance =>
        (distance, 3 - UInt32.ofNat number + distance)) =
          sideBySide (number + 1) 0 (3 - number) := by
    decide
  have isPlace : address &&& 3 = UInt32.ofNat (address &&& 3).toNat := by simp
  unfold partBytes
  simp only [if_true]
  rw [isPlace]
  simpa using everyPlace (address &&& 3).toNat (and_three_lt address)

theorem partBytes_right (address : UInt32) :
    partBytes false address =
      sideBySide (4 - (address &&& 3).toNat) (address &&& 3).toNat 0 := by
  have everyPlace : ∀ number < 4,
      (([0, 1, 2, 3].filter (UInt32.ofNat number ≤ ·)).map fun distance =>
        (distance, distance - UInt32.ofNat number)) =
          sideBySide (4 - number) number 0 := by
    decide
  have isPlace : address &&& 3 = UInt32.ofNat (address &&& 3).toNat := by simp
  unfold partBytes
  simp only [Bool.false_eq_true, if_false]
  rw [isPlace]
  simpa using everyPlace (address &&& 3).toNat (and_three_lt address)

theorem toNat_and_not_three (address : UInt32) :
    (address &&& ~~~3).toNat = address.toNat - address.toNat % 4 := by
  have low : (address &&& 3).toNat = address.toNat % 2 ^ 2 :=
    Word.toNat_and_mask address 3 2 rfl
  have sum : ((address &&& ~~~3).toNat + (address &&& 3).toNat) % 2 ^ 32 =
      address.toNat := by
    rw [← UInt32.toNat_add, Word.and_not_add_and]
  have bound : (address &&& ~~~3).toNat ≤ address.toNat := by
    rw [UInt32.toNat_and]
    exact Nat.and_le_left
  omega

theorem aligned_add_place (address : UInt32) :
    (address &&& ~~~3) + UInt32.ofNat (address &&& 3).toNat = address := by
  have low : (address &&& 3).toNat = address.toNat % 2 ^ 2 :=
    Word.toNat_and_mask address 3 2 rfl
  have high := toNat_and_not_three address
  have bound := address.toNat_lt
  apply UInt32.toNat_inj.mp
  rw [UInt32.toNat_add, UInt32.toNat_ofNat']
  omega

end Core

namespace Ram

theorem toNat_add_one {address : UInt32} (inside : address.toNat + 1 < 2 ^ 32) :
    (address + 1).toNat = address.toNat + 1 := by
  rw [UInt32.toNat_add]
  exact Nat.mod_eq_of_lt inside

/-- The memory behind a present byte has one byte less. -/
theorem available_add_one (ram : Ram) (address : UInt32)
    (present : 0 < ram.available address)
    (inside : address.toNat + 1 < 2 ^ 32) :
    ram.available (address + 1) = ram.available address - 1 ∧
      (address + 1 - ram.base).toNat = (address - ram.base).toNat + 1 := by
  unfold available at present ⊢
  split at present
  case isFalse => omega
  case isTrue above =>
    have aboveNat : ram.base.toNat ≤ address.toNat :=
      UInt32.le_iff_toNat_le.mp above
    have next := toNat_add_one inside
    have nextAbove : ram.base ≤ address + 1 :=
      UInt32.le_iff_toNat_le.mpr (by omega)
    have here := UInt32.toNat_sub_of_le address ram.base above
    have there := UInt32.toNat_sub_of_le (address + 1) ram.base nextAbove
    rw [if_pos nextAbove, if_pos above]
    omega

/-- The first missing byte is the same one from the next byte on. -/
theorem add_available_sub_one (ram : Ram) (address : UInt32)
    (present : 0 < ram.available address) :
    address + 1 + UInt32.ofNat (ram.available address - 1) =
      address + UInt32.ofNat (ram.available address) := by
  obtain ⟨rest, isRest⟩ := Nat.exists_eq_add_of_lt present
  rw [isRest, Nat.zero_add, Nat.add_sub_cancel, UInt32.ofNat_add,
    UInt32.add_assoc, UInt32.add_comm 1]
  rfl

theorem bytesAt_succ (ram : Ram) (address : UInt32) (count : Nat)
    (present : 0 < ram.available address)
    (inside : count = 0 ∨ address.toNat + 1 < 2 ^ 32) :
    ram.bytesAt address (count + 1) =
      ram.bytes.getD (address - ram.base).toNat 0 ::
        ram.bytesAt (address + 1) count := by
  unfold bytesAt
  rw [List.range_succ_eq_map, List.map_cons, List.map_map, Nat.add_zero]
  congr 1
  rcases inside with rfl | inside
  · rfl
  · apply List.map_congr_left
    intro index _
    rw [(available_add_one ram address present inside).2]
    simp only [Function.comp_apply]
    congr 1
    omega

end Ram

namespace Core

open MemOp

theorem ofNat_add_one (word : UInt32) (number : Nat) :
    word + UInt32.ofNat (number + 1) = word + UInt32.ofNat number + 1 := by
  rw [UInt32.add_assoc]
  congr 1
  exact UInt32.ofNat_add number 1

/-- Loading consecutive bytes merges them into the register, or stops at the
first missing one. -/
theorem loadPart_sideBySide (ram : Ram) (aligned : UInt32)
    (count distance place : Nat) (word : UInt32)
    (inside : (aligned + UInt32.ofNat distance).toNat + count ≤ 2 ^ 32) :
    loadPart ram aligned (sideBySide count distance place) word =
      if count ≤ ram.available (aligned + UInt32.ofNat distance) then
        .ok (merge word place
          (ram.bytesAt (aligned + UInt32.ofNat distance) count))
      else
        .error (aligned + UInt32.ofNat distance +
          UInt32.ofNat (ram.available (aligned + UInt32.ofNat distance))) := by
  induction count generalizing distance place word with
  | zero => simp [sideBySide, loadPart, Ram.bytesAt, merge]
  | succ count induction =>
      have isByte := Ram.read_eq ram (aligned + UInt32.ofNat distance) 1 rfl
      unfold sideBySide loadPart
      rw [Nat.cast_one] at isByte
      rw [isByte]
      by_cases present : 1 ≤ ram.available (aligned + UInt32.ofNat distance)
      · rw [if_pos present]
        have byteValue : (FlatMemory.valueAt ram.bytes
            (aligned + UInt32.ofNat distance - ram.base).toNat 1).toUInt8 =
              ram.bytes.getD
                (aligned + UInt32.ofNat distance - ram.base).toNat 0 := by
          simp [FlatMemory.valueAt, Lane.shiftLeft]
        simp only [byteValue]
        rcases Nat.eq_zero_or_pos count with rfl | more
        · rw [if_pos present, Ram.bytesAt_succ ram _ 0 present (.inl rfl)]
          rfl
        · have next := Ram.available_add_one ram _ present (by omega)
          have nextNat := Ram.toNat_add_one
            (show (aligned + UInt32.ofNat distance).toNat + 1 < 2 ^ 32 by omega)
          rw [induction (distance + 1)
            (place + 1) _ (by rw [ofNat_add_one, nextNat]; omega),
            ofNat_add_one, next.1,
            Ram.bytesAt_succ ram _ count present (.inr (by omega))]
          by_cases enough : count + 1 ≤
            ram.available (aligned + UInt32.ofNat distance)
          · rw [if_pos (by omega), if_pos enough, merge]
          · rw [if_neg (by omega), if_neg enough,
              Ram.add_available_sub_one ram _ present]
      · have none : ram.available (aligned + UInt32.ofNat distance) = 0 := by
          omega
        simp [none]

theorem write_byte (ram : Ram) (address word : UInt32) :
    ram.write address 1 word.toUInt64 =
      if 1 ≤ ram.available address then
        (ram.loadAt (address - ram.base).toNat #[word.toUInt8], none)
      else (ram, some (.noMemory address)) := by
  have isByte := Ram.offset_eq ram address 1 (by decide) (by decide)
  rw [Nat.cast_one] at isByte
  unfold Ram.write
  rw [isByte]
  by_cases present : 1 ≤ ram.available address
  · have inside : ram.within (address - ram.base) 1 = true := by
      have isWithin := Ram.within_iff ram (address - ram.base) 1 (by decide)
      rw [Nat.cast_one] at isWithin
      rw [isWithin]
      unfold Ram.available at present
      split at present <;> omega
    have isWidth : Ram.accessSize 1 = true := rfl
    have narrow : word.toUInt64.toUInt8 = word.toUInt8 := by
      apply UInt8.toNat_inj.mp
      simp
    simp only [if_pos present, Ram.writeOffset, Ram.offsetError?, inside,
      isWidth, Bool.not_true, Bool.false_eq_true, if_false,
      Ram.writeAt_eq_loadAt, Int.toNat_one, FlatMemory.bytesOf, narrow]
  · simp only [if_neg present]

/-- Storing consecutive bytes writes those that the memory has, and reports the
first missing. -/
theorem storePart_sideBySide (aligned word : UInt32)
    (count distance place : Nat) (ram : Ram)
    (inside : (aligned + UInt32.ofNat distance).toNat + count ≤ 2 ^ 32) :
    storePart aligned word (sideBySide count distance place) ram =
      (ram.loadAt (aligned + UInt32.ofNat distance - ram.base).toNat
          ((cut word place count).take
            (ram.available (aligned + UInt32.ofNat distance))).toArray,
        if count ≤ ram.available (aligned + UInt32.ofNat distance) then none
        else
          some (aligned + UInt32.ofNat distance +
            UInt32.ofNat (ram.available
              (aligned + UInt32.ofNat distance)))) := by
  induction count generalizing distance place ram with
  | zero => simp [sideBySide, storePart, cut, Ram.loadAt_empty]
  | succ count induction =>
      unfold sideBySide storePart
      rw [write_byte]
      by_cases present : 1 ≤ ram.available (aligned + UInt32.ofNat distance)
      · rw [if_pos present]
        have placeWord :
            (8 * UInt32.ofNat place : UInt32) = UInt32.ofNat (8 * place) := by
          simp [UInt32.ofNat_mul]
        have takeFirst : (cut word place (count + 1)).take
            (ram.available (aligned + UInt32.ofNat distance)) =
              (word >>> UInt32.ofNat (8 * place)).toUInt8 ::
                (cut word (place + 1) count).take
                  (ram.available (aligned + UInt32.ofNat distance) - 1) := by
          rw [cut, List.take_cons (by omega)]
        simp only [placeWord]
        rcases Nat.eq_zero_or_pos count with rfl | more
        · rw [takeFirst, if_pos present, cut, List.take_nil]
          rfl
        · have next := Ram.available_add_one ram _ present (by omega)
          have nextNat := Ram.toNat_add_one
            (show (aligned + UInt32.ofNat distance).toNat + 1 < 2 ^ 32 by omega)
          rw [induction (distance + 1)
            (place + 1) _ (by rw [ofNat_add_one, nextNat]; omega),
            Ram.loadAt_base, Ram.available_loadAt, ofNat_add_one, next.1,
            next.2, takeFirst]
          refine Prod.ext rfl ?_
          by_cases enough : count + 1 ≤
            ram.available (aligned + UInt32.ofNat distance)
          · rw [if_pos (by omega), if_pos enough]
          · simp only
            rw [if_neg (by omega), if_neg enough,
              Ram.add_available_sub_one ram _ present]
      · have none : ram.available (aligned + UInt32.ofNat distance) = 0 := by
          omega
        simp [none, Ram.loadAt_empty]

@[simp] theorem length_cut (word : UInt32) (first count : Nat) :
    (cut word first count).length = count := by
  induction count generalizing first with
  | zero => rfl
  | succ count induction => rw [cut, List.length_cons, induction]

theorem bytesOf_eq_cut (word : UInt32) (first count : Nat)
    (inside : first + count ≤ 4) :
    FlatMemory.bytesOf (word.toUInt64 >>> UInt64.ofNat (8 * first)) count =
      cut word first count := by
  induction count generalizing first with
  | zero => rfl
  | succ count induction =>
      have head : (word.toUInt64 >>> UInt64.ofNat (8 * first)).toUInt8 =
          (word >>> UInt32.ofNat (8 * first)).toUInt8 := by
        apply UInt8.toNat_inj.mp
        rw [UInt64.toNat_toUInt8, UInt32.toNat_toUInt8, UInt64.toNat_shiftRight,
          UInt32.toNat_shiftRight, UInt64.toNat_ofNat', UInt32.toNat_ofNat',
          UInt32.toNat_toUInt64,
          Nat.mod_eq_of_lt (show 8 * first % 2 ^ 64 < 64 by omega),
          Nat.mod_eq_of_lt (show 8 * first % 2 ^ 32 < 32 by omega),
          Nat.mod_eq_of_lt (show 8 * first < 2 ^ 64 by omega),
          Nat.mod_eq_of_lt (show 8 * first < 2 ^ 32 by omega)]
      have tail : word.toUInt64 >>> UInt64.ofNat (8 * first) >>> 8 =
          word.toUInt64 >>> UInt64.ofNat (8 * (first + 1)) := by
        apply UInt64.toNat_inj.mp
        rw [UInt64.toNat_shiftRight, UInt64.toNat_shiftRight,
          UInt64.toNat_shiftRight, UInt64.toNat_ofNat', UInt64.toNat_ofNat',
          ← Nat.shiftRight_add]
        congr 1
        change _ + 8 % 64 = _
        omega
      rw [FlatMemory.bytesOf, cut, head, tail, induction (first + 1) (by omega)]

theorem start_add_count_le (op : MemOp) (isPart : op.isPart = true)
    (address : UInt32) :
    (op.start address).toNat + op.count address ≤ 2 ^ 32 := by
  have low : (address &&& 3).toNat = address.toNat % 2 ^ 2 :=
    Word.toNat_and_mask address 3 2 rfl
  have high := toNat_and_not_three address
  have bound := address.toNat_lt
  cases op <;> simp only [MemOp.isPart, Bool.false_eq_true] at isPart <;>
    simp only [start, count] <;> omega

theorem partBytes_eq (op : MemOp) (isPart : op.isPart = true)
    (address : UInt32) :
    partBytes (op == .lwl || op == .swl) address =
        sideBySide (op.count address)
          (op.start address - (address &&& ~~~3)).toNat (op.firstByte address) ∧
      (address &&& ~~~3) +
        UInt32.ofNat (op.start address - (address &&& ~~~3)).toNat =
        op.start address := by
  have place : address - (address &&& ~~~3) = address &&& 3 := by
    rw [UInt32.sub_eq_iff_eq_add, UInt32.add_comm, Word.and_not_add_and]
  cases op <;> simp only [MemOp.isPart, Bool.false_eq_true] at isPart
  case lwl => simpa [start, count, firstByte] using partBytes_left address
  case swl => simpa [start, count, firstByte] using partBytes_left address
  case lwr =>
    simp only [start, count, firstByte, place]
    exact ⟨partBytes_right address, aligned_add_place address⟩
  case swr =>
    simp only [start, count, firstByte, place]
    exact ⟨partBytes_right address, aligned_add_place address⟩

theorem storePartIn_eq (core : Core) (aligned word : UInt32)
    (parts : List (UInt32 × UInt32)) :
    core.storePartIn aligned word parts =
      (core.mapRam fun _ => (storePart aligned word parts core.ram).1,
        (storePart aligned word parts core.ram).2) := rfl

section Access

variable (core : Core) (pc : UInt32) (op : MemOp) (rt base : RegNum)
  (offset : UInt32)

theorem executeMem_loadPart_eq (isPart : op.isPart = true)
    (isLoad : op.isStore = false) :
    core.executeMem pc op rt base offset =
      match loadPart core.ram ((core.reg base + offset) &&& ~~~3)
        (partBytes (op == .lwl || op == .swl) (core.reg base + offset))
          (core.reg rt) with
      | .ok word => (core.setReg rt word, none)
      | .error missing => (core, some ⟨.busError, pc, missing⟩) := by
  cases op <;> simp only [MemOp.isPart, MemOp.isStore, Bool.false_eq_true,
    Bool.true_eq_false] at isPart isLoad <;> rfl

theorem executeMem_loadPart (isPart : op.isPart = true)
    (isLoad : op.isStore = false) :
    core.executeMem pc op rt base offset =
      (op.effect core rt (core.reg base + offset)).apply core pc := by
  obtain ⟨address, isAddress⟩ :
      ∃ address, address = core.reg base + offset := ⟨_, rfl⟩
  obtain ⟨parts, starts⟩ := partBytes_eq op isPart address
  have inside := start_add_count_le op isPart address
  have loads := loadPart_sideBySide core.ram (address &&& ~~~3)
    (op.count address) (op.start address - (address &&& ~~~3)).toNat
    (op.firstByte address) (core.reg rt)
    (by rw [starts]; exact inside)
  rw [starts, ← parts] at loads
  rw [executeMem_loadPart_eq core pc op rt base offset isPart isLoad,
    ← isAddress, loads, MemOp.effect]
  simp only [isPart, isLoad, Bool.not_true, Bool.false_eq_true, false_and,
    if_false, if_true]
  by_cases served : op.count address ≤ core.ram.available (op.start address)
  · simp only [if_pos served, loaded, isPart, if_true, Effect.apply]
  · simp only [if_neg served, Effect.apply]
    rfl

theorem executeMem_storePart_eq (isPart : op.isPart = true)
    (isStore : op.isStore = true) :
    core.executeMem pc op rt base offset =
      match core.storePartIn ((core.reg base + offset) &&& ~~~3) (core.reg rt)
        (partBytes (op == .lwl || op == .swl) (core.reg base + offset)) with
      | (next, none) => (next, none)
      | (next, some missing) => (next, some ⟨.busError, pc, missing⟩) := by
  cases op <;> simp only [MemOp.isPart, MemOp.isStore, Bool.false_eq_true]
    at isPart isStore <;> rfl

theorem executeMem_storePart (isPart : op.isPart = true)
    (isStore : op.isStore = true) :
    core.executeMem pc op rt base offset =
      (op.effect core rt (core.reg base + offset)).apply core pc := by
  obtain ⟨address, isAddress⟩ :
      ∃ address, address = core.reg base + offset := ⟨_, rfl⟩
  obtain ⟨parts, starts⟩ := partBytes_eq op isPart address
  have inside := start_add_count_le op isPart address
  have stores :=
    storePart_sideBySide (address &&& ~~~3) (core.reg rt) (op.count address)
    (op.start address - (address &&& ~~~3)).toNat (op.firstByte address)
      core.ram
    (by rw [starts]; exact inside)
  rw [starts, ← parts] at stores
  rw [executeMem_storePart_eq core pc op rt base offset isPart isStore,
    ← isAddress, storePartIn_eq, stores, MemOp.effect]
  simp only [isPart, isStore, Bool.not_true, Bool.false_eq_true, false_and,
    if_false, if_true]
  by_cases served : op.count address ≤ core.ram.available (op.start address)
  · simp only [if_pos served, Effect.apply]
    rw [List.take_of_length_le (by rw [length_cut]; exact served)]
    rfl
  · simp only [if_neg served, Effect.apply]
    rfl

theorem executeMem_load_eq (notPart : op.isPart = false)
    (isLoad : op.isStore = false) :
    core.executeMem pc op rt base offset =
      if (core.reg base + offset) % UInt32.ofNat op.width ≠ 0 then
        (core, some ⟨.addressErrorLoad, pc, core.reg base + offset⟩)
      else
        match core.ram.read (core.reg base + offset) op.width with
        | .ok value => (core.setReg rt (op.extend value), none)
        | .error _ => (core, some ⟨.busError, pc, core.reg base + offset⟩) := by
  cases op <;> simp only [MemOp.isPart, MemOp.isStore, Bool.true_eq_false]
    at notPart isLoad <;> rfl

theorem executeMem_load (notPart : op.isPart = false)
    (isLoad : op.isStore = false) :
    core.executeMem pc op rt base offset =
      (op.effect core rt (core.reg base + offset)).apply core pc := by
  obtain ⟨address, isAddress⟩ :
      ∃ address, address = core.reg base + offset := ⟨_, rfl⟩
  have isWidth : Ram.accessSize op.width = true := by cases op <;> rfl
  have isStart := start_of_whole notPart address
  have isCount := count_of_whole notPart address
  rw [executeMem_load_eq core pc op rt base offset notPart isLoad, ← isAddress,
    MemOp.effect, Ram.read_eq core.ram address op.width isWidth]
  simp only [notPart, isLoad, isStart, isCount, Bool.not_false,
    Bool.false_eq_true, true_and, if_false]
  by_cases misaligned : address % UInt32.ofNat op.width ≠ 0
  · simp only [if_pos misaligned, Effect.apply]
    rfl
  · simp only [if_neg misaligned]
    by_cases served : op.width ≤ core.ram.available address
    · simp only [if_pos served, loaded, notPart, Bool.false_eq_true, if_false,
        Effect.apply]
    · simp only [if_neg served, Effect.apply]
      rfl

theorem executeMem_store_eq (notPart : op.isPart = false)
    (isStore : op.isStore = true) :
    core.executeMem pc op rt base offset =
      if (core.reg base + offset) % UInt32.ofNat op.width ≠ 0 then
        (core, some ⟨.addressErrorStore, pc, core.reg base + offset⟩)
      else
        match core.ram.offset (core.reg base + offset) op.width with
        | .error _ => (core, some ⟨.busError, pc, core.reg base + offset⟩)
        | .ok place =>
            (core.mapRam fun ram =>
              ram.writeAt place.toNat (core.reg rt).toUInt64 op.width,
              none) := by
  cases op <;> simp only [MemOp.isPart, MemOp.isStore, Bool.false_eq_true,
    Bool.true_eq_false] at notPart isStore <;> rfl

theorem executeMem_store (notPart : op.isPart = false)
    (isStore : op.isStore = true) :
    core.executeMem pc op rt base offset =
      (op.effect core rt (core.reg base + offset)).apply core pc := by
  obtain ⟨address, isAddress⟩ :
      ∃ address, address = core.reg base + offset := ⟨_, rfl⟩
  have widths : 0 < op.width ∧ op.width ≤ 4 := by cases op <;> decide
  have isStart := start_of_whole notPart address
  have isCount := count_of_whole notPart address
  have isFirst := firstByte_of_whole notPart address
  have isData := bytesOf_eq_cut (core.reg rt) 0 op.width (by omega)
  rw [executeMem_store_eq core pc op rt base offset notPart isStore,
    ← isAddress, MemOp.effect,
    Ram.offset_eq core.ram address op.width widths.1 (by omega)]
  simp only [notPart, isStore, isStart, isCount, isFirst, Bool.not_false,
    Bool.false_eq_true, true_and, if_false, if_true]
  by_cases misaligned : address % UInt32.ofNat op.width ≠ 0
  · simp only [if_pos misaligned, Effect.apply]
    rfl
  · simp only [if_neg misaligned]
    by_cases served : op.width ≤ core.ram.available address
    · simp only [if_pos served, Effect.apply, ← isData, Ram.writeAt_eq_loadAt]
      rfl
    · simp only [if_neg served, Effect.apply]
      rfl

/-- A scalar access has the effect that its operation names. -/
theorem executeMem_eq :
    core.executeMem pc op rt base offset =
      (op.effect core rt (core.reg base + offset)).apply core pc := by
  cases isPart : op.isPart <;> cases isStore : op.isStore
  · exact executeMem_load core pc op rt base offset isPart isStore
  · exact executeMem_store core pc op rt base offset isPart isStore
  · exact executeMem_loadPart core pc op rt base offset isPart isStore
  · exact executeMem_storePart core pc op rt base offset isPart isStore

end Access

end Core

end LaneKernel
