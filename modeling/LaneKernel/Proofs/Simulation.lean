import LaneKernel.Machine.Basic
import LaneKernel.Proofs.Assembly
import LaneKernel.Proofs.Placement

/-!
# The machine follows the code

Code that stands in memory as it was assembled is executed by the machine as a
run of labelled code describes it: one instruction a step, two steps for a
branch and its delay slot, none for a mark.  `Leads.simulate` carries runs over
to the machine.  The code that a run may pass through must not reach the last
four words of the assembled code, since the halt address could be one of them.
-/

namespace LaneKernel

/-- The accesses of an operation to memory, served or not. -/
def Operation.accesses (core : Core) : Operation → List Access
  | .mem op _ base offset =>
      let address := core.reg base + offset
      [⟨op.isStore, op.start address, op.count address⟩]
  | .loadV _ base offset => [⟨false, core.reg base + Core.distance offset, 16⟩]
  | .storeV _ base offset => [⟨true, core.reg base + Core.distance offset, 16⟩]
  | _ => []

theorem Insn.accesses_operation {instruction : Insn} {operation : Operation}
    (found : instruction.operation? = some operation) (core : Core) :
    operation.accesses core = instruction.accesses core := by
  cases instruction with
  | fill df wd rs | copyS df rd ws lane | copyU df rd ws lane
  | insert df wd lane rs =>
      simp only [operation?] at found
      split at found
      · cases found
      · cases found
        rfl
  | _ =>
      cases found
      rfl

/-- Steps of the machine that complete, with the accesses they make. -/
inductive Core.Steps (allowed : Access → Prop) :
    Nat → Core → List Access → Core → List Access → Prop where
  | refl {core : Core} {log : List Access} : Steps allowed 0 core log core log
  | step {count : Nat} {core next last : Core} {log logged : List Access}
      {word : UInt32} {operation : Operation} :
      Machine.fetch core = .ok word →
      Operation.decode? word = some operation →
      (∀ access ∈ operation.accesses core, allowed access) →
      (Machine.advance core).perform core.pc operation = (next, none) →
      Steps allowed count next (operation.accesses core ++ log) last logged →
      Steps allowed (count + 1) core log last logged

/-- The next step of the machine traps, at its fetch or at an allowed access. -/
def Core.Traps (allowed : Access → Prop) (core : Core) : Prop :=
  (∃ trap, Machine.fetch core = .error (.exception trap)) ∨
    ∃ word operation next trap, Machine.fetch core = .ok word ∧
      Operation.decode? word = some operation ∧
      (∀ access ∈ operation.accesses core, allowed access) ∧
      (Machine.advance core).perform core.pc operation = (next, some trap)

theorem Core.Steps.trans {allowed : Access → Prop} {first second : Nat}
    {core middle last : Core} {log logged more : List Access}
    (before : Core.Steps allowed first core log middle logged)
    (behind : Core.Steps allowed second middle logged last more) :
    Core.Steps allowed (first + second) core log last more := by
  induction before with
  | refl => rwa [Nat.zero_add]
  | @step count core next _ log _ word operation fetched decoded inside
      performed _ induction =>
      rw [Nat.add_right_comm]
      exact .step fetched decoded inside performed (induction behind)

/-- The bytes of code stand in memory from a word-aligned address on. -/
structure CodeAt (ram : Ram) (entry : UInt32) (bytes : Array UInt8) : Prop where
  small : ram.size < 2 ^ 32
  aligned : entry.toNat % 4 = 0
  below : entry.toNat + bytes.size ≤ 2 ^ 32
  inside : bytes.size ≤ ram.available entry
  peek : ∀ index (bound : index < bytes.size),
    ram.peek (entry + UInt32.ofNat index) = bytes[index]

namespace CodeAt

variable {ram : Ram} {entry : UInt32} {bytes : Array UInt8}

theorem available (code : CodeAt ram entry bytes) {position : Nat}
    (bound : position + 4 ≤ bytes.size) :
    4 ≤ ram.available (entry + UInt32.ofNat position) := by
  have below := code.below
  have inside := code.inside
  rw [Ram.available_add (by omega) (by omega)]
  omega

theorem word (code : CodeAt ram entry bytes) {position : Nat}
    (bound : position + 4 ≤ bytes.size) :
    ram.word (entry + UInt32.ofNat position) = Word.ofBytes bytes position := by
  have byteAt : ∀ index, position + index < bytes.size →
      ram.peek (entry + UInt32.ofNat (position + index)) =
        bytes.getD (position + index) 0 := by
    intro index inside
    rw [code.peek _ inside, Array.getD_eq_getD_getElem?,
      Array.getElem?_eq_getElem inside]
    rfl
  have further : ∀ index, entry + UInt32.ofNat position + UInt32.ofNat index =
      entry + UInt32.ofNat (position + index) := by
    intro index
    rw [UInt32.add_assoc, UInt32.ofNat_add]
  unfold Ram.word Word.ofBytes
  have first := further 1
  have second := further 2
  have third := further 3
  rw [show UInt32.ofNat 1 = 1 from rfl] at first
  rw [show UInt32.ofNat 2 = 2 from rfl] at second
  rw [show UInt32.ofNat 3 = 3 from rfl] at third
  have zeroth := byteAt 0 (by omega)
  rw [Nat.add_zero] at zeroth
  rw [first, second, third, zeroth, byteAt 1 (by omega), byteAt 2 (by omega),
    byteAt 3 (by omega)]

theorem toNat_address (code : CodeAt ram entry bytes) {position : Nat}
    (bound : position < bytes.size) :
    (entry + UInt32.ofNat position).toNat = entry.toNat + position := by
  have below := code.below
  rw [UInt32.toNat_add, UInt32.toNat_ofNat']
  omega

theorem fetch (core : Core) (code : CodeAt core.ram entry bytes)
    {position : Nat} (isPc : core.pc = entry + UInt32.ofNat position)
    (whole : position % 4 = 0) (bound : position + 4 ≤ bytes.size)
    (running : core.pc ≠ Machine.haltAddress) :
    Machine.fetch core = .ok (Word.ofBytes bytes position) := by
  have address := code.toNat_address (show position < bytes.size by omega)
  have isAligned : core.pc % 4 = 0 := by
    apply UInt32.toNat_inj.mp
    rw [UInt32.toNat_mod, isPc, address]
    have aligned := code.aligned
    change _ % 4 = 0
    omega
  have served : 4 ≤ core.ram.available core.pc := isPc ▸ code.available bound
  have read : core.ram.read core.pc 4 = .ok _ :=
    (Ram.read_eq core.ram core.pc 4 rfl).trans (if_pos served)
  simp only [Machine.fetch, running, isAligned, read, ne_eq, not_true_eq_false,
    if_false]
  rw [Ram.valueAt_eq_word code.small.le served, isPc, code.word bound]

/-- Four words behind an address of the code keep it away from the halt
address. -/
theorem running (code : CodeAt ram entry bytes) {position : Nat}
    (bound : position + 20 ≤ bytes.size) :
    entry + UInt32.ofNat position ≠ Machine.haltAddress := by
  intro halted
  have address := code.toNat_address (show position < bytes.size by omega)
  have below := code.below
  rw [halted] at address
  change 0xfffffff0 = _ at address
  omega

end CodeAt

theorem Core.branchTarget_of_offset {position target : Nat}
    {offset word : UInt32}
    (isOffset : Word.branchOffset position target = .ok offset)
    (isLow : word.toNat % 2 ^ 16 = offset.toNat) (entry : UInt32) :
    branchTarget (entry + UInt32.ofNat position) (Word.signedImmediate word) =
      entry + UInt32.ofNat target := by
  obtain ⟨distance, isDistance⟩ :
      ∃ distance : Int, distance = (target : Int) - (position + 4) :=
    ⟨_, rfl⟩
  unfold Word.branchOffset at isOffset
  simp only [← isDistance, Outcome.ite_error_eq_ok] at isOffset
  obtain ⟨whole, inside, isOffset⟩ := isOffset
  have isField : (offset.toNat : Int) = distance / 4 % 0x10000 := by
    rw [← Except.ok.inj isOffset, UInt32.toNat_ofNat']
    omega
  rw [signedImmediate_eq (show -0x8000 ≤ distance / 4 by omega) (by omega)
    (by omega)]
  unfold branchTarget
  rw [UInt32.add_assoc, UInt32.add_assoc]
  congr 1
  apply UInt32.toNat_inj.mp
  rw [UInt32.toNat_add, UInt32.toNat_add, UInt32.toNat_shiftLeft,
    UInt32.toNat_ofNat', UInt32.toNat_ofNat', Core.distance, Word.toNat_ofInt]
  change (position % 2 ^ 32 + (4 + _ <<< (2 % 32) % 2 ^ 32) % 2 ^ 32) % 2 ^ 32 =
    _
  rw [Nat.shiftLeft_eq, show 2 ^ (2 % 32) = 4 from rfl]
  omega

/-- The fields of a branch whose offset is filled in. -/
theorem Operation.branch_fields {op word offset : UInt32} {left right : Reg}
    (fits : offset.toNat < 2 ^ 16)
    (encoded : Word.IType.encode ⟨op, left, right, 0⟩ = .ok word) :
    ∃ rs rt : RegNum, left = .gp rs ∧ right = .gp rt ∧
      (Word.opcode (word ||| offset)).toNat = op.toNat ∧
      Word.register (Word.rs (word ||| offset)) = rs ∧
      Word.register (Word.rt (word ||| offset)) = rt ∧
      (Word.rt (word ||| offset)).toNat = rt.val ∧
      (word ||| offset).toNat % 2 ^ 16 = offset.toNat := by
  obtain ⟨rs, rt, isLeft, isRight, _, value⟩ := Word.IType.encode_eq_ok encoded
  simp only [UInt32.toNat_zero, Nat.zero_mod, Nat.add_zero] at value
  refine ⟨rs, rt, isLeft, isRight, immediate_fields fits ?_⟩
  rw [Word.toNat_or_low word offset 16 (by omega) (by omega), value]

/-- The word of a branch to a position decodes to a branch whose target is that
position. -/
theorem Operation.decode?_branch {condition : Condition} {left right : Reg}
    {word offset : UInt32} {position target : Nat}
    (isWord : Item.branchWord condition left right = .ok word)
    (isOffset : Word.branchOffset position target = .ok offset) :
    ∃ other, decode? (word ||| offset) =
        some (.branch condition left.index other
          (Word.signedImmediate (word ||| offset))) ∧
      (∀ core : Core,
        condition.holds (core.reg left.index).toInt32 (core.reg other).toInt32 =
          condition.holds (core.reg left.index).toInt32
            (core.reg right.index).toInt32) ∧
      ∀ entry : UInt32, Core.branchTarget (entry + UInt32.ofNat position)
        (Word.signedImmediate (word ||| offset)) =
          entry + UInt32.ofNat target := by
  have fits := Word.branchOffset_lt isOffset
  cases condition with
  | unknown tag => cases isWord
  | eq | ne =>
      simp only [Item.branchWord] at isWord
      obtain ⟨rs, rt, rfl, rfl, opField, rsField, rtField, _, immField⟩ :=
        branch_fields fits isWord
      refine ⟨rt, ?_, fun _ => rfl,
        Core.branchTarget_of_offset isOffset immField⟩
      unfold decode?
      rw [opField, rsField, rtField]
      rfl
  | lez | gtz =>
      simp only [Item.branchWord] at isWord
      obtain ⟨rs, rt, rfl, _, opField, rsField, rtField, _, immField⟩ :=
        branch_fields fits isWord
      refine ⟨rt, ?_, fun _ => rfl,
        Core.branchTarget_of_offset isOffset immField⟩
      unfold decode?
      rw [opField, rsField, rtField]
      rfl
  | ltz | gez =>
      simp only [Item.branchWord] at isWord
      obtain ⟨rs, rt, rfl, isZero, opField, rsField, _, rtNumber, immField⟩ :=
        branch_fields fits isWord
      cases isZero
      refine ⟨Word.register (Word.rt (word ||| offset)), ?_, fun _ => rfl,
        Core.branchTarget_of_offset isOffset immField⟩
      unfold decode?
      rw [opField, rsField, rtNumber]
      rfl

namespace Core

theorem advance_setPc (core : Core) (address : UInt32) :
    Machine.advance (core.setPc address) = core.setPc (address + 4) := rfl

theorem setReg_setPc (core : Core) (register : RegNum) (word address : UInt32) :
    (core.setPc address).setReg register word =
      (core.setReg register word).setPc address := by
  rw [setReg_eq, setReg_eq]
  split <;> rfl

end Core

namespace Insn

theorem effect_setPc (core : Core) (address : UInt32) (instruction : Insn) :
    instruction.effect (core.setPc address) = instruction.effect core := by
  cases instruction <;> rfl

theorem accesses_setPc (core : Core) (address : UInt32) (instruction : Insn) :
    instruction.accesses (core.setPc address) = instruction.accesses core := by
  cases instruction <;> rfl

theorem perform_setPc {instruction : Insn} {operation : Operation}
    (found : instruction.operation? = some operation) {core next : Core}
    {pc : UInt32} (address : UInt32)
    (runs : (instruction.effect core).next? core = some next) :
    (core.setPc address).perform pc operation = (next.setPc address, none) := by
  rw [perform_operation found, effect_setPc]
  cases effect : instruction.effect core with
  | jump target | trap _ _ _ _ =>
      rw [effect] at runs
      cases runs
  | general register value =>
      rw [effect] at runs
      cases runs
      rw [Effect.apply, Core.setReg_setPc]
      rfl
  | nothing | vector _ _ | memory _ _ =>
      rw [effect] at runs
      cases runs
      rfl

end Insn

/-- The code behind the mark of a label. -/
def Fragment.behind : Fragment → Label → Fragment
  | [], _ => []
  | .mark other :: rest, label =>
      if other = label then rest else behind rest label
  | _ :: rest, label => behind rest label

theorem Fragment.behind_eq {front back : Fragment} {label : Label}
    (nodup : (Fragment.marks (front ++ .mark label :: back)).Nodup) :
    Fragment.behind (front ++ .mark label :: back) label = back := by
  induction front with
  | nil => simp [behind]
  | cons item rest induction =>
      cases item with
      | mark other =>
          have apart : other ∉ Fragment.marks (rest ++ .mark label :: back) ∧
              (Fragment.marks (rest ++ .mark label :: back)).Nodup :=
            List.nodup_cons.mp nodup
          have different : other ≠ label := by
            rintro rfl
            apply apart.1
            simp [marks]
          rw [List.cons_append, behind, if_neg different]
          exact induction apart.2
      | insn instruction => exact induction nodup
      | branch condition left right other => exact induction nodup

/-- Every label of the code has the code behind its mark as its target. -/
def Resolves (target : Label → Fragment) (code : Fragment) : Prop :=
  ∀ front label back, code = front ++ .mark label :: back → target label = back

namespace Resolves

variable {target : Label → Fragment} {first second rest : Fragment}
  {label : Label}

theorem of_nodup {code : Fragment} (nodup : code.marks.Nodup) :
    Resolves code.behind code := by
  rintro front label back rfl
  exact Fragment.behind_eq nodup

theorem behind (resolves : Resolves target (first ++ second)) :
    Resolves target second := by
  rintro front label back rfl
  exact resolves (first ++ front) label back (by simp)

theorem behindFour {third fourth : Fragment}
    (resolves : Resolves target
      (first ++ (second ++ (third ++ (fourth ++ rest))))) :
    Resolves target rest :=
  resolves.behind.behind.behind.behind

theorem mark (resolves : Resolves target (.mark label :: rest)) :
    target label = rest :=
  resolves [] label rest rfl

end Resolves

namespace Placed

variable {code : Fragment} {bytes : Array UInt8} {labels : List (Label × Nat)}

theorem words_from (placed : Placed code bytes labels) {front rest : Fragment}
    (isCode : code = front ++ rest) :
    ∃ before words padding, before.length = front.words ∧
      Words labels (4 * front.words) rest words ∧
      bytes.toList =
        Word.flatten (before ++ (words ++ List.replicate padding 0)) ∧
      4 * front.words + 4 * rest.words ≤ bytes.size := by
  obtain ⟨words, padding, isWords, isBytes⟩ := placed.words
  subst isCode
  obtain ⟨before, later, rfl, isLength, isLater⟩ := isWords.of_append
  rw [Nat.zero_add] at isLater
  refine ⟨before, later, padding, isLength, isLater, by simpa using isBytes, ?_⟩
  rw [← Array.length_toList, isBytes, Word.length_flatten, List.length_append,
    List.length_append, isLength, isLater.length_eq]
  omega

theorem insn_word (placed : Placed code bytes labels) {front rest : Fragment}
    {instruction : Insn} (isCode : code = front ++ .insn instruction :: rest) :
    instruction.encode = .ok (Word.ofBytes bytes (4 * front.words)) ∧
      4 * front.words + 4 + 4 * rest.words ≤ bytes.size := by
  obtain ⟨before, words, padding, isLength, isWords, isBytes, bound⟩ :=
    placed.words_from isCode
  rw [Fragment.words_cons, Item.words] at bound
  cases isWords with
  | insn encoded _ =>
      rw [← isLength, Word.ofBytes_flatten isBytes]
      exact ⟨encoded, by omega⟩

theorem branch_words (placed : Placed code bytes labels) {front rest : Fragment}
    {condition : Condition} {left right : Reg} {label : Label}
    (isCode : code = front ++ .branch condition left right label :: rest) :
    ∃ word offset target, Item.branchWord condition left right = .ok word ∧
      labels.lookup label = some target ∧
      Word.branchOffset (4 * front.words) target = .ok offset ∧
      Word.ofBytes bytes (4 * front.words) = word ||| offset ∧
      Word.ofBytes bytes (4 * front.words + 4) = 0 ∧
      4 * front.words + 8 + 4 * rest.words ≤ bytes.size := by
  obtain ⟨before, words, padding, isLength, isWords, isBytes, bound⟩ :=
    placed.words_from isCode
  rw [Fragment.words_cons, Item.words] at bound
  cases isWords with
  | @branch _ target _ _ _ _ _ word offset more isWord isBound isOffset _ =>
      refine ⟨word, offset, target, isWord, isBound, isOffset, ?_, ?_, by omega⟩
      · rw [← isLength, Word.ofBytes_flatten isBytes]
      · have delayed :
            bytes.toList = Word.flatten ((before ++ [word ||| offset]) ++
            0 :: (more ++ List.replicate padding 0)) := by simpa using isBytes
        have slot := Word.ofBytes_flatten delayed
        rw [List.length_append, isLength] at slot
        exact slot

end Placed

/-- A regular instruction is an operation of the machine, with the same
accesses. -/
theorem Insn.Regular.operation {instruction : Insn}
    (regular : instruction.Regular) (core : Core) (pc : UInt32) :
    ∃ operation, instruction.operation? = some operation ∧
      operation.accesses (core.setPc pc) = instruction.accesses core := by
  obtain ⟨operation, found⟩ := Option.ne_none_iff_exists'.mp
    (mt (Insn.operation?_eq_none_iff instruction).mp regular.2)
  exact ⟨operation, found,
    by rw [Insn.accesses_operation found, Insn.accesses_setPc]⟩

/-- An instruction of the code is one step of the machine. -/
theorem CodeAt.step {core next : Core} {entry : UInt32} {bytes : Array UInt8}
    {position : Nat} {instruction : Insn} {allowed : Access → Prop}
    {log : List Access} (code : CodeAt core.ram entry bytes)
    (regular : instruction.Regular)
    (encoded : instruction.encode = .ok (Word.ofBytes bytes position))
    (whole : position % 4 = 0) (bound : position + 4 ≤ bytes.size)
    (running : entry + UInt32.ofNat position ≠ Machine.haltAddress)
    (inside : ∀ access ∈ instruction.accesses core, allowed access)
    (runs : (instruction.effect core).next? core = some next) :
    Core.Steps allowed 1 (core.setPc (entry + UInt32.ofNat position)) log
      (next.setPc (entry + UInt32.ofNat (position + 4)))
        (instruction.accesses core ++ log) := by
  obtain ⟨operation, found, isAccesses⟩ :=
    regular.operation core (entry + UInt32.ofNat position)
  have fetched :=
    CodeAt.fetch (core.setPc (entry + UInt32.ofNat position)) code rfl
      whole bound
    running
  have decoded := (Insn.decode?_encode regular.1 encoded).trans found
  have behind : entry + UInt32.ofNat position + 4 =
      entry + UInt32.ofNat (position + 4) := by
    rw [UInt32.add_assoc, UInt32.ofNat_add]
    rfl
  rw [← isAccesses] at inside ⊢
  refine .step fetched decoded inside ?_ .refl
  rw [Core.advance_setPc, behind]
  exact Insn.perform_setPc found _ runs

namespace CodeAt

variable {core : Core} {entry : UInt32} {bytes : Array UInt8} {position : Nat}
  {allowed : Access → Prop} {log : List Access}

theorem trap {instruction : Insn} (code : CodeAt core.ram entry bytes)
    (regular : instruction.Regular)
    (encoded : instruction.encode = .ok (Word.ofBytes bytes position))
    (whole : position % 4 = 0) (bound : position + 4 ≤ bytes.size)
    (running : entry + UInt32.ofNat position ≠ Machine.haltAddress)
    (inside : ∀ access ∈ instruction.accesses core, allowed access)
    (traps : (instruction.effect core).isTrap = true) :
    (core.setPc (entry + UInt32.ofNat position)).Traps allowed := by
  obtain ⟨operation, found, isAccesses⟩ :=
    regular.operation core (entry + UInt32.ofNat position)
  cases effect : instruction.effect core with
  | trap cause value start data =>
      have performed : ∃ next trap, (Machine.advance (core.setPc
          (entry + UInt32.ofNat position))).perform
            (entry + UInt32.ofNat position) operation = (next, some trap) := by
        rw [Core.advance_setPc, Insn.perform_operation found,
          Insn.effect_setPc, effect]
        exact ⟨_, _, rfl⟩
      obtain ⟨next, trap, performed⟩ := performed
      exact .inr ⟨_, operation, next, trap,
        CodeAt.fetch (core.setPc (entry + UInt32.ofNat position)) code rfl whole
          bound running,
        (Insn.decode?_encode regular.1 encoded).trans found,
        isAccesses ▸ inside, performed⟩
  | _ =>
      rw [effect] at traps
      cases traps

/-- A branch and its delay slot are two steps. -/
theorem branch {condition : Condition} {left right : Reg} {word offset : UInt32}
    {target : Nat} (code : CodeAt core.ram entry bytes)
    (isWord : Item.branchWord condition left right = .ok word)
    (isOffset : Word.branchOffset position target = .ok offset)
    (here : Word.ofBytes bytes position = word ||| offset)
    (delayed : Word.ofBytes bytes (position + 4) = 0)
    (whole : position % 4 = 0) (bound : position + 8 ≤ bytes.size)
    (running : entry + UInt32.ofNat position ≠ Machine.haltAddress)
    (slotRunning : entry + UInt32.ofNat (position + 4) ≠ Machine.haltAddress) :
    Core.Steps allowed 2 (core.setPc (entry + UInt32.ofNat position)) log
      (core.setPc (entry + UInt32.ofNat
        (if condition.holds (core.reg left.index).toInt32
          (core.reg right.index).toInt32 then target
        else position + 8))) log := by
  obtain ⟨other, decoded, sameCondition, goesTo⟩ :=
    Operation.decode?_branch isWord isOffset
  have behind : entry + UInt32.ofNat position + 4 =
      entry + UInt32.ofNat (position + 4) := by
    rw [UInt32.add_assoc, UInt32.ofNat_add]
    rfl
  have further : entry + UInt32.ofNat (position + 4) + 4 =
      entry + UInt32.ofNat (position + 8) := by
    rw [UInt32.add_assoc]
    congr 1
    exact (UInt32.ofNat_add (position + 4) 4).symm
  have firstFetch :=
    CodeAt.fetch (core.setPc (entry + UInt32.ofNat position)) code rfl whole
    (by omega) running
  rw [here] at firstFetch
  obtain ⟨goal, isGoal⟩ : ∃ goal : Nat, goal =
      if condition.holds (core.reg left.index).toInt32
        (core.reg right.index).toInt32 then target
      else position + 8 := ⟨_, rfl⟩
  rw [← isGoal]
  have branched :
      (Machine.advance (core.setPc (entry + UInt32.ofNat position))).perform
      (entry + UInt32.ofNat position) (.branch condition left.index other
        (Word.signedImmediate (word ||| offset))) =
        ((core.setPc (entry + UInt32.ofNat (position + 4))).setNpc
          (entry + UInt32.ofNat goal), none) := by
    rw [Core.advance_setPc, behind]
    simp only [Core.perform, Core.reg_setPc, sameCondition, goesTo]
    rw [isGoal]
    split
    · rfl
    · simp only [Prod.mk.injEq, and_true]
      rw [← further]
      rfl
  have secondFetch := CodeAt.fetch
    ((core.setPc (entry + UInt32.ofNat (position + 4))).setNpc
      (entry + UInt32.ofNat goal)) code rfl
    (by omega) (by omega) slotRunning
  rw [delayed] at secondFetch
  refine .step firstFetch decoded (fun access isAccess => by cases isAccess)
    branched ?_
  have isNop : Operation.decode? 0 = some (.shift .sll 0 0 0) := rfl
  exact .step secondFetch isNop
    (fun access isAccess => by cases isAccess) rfl .refl

theorem kept {may : Permission} {ram next : Ram} (code : CodeAt ram entry bytes)
    (same : Ram.Kept may ram next)
    (safe : ∀ index < bytes.size, ¬ may true (entry + UInt32.ofNat index)) :
    CodeAt next entry bytes where
  small := same.size ▸ code.small
  aligned := code.aligned
  below := code.below
  inside := by
    rw [same.available]
    exact code.inside
  peek index bound := by
    rw [same.peek _ (safe index bound)]
    exact code.peek index bound

end CodeAt

/-- The code branches to labels that it marks itself. -/
def Fragment.Inward (code : Fragment) : Prop :=
  ∀ condition left right label, .branch condition left right label ∈ code →
    label ∈ code.marks

/-- A stretch of assembled code with more code on both sides.  It branches to
labels of its own only, and none of its words stands at the halt address. -/
structure Stretch (front body back : Fragment) (bytes : Array UInt8)
    (labels : List (Label × Nat)) (entry : UInt32) : Prop where
  placed : Placed (front ++ (body ++ back)) bytes labels
  inward : body.Inward
  running : ∀ position, 4 * front.words ≤ position →
    position < 4 * (front.words + body.words) →
    position % 4 = 0 → entry + UInt32.ofNat position ≠ Machine.haltAddress

namespace Stretch

variable {front body back : Fragment} {bytes : Array UInt8}
  {labels : List (Label × Nat)} {entry : UInt32}

theorem resolves (stretch : Stretch front body back bytes labels entry) :
    Resolves body.behind body := by
  apply Resolves.of_nodup
  have nodup := stretch.placed.nodup
  rw [Fragment.marks_append, Fragment.marks_append] at nodup
  exact (List.nodup_append.mp (List.nodup_append.mp nodup).2.1).1

theorem position_of_label (stretch : Stretch front body back bytes labels entry)
    {label : Label} {position : Nat} (isMark : label ∈ body.marks)
    (isBound : labels.lookup label = some position) :
    ∃ inner, body = inner ++ body.behind label ∧
      position = 4 * (front ++ inner).words := by
  obtain ⟨inner, rest, isBody⟩ :=
    List.append_of_mem (Fragment.mem_marks.mp isMark)
  have isBehind := stretch.resolves inner label rest isBody
  obtain ⟨before, behind, isCode, rfl⟩ :=
    stretch.placed.source label position isBound
  have isWhole : front ++ (body ++ back) = (front ++ inner) ++
      .mark label :: (rest ++ back) := by
    rw [isBody]
    simp
  have resolves := Resolves.of_nodup stretch.placed.nodup
  have sameRest : rest ++ back = behind :=
    (resolves _ _ _ isWhole).symm.trans (resolves _ _ _ isCode)
  have sameFront : front ++ inner = before := by
    rw [isWhole, sameRest] at isCode
    exact List.append_cancel_right isCode
  refine ⟨inner ++ [.mark label], ?_, ?_⟩
  · rw [isBehind, isBody]
    simp
  · rw [← sameFront]
    simp [Item.words]

theorem insn_word (stretch : Stretch front body back bytes labels entry)
    {inner rest : Fragment} {instruction : Insn}
    (isBody : body = inner ++ .insn instruction :: rest) :
    instruction.encode = .ok (Word.ofBytes bytes (4 * (front ++ inner).words)) ∧
      4 * (front ++ inner).words + 4 ≤ bytes.size ∧
      entry + UInt32.ofNat (4 * (front ++ inner).words) ≠
        Machine.haltAddress := by
  have isCode : front ++ (body ++ back) =
      (front ++ inner) ++ .insn instruction :: (rest ++ back) := by
    rw [isBody]
    simp
  obtain ⟨encoded, bound⟩ := stretch.placed.insn_word isCode
  exact ⟨encoded, by omega,
    stretch.running _ (by simp) (by simp [isBody, Item.words]) (by omega)⟩

end Stretch

/-- What becomes of a run on the machine: it reaches the goal, or it ends in an
accepted trap. -/
def Simulated (setting : Setting) (goal : Goal) (body : Fragment)
    (bytes : Array UInt8) (entry : UInt32) (start : Core)
    (log : List Access) : Prop :=
  (∃ count front rest last logged, body = front ++ rest ∧
    CodeAt last.ram entry bytes ∧
    goal rest last logged ∧
    Core.Steps (Access.Stays setting.may) count start log
      (last.setPc (entry + UInt32.ofNat (4 * Fragment.words front))) logged) ∨
  (setting.mayTrap ∧ ∃ count last logged,
    Core.Steps (Access.Stays setting.may) count start log last logged ∧
      last.Traps (Access.Stays setting.may))

theorem Simulated.after {setting : Setting} {goal : Goal} {body : Fragment}
    {bytes : Array UInt8} {entry : UInt32} {start middle : Core}
    {log logged : List Access} {count : Nat}
    (steps : Core.Steps (Access.Stays setting.may) count start log
      middle logged)
    (later : Simulated setting goal body bytes entry middle logged) :
    Simulated setting goal body bytes entry start log := by
  rcases later with
    ⟨more, front, rest, last, all, isBody, code, reached, further⟩ |
    ⟨accepted, more, last, all, further, traps⟩
  · exact .inl ⟨_, front, rest, last, all, isBody, code, reached,
      steps.trans further⟩
  · exact .inr ⟨accepted, _, last, all, steps.trans further, traps⟩

/-- The machine follows every run of a stretch. -/
theorem Leads.simulateWithin {front body back : Fragment} {bytes : Array UInt8}
    {labels : List (Label × Nat)} {entry : UInt32}
    (stretch : Stretch front body back bytes labels entry) {setting : Setting}
    {goal : Goal} {rest : Fragment} {core : Core} {log : List Access}
    (isTarget : setting.target = body.behind)
    (safe : ∀ index < bytes.size,
      ¬ setting.may true (entry + UInt32.ofNat index))
    (leads : Leads setting goal rest core log) (inner : Fragment)
    (isBody : body = inner ++ rest) (code : CodeAt core.ram entry bytes) :
    Simulated setting goal (front ++ body) bytes entry
      (core.setPc (entry + UInt32.ofNat (4 * (front ++ inner).words))) log := by
  induction leads generalizing inner with
  | @done rest core log reached =>
      exact .inl ⟨0, front ++ inner, rest, core, log,
        by rw [isBody, List.append_assoc], code, reached, .refl⟩
  | @mark label rest core log _ induction =>
      have isWords : Fragment.words (front ++ (inner ++ [.mark label])) =
          (front ++ inner).words := by
        simp [Item.words]
      have later := induction (inner ++ [.mark label])
        (by simpa using isBody) code
      rwa [isWords] at later
  | @insn instruction rest core next log regular inside runs _ induction =>
      obtain ⟨encoded, bound, running⟩ := stretch.insn_word isBody
      have stepKept := instruction.kept_effect inside 0
      rw [Effect.next?_eq_some runs 0] at stepKept
      have isWords :
          4 * Fragment.words (front ++ (inner ++ [.insn instruction])) =
          4 * (front ++ inner).words + 4 := by
        simp [Item.words]
        omega
      have later := induction (inner ++ [.insn instruction])
        (by simpa using isBody) (code.kept stepKept safe)
      rw [isWords] at later
      exact .after (code.step regular encoded (by omega) bound running inside
        runs) later
  | @trap instruction rest core log accepted regular inside traps =>
      obtain ⟨encoded, bound, running⟩ := stretch.insn_word isBody
      exact .inr ⟨accepted, 0, _, log, .refl,
        code.trap regular encoded (by omega) bound running inside traps⟩
  | @branch condition left right label rest core log _ induction =>
      have isCode : front ++ (body ++ back) =
          (front ++ inner) ++
            .branch condition left right label :: (rest ++ back) := by
        rw [isBody]
        simp
      obtain ⟨word, offset, target, isWord, isBound, isOffset, here, delayed,
        bound⟩ :=
        stretch.placed.branch_words isCode
      have running : ∀ position, 4 * (front ++ inner).words ≤ position →
          position < 4 * (front ++ inner).words + 8 → position % 4 = 0 →
          entry + UInt32.ofNat position ≠ Machine.haltAddress := by
        intro position above below
        rw [Fragment.words_append] at above below
        refine stretch.running position (by omega) ?_
        simp [isBody, Item.words]
        omega
      have steps : Core.Steps (Access.Stays setting.may) 2 _ log _ log :=
        code.branch isWord isOffset
        here delayed (by omega) (by omega) (running _ (by omega) (by omega)
        (by omega)) (running _ (by omega) (by omega) (by omega))
      apply Simulated.after steps
      unfold Setting.chosen at induction
      split at induction
      case isTrue taken =>
        have isMark := stretch.inward condition left right label
          (isBody ▸ List.mem_append_right _ List.mem_cons_self)
        obtain ⟨before, isBehind, rfl⟩ :=
          stretch.position_of_label isMark isBound
        rw [if_pos taken]
        exact induction before (by rw [isTarget]; exact isBehind) code
      case isFalse notTaken =>
        rw [if_neg notTaken]
        have isWords :
            4 * Fragment.words
            (front ++ (inner ++ [.branch condition left right label])) =
              4 * (front ++ inner).words + 8 := by
          simp [Item.words]
          omega
        have later := induction (inner ++ [.branch condition left right label])
          (by simpa using isBody) code
        rwa [isWords] at later

/-- The assembled code of a function: a body and the words behind it, which no
run of the body reaches. -/
structure Image (body exit : Fragment) (bytes : Array UInt8)
    (labels : List (Label × Nat)) : Prop where
  placed : Placed (body ++ exit) bytes labels
  exitWords : 4 ≤ exit.words
  exitMarks : exit.marks = []

namespace Image

variable {body exit : Fragment} {bytes : Array UInt8}
  {labels : List (Label × Nat)}

theorem stretch (image : Image body exit bytes labels) {ram : Ram}
    {entry : UInt32} (code : CodeAt ram entry bytes) :
    Stretch [] body exit bytes labels entry where
  placed := image.placed
  inward := by
    intro condition left right label isBranch
    obtain ⟨front, rest, isBody⟩ := List.append_of_mem isBranch
    have isCode : body ++ exit =
        front ++ .branch condition left right label :: (rest ++ exit) := by
      rw [isBody]
      simp
    obtain ⟨_, _, target, _, isBound, _⟩ := image.placed.branch_words isCode
    obtain ⟨before, behind, isMarked, _⟩ :=
      image.placed.source label target isBound
    have isMark : label ∈ (body ++ exit).marks := by
      rw [isMarked]
      simp [Fragment.marks]
    rwa [Fragment.marks_append, image.exitMarks, List.append_nil] at isMark
  running := by
    intro position _ below whole
    obtain ⟨_, _, _, _, _, _, bound⟩ :=
      image.placed.words_from (List.nil_append _).symm
    have exitWords := image.exitWords
    rw [Fragment.words_append] at bound
    rw [Fragment.words_nil] at below bound
    exact code.running (by omega)

theorem resolves (image : Image body exit bytes labels) :
    Resolves body.behind body := by
  apply Resolves.of_nodup
  have nodup := image.placed.nodup
  rw [Fragment.marks_append] at nodup
  exact (List.nodup_append.mp nodup).1

end Image

theorem Leads.simulate {body exit : Fragment} {bytes : Array UInt8}
    {labels : List (Label × Nat)} (image : Image body exit bytes labels)
    {setting : Setting} {goal : Goal} {entry : UInt32} {rest : Fragment}
    {core : Core} {log : List Access} (isTarget : setting.target = body.behind)
    (safe : ∀ index < bytes.size,
      ¬ setting.may true (entry + UInt32.ofNat index))
    (leads : Leads setting goal rest core log) (front : Fragment)
    (isBody : body = front ++ rest) (code : CodeAt core.ram entry bytes) :
    Simulated setting goal body bytes entry
      (core.setPc (entry + UInt32.ofNat (4 * front.words))) log :=
  Leads.simulateWithin (image.stretch code) isTarget safe leads front
    isBody code

end LaneKernel
