import LaneKernel.Proofs.BufferHistory
import LaneKernel.Proofs.Simulation

/-!
# Branches reach their labels

Whatever is appended to a code buffer, raw bytes and padding included, every
branch of the finished code goes to its label.  While code is collected, a
branch stands either with its offset already in its word or with an empty offset
and a fixup that no other branch overlaps; resolving fills in the latter, so
that both end with the same word.
-/

namespace LaneKernel

/-- No offset field holds the distance from the delay slot of a branch to its
target: it is no whole number of words, or a number outside the sixteen bits of
the field. -/
def Word.Unreachable (position target : Nat) : Prop :=
  let distance : Int := (target : Int) - position - 4
  ¬ 4 ∣ distance ∨ distance / 4 < -32768 ∨ 32767 < distance / 4

theorem Word.branchOffset_eq_error_iff {position target : Nat} :
    (∃ cause, branchOffset position target = .error cause) ↔
      Unreachable position target := by
  have isDistance :
      (target : Int) - (position + 4) = target - position - 4 := by omega
  unfold branchOffset Unreachable
  dsimp only
  rw [isDistance]
  split
  case isTrue misaligned => exact iff_of_true ⟨_, rfl⟩ (.inl (by omega))
  case isFalse =>
    split
    case isTrue tooFar => exact iff_of_true ⟨_, rfl⟩ (.inr (by omega))
    case isFalse =>
      refine iff_of_false ?_ (by omega)
      rintro ⟨cause, fails⟩
      cases fails

/-- The registers that the comparison of a branch reads are general purpose
registers. -/
def Condition.Takes : Condition → Reg → Reg → Prop
  | .eq, left, right | .ne, left, right =>
    left.isGeneral = true ∧ right.isGeneral = true
  | .lez, left, _ | .gtz, left, _ | .ltz, left, _ | .gez, left, _ =>
      left.isGeneral = true
  | .unknown _, _, _ => False

theorem Condition.Takes.branchWord {condition : Condition} {left right : Reg}
    (takes : condition.Takes left right) :
    ∃ word, Item.branchWord condition left right = .ok word := by
  have isGeneral : ∀ register : Reg, register.isGeneral = true →
      ∃ index, register = .gp index := by
    intro register isGeneral
    cases register with
    | gp index => exact ⟨index, rfl⟩
    | vec index | unknown number => cases isGeneral
  cases condition with
  | unknown tag => exact takes.elim
  | eq | ne =>
      obtain ⟨_, rfl⟩ := isGeneral left takes.1
      obtain ⟨_, rfl⟩ := isGeneral right takes.2
      exact ⟨_, rfl⟩
  | lez | gtz | ltz | gez =>
      obtain ⟨_, rfl⟩ := isGeneral left takes
      exact ⟨_, rfl⟩

/-- A branch and the position that it was emitted at. -/
structure Branch where
  position : Nat
  condition : Condition
  left : Reg
  right : Reg
  label : Label
deriving DecidableEq, Repr

/-- The branches of a fragment that is emitted at a position. -/
def Fragment.branchesFrom (position : Nat) : Fragment → List Branch
  | [] => []
  | .branch condition left right label :: rest =>
      ⟨position, condition, left, right, label⟩ ::
        branchesFrom (position + 8) rest
  | .insn _ :: rest => branchesFrom (position + 4) rest
  | .mark _ :: rest => branchesFrom position rest

/-- The branches that an operation emits at a position. -/
def CodeBuffer.Action.branchesFrom (position : Nat) : Action → List Branch
  | .emit fragment => fragment.branchesFrom position
  | _ => []

/-- The branches that a sequence of operations emits. -/
def CodeBuffer.branches (buffer : CodeBuffer) : List Action → List Branch
  | [] => []
  | action :: rest =>
      action.branchesFrom buffer.size ++
        match buffer.perform action with
        | some (next, _) => next.branches rest
        | none => []

namespace Branch

/-- The word of a branch to a position. -/
def word (branch : Branch) (target : Nat) : Except AsmError UInt32 := do
  let word ← Item.branchWord branch.condition branch.left branch.right
  let offset ← Word.branchOffset branch.position target
  return word ||| offset

theorem word_eq_ok {branch : Branch} {target : Nat} {merged : UInt32} :
    branch.word target = .ok merged ↔ ∃ word offset,
      Item.branchWord branch.condition branch.left branch.right = .ok word ∧
        Word.branchOffset branch.position target = .ok offset ∧
          merged = word ||| offset := by
  unfold word
  refine Outcome.bind_eq_ok.trans ⟨?_, ?_⟩
  · rintro ⟨word, isWord, isMerged⟩
    obtain ⟨offset, isOffset, isMerged⟩ := Outcome.bind_eq_ok.mp isMerged
    cases isMerged
    exact ⟨word, offset, isWord, isOffset, rfl⟩
  · rintro ⟨word, offset, isWord, isOffset, rfl⟩
    exact ⟨word, isWord, Outcome.bind_eq_ok.mpr ⟨offset, isOffset, rfl⟩⟩

/-- A branch in finished code, loaded anywhere, goes to a position.  Its word is
the one of the operation, the registers and the distance alone. -/
structure Lands (branch : Branch) (text : Array UInt8) (target : Nat) :
    Prop where
  inside : branch.position + 8 ≤ text.size
  isWord : branch.word target = .ok (Word.ofBytes text branch.position)
  high : Item.branchWord branch.condition branch.left branch.right =
    .ok (Word.ofBytes text branch.position &&& 0xffff0000)
  decodes : ∃ other, Operation.decode? (Word.ofBytes text branch.position) =
    some (.branch branch.condition branch.left.index other
      (Word.signedImmediate (Word.ofBytes text branch.position)))
  goes : ∀ base, Core.branchTarget (base + UInt32.ofNat branch.position)
    (Word.signedImmediate (Word.ofBytes text branch.position)) =
      base + UInt32.ofNat target
  slot : Word.ofBytes text (branch.position + 4) = 0

theorem or_and_high {position target : Nat} {condition : Condition}
    {left right : Reg} {word offset : UInt32}
    (isWord : Item.branchWord condition left right = .ok word)
    (isOffset : Word.branchOffset position target = .ok offset) :
    (word ||| offset) &&& 0xffff0000 = word := by
  have isLow : offset &&& 0xffff = offset := by
    apply UInt32.toNat_inj.mp
    rw [Word.toNat_and_mask offset 0xffff 16 rfl]
    exact Nat.mod_eq_of_lt (Word.branchOffset_lt isOffset)
  have noHigh : offset &&& 0xffff0000 = 0 := by
    have sum := Word.and_not_add_and offset 0xffff
    rwa [isLow, UInt32.add_eq_right] at sum
  have split : (word ||| offset) &&& 0xffff0000 =
      (word &&& 0xffff0000) ||| (offset &&& 0xffff0000) := by
    apply UInt32.toNat_inj.mp
    simp only [UInt32.toNat_and, UInt32.toNat_or, Nat.and_or_distrib_right]
  rw [split, noHigh, UInt32.or_zero]
  exact Item.branchWord_and isWord

theorem Lands.of_word {branch : Branch} {text : Array UInt8} {target : Nat}
    (inside : branch.position + 8 ≤ text.size)
    (isWord : branch.word target = .ok (Word.ofBytes text branch.position))
    (slot : Word.ofBytes text (branch.position + 4) = 0) :
    branch.Lands text target := by
  obtain ⟨word, offset, isHigh, isOffset, isMerged⟩ := word_eq_ok.mp isWord
  obtain ⟨other, decodes, _, goes⟩ := Operation.decode?_branch isHigh isOffset
  refine ⟨inside, isWord, ?_, ⟨other, ?_⟩, ?_, slot⟩
  · rw [isMerged, or_and_high isHigh isOffset]
    exact isHigh
  · rw [isMerged]
    exact decodes
  · rw [isMerged]
    exact goes

/-- The branch stands in the code, with its offset or with a fixup, and no other
fixup overlaps it. -/
structure Stands (branch : Branch) (buffer : CodeBuffer) : Prop where
  inside : branch.position + 8 ≤ buffer.size
  slot : Word.ofBytes buffer.text (branch.position + 4) = 0
  apart : ∀ fixup ∈ buffer.fixups.toList,
    fixup = ⟨branch.position, branch.label⟩ ∨ fixup.position + 8 ≤
      branch.position ∨ branch.position + 8 ≤ fixup.position
  written :
    (⟨branch.position, branch.label⟩ ∉ buffer.fixups.toList ∧
      ∃ target, buffer.position? branch.label = some target ∧
        branch.word target = .ok (Word.ofBytes buffer.text branch.position)) ∨
    (⟨branch.position, branch.label⟩ ∈ buffer.fixups.toList ∧
      Item.branchWord branch.condition branch.left branch.right =
        .ok (Word.ofBytes buffer.text branch.position))

/-- What a branch at the cursor leaves: its word, an empty delay slot, and
perhaps a fixup. -/
structure Written (branch : Branch) (written : UInt32) (added : List Fixup)
    (buffer next : CodeBuffer) : Prop where
  position : branch.position = buffer.size
  text : next.text = buffer.text ++ Word.bytes written ++ Word.bytes 0
  fixups : next.fixups.toList = buffer.fixups.toList ++ added

namespace Written

variable {branch : Branch} {written : UInt32} {added : List Fixup}
  {buffer next : CodeBuffer}

theorem size (isWritten : branch.Written written added buffer next) :
    next.size = buffer.size + 8 := by
  rw [CodeBuffer.size, isWritten.text, Array.size_append, Array.size_append]
  rfl

theorem words (isWritten : branch.Written written added buffer next) :
    Word.ofBytes next.text branch.position = written ∧
      Word.ofBytes next.text (branch.position + 4) = 0 := by
  rw [isWritten.text, isWritten.position]
  constructor
  · rw [Array.append_assoc]
    exact Word.ofBytes_append _ _ _
  · have behindWord :=
      Word.ofBytes_append (buffer.text ++ Word.bytes written) #[] 0
    rwa [Array.append_empty, Array.size_append] at behindWord

end Written

namespace Stands

variable {branch : Branch} {buffer next last : CodeBuffer}

/-- What is appended behind a branch leaves it. -/
theorem continues (stands : branch.Stands buffer)
    (continues : buffer.Continues next) : branch.Stands next := by
  have grows := continues.size_le
  have inside := stands.inside
  obtain ⟨more, isText⟩ := continues.text
  obtain ⟨added, isFixups, isAdded⟩ := continues.fixups
  have sameWord : ∀ position, position + 4 ≤ buffer.size →
      Word.ofBytes next.text position = Word.ofBytes buffer.text position := by
    intro position within
    apply Word.ofBytes_congr
    intro index inWord
    rw [isText, Array.getElem?_append_left]
    exact Nat.lt_of_lt_of_le (Nat.add_lt_add_left inWord position) within
  have sameFixup : ⟨branch.position, branch.label⟩ ∈ next.fixups.toList ↔
      ⟨branch.position, branch.label⟩ ∈ buffer.fixups.toList := by
    rw [isFixups, List.mem_append, or_iff_left]
    intro isNew
    have behind := (isAdded _ isNew).1
    change buffer.size ≤ branch.position at behind
    omega
  refine ⟨by omega, (sameWord _ (by omega)).trans stands.slot, ?_, ?_⟩
  · intro fixup isFixup
    rw [isFixups] at isFixup
    rcases List.mem_append.mp isFixup with isOld | isNew
    · exact stands.apart fixup isOld
    · have behind := (isAdded fixup isNew).1
      exact .inr (.inr (by omega))
  · rw [sameFixup, sameWord _ (by omega)]
    refine stands.written.imp_left fun ⟨noFixup, target, isBound, isWord⟩ => ?_
    exact ⟨noFixup, target, continues.labels _ _ isBound, isWord⟩

theorem of_adds {condition : Condition} {left right : Reg} {label : Label}
    (behind : ∀ fixup ∈ buffer.fixups.toList, fixup.position + 8 ≤ buffer.size)
    (adds : buffer.Adds (.branch condition left right label) next) :
    next.size = buffer.size + 8 ∧
      Stands ⟨buffer.size, condition, left, right, label⟩ next ∧
      ∀ fixup ∈ next.fixups.toList, fixup ∈ buffer.fixups.toList ∨
        fixup = ⟨buffer.size, label⟩ := by
  cases adds with
  | @reaching _ _ _ _ word offset target _ _ isWord isBound isOffset =>
      have isWritten :
          Written ⟨buffer.size, condition, left, right, label⟩
          (word ||| offset) [] buffer
          (((buffer.appendWord (word ||| offset)
            (Item.branchText condition left right label)).appendWord 0
              Insn.nop.text)) := ⟨rfl, by simp, by simp⟩
      obtain ⟨here, slot⟩ := isWritten.words
      refine ⟨isWritten.size,
        ⟨isWritten.size.ge, slot, ?_, .inl ⟨?_, target, isBound, ?_⟩⟩, ?_⟩
      · exact fun fixup isFixup => .inr (.inl (behind fixup isFixup))
      · intro isFixup
        have before := behind _ isFixup
        change buffer.size + 8 ≤ buffer.size at before
        omega
      · rw [word_eq_ok, here]
        exact ⟨word, offset, isWord, isOffset, rfl⟩
      · exact fun fixup isFixup => .inl isFixup
  | @waiting _ _ _ _ word _ _ isWord _ =>
      have isWritten : Written ⟨buffer.size, condition, left, right, label⟩ word
          [⟨buffer.size, label⟩] buffer
            (((buffer.appendWord word
              (Item.branchText condition left right label)).addFixup
              ⟨buffer.size, label⟩).appendWord 0 Insn.nop.text) :=
        ⟨rfl, by simp, by simp⟩
      obtain ⟨here, slot⟩ := isWritten.words
      have isFixup :
          ∀ fixup, fixup ∈ buffer.fixups.toList ++ [⟨buffer.size, label⟩] →
          fixup ∈ buffer.fixups.toList ∨ fixup = ⟨buffer.size, label⟩ :=
        fun fixup isFixup =>
          (List.mem_append.mp isFixup).imp_right List.mem_singleton.mp
      refine ⟨isWritten.size, ⟨isWritten.size.ge, slot, ?_, .inr ⟨?_, ?_⟩⟩, ?_⟩
      · rw [isWritten.fixups]
        intro fixup isMember
        exact (isFixup fixup isMember).elim
          (fun isOld => .inr (.inl (behind fixup isOld))) .inl
      · rw [isWritten.fixups]
        exact List.mem_append_right _ (List.mem_singleton_self _)
      · rw [here]
        exact isWord
      · rw [isWritten.fixups]
        exact isFixup

/-- Resolving fills in the offset of a branch that waits and leaves the
others. -/
theorem lands (stands : branch.Stands buffer) (isOpen : buffer.resolved = false)
    (isResolved : buffer.resolve = (last, none)) :
    ∃ target, buffer.position? branch.label = some target ∧
      branch.Lands last.text target := by
  obtain ⟨noFailure, isText, _⟩ := CodeBuffer.resolve_eq_ok isOpen isResolved
  have inside := stands.inside
  have isSize : last.text.size = buffer.size := by
    rw [isText]
    exact Patch.size_applyAll _ _
  -- The patch of another branch writes neither the word nor the slot behind it.
  have isOwn : ∀ patch ∈ Fixup.patches buffer.labels buffer.fixups.toList,
      ∀ index, branch.position ≤ index → index < branch.position + 8 →
      (⟨branch.position, branch.label⟩ ∈ buffer.fixups.toList ∧
        Fixup.patch ⟨branch.position, branch.label⟩ buffer.labels = .ok patch) ∨
      patch.byte? index = none := by
    intro patch isPatch index atOrBehind within
    obtain ⟨fixup, isFixup, hasPatch⟩ := Fixup.mem_patches isPatch
    have isPosition := Fixup.position_patch hasPatch
    rcases stands.apart fixup isFixup with rfl | apart
    · exact .inl ⟨isFixup, hasPatch⟩
    · exact .inr (Patch.byte?_eq_none (by omega))
  have slot : Word.ofBytes last.text (branch.position + 4) = 0 := by
    refine Eq.trans (Word.ofBytes_congr fun index inWord => ?_) stands.slot
    rw [isText]
    refine Patch.getElem?_applyAll_of_untouched (fun patch isPatch => ?_) _
    rcases isOwn patch isPatch (branch.position + 4 + index) (by omega)
      (by omega) with
      ⟨_, isOwnPatch⟩ | untouched
    · have isPosition := Fixup.position_patch isOwnPatch
      change patch.position = branch.position at isPosition
      exact Patch.byte?_eq_none (by omega)
    · exact untouched
  rcases stands.written with ⟨noFixup, target, isBound, isWord⟩ |
    ⟨isFixup, isWord⟩
  · refine ⟨target, isBound,
      .of_word (by omega) (isWord.trans (congrArg _ ?_)) slot⟩
    refine (Word.ofBytes_congr fun index inWord => ?_).symm
    rw [isText]
    refine Patch.getElem?_applyAll_of_untouched (fun patch isPatch => ?_) _
    rcases isOwn patch isPatch (branch.position + index) (by omega)
      (by omega) with
      ⟨isFixup, _⟩ | untouched
    · exact absurd isFixup noFixup
    · exact untouched
  · obtain ⟨patch, hasPatch⟩ := Fixup.failure?_eq_none.mp noFailure _ isFixup
    obtain ⟨target, offset, isBound, isOffset, isPatch⟩ :=
  Fixup.patch_eq_ok.mp hasPatch
    refine ⟨target, isBound,
      .of_word (by omega)
        (word_eq_ok.mpr ⟨_, offset, isWord, isOffset, ?_⟩) slot⟩
    have patched : Word.ofBytes last.text branch.position =
        Word.ofBytes (patch.apply buffer.text) branch.position := by
      refine Word.ofBytes_congr fun index inWord => ?_
      rw [isText, Patch.getElem?_applyAll, Patch.getElem?_apply]
      congr 1
      refine funext (Patch.byteBehind_of_only
        (Fixup.patch_mem noFailure isFixup hasPatch) ?_)
      intro other isOther
      refine (isOwn other isOther (branch.position + index) (by omega)
        (by omega)).imp_left ?_
      rintro ⟨_, hasOther⟩
      exact Except.ok.inj (hasOther.symm.trans hasPatch)
    have whole : branch.position + 4 ≤ buffer.text.size := by
      rw [CodeBuffer.size] at inside
      omega
    rw [patched, isPatch, Patch.apply, Word.ofBytes_write whole, Patch.word,
      Word.toUInt16_branchOffset isOffset, Item.branchWord_and isWord]

end Stands

end Branch

namespace CodeBuffer

open Branch

variable {buffer next last : CodeBuffer} {actions : List Action}
  {reports : List (Action × Option AsmError)}

/-- What a sequence of operations that all succeed leaves of its branches. -/
structure Records (branches : List Branch) (buffer next : CodeBuffer) :
    Prop where
  continues : Continues buffer next
  stands : ∀ branch ∈ branches, branch.Stands next
  waiting : ∀ fixup ∈ next.fixups.toList, fixup ∈ buffer.fixups.toList ∨
    ∃ branch ∈ branches, branch.position = fixup.position

namespace Records

theorem append {first second : List Branch} (before : Records first buffer next)
    (behind : Records second next last) :
    Records (first ++ second) buffer last where
  continues := before.continues.trans behind.continues
  stands branch isBranch := (List.mem_append.mp isBranch).elim
    (fun isFirst => (before.stands branch isFirst).continues behind.continues)
    (behind.stands branch)
  waiting fixup isFixup := by
    rcases behind.waiting fixup isFixup with isOld | ⟨branch, isSecond, same⟩
    · refine (before.waiting fixup isOld).imp_right fun ⟨branch, isFirst,
        same⟩ => ?_
      exact ⟨branch, List.mem_append_left _ isFirst, same⟩
    · exact .inr ⟨branch, List.mem_append_right _ isSecond, same⟩

theorem refl (buffer : CodeBuffer) : Records [] buffer buffer where
  continues := .refl buffer
  stands _ isBranch := by cases isBranch
  waiting _ isFixup := .inl isFixup

/-- What adds no branch keeps the branches that wait. -/
theorem of_same (continues : Continues buffer next)
    (same : next.fixups = buffer.fixups) :
    Records [] buffer next where
  continues := continues
  stands _ isBranch := by cases isBranch
  waiting _ isFixup := .inl (same ▸ isFixup)

end Records

/-- All branches that wait are in front of the cursor. -/
def Settled (buffer : CodeBuffer) : Prop :=
  ∀ fixup ∈ buffer.fixups.toList, fixup.position + 8 ≤ buffer.size

theorem Settled.continues (settled : buffer.Settled)
    (continues : Continues buffer next) : next.Settled := by
  obtain ⟨added, isFixups, isAdded⟩ := continues.fixups
  have grows := continues.size_le
  intro fixup isFixup
  rw [isFixups] at isFixup
  rcases List.mem_append.mp isFixup with isOld | isNew
  · exact Nat.le_trans (settled fixup isOld) grows
  · exact (isAdded fixup isNew).2

theorem records_adds {item : Item} (settled : buffer.Settled)
    (adds : buffer.Adds item next) :
    Records (Fragment.branchesFrom buffer.size [item]) buffer next ∧
      next.size = buffer.size + 4 * item.words := by
  have continues := Continues.adds adds
  cases item with
  | insn instruction =>
      cases adds with
      | insn _ => exact ⟨.of_same continues rfl, size_appendWord⟩
  | mark label =>
      cases adds with
      | mark _ _ _ => exact ⟨.of_same continues rfl, rfl⟩
  | branch condition left right label =>
      obtain ⟨isSize, stands, waiting⟩ := Stands.of_adds settled adds
      refine ⟨⟨continues, fun branch isBranch => ?_, fun fixup isFixup => ?_⟩,
        isSize⟩
      · cases List.mem_singleton.mp isBranch
        exact stands
      · refine (waiting fixup isFixup).imp_right ?_
        rintro rfl
        exact ⟨_, List.mem_singleton_self _, rfl⟩

theorem branchesFrom_cons (position : Nat) (item : Item) (rest : Fragment) :
    Fragment.branchesFrom position (item :: rest) =
      Fragment.branchesFrom position [item] ++
        Fragment.branchesFrom (position + 4 * item.words) rest := by
  cases item <;> rfl

theorem records_emitItems {items : Fragment} (settled : buffer.Settled)
    (emitted : buffer.emitItems items = (next, none)) :
    Records (items.branchesFrom buffer.size) buffer next := by
  induction items generalizing buffer with
  | nil =>
      cases emitted
      exact .refl _
  | cons item rest induction =>
      obtain ⟨middle, adds, emitted⟩ := emitItems_cons.mp emitted
      obtain ⟨first, isSize⟩ := records_adds settled adds
      rw [branchesFrom_cons, ← isSize]
      exact first.append (induction (settled.continues first.continues) emitted)

theorem fixups_appendNops (count : Nat) :
    (buffer.appendNops count).fixups = buffer.fixups := by
  induction count generalizing buffer with
  | zero => rfl
  | succ count induction => exact induction

theorem records_perform {action : Action} (notResolve : action ≠ .resolve)
    (settled : buffer.Settled)
    (isNext : buffer.perform action = some (next, none)) :
    Records (action.branchesFrom buffer.size) buffer next := by
  have continues := perform_continues notResolve isNext
  cases action with
  | resolve => exact absurd rfl notResolve
  | emit fragment =>
      have emitted := Option.some.inj isNext
      unfold emit at emitted
      split at emitted
      · cases emitted
      · exact records_emitItems settled emitted
  | bind label =>
      obtain ⟨_, _, rfl⟩ := bind_eq_none.mp (Option.some.inj isNext)
      exact .of_same continues rfl
  | append bytes =>
      cases isNext
      exact .of_same continues rfl
  | align boundary =>
      unfold perform alignTo? at isNext
      simp only [Option.map_map, Option.map_eq_some_iff, Function.comp,
        Prod.mk.injEq] at isNext
      obtain ⟨count, _, rfl, _⟩ := isNext
      refine .of_same continues ?_
      exact fixups_appendNops count

/-- Operations that all succeed leave every branch that they emit standing. -/
theorem records_performAll (noResolve : Action.resolve ∉ actions)
    (settled : buffer.Settled)
    (isRun : buffer.performAll actions = some (last, reports))
    (succeed : ∀ report ∈ reports, report.2 = none) :
    Records (buffer.branches actions) buffer last := by
  induction actions generalizing buffer reports with
  | nil =>
      cases isRun
      exact .refl _
  | cons action rest induction =>
      obtain ⟨next, report, more, isAction, isRest, rfl⟩ :=
        performAll_cons_eq_some.mp isRun
      obtain ⟨succeeds, succeedRest⟩ := List.forall_mem_cons.mp succeed
      rw [List.mem_cons, not_or] at noResolve
      cases show report = none from succeeds
      have first := records_perform (Ne.symm noResolve.1) settled isAction
      have second :=
        induction noResolve.2 (settled.continues first.continues) isRest
          succeedRest
      rw [branches, isAction]
      exact first.append second

/-- Filling in the branches that wait fails exactly when one of them has a label
that is not bound or too far away. -/
theorem resolve_fails_iff (isOpen : buffer.resolved = false) :
    buffer.resolve.2 ≠ none ↔ ∃ fixup ∈ buffer.fixups.toList,
      buffer.position? fixup.label = none ∨
        ∃ target, buffer.position? fixup.label = some target ∧
          Word.Unreachable fixup.position target := by
  have fails : ∀ fixup : Fixup,
      (¬ ∃ patch, fixup.patch buffer.labels = .ok patch) ↔
        buffer.position? fixup.label = none ∨
        ∃ target, buffer.position? fixup.label = some target ∧
          Word.Unreachable fixup.position target := by
    intro fixup
    unfold Fixup.patch position?
    cases isBound : buffer.labels.lookup fixup.label with
    | none => simp
    | some target =>
        rw [or_iff_right (by simp)]
        simp only [Option.some.injEq, exists_eq_left',
          ← Word.branchOffset_eq_error_iff]
        cases Word.branchOffset fixup.position target with
        | error cause =>
            exact iff_of_true (fun isOk => by cases isOk.choose_spec)
              ⟨cause, rfl⟩
        | ok offset =>
            exact iff_of_false (fun noPatch => noPatch ⟨_, rfl⟩) (by simp)
  have isReport :
      buffer.resolve.2 = Fixup.failure? buffer.labels buffer.fixups.toList := by
    rw [resolve_eq isOpen]
    dsimp only
    split
    case h_1 noFailure => exact noFailure.symm
    case h_2 cause isFailure => exact isFailure.symm
  rw [isReport, Ne, Fixup.failure?_eq_none]
  simp only [not_forall, exists_prop, fails]

/-- Emission of a branch to a bound label fails exactly when the label is too
far away. -/
theorem emit_branch_fails_iff {condition : Condition} {left right : Reg}
    {label : Label} {target : Nat} (isOpen : buffer.resolved = false)
    (takes : condition.Takes left right) (isValid : label.valid = true)
    (isBound : buffer.position? label = some target) :
    (buffer.emit [.branch condition left right label]).2 ≠ none ↔
      Word.Unreachable buffer.size target := by
  obtain ⟨word, isWord⟩ := takes.branchWord
  rw [← Word.branchOffset_eq_error_iff]
  have isBranch : buffer.branchWord condition left right label =
      (Word.branchOffset buffer.size target).map fun offset =>
        (word ||| offset, true) := by
    unfold branchWord
    simp only [isWord, isOpen, isValid, isBound]
    cases Word.branchOffset buffer.size target <;> rfl
  have isEmitted : buffer.emit [.branch condition left right label] =
      buffer.emitItems [.branch condition left right label] := rfl
  rw [isEmitted, emitItems, emitItem]
  simp only [isBranch]
  cases Word.branchOffset buffer.size target with
  | error cause => exact iff_of_true (Option.some_ne_none cause) ⟨cause, rfl⟩
  | ok offset => exact iff_of_false (fun fails => fails rfl) (by simp)

/-- Operations on an empty buffer that all succeed, and resolving that succeeds
behind them. -/
structure Finished (listing : Bool) (actions : List Action)
    (built last : CodeBuffer) : Prop where
  noResolve : Action.resolve ∉ actions
  succeeds : ∃ reports, (empty listing).performAll actions =
    some (built, reports) ∧
    ∀ report ∈ reports, report.2 = none
  isResolved : built.resolve = (last, none)

/-- Every branch of finished code goes to its label.  Its word is the one that
its registers, its position and the position of the label determine, whether the
label was bound in front of the branch or behind it, and resolving changes no
byte outside of these words.  Resolving an open buffer fails exactly when some
waiting branch has no label or one too far away, and emission of a branch to a
bound label when the label is too far away. -/
theorem branches_land :
    (∀ {listing : Bool} {actions : List Action} {built last : CodeBuffer},
        Finished listing actions built last →
        (∀ branch ∈ (empty listing).branches actions, ∃ target,
          last.position? branch.label = some target ∧
            branch.Lands last.text target) ∧
        last.size = built.size ∧
        ∀ index, (∀ branch ∈ (empty listing).branches actions,
            index < branch.position ∨ branch.position + 4 ≤ index) →
          last.text[index]? = built.text[index]?) ∧
      (∀ {buffer : CodeBuffer}, buffer.resolved = false →
        (buffer.resolve.2 ≠ none ↔ ∃ fixup ∈ buffer.fixups.toList,
          buffer.position? fixup.label = none ∨
            ∃ target, buffer.position? fixup.label = some target ∧
              Word.Unreachable fixup.position target)) ∧
      ∀ {buffer : CodeBuffer} {condition : Condition} {left right : Reg}
        {label : Label} {target : Nat}, buffer.resolved = false →
          condition.Takes left right →
        label.valid = true → buffer.position? label = some target →
        ((buffer.emit [.branch condition left right label]).2 ≠ none ↔
          Word.Unreachable buffer.size target) := by
  refine ⟨?_, resolve_fails_iff, emit_branch_fails_iff⟩
  rintro listing actions built last ⟨noResolve, ⟨reports, isRun, succeed⟩,
    isResolved⟩
  have settled : (empty listing).Settled := fun _ isFixup => by cases isFixup
  have records := records_performAll noResolve settled isRun succeed
  have isOpen : built.resolved = false := records.continues.resolved
  obtain ⟨_, isText, sameLabels⟩ := resolve_eq_ok isOpen isResolved
  refine ⟨fun branch isBranch => ?_, ?_, fun index outside => ?_⟩
  · rw [position?, sameLabels]
    exact (records.stands branch isBranch).lands isOpen isResolved
  · rw [size, size, isText, Patch.size_applyAll]
  · rw [isText]
    refine Patch.getElem?_applyAll_of_untouched (fun patch isPatch => ?_) _
    obtain ⟨fixup, isFixup, hasPatch⟩ := Fixup.mem_patches isPatch
    have isPosition := Fixup.position_patch hasPatch
    rcases records.waiting fixup isFixup with
      impossible | ⟨branch, isBranch, same⟩
    · cases impossible
    · have apart := outside branch isBranch
      exact Patch.byte?_eq_none (by omega)

/-- A branch back over raw bytes, and one ahead over padding. -/
def scattered : List Action :=
  [.append #[1, 2, 3], .bind 1, .append #[4, 5, 6, 7],
    .emit (Asm.bnez .t2 1 ++ Asm.jump 2), .append #[8], .align 1,
    .append #[9, 10, 11], .bind 2]

theorem branches_land_scattered :
    ∃ built last, Finished true scattered built last ∧
    (empty true).branches scattered =
      [⟨7, .ne, .t2, .zero, 1⟩, ⟨15, .eq, .zero, .zero, 2⟩] ∧
    (∀ branch ∈ (empty true).branches scattered, ∃ target,
      last.position? branch.label = some target ∧
        branch.Lands last.text target) ∧
    (built.resolve.2 ≠ none ↔ ∃ fixup ∈ built.fixups.toList,
      built.position? fixup.label = none ∨
        ∃ target, built.position? fixup.label = some target ∧
        Word.Unreachable fixup.position target) ∧
    ((built.emit (Asm.bnez .t2 1)).2 ≠ none ↔
      Word.Unreachable built.size 3) := by
  obtain ⟨⟨built, reports⟩, isRun⟩ :
      ∃ result, (empty true).performAll scattered = some result :=
    ⟨_, rfl⟩
  have checked : ((empty true).performAll scattered).all fun result =>
      (∀ report ∈ result.2, report.2 = none) ∧ result.1.resolve.2 = none ∧
        result.1.resolved = false ∧ result.1.position? 1 = some 3 := by
    decide +kernel
  rw [isRun, Option.all_some, decide_eq_true_iff] at checked
  obtain ⟨succeed, resolves, isOpen, isBound⟩ := checked
  have finished : Finished true scattered built built.resolve.1 :=
    ⟨by decide, ⟨reports, isRun, succeed⟩, Prod.ext rfl resolves⟩
  exact ⟨built, built.resolve.1, finished, by decide +kernel,
    (branches_land.1 finished).1, branches_land.2.1 isOpen,
    branches_land.2.2 isOpen ⟨rfl, rfl⟩ (by decide) isBound⟩

end CodeBuffer

end LaneKernel
