import LaneKernel.Proofs.Patching

/-!
# Histories of a code buffer

Operations on a code buffer in any order, failing ones included.  Emission does
three things to a buffer, and a property that these keep is kept by all
emission.  Every operation but resolving appends to the code, binds labels that
were free and adds branches that wait, and of the code in front of the cursor it
reads nothing but the length.  An attempt to resolve that fails therefore leaves
no trace: the branches that it filled in are filled in alike by a later attempt.
-/

namespace LaneKernel.CodeBuffer

/-- An operation on a code buffer, with any arguments. -/
inductive Action where
  | emit (fragment : Fragment)
  | bind (label : Label)
  | append (bytes : Array UInt8)
  | align (boundary : Int)
  | resolve
deriving DecidableEq, Repr

/-- What an operation leaves and why it failed; `none` for padding that does not
end. -/
def perform (buffer : CodeBuffer) :
    Action → Option (CodeBuffer × Option AsmError)
  | .emit fragment => some (buffer.emit fragment)
  | .bind label => some (buffer.bind label)
  | .append bytes => some (buffer.appendBytes bytes, none)
  | .align boundary => (buffer.alignTo? boundary).map fun next => (next, none)
  | .resolve => some buffer.resolve

/-- What a sequence of operations leaves, with the report of each. -/
def performAll (buffer : CodeBuffer) :
    List Action → Option (CodeBuffer × List (Action × Option AsmError))
  | [] => some (buffer, [])
  | action :: rest =>
      (buffer.perform action).bind fun (next, report) =>
        (next.performAll rest).map fun (last, reports) =>
          (last, (action, report) :: reports)

variable {buffer next last : CodeBuffer} {action : Action}
  {actions : List Action} {report : Option AsmError}
  {reports : List (Action × Option AsmError)}

theorem performAll_cons_eq_some {rest : List Action} :
    buffer.performAll (action :: rest) = some (last, reports) ↔
      ∃ next report more, buffer.perform action = some (next, report) ∧
        next.performAll rest = some (last, more) ∧
          reports = (action, report) :: more := by
  rw [performAll]
  simp only [Option.bind_eq_some_iff, Option.map_eq_some_iff, Prod.exists,
    Prod.mk.injEq]
  constructor
  · rintro ⟨next, report, isNext, last, more, isRest, rfl, rfl⟩
    exact ⟨next, report, more, isNext, isRest, rfl⟩
  · rintro ⟨next, report, more, isNext, isRest, rfl⟩
    exact ⟨next, report, isNext, last, more, isRest, rfl, rfl⟩

/-- A property of buffers that stays when a word is appended, when a branch is
to wait, and when a free label is bound. -/
structure Kept (property : CodeBuffer → Prop) : Prop where
  word : ∀ {buffer : CodeBuffer} (word : UInt32) (line : String),
    property buffer → property (buffer.appendWord word line)
  fixup : ∀ {buffer : CodeBuffer} (fixup : Fixup), property buffer →
    property (buffer.addFixup fixup)
  place : ∀ {buffer : CodeBuffer} {label : Label},
    buffer.position? label = none → property buffer →
      property (buffer.place label)

namespace Kept

variable {property : CodeBuffer → Prop} (kept : Kept property)

include kept

theorem bind (label : Label) (holds : property buffer) :
    property (buffer.bind label).1 := by
  unfold CodeBuffer.bind
  cases isError : buffer.bindError? label with
  | some cause => exact holds
  | none => exact kept.place (bindError?_eq_none.mp isError).2 holds

theorem adds {item : Item} (adds : buffer.Adds item next)
    (holds : property buffer) : property next := by
  cases adds with
  | insn _ => exact kept.word _ _ holds
  | reaching _ _ _ _ _ => exact kept.word _ _ (kept.word _ _ holds)
  | waiting _ _ _ _ => exact kept.word _ _ (kept.fixup _ (kept.word _ _ holds))
  | mark _ _ isFree => exact kept.place isFree holds

theorem emitItems (items : Fragment) (holds : property buffer) :
    property (buffer.emitItems items).1 :=
  emitItems_induction (fun buffer next => property buffer → property next)
    (fun _ => id) (fun isNext behind before => behind (kept.adds isNext before))
    buffer items holds

theorem emit (fragment : Fragment) (holds : property buffer) :
    property (buffer.emit fragment).1 := by
  unfold CodeBuffer.emit
  split
  · exact holds
  · exact kept.emitItems fragment holds

theorem appendNops (count : Nat) (holds : property buffer) :
    property (buffer.appendNops count) := by
  induction count generalizing buffer with
  | zero => exact holds
  | succ count induction => exact induction (kept.word 0 Insn.nop.text holds)

end Kept

/-- The buffer behind operations that do not resolve: bytes, labels and waiting
branches were added, the branches as whole words behind the old cursor. -/
structure Continues (buffer next : CodeBuffer) : Prop where
  text : ∃ more, next.text = buffer.text ++ more
  labels : Extends buffer.labels next.labels
  fixups : ∃ more, next.fixups.toList = buffer.fixups.toList ++ more ∧
    ∀ fixup ∈ more, buffer.size ≤ fixup.position ∧
      fixup.position + 8 ≤ next.size
  resolved : next.resolved = buffer.resolved

namespace Continues

theorem size_le (continues : Continues buffer next) :
    buffer.size ≤ next.size := by
  obtain ⟨more, isText⟩ := continues.text
  rw [size, size, isText, Array.size_append]
  exact Nat.le_add_right _ _

theorem refl (buffer : CodeBuffer) : Continues buffer buffer where
  text := ⟨#[], Array.append_empty.symm⟩
  labels := fun _ _ => id
  fixups := ⟨[], (List.append_nil _).symm, fun _ isFixup => by cases isFixup⟩
  resolved := rfl

theorem trans (first : Continues buffer next) (second : Continues next last) :
    Continues buffer last where
  text := by
    obtain ⟨more, isNext⟩ := first.text
    obtain ⟨evenMore, isLast⟩ := second.text
    exact ⟨more ++ evenMore, by rw [isLast, isNext, Array.append_assoc]⟩
  labels := first.labels.trans second.labels
  fixups := by
    obtain ⟨more, isNext, inside⟩ := first.fixups
    obtain ⟨evenMore, isLast, insideLast⟩ := second.fixups
    refine ⟨more ++ evenMore, by rw [isLast, isNext, List.append_assoc], ?_⟩
    have grows := first.size_le
    have growsLast := second.size_le
    intro fixup isFixup
    rcases List.mem_append.mp isFixup with isFirst | isSecond
    · have bounds := inside fixup isFirst
      omega
    · have bounds := insideLast fixup isSecond
      omega
  resolved := second.resolved.trans first.resolved

theorem append (bytes : Array UInt8) :
    Continues buffer (buffer.appendBytes bytes) where
  text := ⟨bytes, rfl⟩
  labels := fun _ _ => id
  fixups := ⟨[], (List.append_nil _).symm, fun _ isFixup => by cases isFixup⟩
  resolved := rfl

theorem appendWord (word : UInt32) (line : String) :
    Continues buffer (buffer.appendWord word line) where
  text := ⟨Word.bytes word, rfl⟩
  labels := fun _ _ => id
  fixups := ⟨[], (List.append_nil _).symm, fun _ isFixup => by cases isFixup⟩
  resolved := rfl

theorem place {label : Label} (isFree : buffer.position? label = none) :
    Continues buffer (buffer.place label) where
  text := ⟨#[], Array.append_empty.symm⟩
  labels other position isBound := by
    have isPlaced := @position?_place buffer label other
    by_cases same : other = label
    · rw [same] at isBound
      rw [position?, isBound] at isFree
      cases isFree
    · rw [if_neg same] at isPlaced
      exact isPlaced.trans isBound
  fixups := ⟨[], (List.append_nil _).symm, fun _ isFixup => by cases isFixup⟩
  resolved := rfl

theorem bind (label : Label) : Continues buffer (buffer.bind label).1 := by
  unfold CodeBuffer.bind
  cases isError : buffer.bindError? label with
  | some cause => exact .refl buffer
  | none => exact .place (bindError?_eq_none.mp isError).2

theorem adds {item : Item} (adds : buffer.Adds item next) :
    Continues buffer next := by
  cases adds with
  | insn _ => exact .appendWord _ _
  | reaching _ _ _ _ _ => exact (appendWord _ _).trans (.appendWord _ _)
  | @waiting _ _ _ label word _ _ _ _ =>
      refine ⟨⟨Word.bytes word ++ Word.bytes 0, Array.append_assoc⟩,
        fun _ _ => id, ⟨[⟨buffer.size, label⟩], Array.toList_push, ?_⟩, rfl⟩
      intro fixup isFixup
      cases List.mem_singleton.mp isFixup
      simp
  | mark _ _ isFree => exact .place isFree

theorem emitItems (items : Fragment) :
    Continues buffer (buffer.emitItems items).1 :=
  emitItems_induction Continues refl (fun isNext => (adds isNext).trans)
    buffer items

theorem appendNops (count : Nat) :
    Continues buffer (buffer.appendNops count) := by
  induction count generalizing buffer with
  | zero => exact .refl buffer
  | succ count induction => exact (appendWord _ _).trans induction

end Continues

theorem perform_continues (notResolve : action ≠ .resolve)
    (isNext : buffer.perform action = some (next, report)) :
    Continues buffer next := by
  cases action with
  | resolve => exact absurd rfl notResolve
  | emit fragment =>
      have isEmitted := Option.some.inj isNext
      unfold CodeBuffer.emit at isEmitted
      split at isEmitted
      · cases isEmitted
        exact .refl _
      · have continues := @Continues.emitItems buffer fragment
        rwa [isEmitted] at continues
  | bind label =>
      have continues := @Continues.bind buffer label
      rwa [show buffer.bind label = (next, report) from Option.some.inj isNext]
        at continues
  | append bytes =>
      cases isNext
      exact .append bytes
  | align boundary =>
      unfold perform alignTo? at isNext
      simp only [Option.map_map, Option.map_eq_some_iff, Function.comp,
        Prod.mk.injEq] at isNext
      obtain ⟨count, _, rfl, rfl⟩ := isNext
      exact .appendNops count

/-- The buffer with other code in front of the cursor. -/
def withText (buffer : CodeBuffer) (text : Array UInt8) : CodeBuffer :=
  { buffer with text := text }

section WithText

variable {text : Array UInt8}

theorem appendWord_withText (sameSize : text.size = buffer.size) (word : UInt32)
    (line : String) :
    (buffer.withText text).appendWord word line =
      (buffer.appendWord word line).withText (text ++ Word.bytes word) := by
  have sameSize : text.size = buffer.text.size := sameSize
  cases buffer
  simp only [withText, appendWord, sameSize]

theorem bind_withText (sameSize : text.size = buffer.size) (label : Label) :
    (buffer.withText text).bind label =
      ((buffer.bind label).1.withText text, (buffer.bind label).2) := by
  have samePlace : (buffer.withText text).place label =
      (buffer.place label).withText text := by
    have sameSize : text.size = buffer.text.size := sameSize
    cases buffer
    simp only [withText, place, sameSize]
    rfl
  unfold bind
  rw [samePlace, show (buffer.withText text).bindError? label =
    buffer.bindError? label from rfl]
  cases buffer.bindError? label <;> rfl

theorem branchWord_withText (sameSize : text.size = buffer.size)
    (condition : Condition) (left right : Reg) (label : Label) :
    (buffer.withText text).branchWord condition left right label =
      buffer.branchWord condition left right label := by
  unfold branchWord
  rw [show (buffer.withText text).size = buffer.size from sameSize]
  rfl

end WithText

/-- An operation that appends the same bytes and does otherwise the same
whatever code stands in front of the cursor, if it is as long. -/
def Appending (operation : CodeBuffer → CodeBuffer × Option AsmError) : Prop :=
  ∀ (buffer : CodeBuffer) (text : Array UInt8), text.size = buffer.size →
    ∃ more, (operation buffer).1.text = buffer.text ++ more ∧
      operation (buffer.withText text) =
        ((operation buffer).1.withText (text ++ more), (operation buffer).2)

namespace Appending

variable {operation : CodeBuffer → CodeBuffer × Option AsmError}

theorem of_same (isText : ∀ buffer, (operation buffer).1.text = buffer.text)
    (isSame : ∀ buffer text, text.size = buffer.size →
      operation (buffer.withText text) =
      ((operation buffer).1.withText text, (operation buffer).2)) :
      Appending operation := by
  intro buffer text sameSize
  refine ⟨#[], ?_, ?_⟩
  · rw [isText, Array.append_empty]
  · rw [isSame _ _ sameSize, Array.append_empty]

theorem append (bytes : Array UInt8) :
    Appending fun buffer => (buffer.appendBytes bytes, none) :=
  fun _ _ _ => ⟨bytes, rfl, rfl⟩

theorem appendWord (word : UInt32) (line : String) :
    Appending fun buffer => (buffer.appendWord word line, none) :=
  fun _ _ sameSize => ⟨Word.bytes word, rfl,
    congrArg (·, none) (appendWord_withText sameSize word line)⟩

theorem bind (label : Label) : Appending (bind · label) := by
  refine of_same (fun buffer => ?_) fun buffer text sameSize =>
    bind_withText sameSize label
  unfold CodeBuffer.bind
  cases buffer.bindError? label <;> rfl

theorem andThen {second : CodeBuffer → CodeBuffer × Option AsmError}
    (isFirst : Appending operation) (isSecond : Appending second) :
    Appending fun buffer => match operation buffer with
      | (next, none) => second next
      | (next, some cause) => (next, some cause) := by
  intro buffer text sameSize
  obtain ⟨more, isText, isSame⟩ := isFirst buffer text sameSize
  dsimp only
  rw [isSame]
  cases isNext : operation buffer with
  | mk next report =>
      rw [isNext] at isText
      cases report with
      | some cause => exact ⟨more, isText, rfl⟩
      | none =>
          have nextSize : (text ++ more).size = next.size := by
            rw [size, isText, Array.size_append, Array.size_append,
              sameSize, size]
          obtain ⟨evenMore, isLast, isAlike⟩ :=
            isSecond next (text ++ more) nextSize
          refine ⟨more ++ evenMore, ?_, ?_⟩
          · rw [isLast, isText, Array.append_assoc]
          · rw [← Array.append_assoc]
            exact isAlike

/-- An operation that does nothing but to give a report. -/
theorem nothing (report : Option AsmError) :
    Appending fun buffer => (buffer, report) :=
  of_same (fun _ => rfl) fun _ _ _ => rfl

theorem emitItem (item : Item) : Appending (emitItem · item) := by
  cases item with
  | insn instruction =>
      simp only [CodeBuffer.emitItem]
      cases instruction.encode with
      | error cause => exact nothing (some cause)
      | ok word => exact appendWord word _
  | mark label =>
      intro buffer text sameSize
      simp only [CodeBuffer.emitItem]
      rw [show (buffer.withText text).position? label =
        buffer.position? label from rfl]
      split
      · exact nothing _ buffer text sameSize
      · split
        · exact nothing _ buffer text sameSize
        · exact bind label buffer text sameSize
  | branch condition left right label =>
      intro buffer text sameSize
      simp only [CodeBuffer.emitItem, branchWord_withText sameSize]
      cases buffer.branchWord condition left right label with
      | error cause => exact nothing _ buffer text sameSize
      | ok written =>
          obtain ⟨word, bound⟩ := written
          have grown : (text ++ Word.bytes word).size = (buffer.appendWord word
              (Item.branchText condition left right label)).size := by
            rw [Array.size_append, sameSize, size_appendWord]
            rfl
          refine ⟨Word.bytes word ++ Word.bytes 0, ?_, ?_⟩
          · cases bound <;> exact Array.append_assoc
          · rw [← Array.append_assoc]
            dsimp only
            rw [appendWord_withText sameSize]
            cases bound with
            | true => exact congrArg (·, none) (appendWord_withText grown 0 _)
            | false =>
                rw [show (buffer.withText text).size =
                  buffer.size from sameSize]
                exact congrArg (·, none) (@appendWord_withText
                  ((buffer.appendWord word _).addFixup ⟨buffer.size, label⟩) _
                  grown 0 _)

theorem emitItems (items : Fragment) : Appending (emitItems · items) := by
  induction items with
  | nil => exact nothing none
  | cons item rest induction => exact (emitItem item).andThen induction

theorem appendNops (count : Nat) :
    Appending fun buffer => (buffer.appendNops count, none) := by
  induction count with
  | zero => exact nothing none
  | succ count induction => exact (appendWord 0 _).andThen induction

end Appending

/-- Every operation but resolving does the same whatever code stands in front of
the cursor. -/
theorem perform_withText {text : Array UInt8}
    (sameSize : text.size = buffer.size) (notResolve : action ≠ .resolve)
    (isNext : buffer.perform action = some (next, report)) :
    ∃ more, next.text = buffer.text ++ more ∧
      (buffer.withText text).perform action =
        some (next.withText (text ++ more), report) := by
  have finish : ∀ operation : CodeBuffer →
      CodeBuffer × Option AsmError, Appending operation →
      operation buffer = (next, report) →
        ∃ more, next.text = buffer.text ++ more ∧
        some (operation (buffer.withText text)) =
          some (next.withText (text ++ more), report) := by
    intro operation appending isResult
    obtain ⟨more, isText, isSame⟩ := appending buffer text sameSize
    rw [isResult] at isText isSame
    exact ⟨more, isText, congrArg some isSame⟩
  cases action with
  | resolve => exact absurd rfl notResolve
  | emit fragment =>
      refine finish (emit · fragment) ?_ (Option.some.inj isNext)
      unfold emit
      cases fragment.crashes with
      | true => exact .nothing _
      | false => exact .emitItems fragment
  | bind label => exact finish _ (.bind label) (Option.some.inj isNext)
  | append bytes => exact finish _ (.append bytes) (Option.some.inj isNext)
  | align boundary =>
      simp only [perform, alignTo?] at isNext ⊢
      rw [show (buffer.withText text).size = buffer.size from sameSize]
      cases isPadding : padding? buffer.size boundary with
      | none =>
          rw [isPadding] at isNext
          cases isNext
      | some count =>
          rw [isPadding] at isNext
          exact finish _ (.appendNops count) (Option.some.inj isNext)

/-- The same buffer but for some of the waiting branches, which are filled in
already. -/
structure HalfPatched (plain patched : CodeBuffer) : Prop where
  isOpen : plain.resolved = false
  inside : ∀ fixup ∈ plain.fixups.toList, fixup.position + 4 ≤ plain.size
  patched : ∃ first, first <+: Fixup.patches plain.labels plain.fixups.toList ∧
    patched = plain.withText (Patch.applyAll plain.text first)

namespace HalfPatched

variable {plain patched : CodeBuffer}

theorem start (listing : Bool) :
    HalfPatched (empty listing) (empty listing) where
  isOpen := rfl
  inside _ isFixup := by cases isFixup
  patched := ⟨[], List.nil_prefix, rfl⟩

theorem resolve_eq (half : HalfPatched plain patched) :
    patched.resolve = plain.resolve := by
  obtain ⟨first, isFirst, rfl⟩ := half.patched
  have isOpen : (plain.withText (Patch.applyAll plain.text first)).resolved =
      false := half.isOpen
  rw [CodeBuffer.resolve_eq half.isOpen, CodeBuffer.resolve_eq isOpen]
  unfold withText
  simp only [Patch.applyAll_applyAll isFirst]

/-- An attempt to resolve that fails fills in some branches. -/
theorem attempt (half : HalfPatched plain patched) {cause : AsmError}
    (fails : patched.resolve = (next, some cause)) :
    HalfPatched plain next := by
  refine ⟨half.isOpen, half.inside, _, List.prefix_rfl, ?_⟩
  rw [half.resolve_eq, CodeBuffer.resolve_eq half.isOpen] at fails
  dsimp only at fails
  split at fails
  · cases fails
  · cases fails
    rfl

theorem perform (half : HalfPatched plain patched)
    (notResolve : action ≠ .resolve)
    (isNext : patched.perform action = some (next, report)) :
    ∃ plainNext, plain.perform action = some (plainNext, report) ∧
      HalfPatched plainNext next := by
  obtain ⟨first, isFirst, rfl⟩ := half.patched
  have sameSize : plain.text.size =
      (plain.withText (Patch.applyAll plain.text first)).size :=
    (Patch.size_applyAll first plain.text).symm
  obtain ⟨more, isText, isPlain⟩ := perform_withText sameSize notResolve isNext
  have continues := perform_continues notResolve isPlain
  have grows : plain.size ≤ (next.withText (plain.text ++ more)).size :=
    continues.size_le
  obtain ⟨added, isFixups, insideAdded⟩ := continues.fixups
  refine ⟨_, isPlain, ⟨continues.resolved.trans half.isOpen, ?_, first, ?_, ?_⟩⟩
  · intro fixup isFixup
    rw [isFixups] at isFixup
    rcases List.mem_append.mp isFixup with isOld | isNew
    · have inside := half.inside fixup isOld
      omega
    · have inside := insideAdded fixup isNew
      omega
  · rw [isFixups]
    exact isFirst.trans (Fixup.patches_extends continues.labels _ added)
  · have inside : ∀ patch ∈ first, patch.position + 4 ≤ plain.text.size := by
      intro patch isPatch
      obtain ⟨fixup, isFixup, hasPatch⟩ :=
        Fixup.mem_patches (isFirst.subset isPatch)
      rw [Fixup.position_patch hasPatch]
      exact half.inside fixup isFixup
    change next = next.withText (Patch.applyAll (plain.text ++ more) first)
    rw [Patch.applyAll_append_text more inside]
    exact isText ▸ rfl

theorem performAll (half : HalfPatched plain patched)
    (isRun : patched.performAll actions = some (last, reports))
    (noneSucceeds : (Action.resolve, none) ∉ reports) :
    ∃ plainLast, plain.performAll (actions.filter (· ≠ .resolve)) =
        some (plainLast, reports.filter (·.1 ≠ .resolve)) ∧
          HalfPatched plainLast last := by
  induction actions generalizing plain patched reports with
  | nil =>
      cases isRun
      exact ⟨plain, rfl, half⟩
  | cons action rest induction =>
      obtain ⟨next, report, more, isAction, isRest, rfl⟩ :=
        performAll_cons_eq_some.mp isRun
      rw [List.mem_cons, not_or] at noneSucceeds
      by_cases isResolve : action = .resolve
      · subst isResolve
        cases report with
        | none => exact absurd rfl noneSucceeds.1
        | some cause =>
            have kept := half.attempt (Option.some.inj isAction)
            obtain ⟨plainLast, isPlain, halfLast⟩ :=
              induction kept isRest noneSucceeds.2
            exact ⟨plainLast, by simpa using isPlain, halfLast⟩
      · obtain ⟨plainNext, isPlain, kept⟩ := half.perform isResolve isAction
        obtain ⟨plainLast, isPlainRest, halfLast⟩ :=
    induction kept isRest noneSucceeds.2
        refine ⟨plainLast, ?_, halfLast⟩
        rw [List.filter_cons_of_pos (by simpa using isResolve),
          List.filter_cons_of_pos (by simpa using isResolve)]
        exact performAll_cons_eq_some.mpr ⟨_, _, _, isPlain, isPlainRest, rfl⟩

end HalfPatched

/-- Attempts to resolve that fail leave no trace: without them every other
operation reports the same, and a last attempt leaves the same code, listing,
labels and waiting branches and succeeds or fails alike. -/
theorem resolve_behind_failures {listing : Bool}
    (isRun : (empty listing).performAll actions = some (last, reports))
    (noneSucceeds : (Action.resolve, none) ∉ reports) :
    ∃ plain, (empty listing).performAll (actions.filter (· ≠ .resolve)) =
        some (plain, reports.filter (·.1 ≠ .resolve)) ∧
          plain.resolve = last.resolve := by
  obtain ⟨plain, isPlain, half⟩ :=
    (HalfPatched.start listing).performAll isRun noneSucceeds
  exact ⟨plain, isPlain, half.resolve_eq.symm⟩

/-- Two branches of which only the first has its label, an attempt to resolve
that fills it in and fails at the second, and what lets a later attempt
succeed. -/
def interrupted : List Action :=
  [.emit (Asm.jump 1), .emit (Asm.jump 2), .bind 1, .resolve,
    .append #[0xff, 0, 0, 0xff], .bind 2, .emit (Asm.jump 1), .align 16]

theorem resolve_behind_failures_interrupted : ∃ last reports,
    (empty true).performAll interrupted = some (last, reports) ∧
      (Action.resolve, none) ∉ reports ∧ last.resolve.2 = none ∧
      ∃ plain, (empty true).performAll (interrupted.filter (· ≠ .resolve)) =
        some (plain, reports.filter (·.1 ≠ .resolve)) ∧
          plain.resolve = last.resolve := by
  have noneSucceeds : ((empty true).performAll interrupted).all
      fun result => (Action.resolve, none) ∉ result.2 ∧
        result.1.resolve.2 = none := by
    decide +kernel
  obtain ⟨⟨last, reports⟩, isRun⟩ :
      ∃ result, (empty true).performAll interrupted = some result :=
    ⟨_, rfl⟩
  rw [isRun, Option.all_some, decide_eq_true_iff] at noneSucceeds
  exact ⟨last, reports, isRun, noneSucceeds.1, noneSucceeds.2,
    resolve_behind_failures isRun noneSucceeds.1⟩

end LaneKernel.CodeBuffer
