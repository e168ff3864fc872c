import LaneKernel.Proofs.BufferHistory

/-!
# Listings and padding

A listing is written beside the code and never read by it: the buffer that keeps
one and the buffer that does not go through the same states otherwise.  Padding
is appended before the waiting branches are filled in, and filling in does not
reach it.  So a program has one outcome for all options that share the
unrolling, and a listing shows what the finished code holds.  The main statement
is `Program.compile_lists`.
-/

namespace LaneKernel

theorem Label.name_injective {first second : Int}
    (same : name first = name second) : first = second := by
  have natural : ∀ number other : Nat, number.repr = other.repr →
      number = other := by
    intro number other same
    have read := congrArg
      (fun text : String => Nat.ofDigitChars 10 text.toList 0) same
    simpa only [Nat.toList_repr, Nat.ofDigitChars_ten_toDigits] using read
  have unsigned : ∀ number other : Nat, number.repr ≠ "-" ++ other.repr := by
    intro number other same
    have isSign : '-' ∈ Nat.toDigits 10 number := by
      rw [← Nat.toList_repr, same]
      simp
    exact absurd (Nat.isDigit_of_mem_toDigits (by decide) (by decide) isSign)
      (by decide)
  have sameChars := congrArg String.toList same
  simp only [name, Int.toString_eq_repr, String.toList_append,
    List.append_cancel_left_eq, String.toList_inj, Int.repr_eq_if] at sameChars
  split at sameChars <;> split at sameChars
  · have sameNumber := natural _ _ sameChars
    omega
  · exact absurd sameChars (unsigned _ _)
  · exact absurd sameChars.symm (unsigned _ _)
  · have digits := congrArg String.toList sameChars
    rw [String.toList_append, String.toList_append, List.append_cancel_left_eq,
      String.toList_inj] at digits
    have sameNumber := natural _ _ digits
    omega

namespace MachineCode

/-- The line of a word at an address. -/
def wordLine (address : Nat) (word : UInt32) (text : String) : String :=
  Text.padLeft 6 ' ' (Text.hexDigits address) ++ ":  "
    ++ Text.hexPadded 8 word.toNat ++ "    "
    ++ text

def labelLine (label : Label) : String := label.name ++ ":"

/-- Whether a line shows a word; the lines of labels start with their letter. -/
def isWordLine (line : String) : Bool := line.toList.head? != some 'L'

/-- A listing that shows the words of the code in order and every label in front
of the word that it stands at. -/
structure Lists (code : MachineCode) (labels : List (Label × Nat)) : Prop where
  words : ∃ texts : List String, code.bytes.size = 4 * texts.length ∧
    code.listing.filter isWordLine = texts.mapIdx fun place text =>
      wordLine (4 * place) (Word.ofBytes code.bytes (4 * place)) text
  bound : ∀ label offset, labels.lookup label = some offset →
    ∃ front back, code.listing = front ++ labelLine label :: back ∧
      labelLine label ∉ front ++ back ∧ 4 * front.countP isWordLine = offset
  others : ∀ line ∈ code.listing, isWordLine line = false →
    ∃ label offset, labels.lookup label = some offset ∧ line = labelLine label

theorem mem_toDigits {number : Nat} {digit : Char}
    (isDigit : digit ∈ Nat.toDigits 16 number) :
    ∃ value, digit = Nat.digitChar value := by
  induction number using Nat.strongRecOn with
  | ind number induction =>
      rw [Nat.toDigits_eq_if (by decide)] at isDigit
      split at isDigit
      case isTrue => exact ⟨number, List.mem_singleton.mp isDigit⟩
      case isFalse isLarge =>
        rcases List.mem_append.mp isDigit with isFront | isLast
        · exact induction (number / 16) (by omega) isFront
        · exact ⟨_, List.mem_singleton.mp isLast⟩

@[simp] theorem isWordLine_wordLine (address : Nat) (word : UInt32)
    (text : String) : isWordLine (wordLine address word text) = true := by
  unfold isWordLine wordLine Text.padLeft Text.replicate Text.hexDigits
  simp only [String.toList_append, String.toList_ofList, List.append_assoc,
    bne_iff_ne]
  cases 6 - (String.ofList (Nat.toDigits 16 address)).length with
  | succ count => simp [List.replicate_succ]
  | zero =>
      cases isDigits : Nat.toDigits 16 address with
      | nil => exact absurd isDigits Nat.toDigits_ne_nil
      | cons digit rest =>
          obtain ⟨value, rfl⟩ := mem_toDigits (isDigits ▸ List.mem_cons_self)
          intro isLetter
          exact Nat.digitChar_ne 'L' (by decide) (Option.some.inj isLetter)

@[simp] theorem isWordLine_labelLine (label : Label) :
    isWordLine (labelLine label) = false := by
  simp [isWordLine, labelLine, Label.name]

theorem labelLine_inj {first second : Label} :
    labelLine first = labelLine second ↔ first = second := by
  refine ⟨fun same => Label.name_injective (String.toList_inj.mp ?_),
    congrArg labelLine⟩
  have sameChars := congrArg String.toList same
  simpa only [labelLine, String.toList_append, List.append_cancel_right_eq]
    using sameChars

end MachineCode

namespace CodeBuffer

/-- The buffer without its listing. -/
def quiet (buffer : CodeBuffer) : CodeBuffer :=
  { buffer with listing := false, entries := #[] }

section Quiet

variable (buffer : CodeBuffer)

theorem quiet_bind (label : Label) :
    buffer.quiet.bind label =
      ((buffer.bind label).1.quiet, (buffer.bind label).2) := by
  unfold bind
  rw [show buffer.quiet.bindError? label = buffer.bindError? label from rfl]
  cases buffer.bindError? label <;> rfl

theorem quiet_emitItem (item : Item) :
    buffer.quiet.emitItem item =
      ((buffer.emitItem item).1.quiet, (buffer.emitItem item).2) := by
  cases item with
  | insn instruction =>
      simp only [emitItem]
      cases instruction.encode <;> rfl
  | branch condition left right label =>
      simp only [emitItem]
      rw [show buffer.quiet.branchWord condition left right label =
        buffer.branchWord condition left right label from rfl]
      cases buffer.branchWord condition left right label with
      | error cause => rfl
      | ok written =>
          obtain ⟨word, bound⟩ := written
          cases bound <;> rfl
  | mark label =>
      simp only [emitItem]
      rw [show buffer.quiet.position? label = buffer.position? label from rfl]
      split
      · rfl
      · split
        · rfl
        · exact buffer.quiet_bind label

theorem quiet_emitItems (items : Fragment) :
    buffer.quiet.emitItems items =
      ((buffer.emitItems items).1.quiet, (buffer.emitItems items).2) := by
  induction items generalizing buffer with
  | nil => rfl
  | cons item rest induction =>
      rw [emitItems, emitItems, quiet_emitItem]
      rcases buffer.emitItem item with ⟨next, _ | cause⟩
      · exact induction next
      · rfl

theorem quiet_emit (fragment : Fragment) :
    buffer.quiet.emit fragment =
      ((buffer.emit fragment).1.quiet, (buffer.emit fragment).2) := by
  unfold emit
  split
  · rfl
  · exact buffer.quiet_emitItems fragment

theorem quiet_appendNops (count : Nat) :
    buffer.quiet.appendNops count = (buffer.appendNops count).quiet := by
  induction count generalizing buffer with
  | zero => rfl
  | succ count induction => exact induction (buffer.appendWord 0 Insn.nop.text)

end Quiet

/-- The bytes of words that do nothing. -/
def zeros (count : Nat) : Array UInt8 :=
  (Word.flatten (List.replicate count 0)).toArray

@[simp] theorem size_zeros (count : Nat) : (zeros count).size = 4 * count := by
  simp [zeros]

/-- The bytes with the fewest zero words behind them that reach a multiple of
sixteen bytes. -/
def Pads (bytes padded : Array UInt8) : Prop :=
  ∃ count, padded = bytes ++ zeros count ∧ padded.size % 16 = 0 ∧
    ∀ fewer < count, (bytes ++ zeros fewer).size % 16 ≠ 0

theorem padding?_eq_some {length : Nat} (whole : length % 4 = 0) :
    ∃ count, padding? length 16 = some count ∧ (length + 4 * count) % 16 = 0 ∧
      ∀ fewer < count, (length + 4 * fewer) % 16 ≠ 0 := by
  have divides : Nat.gcd 4 (16 : Int).toNat ∣ length :=
    Nat.dvd_of_mod_eq_zero whole
  obtain ⟨count, words⟩ := exists_fewestWords_iff.mpr (.inr divides)
  have aligned_iff : ∀ length, Aligned 16 length ↔ length % 16 = 0 :=
    aligned_iff_mod (show (0 : Int) < 16 by decide)
  exact ⟨count, padding?_eq_some_iff.mpr words,
    (aligned_iff _).mp words.reached,
    fun fewer below => mt (aligned_iff _).mpr (words.fewest fewer below)⟩

end CodeBuffer

/-- Whether an entry shows a word. -/
def ListingEntry.isWord : ListingEntry → Bool
  | label _ => false
  | word _ _ => true

namespace CodeBuffer

variable {buffer : CodeBuffer}

section Render

variable (bytes : Array UInt8)

theorem renderEntry_label (label : Label) :
    renderEntry bytes (.label label) = MachineCode.labelLine label := by
  rw [renderEntry, MachineCode.labelLine]

theorem renderEntry_word (position : Nat) (text : String) :
    renderEntry bytes (.word position text) =
      MachineCode.wordLine position (Word.ofBytes bytes position) text := by
  rw [renderEntry, MachineCode.wordLine]

theorem isWordLine_renderEntry (entry : ListingEntry) :
    MachineCode.isWordLine (renderEntry bytes entry) = entry.isWord := by
  cases entry with
  | label label =>
      rw [renderEntry_label, MachineCode.isWordLine_labelLine,
        ListingEntry.isWord]
  | word position text =>
      rw [renderEntry_word, MachineCode.isWordLine_wordLine,
        ListingEntry.isWord]

theorem renderEntry_eq_labelLine {bytes : Array UInt8} {entry : ListingEntry}
    {label : Label}
    (isLine : renderEntry bytes entry = MachineCode.labelLine label) :
    entry = .label label := by
  have isKind := isWordLine_renderEntry bytes entry
  rw [isLine, MachineCode.isWordLine_labelLine] at isKind
  cases entry with
  | label other =>
      rw [renderEntry_label, MachineCode.labelLine_inj] at isLine
      rw [isLine]
  | word position text => cases isKind

end Render

/-- A buffer whose listing has an entry for every word, in order, and one for
every bound label, in front of the word at its position. -/
structure Recorded (buffer : CodeBuffer) : Prop where
  listing : buffer.listing = true
  words : ∃ texts : List String, buffer.size = 4 * texts.length ∧
    buffer.entries.toList.filter ListingEntry.isWord =
      texts.mapIdx fun place text => .word (4 * place) text
  bound : ∀ label offset, buffer.position? label = some offset →
    ∃ front back, buffer.entries.toList = front ++ .label label :: back ∧
      .label label ∉ front ++ back ∧
        4 * front.countP ListingEntry.isWord = offset
  others : ∀ label, .label label ∈ buffer.entries.toList →
    ∃ offset, buffer.position? label = some offset

namespace Recorded

theorem empty : Recorded (empty true) where
  listing := rfl
  words := ⟨[], rfl, rfl⟩
  bound := nofun
  others := nofun

theorem size_eq (recorded : Recorded buffer) :
    buffer.size = 4 * buffer.entries.toList.countP ListingEntry.isWord := by
  obtain ⟨texts, isSize, isWords⟩ := recorded.words
  rw [List.countP_eq_length_filter, isWords, List.length_mapIdx, isSize]

theorem appendWord (recorded : Recorded buffer) (word : UInt32)
    (line : String) : Recorded (buffer.appendWord word line) := by
  obtain ⟨texts, isSize, isWords⟩ := recorded.words
  have isEntries : (buffer.appendWord word line).entries.toList =
      buffer.entries.toList ++ [.word buffer.size line] := by
    change (if buffer.listing then buffer.entries.push _
            else buffer.entries).toList = _
    rw [if_pos recorded.listing, Array.toList_push]
    rfl
  refine ⟨recorded.listing, ⟨texts ++ [line], ?_, ?_⟩, ?_, ?_⟩
  · rw [size_appendWord, isSize, List.length_append, List.length_singleton,
      Nat.mul_add]
  · rw [isEntries, List.filter_append, isWords, List.mapIdx_concat, isSize]
    rfl
  · intro label offset isBound
    obtain ⟨front, back, isSplit, isOnly, isOffset⟩ :=
  recorded.bound label offset isBound
    refine ⟨front, back ++ [.word buffer.size line], ?_, ?_, isOffset⟩
    · rw [isEntries, isSplit, List.append_assoc, List.cons_append]
    · simpa using isOnly
  · intro label isEntry
    rw [isEntries] at isEntry
    exact recorded.others label (by simpa using isEntry)

theorem addFixup (recorded : Recorded buffer) (fixup : Fixup) :
    Recorded (buffer.addFixup fixup) :=
  ⟨recorded.listing, recorded.words, recorded.bound, recorded.others⟩

theorem place (recorded : Recorded buffer) {label : Label}
    (isFree : buffer.position? label = none) :
    Recorded (buffer.place label) := by
  have isNew : ListingEntry.label label ∉ buffer.entries.toList := by
    intro isEntry
    obtain ⟨offset, isBound⟩ := recorded.others label isEntry
    rw [isFree] at isBound
    cases isBound
  have isEntries : (buffer.place label).entries.toList =
      buffer.entries.toList ++ [.label label] := by
    change (if buffer.listing then buffer.entries.push _
            else buffer.entries).toList = _
    rw [if_pos recorded.listing, Array.toList_push]
  refine ⟨recorded.listing, ?_, ?_, ?_⟩
  · obtain ⟨texts, isSize, isWords⟩ := recorded.words
    refine ⟨texts, isSize, ?_⟩
    rw [isEntries, List.filter_append, isWords]
    exact List.append_nil _
  · intro other offset isBound
    rw [position?_place] at isBound
    split at isBound
    case isTrue same =>
      cases isBound
      subst same
      exact ⟨_, [], isEntries, by simpa using isNew, recorded.size_eq.symm⟩
    case isFalse different =>
      obtain ⟨front, back, isSplit, isOnly, isOffset⟩ :=
        recorded.bound other offset isBound
      refine ⟨front, back ++ [.label label], ?_, ?_, isOffset⟩
      · rw [isEntries, isSplit, List.append_assoc, List.cons_append]
      · simpa [different] using isOnly
  · intro other isEntry
    rw [isEntries, List.mem_append, List.mem_singleton] at isEntry
    rw [position?_place]
    split
    case isTrue => exact ⟨_, rfl⟩
    case isFalse different =>
      refine recorded.others other
        (isEntry.resolve_right fun same => different ?_)
      exact ListingEntry.label.inj same

theorem kept : Kept Recorded where
  word word line recorded := recorded.appendWord word line
  fixup fixup recorded := recorded.addFixup fixup
  place isFree recorded := recorded.place isFree

/-- A listing of the finished bytes shows what was recorded. -/
theorem lists (recorded : Recorded buffer) {bytes : Array UInt8}
    (isSize : bytes.size = buffer.size) :
    MachineCode.Lists ⟨bytes, buffer.entries.toList.map (renderEntry bytes)⟩
      buffer.labels := by
  have isKind : MachineCode.isWordLine ∘ renderEntry bytes =
      ListingEntry.isWord :=
    funext (isWordLine_renderEntry bytes)
  refine ⟨?_, ?_, ?_⟩
  · obtain ⟨texts, isLength, isWords⟩ := recorded.words
    refine ⟨texts, isSize.trans isLength, ?_⟩
    rw [List.filter_map, isKind, isWords, List.mapIdx_eq_zipIdx_map,
      List.mapIdx_eq_zipIdx_map, List.map_map]
    exact List.map_congr_left fun entry _ => renderEntry_word bytes _ _
  · intro label offset isBound
    obtain ⟨front, back, isSplit, isOnly, isOffset⟩ :=
  recorded.bound label offset isBound
    refine ⟨front.map (renderEntry bytes), back.map (renderEntry bytes),
      ?_, ?_, ?_⟩
    · rw [isSplit, List.map_append, List.map_cons, renderEntry_label]
    · rw [← List.map_append]
      intro isLine
      obtain ⟨entry, isEntry, isRendered⟩ := List.mem_map.mp isLine
      exact isOnly (renderEntry_eq_labelLine isRendered ▸ isEntry)
    · rw [List.countP_map, isKind, isOffset]
  · intro line isLine notWord
    obtain ⟨entry, isEntry, rfl⟩ := List.mem_map.mp isLine
    rw [isWordLine_renderEntry] at notWord
    cases entry with
    | label label =>
        obtain ⟨offset, isBound⟩ := recorded.others label isEntry
        exact ⟨label, offset, isBound, renderEntry_label bytes label⟩
    | word position text => cases notWord

end Recorded

/-- Code that was emitted into an empty buffer: whole words, and branches among
them that wait. -/
structure Drafted (buffer : CodeBuffer) : Prop where
  isOpen : buffer.resolved = false
  whole : ∃ draft, buffer.text.toList = Word.flatten draft
  inside : ∀ fixup ∈ buffer.fixups.toList, fixup.position + 4 ≤ buffer.size

theorem emitItems_of_emit {code : Fragment} {next : CodeBuffer}
    (emitted : buffer.emit code = (next, none)) :
    buffer.emitItems code = (next, none) := by
  unfold emit at emitted
  split at emitted
  · cases emitted
  · exact emitted

theorem drafted_of_emit {listing : Bool} {code : Fragment}
    (emitted : (empty listing).emit code = (buffer, none)) :
    Drafted buffer := by
  have isEmitted := emitItems_of_emit emitted
  obtain ⟨isOpen, _, _, _, _, draft, _, isText, _, _⟩ :=
    emitItems_emitted [] _ buffer code rfl rfl isEmitted
  have continues := @Continues.emitItems (empty listing) code
  rw [isEmitted] at continues
  obtain ⟨added, isFixups, inside⟩ := continues.fixups
  refine ⟨isOpen, ⟨draft, isText⟩, fun fixup isFixup => ?_⟩
  rw [isFixups] at isFixup
  exact Nat.le_trans (Nat.add_le_add_left (by decide) _)
    (inside fixup isFixup).2

/-- The code with every branch filled in that can be. -/
def filled (buffer : CodeBuffer) : Array UInt8 :=
  Patch.applyAll buffer.text (Fixup.patches buffer.labels buffer.fixups.toList)

theorem size_filled (buffer : CodeBuffer) : buffer.filled.size = buffer.size :=
  Patch.size_applyAll _ _

theorem Drafted.finish_appendNops (drafted : Drafted buffer) (count : Nat) :
    (match (buffer.appendNops count).resolve with
      | (_, some cause) => Except.error cause
      | (resolved, none) => resolved.finish) =
      match Fixup.failure? buffer.labels buffer.fixups.toList with
      | some cause => .error cause
      | none =>
          let bytes := buffer.filled ++ zeros count
          .ok ⟨bytes, (buffer.appendNops count).entries.toList.map
            (renderEntry bytes)⟩ := by
  obtain ⟨draft, isDraft⟩ := drafted.whole
  obtain ⟨isText, isLabels, isFixups, isOpen⟩ :=
    appendNops_spec buffer draft count isDraft
  have isPadded :
      (buffer.appendNops count).text = buffer.text ++ zeros count := by
    apply Array.toList_inj.mp
    rw [isText, Array.toList_append, isDraft, Word.flatten_append]
    rfl
  have inside : ∀ patch ∈ Fixup.patches buffer.labels buffer.fixups.toList,
      patch.position + 4 ≤ buffer.text.size := by
    intro patch isPatch
    obtain ⟨fixup, isFixup, hasPatch⟩ := Fixup.mem_patches isPatch
    rw [Fixup.position_patch hasPatch]
    exact drafted.inside fixup isFixup
  rw [resolve_eq (isOpen.trans drafted.isOpen), isLabels, isFixups, isPadded,
    Patch.applyAll_append_text (zeros count) inside]
  cases Fixup.failure? buffer.labels buffer.fixups.toList <;> rfl

end CodeBuffer

namespace Compiler

open CodeBuffer

/-- The words of padding behind code of a size. -/
def paddingWords (clean : Bool) (size : Nat) :
    Nat := if clean then (padding? size 16).getD 0 else 0

variable {code : Fragment} {buffer : CodeBuffer} {options : CompileOptions}

/-- Assembly of emitted code fails for the branches alone, and what it leaves is
the filled in code with padding behind it. -/
theorem assemble_of_emit
    (emitted : (CodeBuffer.empty options.listing).emit code = (buffer, none)) :
    assemble code options =
      match Fixup.failure? buffer.labels buffer.fixups.toList with
      | some cause => .error cause
      | none =>
          let count := paddingWords options.clean buffer.size
          let bytes := buffer.filled ++ zeros count
          .ok ⟨bytes, (buffer.appendNops count).entries.toList.map
            (renderEntry bytes)⟩ := by
  have isPadded :
      (if options.clean then (buffer.alignTo? 16).getD buffer else buffer) =
      buffer.appendNops (paddingWords options.clean buffer.size) := by
    unfold paddingWords alignTo?
    split
    case isFalse => rfl
    case isTrue => cases padding? buffer.size 16 <;> rfl
  unfold assemble
  rw [emitted]
  simp only [isPadded]
  exact (drafted_of_emit emitted).finish_appendNops
    (paddingWords options.clean buffer.size)

theorem assemble_eq
    (emitted : (CodeBuffer.empty true).emit code = (buffer, none)) :
    assemble code options =
      match Fixup.failure? buffer.labels buffer.fixups.toList with
      | some cause => .error cause
      | none =>
          let count := paddingWords options.clean buffer.size
          let bytes := buffer.filled ++ zeros count
          .ok ⟨bytes, if options.listing then
            (buffer.appendNops count).entries.toList.map (renderEntry bytes)
              else []⟩ := by
  obtain ⟨unroll, clean, listing⟩ := options
  cases listing with
  | true => exact assemble_of_emit emitted
  | false =>
      have isQuiet :
          (CodeBuffer.empty false).emit code = (buffer.quiet, none) := by
        rw [show CodeBuffer.empty false = (CodeBuffer.empty true).quiet from
          rfl, quiet_emit, emitted]
      rw [@assemble_of_emit code buffer.quiet ⟨unroll, clean, false⟩ isQuiet]
      simp only [quiet_appendNops]
      rfl

theorem assemble_error {cause : AsmError}
    (stops : (CodeBuffer.empty true).emit code = (buffer, some cause)) :
    assemble code options = .error cause := by
  have isStopped : (CodeBuffer.empty options.listing).emit code =
      (if options.listing then buffer else buffer.quiet, some cause) := by
    cases options.listing with
    | true => exact stops
    | false =>
        rw [show CodeBuffer.empty false = (CodeBuffer.empty true).quiet from
          rfl, quiet_emit, stops]
        rfl
  unfold assemble
  rw [isStopped]

theorem pads {bytes : Array UInt8} (whole : bytes.size % 4 = 0) :
    Pads bytes (bytes ++ zeros (paddingWords true bytes.size)) := by
  obtain ⟨count, isCount, reached, fewest⟩ := padding?_eq_some whole
  have isWords : paddingWords true bytes.size = count := by
    rw [paddingWords, if_pos rfl, isCount, Option.getD_some]
  refine ⟨count, by rw [isWords], ?_, fun fewer below => ?_⟩
  · rw [isWords, Array.size_append, size_zeros]
    exact reached
  · rw [Array.size_append, size_zeros]
    exact fewest fewer below

/-- Assembly for all options that share the unrolling. -/
theorem assemble_lists (code : Fragment) (unroll : Int) :
    (∃ cause, ∀ clean listing, assemble code ⟨unroll, clean, listing⟩ =
      .error cause) ∨
    ∃ buffer bytes padded, (CodeBuffer.empty true).emit code = (buffer, none) ∧
      Pads bytes padded ∧
      ∀ clean listing, ∃ result, assemble code ⟨unroll, clean, listing⟩ =
        .ok result ∧
        result.bytes = (if clean then padded else bytes) ∧
        (listing = true → result.Lists buffer.labels) ∧
        (listing = false → result.listing = []) := by
  rcases emitted : (CodeBuffer.empty true).emit code with ⟨buffer, _ | cause⟩
  case some => exact .inl ⟨cause, fun _ _ => assemble_error emitted⟩
  case none =>
    have assembled := fun options => @assemble_eq code buffer options emitted
    cases failure : Fixup.failure? buffer.labels buffer.fixups.toList with
    | some cause =>
        simp only [failure] at assembled
        exact .inl ⟨cause, fun _ _ => assembled _⟩
    | none =>
        simp only [failure] at assembled
        have drafted := drafted_of_emit emitted
        have recorded : Recorded buffer := by
          have recorded := Recorded.kept.emitItems code Recorded.empty
          rwa [emitItems_of_emit emitted] at recorded
        obtain ⟨draft, isDraft⟩ := drafted.whole
        have whole : buffer.filled.size % 4 = 0 := by
          rw [size_filled, size, ← Array.length_toList, isDraft,
            Word.length_flatten]
          exact Nat.mul_mod_right 4 _
        refine .inr ⟨buffer, buffer.filled, _, rfl, pads whole,
          fun clean listing => ?_⟩
        refine ⟨_, assembled _, ?_, ?_, ?_⟩
        · rw [size_filled]
          cases clean with
          | true => rfl
          | false => exact Array.append_empty
        · rintro rfl
          rw [← (appendNops_spec buffer draft (paddingWords clean buffer.size)
            isDraft).2.1]
          refine (Recorded.kept.appendNops _ recorded).lists ?_
          rw [Array.size_append, size_zeros, size_filled, size_appendNops]
        · rintro rfl
          rfl

end Compiler

/-- The labels that the code of a program binds, with their positions. -/
def Program.BindsLabels (program : Program) (unroll : Int)
    (labels : List (Label × Nat)) : Prop :=
  ∃ plan code later buffer,
    Compiler.plan Registry.standard program { unroll := unroll } = .ok plan ∧
    (((Compiler.emitKernel plan unroll.toNat).run
      Compiler.firstFreeLabel).run).run () = (.ok (code, later), ()) ∧
    (CodeBuffer.empty true).emit code = (buffer, none) ∧ buffer.labels = labels

/-- Listings and padding do not influence the code.  A program has one outcome
for all options that share the unrolling: one error, or one kernel whose code
has the fewest zero words behind it that reach a multiple of sixteen bytes if it
is to be padded, and whose listing, if one is kept, shows the finished words and
the labels where they are bound. -/
theorem Program.compile_lists (program : Program) (unroll : Int) :
    (∃ cause, ∀ clean listing, program.compile ⟨unroll, clean, listing⟩ =
      .error cause) ∨
    ∃ (kernel : CompiledKernel) (bytes padded : Array UInt8)
      (labels : List (Label × Nat)), CodeBuffer.Pads bytes padded ∧
        program.BindsLabels unroll labels ∧
      ∀ clean listing, ∃ code,
        program.compile ⟨unroll, clean, listing⟩ =
          .ok { kernel with code := code } ∧
        code.bytes = (if clean then padded else bytes) ∧
        (listing = true → code.Lists labels) ∧
          (listing = false → code.listing = []) := by
  have isPlan : ∀ clean listing,
      Compiler.plan Registry.standard program ⟨unroll, clean, listing⟩ =
        Compiler.plan (Registry.standard : Registry Unit) program
        { unroll := unroll } :=
    fun _ _ => rfl
  unfold Program.compile Compiler.compile
  simp only [isPlan]
  cases planned : Compiler.plan (Registry.standard : Registry Unit) program
    { unroll := unroll } with
  | error cause => exact .inl ⟨cause, fun _ _ => rfl⟩
  | ok plan =>
      dsimp only
      rcases emitted :
        (((Compiler.emitKernel plan unroll.toNat).run
        Compiler.firstFreeLabel).run).run () with ⟨cause | ⟨code, later⟩, ⟨⟩⟩
      case error => exact .inl ⟨cause.asProgramError, fun _ _ => rfl⟩
      case ok =>
        rcases Compiler.assemble_lists code unroll with
          ⟨cause, fails⟩ |
          ⟨buffer, bytes, padded, isBuffer, isPadded, assembled⟩
        · refine .inl ⟨(CompileError.assembly cause).asProgramError,
            fun clean listing => ?_⟩
          simp only [Compiler.finish, fails]
          rfl
        · refine .inr ⟨⟨{}, plan.frame.size,
            plan.registers, plan.frame.saved⟩,
            bytes, padded, buffer.labels, isPadded,
            ⟨plan, code, later, buffer, planned, emitted, isBuffer, rfl⟩,
            fun clean listing => ?_⟩
          obtain ⟨result, isResult, faithful⟩ := assembled clean listing
          refine ⟨result, ?_, faithful⟩
          simp only [Compiler.finish, isResult]
          rfl

end LaneKernel
