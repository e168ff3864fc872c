import LaneKernel.Proofs.BuildHistory
import LaneKernel.Proofs.Spacing

/-!
# Layouts of program text

How instructions may be written: one a line, with any white space around the
words and commas, any letter case, blank lines and comments.  Reading gives the
same instructions for every layout, and the text of an instruction is one of
them.  No layout tells whether an instruction is marked invariant, and a flag
that has no meaning is not written either.
-/

namespace LaneKernel

open Text

/-- White space that does not end the line. -/
def Gap (text : List Char) : Prop := Blank text ∧ '\n' ∉ text

/-- What may stand at the end of a line. -/
def Comment (text : List Char) :
    Prop := text = [] ∨ ∃ rest, text = '#' :: rest ∧ '\n' ∉ rest

/-- Operands with a comma between neighbours. -/
inductive OperandLayout : List VarIndex → List Char → Prop where
  | last {index : VarIndex} {front word behind : List Char} :
      Gap front → Spells (Var.nameOf index).toList word → Gap behind →
      OperandLayout [index] (front ++ (word ++ behind))
  | more {index : VarIndex} {rest : List VarIndex}
      {front word behind text : List Char} :
      Gap front → Spells (Var.nameOf index).toList word → Gap behind →
        OperandLayout rest text →
      OperandLayout (index :: rest)
        (front ++ (word ++ (behind ++ ([','] ++ text))))

/-- The word for a lane flag, with white space behind it. -/
inductive FlagLayout : UInt8 → List Char → Prop where
  | none : FlagLayout 0 []
  | x2 {word gap : List Char} : Spells ['x', '2'] word → Gap gap → gap ≠ [] →
      FlagLayout Instruction.flagX2 (word ++ gap)
  | x4 {word gap : List Char} : Spells ['x', '4'] word → Gap gap → gap ≠ [] →
      FlagLayout Instruction.flagX4 (word ++ gap)

/-- The instruction as every layout shows it: without the flags that have no
word. -/
def Instruction.shown (instruction : Instruction) : Instruction :=
  { instruction with
    flags := instruction.flags &&& (Instruction.flagX2 ||| Instruction.flagX4) }

inductive InstructionLayout (instruction : Instruction) : List Char → Prop where
  | line {front flags word gap operands : List Char} :
      Gap front → FlagLayout instruction.shown.flags flags →
      Spells instruction.opcode.toList word → Gap gap → gap ≠ [] →
      OperandLayout instruction.operands operands →
      InstructionLayout instruction
        (front ++ (flags ++ (word ++ (gap ++ operands))))

/-- Lines that hold the instructions in order, at most one each. -/
inductive CodeLayout : List Instruction → List (List Char) → Prop where
  | nil : CodeLayout [] []
  | blank {instructions : List Instruction} {gap comment : List Char}
      {lines : List (List Char)} :
      Gap gap → Comment comment → CodeLayout instructions lines →
      CodeLayout instructions ((gap ++ comment) :: lines)
  | line {instruction : Instruction} {instructions : List Instruction}
      {text comment : List Char} {lines : List (List Char)} :
      InstructionLayout instruction text → Comment comment →
        CodeLayout instructions lines →
      CodeLayout (instruction :: instructions) ((text ++ comment) :: lines)

/-- A text whose lines hold the instructions. -/
def LaysOut (text : String) (instructions : List Instruction) : Prop :=
  ∃ lines, lines ≠ [] ∧ CodeLayout instructions lines ∧
    text.toList = join ['\n'] lines

/-- A name in the form in which names are compared: letters and digits in lower
case. -/
structure Canonical (name : List Char) : Prop where
  plain : Plain name
  lower : Spells name name
  notEmpty : name ≠ []

instance (name : List Char) : Decidable (Canonical name) :=
  decidable_of_iff (Plain name ∧ name.map Char.toLower = name ∧ name ≠ [])
    ⟨fun ⟨plain, lower, notEmpty⟩ => ⟨plain, lower, notEmpty⟩,
      fun ⟨plain, lower, notEmpty⟩ => ⟨plain, lower, notEmpty⟩⟩

/-- The name of a slot with a role leads back to the slot. -/
theorem Var.nameOf_canonical {index : VarIndex}
    (named : Var.roleOf index ≠ .none) :
    Canonical (nameOf index).toList ∧
      ofNormalized? (nameOf index).toList = some index := by
  have all : ∀ number : Fin 64, Var.roleOf (number.val : Int) ≠ .none →
      Canonical (nameOf (number.val : Int)).toList ∧
        ofNormalized? (nameOf (number.val : Int)).toList =
          some (number.val : Int) := by
    decide +kernel
  obtain ⟨above, below⟩ := Program.bounds_of_roleOf named
  have isNumber : (index.toNat : Int) = index := Int.toNat_of_nonneg above
  have isNamed := all ⟨index.toNat, (Int.toNat_lt above).2 below⟩
  change Var.roleOf (index.toNat : Int) ≠ .none → _ at isNamed
  rw [isNumber] at isNamed
  exact isNamed named

/-- No opcode is written like a lane flag. -/
theorem Opcode.name_canonical {name : String} {opcode : Opcode}
    (found : Opcode.lookup? name = some opcode) :
    Canonical name.toList ∧ name.toList ≠ ['x', '2'] ∧
      name.toList ≠ ['x', '4'] := by
  have all : ∀ entry ∈ Opcode.table, Canonical entry.1.toList ∧
      entry.1.toList ≠ ['x', '2'] ∧ entry.1.toList ≠ ['x', '4'] := by
    decide +kernel
  obtain ⟨before, behind, isTable, _⟩ := List.lookup_eq_some_iff.mp found
  exact all (name, opcode)
    (isTable ▸ List.mem_append_right _ List.mem_cons_self)

namespace Canonical

variable {name word front behind : List Char}

theorem solid (canonical : Canonical name) (spells : Spells name word) :
    Solid word :=
  (spells.plain canonical.plain).solid

theorem trim (canonical : Canonical name) (blank : Blank front)
    (spells : Spells name word) (blankBehind : Blank behind) :
    Var.normalize (front ++ (word ++ behind)) = name := by
  rw [Var.normalize, trimChars_word blank (canonical.solid spells)
    (spells.ne_nil canonical.notEmpty) blankBehind]
  exact spells.lower canonical.plain

end Canonical

/-- A character that no layout uses within a line. -/
structure Foreign (character : Char) : Prop where
  notPlain : character.isAlphanum = false
  notComma : character ≠ ','
  notGap : ∀ gap, Gap gap → character ∉ gap

theorem foreign_newline : Foreign '\n' :=
  ⟨by decide, by decide, fun _ isGap => isGap.2⟩

theorem foreign_comment : Foreign '#' := by
  refine ⟨by decide, by decide, fun gap isGap isMark => ?_⟩
  have isBlank := isGap.1 '#' isMark
  exact absurd isBlank (by decide)

theorem comma_not_mem_gap {gap : List Char} (isGap : Gap gap) : ',' ∉ gap :=
  fun isComma => absurd (isGap.1 ',' isComma) (by decide)

/-- Slots that have a role. -/
def Named (indices : List VarIndex) :
    Prop := ∀ index ∈ indices, Var.roleOf index ≠ .none

theorem gap_nil : Gap [] := ⟨nofun, nofun⟩

theorem gap_single : Gap [' '] := ⟨List.forall_mem_singleton.mpr rfl, by decide⟩

theorem gap_space (gap : List Char) :
    Gap (if gap.isEmpty then [] else [' ']) := by
  split
  · exact gap_nil
  · exact gap_single

theorem solid_comma : Solid [','] := List.forall_mem_singleton.mpr rfl

namespace OperandLayout

variable {indices : List VarIndex} {text : List Char}

theorem not_mem (layout : OperandLayout indices text) (named : Named indices)
    {character : Char} (foreign : Foreign character) : character ∉ text := by
  induction layout with
  | last isFront spells isBehind =>
      have canonical := (Var.nameOf_canonical (named _ List.mem_cons_self)).1
      have notWord := (spells.plain canonical.plain).not_mem foreign.notPlain
      simp only [List.mem_append, not_or]
      exact ⟨foreign.notGap _ isFront, notWord, foreign.notGap _ isBehind⟩
  | more isFront spells isBehind _ induction =>
      obtain ⟨isNamed, named⟩ := List.forall_mem_cons.mp named
      have notWord :=
        (spells.plain (Var.nameOf_canonical isNamed).1.plain).not_mem
          foreign.notPlain
      simp only [List.mem_append, List.mem_singleton, not_or]
      exact ⟨foreign.notGap _ isFront, notWord, foreign.notGap _ isBehind,
        foreign.notComma, induction named⟩

theorem respaced (layout : OperandLayout indices text) (named : Named indices) :
    OperandLayout indices (Text.respaced text) := by
  induction layout with
  | @last index front word behind isFront spells isBehind =>
      have canonical := (Var.nameOf_canonical (named _ List.mem_cons_self)).1
      rw [respaced_gap isFront.1 (canonical.solid spells)
        (spells.ne_nil canonical.notEmpty), respaced_blank isBehind.1]
      exact .last (gap_space front) spells gap_nil
  | @more index rest front word behind text isFront spells isBehind _
      induction =>
      obtain ⟨isNamed, named⟩ := List.forall_mem_cons.mp named
      have canonical := (Var.nameOf_canonical isNamed).1
      rw [respaced_gap isFront.1 (canonical.solid spells)
        (spells.ne_nil canonical.notEmpty),
        respaced_gap isBehind.1 solid_comma (List.cons_ne_nil _ _)]
      exact .more (gap_space front) spells (gap_space behind) (induction named)

theorem join_words (layout : OperandLayout indices text)
    (named : Named indices) :
    OperandLayout indices (join [' '] (words text)) := by
  cases layout with
  | last isFront spells isBehind =>
      have canonical := (Var.nameOf_canonical (named _ List.mem_cons_self)).1
      rw [Text.join_words (canonical.solid spells)
        (spells.ne_nil canonical.notEmpty) isFront.1, respaced_blank isBehind.1]
      exact .last gap_nil spells gap_nil
  | @more index rest front word behind text isFront spells isBehind layout =>
      obtain ⟨isNamed, named⟩ := List.forall_mem_cons.mp named
      have canonical := (Var.nameOf_canonical isNamed).1
      rw [Text.join_words (canonical.solid spells)
        (spells.ne_nil canonical.notEmpty) isFront.1,
        respaced_gap isBehind.1 solid_comma (List.cons_ne_nil _ _)]
      exact .more gap_nil spells (gap_space behind) (layout.respaced named)

theorem parse_name {index : VarIndex} {front word behind : List Char}
    (isNamed : Var.roleOf index ≠ .none) (isFront : Gap front)
    (spells : Spells (Var.nameOf index).toList word) (isBehind : Gap behind) :
    Var.parse (front ++ (word ++ behind)) = .ok index := by
  obtain ⟨canonical, isIndex⟩ := Var.nameOf_canonical isNamed
  simp only [Var.parse, canonical.trim isFront.1 spells isBehind.1, isIndex]

theorem comma_not_mem {index : VarIndex} {front word behind : List Char}
    (isNamed : Var.roleOf index ≠ .none) (isFront : Gap front)
    (spells : Spells (Var.nameOf index).toList word) (isBehind : Gap behind) :
    ',' ∉ front ++ (word ++ behind) := by
  have notWord := (spells.plain (Var.nameOf_canonical isNamed).1.plain).not_mem
    (show ','.isAlphanum = false by decide)
  simp only [List.mem_append, not_or]
  exact ⟨comma_not_mem_gap isFront, notWord, comma_not_mem_gap isBehind⟩

/-- The pieces between the commas are the names. -/
theorem parse (layout : OperandLayout indices text) (named : Named indices) :
    (split ',' text).mapM Var.parse = .ok indices := by
  induction layout with
  | last isFront spells isBehind =>
      have isNamed := named _ List.mem_cons_self
      rw [split_of_not_mem (comma_not_mem isNamed isFront spells isBehind),
        List.mapM_cons, parse_name isNamed isFront spells isBehind]
      rfl
  | @more index rest front word behind text isFront spells isBehind _
      induction =>
      obtain ⟨isNamed, named⟩ := List.forall_mem_cons.mp named
      rw [show front ++ (word ++ (behind ++ ([','] ++ text))) =
          (front ++ (word ++ behind)) ++ ',' :: text by simp,
        split_append, split_of_not_mem
          (comma_not_mem isNamed isFront spells isBehind),
        List.singleton_append, List.mapM_cons,
        parse_name isNamed isFront spells isBehind, induction named]
      rfl

theorem words_ne_nil (layout : OperandLayout indices text)
    (named : Named indices) : words text ≠ [] := by
  intro noWord
  have joined := (layout.join_words named).parse named
  rw [noWord] at joined
  cases joined

end OperandLayout

section Flags

variable {flags : UInt8} {text : List Char} (layout : FlagLayout flags text)

include layout

theorem FlagLayout.not_mem {character : Char} (foreign : Foreign character) :
    character ∉ text := by
  have notFlag : ∀ {name word gap : List Char}, Plain name → Spells name word →
      Gap gap →
      character ∉ word ++ gap := by
    intro name word gap plain spells isGap
    rw [List.mem_append, not_or]
    exact ⟨(spells.plain plain).not_mem foreign.notPlain,
      foreign.notGap gap isGap⟩
  cases layout with
  | none => exact List.not_mem_nil
  | x2 spells isGap => exact notFlag (by decide) spells isGap
  | x4 spells isGap => exact notFlag (by decide) spells isGap

theorem FlagLayout.takeFlags {word : List Char}
    (notFlag : Instruction.flagWord? word = Option.none)
    {rest : List Char} {others : List (List Char)}
    (isRest : words rest = word :: others) :
    Instruction.takeFlags 0 (words (text ++ rest)) =
      (flags, word :: others) := by
  have last : ∀ taken, Instruction.takeFlags taken (word :: others) =
      (taken, word :: others) := by
    intro taken
    rw [Instruction.takeFlags, notFlag]
  have taken : ∀ (name : List Char) (flag : UInt8) {written gap : List Char},
      Plain name → name ≠ [] → Spells name written → Gap gap → gap ≠ [] →
      Instruction.flagWord? written = some flag →
      Instruction.takeFlags 0 (words (written ++ gap ++ rest)) =
        (0 ||| flag, word :: others) := by
    intro name flag written gap plain notEmpty spells isGap apart isFlag
    rw [List.append_assoc,
      words_word (spells.plain plain).solid (spells.ne_nil notEmpty) isGap.1
        apart, isRest, Instruction.takeFlags, isFlag]
    exact last _
  cases layout with
  | none =>
      rw [List.nil_append, isRest]
      exact last 0
  | x2 spells isGap apart =>
      refine taken ['x', '2'] Instruction.flagX2 (by decide)
        (by decide) spells isGap apart ?_
      rw [Instruction.flagWord?, spells.lower (by decide)]
      rfl
  | x4 spells isGap apart =>
      refine taken ['x', '4'] Instruction.flagX4 (by decide)
        (by decide) spells isGap apart ?_
      rw [Instruction.flagWord?, spells.lower (by decide)]
      rfl

end Flags

theorem Instruction.flagWord?_eq_none {name word : List Char}
    (canonical : Canonical name) (spells : Spells name word)
    (notX2 : name ≠ ['x', '2']) (notX4 : name ≠ ['x', '4']) :
    flagWord? word = none := by
  unfold flagWord?
  rw [spells.lower canonical.plain]
  split
  · exact absurd rfl notX2
  · exact absurd rfl notX4
  · rfl

theorem Instruction.parse_congr {first second : List Char}
    {instruction : Instruction} (same : words first = words second)
    (parsed : parse first = .ok instruction) :
    parse second = .ok instruction := by
  unfold parse at parsed ⊢
  rw [← same]
  split
  case h_1 isEmpty =>
    rw [isEmpty] at parsed
    cases parsed
  case h_2 isWord =>
    rw [isWord] at parsed
    exact parsed

/-- An instruction that has a name in every layout. -/
structure Instruction.Expressible (instruction : Instruction) : Prop where
  opcode : ∃ opcode, Opcode.lookup? instruction.opcode = some opcode
  dest : instruction.dest = [instruction.target]
  named : Named instruction.operands

namespace InstructionLayout

variable {instruction : Instruction} {text : List Char}

theorem not_mem (layout : InstructionLayout instruction text)
    (expressible : instruction.Expressible) {character : Char}
    (foreign : Foreign character) : character ∉ text := by
  cases layout with
  | line isFront isFlags spells isGap _ isOperands =>
      obtain ⟨opcode, found⟩ := expressible.opcode
      have canonical := (Opcode.name_canonical found).1
      simp only [List.mem_append, not_or]
      exact ⟨foreign.notGap _ isFront, isFlags.not_mem foreign,
        (spells.plain canonical.plain).not_mem foreign.notPlain,
        foreign.notGap _ isGap, isOperands.not_mem expressible.named foreign⟩

/-- Every layout of an instruction is read as what it shows of the
instruction. -/
theorem parse (layout : InstructionLayout instruction text)
    (expressible : instruction.Expressible) :
    Instruction.parse text = .ok instruction.shown := by
  cases layout with
  | @line front flags word gap operands isFront isFlags spells isGap apart
      isOperands =>
      obtain ⟨opcode, found⟩ := expressible.opcode
      obtain ⟨canonical, notX2, notX4⟩ := Opcode.name_canonical found
      have isRest : words (word ++ (gap ++ operands)) =
          word :: words operands :=
        words_word (canonical.solid spells) (spells.ne_nil canonical.notEmpty)
          isGap.1 apart _
      have isTaken := isFlags.takeFlags
        (Instruction.flagWord?_eq_none canonical spells notX2 notX4) isRest
      have isOpcode :
          String.ofList (word.map lowerChar) = instruction.opcode := by
        rw [spells.lower canonical.plain, String.ofList_toList]
      have isNames :=
        (isOperands.join_words expressible.named).parse expressible.named
      have notEmpty : (words operands).isEmpty = false := by
        simpa using isOperands.words_ne_nil expressible.named
      unfold Instruction.parse
      rw [words_blank isFront.1, isTaken]
      have isSplit :
          instruction.operands = [instruction.target] ++ instruction.src :=
        congrArg (· ++ instruction.src) expressible.dest
      simp only [notEmpty, isOpcode, isNames]
      rw [isSplit]
      change Except.ok
        (Instruction.mk _ _ [instruction.target] instruction.src) = _
      rw [← expressible.dest]
      rfl

end InstructionLayout

/-- Names with a comma and a space between neighbours are a layout. -/
theorem OperandLayout.names {index : VarIndex} {rest : List VarIndex}
    (named : Named (index :: rest)) {front : List Char} (isFront : Gap front) :
    OperandLayout (index :: rest)
      (front ++
        (", ".intercalate ((index :: rest).map Var.nameOf)).toList) := by
  have isName := (Var.nameOf_canonical (named index List.mem_cons_self)).1.lower
  induction rest generalizing index front with
  | nil =>
      have layout := OperandLayout.last isFront isName gap_nil
      rw [List.append_nil] at layout
      rwa [List.map_singleton, String.intercalate_singleton]
  | cons next rest induction =>
      obtain ⟨_, namedRest⟩ := List.forall_mem_cons.mp named
      have layout :=
        OperandLayout.more isFront isName gap_nil
          (induction namedRest gap_single
        (Var.nameOf_canonical (namedRest next List.mem_cons_self)).1.lower)
      rw [List.map_cons, List.map_cons, String.intercalate_cons_cons,
        ← List.map_cons, String.toList_append, String.toList_append,
        List.append_assoc]
      exact layout

theorem Instruction.flags_shown (instruction : Instruction) :
    instruction.shown.flags =
      (if instruction.x2 then flagX2 else 0) |||
        (if instruction.x4 then flagX4 else 0) := by
  have all : ∀ number : Fin 256,
      UInt8.ofNat number.val &&& (flagX2 ||| flagX4) =
        (if UInt8.ofNat number.val &&& flagX2 != 0 then flagX2 else 0) |||
        (if UInt8.ofNat number.val &&& flagX4 != 0 then flagX4 else 0) := by
    decide +kernel
  have isFlags := all ⟨instruction.flags.toNat, instruction.flags.toNat_lt⟩
  rw [UInt8.ofNat_toNat] at isFlags
  exact isFlags

/-- The text of an instruction is one of its layouts. -/
theorem InstructionLayout.of_text {instruction : Instruction}
    (expressible : instruction.Expressible)
    (oneFlag : (instruction.x2 && instruction.x4) = false) :
    InstructionLayout instruction instruction.text.toList := by
  obtain ⟨opcode, found⟩ := expressible.opcode
  have canonical := (Opcode.name_canonical found).1
  have isSplit : instruction.operands = instruction.target :: instruction.src :=
    congrArg (· ++ instruction.src) expressible.dest
  have named := expressible.named
  have isOperands : OperandLayout instruction.operands
      ((", ".intercalate (instruction.operands.map Var.nameOf)).toList) := by
    rw [isSplit] at named ⊢
    exact .names named gap_nil
  have isFlags : FlagLayout instruction.shown.flags
      ((if instruction.x2 then "x2 " else "") ++
        (if instruction.x4 then "x4 " else "")).toList := by
    rw [instruction.flags_shown]
    cases isX2 : instruction.x2 <;> cases isX4 : instruction.x4
    · exact .none
    · exact @FlagLayout.x4 ['x', '4'] [' '] rfl gap_single (by decide)
    · exact @FlagLayout.x2 ['x', '2'] [' '] rfl gap_single (by decide)
    · rw [isX2, isX4] at oneFlag
      cases oneFlag
  have layout :=
    InstructionLayout.line gap_nil isFlags canonical.lower gap_single
    (List.cons_ne_nil _ _) isOperands
  have isText : instruction.text.toList =
      ((if instruction.x2 then "x2 " else "") ++
        (if instruction.x4 then "x4 " else "")).toList ++
        (instruction.opcode.toList ++ ([' '] ++
          (", ".intercalate
            (instruction.operands.map Var.nameOf)).toList)) := by
    have hasNames : (instruction.operands.map Var.nameOf).isEmpty = false := by
      rw [isSplit]; rfl
    unfold Instruction.text
    simp only [hasNames, Bool.false_eq_true, if_false, String.toList_append,
      List.append_assoc]
    rfl
  rw [isText]
  exact layout

namespace Instruction

variable (instruction : Instruction)

@[simp] theorem x2_shown : instruction.shown.x2 = instruction.x2 := by
  change (instruction.flags &&& (flagX2 ||| flagX4) &&& flagX2 != 0) = _
  rw [UInt8.and_assoc]
  rfl

@[simp] theorem x4_shown : instruction.shown.x4 = instruction.x4 := by
  change (instruction.flags &&& (flagX2 ||| flagX4) &&& flagX4 != 0) = _
  rw [UInt8.and_assoc]
  rfl

@[simp] theorem lanes_shown : instruction.shown.lanes = instruction.lanes := by
  unfold lanes
  rw [x2_shown, x4_shown]

/-- Of the flags that have a meaning only the mark of an invariant instruction
is not shown. -/
theorem shown_eq
    (meaningful : instruction.flags ≤ flagInvariant ||| flagX2 ||| flagX4) :
    instruction.shown =
      { instruction with flags := instruction.flags &&& ~~~flagInvariant } := by
  have all : ∀ number : Fin 8, UInt8.ofNat number.val &&& (flagX2 ||| flagX4) =
      UInt8.ofNat number.val &&& ~~~flagInvariant := by
    decide
  have isFlags :=
    all ⟨instruction.flags.toNat,
      Nat.lt_succ_of_le (UInt8.le_iff_toNat_le.mp meaningful)⟩
  rw [UInt8.ofNat_toNat] at isFlags
  unfold shown
  rw [isFlags]

end Instruction

namespace Program

variable {program next : Program} {instruction : Instruction} {opcode : Opcode}

theorem Checked.shown (checked : program.Checked instruction opcode) :
    program.Checked instruction.shown opcode := by
  obtain ⟨found, dest, sources, oneFlag, valid, target, size, readable,
    moves⟩ := checked
  refine ⟨found, dest, sources, ?_, ?_, target, ?_, ?_, moves⟩
  · rwa [Instruction.x2_shown, Instruction.x4_shown]
  · rwa [Instruction.lanes_shown]
  · rw [Instruction.lanes_shown]
    exact size
  · rw [Instruction.lanes_shown]
    exact readable

/-- Every declaration stands in a slot that has a name. -/
def SlotsNamed (program : Program) : Prop :=
  ∀ index, (program.var index).declared = true → Var.roleOf index ≠ .none

theorem Built.slotsNamed (built : program.Built) : program.SlotsNamed := by
  intro index declared
  rw [← (built.slots index).role declared]
  exact declared_eq_true.mp declared

theorem Checked.expressible (checked : program.Checked instruction opcode)
    (slots : program.SlotsNamed) : instruction.Expressible := by
  refine ⟨⟨opcode, checked.found⟩, checked.dest,
    fun index isOperand => slots index ?_⟩
  rcases List.mem_append.mp isOperand with isDest | isSource
  · rw [checked.dest, List.mem_singleton] at isDest
    exact isDest ▸ checked.target_declared
  · obtain ⟨place, isPlace⟩ := List.mem_iff_getElem?.mp isSource
    exact declared_eq_true.mpr (checked.readable place index isPlace).usable.1

theorem stripLine_comment {text comment : List Char} (noMark : '#' ∉ text)
    (isComment : Comment comment) :
    stripLine (text ++ comment) = trimChars text := by
  have isText : ∀ character ∈ text, (decide (character ≠ '#')) = true := by
    intro character isCharacter
    rw [decide_eq_true_iff]
    rintro rfl
    exact noMark isCharacter
  have noRest : comment.takeWhile (· ≠ '#') = [] := by
    rcases isComment with rfl | ⟨rest, rfl, _⟩ <;> rfl
  rw [stripLine, List.takeWhile_append_of_pos isText, noRest, List.append_nil]

theorem parseLine_blank {gap comment : List Char} (isGap : Gap gap)
    (isComment : Comment comment) :
    program.parseLine (gap ++ comment) = .ok program := by
  have isEmpty : stripLine (gap ++ comment) = [] := by
    rw [stripLine_comment (foreign_comment.notGap gap isGap) isComment,
      trimChars_blank isGap.1]
  simp only [parseLine, isEmpty]
  rfl

theorem parseLine_layout {text comment : List Char}
    (layout : InstructionLayout instruction text)
    (expressible : instruction.Expressible) (isComment : Comment comment) :
    program.parseLine (text ++ comment) =
      program.appendInstruction instruction.shown := by
  have isStripped :=
    stripLine_comment (layout.not_mem expressible foreign_comment) isComment
  have parsed : Instruction.parse (trimChars text) = .ok instruction.shown :=
    Instruction.parse_congr (words_trimChars text).symm
      (layout.parse expressible)
  have notEmpty : (trimChars text).isEmpty = false := by
    cases isText : trimChars text with
    | nil =>
        rw [isText] at parsed
        cases parsed
    | cons character rest => rfl
  simp only [parseLine, isStripped, notEmpty, parsed]
  rfl

end Program

theorem CodeLayout.not_mem {instructions : List Instruction}
    {lines : List (List Char)} (layout : CodeLayout instructions lines)
    (expressible : ∀ instruction ∈ instructions, instruction.Expressible) :
    ∀ line ∈ lines, '\n' ∉ line := by
  have inComment : ∀ comment, Comment comment → '\n' ∉ comment := by
    rintro comment (rfl | ⟨rest, rfl, notRest⟩)
    · exact List.not_mem_nil
    · simpa using notRest
  induction layout with
  | nil => exact nofun
  | blank isGap isComment _ induction =>
      refine List.forall_mem_cons.mpr ⟨?_, induction expressible⟩
      rw [List.mem_append, not_or]
      exact ⟨isGap.2, inComment _ isComment⟩
  | line isLine isComment _ induction =>
      obtain ⟨first, expressible⟩ := List.forall_mem_cons.mp expressible
      refine List.forall_mem_cons.mpr ⟨?_, induction expressible⟩
      rw [List.mem_append, not_or]
      exact ⟨isLine.not_mem first foreign_newline, inComment _ isComment⟩

namespace Program

variable {program last : Program} {instructions : List Instruction}

/-- The same declarations in front of other code. -/
theorem keeps_of_vars {target : Program}
    (sameVars : target.vars = program.vars) : program.Keeps target := by
  have sameVar : ∀ index, target.var index = program.var index := by
    intro index
    unfold var
    rw [sameVars]
  exact fun index _ => sameVar index ▸ .refl _

theorem SlotsNamed.of_vars {target : Program} (slots : program.SlotsNamed)
    (sameVars : target.vars = program.vars) : target.SlotsNamed := by
  intro index
  unfold var
  rw [sameVars]
  exact slots index

theorem checked_of_accepted
    (accepted : instructions.foldlM appendInstruction program = .ok last) :
    ∀ instruction ∈ instructions, ∃ opcode,
      program.Checked instruction opcode := by
  induction instructions generalizing program with
  | nil => exact nofun
  | cons instruction rest induction =>
      rw [List.foldlM_cons] at accepted
      obtain ⟨next, isNext, accepted⟩ := Outcome.bind_eq_ok.mp accepted
      obtain ⟨passes, rfl⟩ := appendInstruction_eq_ok.mp isNext
      refine List.forall_mem_cons.mpr ⟨checkInstruction_eq_ok.mp passes,
        fun other isOther => ?_⟩
      obtain ⟨opcode, checked⟩ := induction accepted other isOther
      exact ⟨opcode, checked.kept (keeps_of_vars rfl)⟩

/-- The lines of a layout append what they show. -/
theorem parseLines_layout {lines : List (List Char)}
    (layout : CodeLayout instructions lines) (slots : program.SlotsNamed)
    (checked : ∀ instruction ∈ instructions, ∃ opcode,
      program.Checked instruction opcode)
    (number : Nat) :
    program.parseLines number lines =
      (program.extend (instructions.map Instruction.shown), none) := by
  induction layout generalizing program number with
  | nil => simp [parseLines, extend]
  | blank isGap isComment _ induction =>
      rw [parseLines, parseLine_blank isGap isComment]
      exact induction slots checked _
  | @line instruction rest text comment lines isLine isComment _ induction =>
      obtain ⟨⟨opcode, isChecked⟩, checked⟩ := List.forall_mem_cons.mp checked
      have appended : program.appendInstruction instruction.shown =
          .ok { program with code := program.code.push instruction.shown } :=
        appendInstruction_eq_ok.mpr
          ⟨checkInstruction_eq_ok.mpr ⟨opcode, isChecked.shown⟩, rfl⟩
      rw [parseLines,
        parseLine_layout isLine (isChecked.expressible slots) isComment,
        appended]
      have slotsNext :
          SlotsNamed { program with
            code := program.code.push instruction.shown } :=
        slots.of_vars rfl
      dsimp only
      refine (induction slotsNext (fun other isOther => ?_) _).trans ?_
      · obtain ⟨otherOpcode, isChecked⟩ := checked other isOther
        exact ⟨otherOpcode, isChecked.kept (keeps_of_vars rfl)⟩
      · simp [extend]

theorem parseLines_append (number : Nat) (front back : List (List Char)) :
    program.parseLines number (front ++ back) =
      match program.parseLines number front with
      | (next, none) => next.parseLines (number + front.length) back
      | (next, some cause) => (next, some cause) := by
  induction front generalizing program number with
  | nil => rfl
  | cons line front induction =>
      rw [List.cons_append, parseLines, parseLines]
      cases program.parseLine line with
      | error cause => rfl
      | ok next =>
          dsimp only
          rw [induction, List.length_cons, Nat.add_right_comm, Nat.add_assoc]

theorem parseLines_number (first second : Nat) (lines : List (List Char)) :
    (program.parseLines first lines).1 = (program.parseLines second lines).1 ∧
      (program.parseLines first lines).2.isSome =
        (program.parseLines second lines).2.isSome := by
  induction lines generalizing program first second with
  | nil => exact ⟨rfl, rfl⟩
  | cons line rest induction =>
      rw [parseLines, parseLines]
      cases program.parseLine line with
      | error cause => exact ⟨rfl, rfl⟩
      | ok next => exact induction (first + 1) (second + 1)

/-- A text and, if it was read to its end, another one. -/
def parseBoth (program : Program) (first second : String) :
    Program × Option ProgramError :=
  match program.parseCode first with
  | (next, none) => next.parseCode second
  | (next, some cause) => (next, some cause)

theorem parseCode_append (first second : String) :
    (program.parseCode (first ++ "\n" ++ second)).1 =
      (program.parseBoth first second).1 ∧
      (program.parseCode (first ++ "\n" ++ second)).2.isSome =
        (program.parseBoth first second).2.isSome := by
  have isText : (first ++ "\n" ++ second).toList = first.toList ++
      '\n' :: second.toList := by
    simp
  unfold parseBoth parseCode
  rw [isText, split_append, parseLines_append]
  rcases program.parseLines 1 (split '\n' first.toList) with ⟨next, _ | cause⟩
  · exact parseLines_number _ _ _
  · exact ⟨rfl, rfl⟩

/-- Reading inverts printing under every layout.  A text that lays out
instructions which the declarations accept appends them as they are shown, the
text of an instruction is one of its layouts, and texts that are joined by a
line end are read one behind the other. -/
theorem parseCode_layout (slots : program.SlotsNamed)
    (accepted : instructions.foldlM appendInstruction program = .ok last) :
    (∀ (target : Program) (text : String), target.vars = program.vars →
      LaysOut text instructions →
      target.parseCode text =
        (target.extend (instructions.map Instruction.shown), none)) ∧
    (∀ instruction ∈ instructions, LaysOut instruction.text [instruction] ∧
      Instruction.parse instruction.text.toList = .ok instruction.shown) ∧
    (∀ instruction : Instruction,
      instruction.flags ≤ Instruction.flagInvariant ||| Instruction.flagX2 |||
        Instruction.flagX4 →
      instruction.shown =
        { instruction with
          flags := instruction.flags &&& ~~~Instruction.flagInvariant }) ∧
    ∀ (target : Program) (first second : String),
      (target.parseCode (first ++ "\n" ++ second)).1 =
        (target.parseBoth first second).1 ∧
        (target.parseCode (first ++ "\n" ++ second)).2.isSome =
          (target.parseBoth first second).2.isSome := by
  have checked := checked_of_accepted accepted
  have expressible : ∀ instruction ∈ instructions, instruction.Expressible := by
    intro instruction isInstruction
    obtain ⟨opcode, isChecked⟩ := checked instruction isInstruction
    exact isChecked.expressible slots
  refine ⟨?_, ?_, Instruction.shown_eq, fun target => parseCode_append⟩
  · rintro target text sameVars ⟨lines, notEmpty, layout, isText⟩
    rw [parseCode, isText, split_join notEmpty (layout.not_mem expressible)]
    refine parseLines_layout layout (slots.of_vars sameVars)
      (fun instruction isInstruction => ?_) 1
    obtain ⟨opcode, isChecked⟩ := checked instruction isInstruction
    exact ⟨opcode, isChecked.kept (keeps_of_vars sameVars)⟩
  · intro instruction isInstruction
    obtain ⟨opcode, isChecked⟩ := checked instruction isInstruction
    have isExpressible := expressible instruction isInstruction
    have layout := InstructionLayout.of_text isExpressible isChecked.oneFlag
    refine ⟨⟨[instruction.text.toList ++ []], List.cons_ne_nil _ _,
      .line layout (.inl rfl) .nil, ?_⟩, layout.parse isExpressible⟩
    rw [join, List.append_nil]

/-- A program with an array to read and an array to write, both of elements of
two bytes. -/
def halves : Program :=
  ((named "halves").setVar 0 { name := "d1", role := .dest, size := 2 }).setVar
    4 { name := "s1", role := .source, size := 2 }

theorem built_halves : halves.Built :=
  .declare (.declare (.named "halves")
    (show (named "halves").declare 0 2 = .ok _ by rfl))
      (show Program.declare _ 4 2 = .ok halves by rfl)

/-- Tabs, letters of both cases, a comment and an empty last line. -/
theorem parseCode_layout_halves :
    halves.Built ∧
    (∃ last, [⟨"addb", 3, [0], [4, 4]⟩].foldlM appendInstruction halves =
      .ok last) ∧
    halves.parseCode "\tX2  AddB d1 ,S1,s1 # twice\n" =
      (halves.extend [⟨"addb", 2, [0], [4, 4]⟩], none) := by
  have isGap : ∀ gap,
      gap.all (fun character => isBlank character && character != '\n') = true →
        Gap gap := by
    intro gap all
    rw [List.all_eq_true] at all
    refine ⟨fun character isCharacter => ?_, fun isEnd => ?_⟩
    · exact (Bool.and_eq_true_iff.mp (all character isCharacter)).1
    · exact absurd (all '\n' isEnd) (by decide)
  have operands : OperandLayout [0, 4, 4] "d1 ,S1,s1 ".toList :=
    @OperandLayout.more 0 [4, 4] [] ['d', '1'] [' '] ['S', '1', ',', 's', '1',
      ' '] gap_nil rfl gap_single
        (@OperandLayout.more 4 [4] [] ['S', '1'] [] ['s', '1', ' '] gap_nil
        rfl gap_nil (@OperandLayout.last 4 [] ['s', '1']
          [' '] gap_nil rfl gap_single))
  have line : InstructionLayout ⟨"addb", 3, [0], [4, 4]⟩
      "\tX2  AddB d1 ,S1,s1 ".toList :=
    @InstructionLayout.line ⟨"addb", 3, [0], [4, 4]⟩ ['\t'] ['X', '2', ' ', ' ']
      ['A', 'd', 'd', 'B'] [' '] _ (isGap _ (by decide))
      (@FlagLayout.x2 ['X', '2'] [' ', ' '] rfl (isGap _ (by decide))
        (by decide)) rfl gap_single
      (by decide) operands
  have layout : LaysOut "\tX2  AddB d1 ,S1,s1 # twice\n"
      [⟨"addb", 3, [0], [4, 4]⟩] := by
    refine ⟨_, List.cons_ne_nil _ _,
      .line line (.inr ⟨" twice".toList, rfl, by decide⟩)
        (.blank gap_nil (.inl rfl) .nil), by decide⟩
  have accepted : ∃ last,
      [⟨"addb", 3, [0], [4, 4]⟩].foldlM appendInstruction halves =
        .ok last := ⟨_, rfl⟩
  obtain ⟨last, isLast⟩ := accepted
  exact ⟨built_halves, ⟨last, isLast⟩,
    (parseCode_layout built_halves.slotsNamed isLast).1 _ _ rfl layout⟩

/-- A flag without a meaning is accepted, but it is not written: what is read
from the text of the instruction lost more than the mark of an invariant
instruction. -/
theorem parse_meaningless_flag :
    (∃ last, halves.appendInstruction ⟨"addw", 8, [0], [4, 4]⟩ = .ok last) ∧
    Instruction.parse (Instruction.text ⟨"addw", 8, [0], [4, 4]⟩).toList ≠
      .ok ⟨"addw", 8 &&& ~~~Instruction.flagInvariant, [0], [4, 4]⟩ := by
  refine ⟨⟨_, rfl⟩, ?_⟩
  decide +kernel

end Program

end LaneKernel
