import LaneKernel.Text.Lowercase
import LaneKernel.Text.Blank
import Mathlib.Data.List.TakeWhile

/-!
# White space and letter case

How texts are cut: the words of a text do not depend on how much white space
stands around them, and pieces between separators are cut apart again.  Putting
the words of a text together with single spaces changes the text by nothing but
the amount of its white space.
-/

namespace LaneKernel.Text

/-- White space alone. -/
def Blank (text : List Char) :
    Prop := ∀ character ∈ text, isBlank character = true

/-- No white space at all. -/
def Solid (text : List Char) :
    Prop := ∀ character ∈ text, isBlank character = false

variable {gap behind word rest : List Char}

theorem Solid.reverse (solid : Solid word) : Solid word.reverse :=
  fun character isCharacter => solid character (List.mem_reverse.mp isCharacter)

theorem Blank.reverse (blank : Blank gap) : Blank gap.reverse :=
  fun character isCharacter => blank character (List.mem_reverse.mp isCharacter)

theorem wordsFrom_solid (solid : Solid word) (front rest : List Char) :
    wordsFrom front (word ++ rest) =
      wordsFrom (word.reverse ++ front) rest := by
  induction word generalizing front with
  | nil => rfl
  | cons character word induction =>
      obtain ⟨first, solid⟩ := List.forall_mem_cons.mp solid
      rw [List.cons_append, wordsFrom, if_neg (by simp [first]),
        induction solid, List.reverse_cons, List.append_assoc]
      rfl

theorem words_blank (blank : Blank gap) (rest : List Char) :
    words (gap ++ rest) = words rest := by
  induction gap with
  | nil => rfl
  | cons character gap induction =>
      obtain ⟨first, blank⟩ := List.forall_mem_cons.mp blank
      rw [words, List.cons_append, wordsFrom, if_pos first]
      exact induction blank

theorem words_word (solid : Solid word) (notEmpty : word ≠ [])
    (blank : Blank gap) (apart : gap ≠ []) (rest : List Char) :
    words (word ++ (gap ++ rest)) = word :: words rest := by
  cases gap with
  | nil => exact absurd rfl apart
  | cons character gap =>
      obtain ⟨first, blank⟩ := List.forall_mem_cons.mp blank
      rw [words, wordsFrom_solid solid, List.append_nil, List.cons_append,
        wordsFrom, if_pos first, if_neg (by simpa using notEmpty),
        List.reverse_reverse]
      exact congrArg (word :: ·) (words_blank blank rest)

theorem words_of_blank (blank : Blank gap) : words gap = [] := by
  have same := words_blank blank []
  rwa [List.append_nil] at same

theorem wordsFrom_append_blank (blank : Blank gap) (front text : List Char) :
    wordsFrom front (text ++ gap) = wordsFrom front text := by
  induction text generalizing front with
  | nil =>
      cases gap with
      | nil => rfl
      | cons character gap =>
          obtain ⟨first, blank⟩ := List.forall_mem_cons.mp blank
          have noWord : wordsFrom [] gap = [] := words_of_blank blank
          simp only [List.nil_append, wordsFrom, first, noWord, if_true]
  | cons character text induction =>
      rw [List.cons_append, wordsFrom, wordsFrom, induction, induction]

theorem trimChars_eq (text : List Char) :
    ∃ front back, Blank front ∧ Blank back ∧
      text = front ++ trimChars text ++ back := by
  have blankTake : ∀ other : List Char, Blank (other.takeWhile isBlank) :=
    fun other _ isCharacter => List.mem_takeWhile_imp isCharacter
  refine ⟨text.takeWhile isBlank,
    ((text.dropWhile isBlank).reverse.takeWhile isBlank).reverse,
    blankTake text, (blankTake _).reverse, ?_⟩
  rw [trimChars, List.append_assoc, ← List.reverse_append,
    List.takeWhile_append_dropWhile, List.reverse_reverse,
    List.takeWhile_append_dropWhile]

theorem words_trimChars (text : List Char) :
    words (trimChars text) = words text := by
  obtain ⟨front, back, blankFront, blankBack, isText⟩ := trimChars_eq text
  calc words (trimChars text)
      = words (trimChars text ++ back) :=
    (wordsFrom_append_blank blankBack [] _).symm
    _ = words (front ++ (trimChars text ++ back)) :=
        (words_blank blankFront _).symm
    _ = words text := by rw [← List.append_assoc, ← isText]

theorem dropWhile_blank (blank : Blank gap) (solid : Solid word)
    (notEmpty : word ≠ []) (rest : List Char) :
    (gap ++ (word ++ rest)).dropWhile isBlank = word ++ rest := by
  rw [List.dropWhile_append_of_pos blank]
  cases word with
  | nil => exact absurd rfl notEmpty
  | cons character word =>
      exact List.dropWhile_cons_of_neg
        (by simp [solid character List.mem_cons_self])

theorem trimChars_word (blank : Blank gap) (solid : Solid word)
    (notEmpty : word ≠ []) (blankBehind : Blank behind) :
    trimChars (gap ++ (word ++ behind)) = word := by
  have fromBehind := dropWhile_blank blankBehind.reverse solid.reverse
    (by simpa using notEmpty) []
  rw [List.append_nil] at fromBehind
  rw [trimChars, dropWhile_blank blank solid notEmpty, List.reverse_append,
    fromBehind, List.reverse_reverse]

theorem trimChars_blank (blank : Blank gap) : trimChars gap = [] := by
  have dropped : (gap ++ []).dropWhile isBlank = [] :=
    List.dropWhile_append_of_pos blank
  rw [List.append_nil] at dropped
  rw [trimChars, dropped]
  rfl

variable {separator : Char}

theorem splitFrom_append (front first second : List Char) :
    splitFrom separator front (first ++ separator :: second) =
      splitFrom separator front first ++ split separator second := by
  induction first generalizing front with
  | nil =>
      simp only [List.nil_append, splitFrom, if_true]
      rfl
  | cons character first induction =>
      rw [List.cons_append, splitFrom, splitFrom]
      split
      · rw [induction]
        rfl
      · exact induction _

theorem split_append (first second : List Char) :
    split separator (first ++ separator :: second) =
      split separator first ++ split separator second :=
  splitFrom_append [] first second

theorem splitFrom_of_not_mem (front : List Char) {piece : List Char}
    (isPiece : separator ∉ piece) :
    splitFrom separator front piece = [front.reverse ++ piece] := by
  induction piece generalizing front with
  | nil => rw [splitFrom, List.append_nil]
  | cons character piece induction =>
      rw [List.mem_cons, not_or] at isPiece
      rw [splitFrom, if_neg (Ne.symm isPiece.1), induction _ isPiece.2,
        List.reverse_cons, List.append_assoc]
      rfl

theorem split_of_not_mem {piece : List Char} (isPiece : separator ∉ piece) :
    split separator piece = [piece] := splitFrom_of_not_mem [] isPiece

/-- Pieces that are put together with separators are cut apart again. -/
theorem split_join {pieces : List (List Char)} (notEmpty : pieces ≠ [])
    (arePieces : ∀ piece ∈ pieces, separator ∉ piece) :
    split separator (join [separator] pieces) = pieces := by
  induction pieces with
  | nil => exact absurd rfl notEmpty
  | cons piece rest induction =>
      obtain ⟨isPiece, arePieces⟩ := List.forall_mem_cons.mp arePieces
      cases rest with
      | nil => exact split_of_not_mem isPiece
      | cons next rest =>
          rw [join, List.append_assoc, List.singleton_append, split_append,
            split_of_not_mem isPiece,
            induction (List.cons_ne_nil _ _) arePieces]
          · rfl
          · simp

/-- What becomes of the text behind a word when the words are put together with
single spaces. -/
def respaced : List Char → List Char
  | [] => []
  | character :: rest =>
      if isBlank character then
        if (words rest).isEmpty then [] else ' ' :: join [' '] (words rest)
      else character :: respaced rest

theorem join_wordsFrom (notEmpty : word ≠ []) (text : List Char) :
    join [' '] (wordsFrom word text) = word.reverse ++ respaced text := by
  induction text generalizing word with
  | nil => simp [wordsFrom, notEmpty, join, respaced]
  | cons character rest induction =>
      rw [wordsFrom, respaced]
      split
      case isFalse =>
        rw [induction (List.cons_ne_nil _ _), List.reverse_cons,
          List.append_assoc]
        rfl
      case isTrue =>
        rw [if_neg (by simpa using notEmpty),
          show wordsFrom [] rest = words rest from rfl]
        cases words rest with
        | nil => simp [join]
        | cons next others => simp [join]

theorem join_words (solid : Solid word) (notEmpty : word ≠ [])
    (blank : Blank gap) (rest : List Char) :
    join [' '] (words (gap ++ (word ++ rest))) = word ++ respaced rest := by
  rw [words_blank blank, words, wordsFrom_solid solid, List.append_nil,
    join_wordsFrom (by simpa using notEmpty), List.reverse_reverse]

theorem respaced_solid (solid : Solid word) (rest : List Char) :
    respaced (word ++ rest) = word ++ respaced rest := by
  induction word with
  | nil => rfl
  | cons character word induction =>
      obtain ⟨first, solid⟩ := List.forall_mem_cons.mp solid
      rw [List.cons_append, respaced, if_neg (by simp [first]), induction solid]
      rfl

theorem respaced_blank (blank : Blank gap) : respaced gap = [] := by
  cases gap with
  | nil => rfl
  | cons character gap =>
      obtain ⟨first, blank⟩ := List.forall_mem_cons.mp blank
      rw [respaced, if_pos first, words_of_blank blank]
      rfl

theorem respaced_gap (blank : Blank gap) (solid : Solid word)
    (notEmpty : word ≠ []) (rest : List Char) :
    respaced (gap ++ (word ++ rest)) =
      (if gap.isEmpty then [] else [' ']) ++ (word ++ respaced rest) := by
  cases gap with
  | nil => exact respaced_solid solid rest
  | cons character gap =>
      obtain ⟨first, blank⟩ := List.forall_mem_cons.mp blank
      have isJoined := join_words solid notEmpty blank rest
      have hasWord : words (gap ++ (word ++ rest)) ≠ [] := by
        intro noWord
        rw [noWord] at isJoined
        exact notEmpty (List.append_eq_nil_iff.mp isJoined.symm).1
      rw [List.cons_append, respaced, if_pos first,
        if_neg (by simpa using hasWord), isJoined]
      rfl

/-- A word in some letter case. -/
def Spells (word written : List Char) : Prop := written.map Char.toLower = word

/-- Letters and digits alone. -/
def Plain (word : List Char) :
    Prop := ∀ character ∈ word, character.isAlphanum = true

instance (word : List Char) : Decidable (Plain word) :=
  List.decidableBAll _ word

theorem isAlphanum_iff {character : Char} :
    character.isAlphanum = true ↔
      (65 ≤ character.toNat ∧ character.toNat ≤ 90) ∨
        (97 ≤ character.toNat ∧ character.toNat ≤ 122) ∨
        (48 ≤ character.toNat ∧ character.toNat ≤ 57) := by
  change (decide ('A'.val ≤ character.val ∧ character.val ≤ 'Z'.val) ||
    decide ('a'.val ≤ character.val) && decide (character.val ≤ 'z'.val) ||
    decide ('0'.val ≤ character.val) && decide (character.val ≤ '9'.val)) =
      true ↔ _
  simp only [Bool.or_eq_true, Bool.and_eq_true, decide_eq_true_eq,
    UInt32.le_iff_toNat_le, or_assoc]
  rfl

theorem isBlank_of_isAlphanum {character : Char}
    (isPlain : character.isAlphanum = true) : isBlank character = false := by
  rw [isAlphanum_iff] at isPlain
  simp only [isBlank, Bool.or_eq_false_iff, Bool.and_eq_false_iff,
    decide_eq_false_iff_not, beq_eq_false_iff_ne]
  omega

theorem isAlphanum_toLower (character : Char) :
    character.toLower.isAlphanum = character.isAlphanum := by
  unfold Char.toLower
  split
  case isFalse => rfl
  case isTrue isUpper =>
    have bounds : 65 ≤ character.val.toNat ∧ character.val.toNat ≤ 90 :=
      ⟨UInt32.le_iff_toNat_le.mp isUpper.1, UInt32.le_iff_toNat_le.mp isUpper.2⟩
    have isLower : (character.val + ('a'.val - 'A'.val)).toNat =
        character.val.toNat + 32 := by
      rw [UInt32.toNat_add]
      change (character.val.toNat + 32) % 2 ^ 32 = _
      omega
    rw [Bool.eq_iff_iff, isAlphanum_iff, isAlphanum_iff]
    simp only [Char.toNat, isLower]
    omega

theorem lowerChar_of_isAlphanum {character : Char}
    (isPlain : character.isAlphanum = true) :
    lowerChar character = character.toLower := by
  rw [isAlphanum_iff] at isPlain
  exact if_pos (by omega)

theorem Plain.not_mem {word : List Char} (plain : Plain word) {character : Char}
    (notPlain : character.isAlphanum = false) : character ∉ word := by
  intro isCharacter
  rw [plain character isCharacter] at notPlain
  cases notPlain

theorem Plain.solid (plain : Plain word) : Solid word :=
  fun character isCharacter =>
    isBlank_of_isAlphanum (plain character isCharacter)

theorem Spells.plain {written : List Char} (spells : Spells word written)
    (plain : Plain word) : Plain written := by
  intro character isCharacter
  rw [← isAlphanum_toLower]
  refine plain character.toLower ?_
  rw [← spells]
  exact List.mem_map_of_mem isCharacter

theorem Spells.lower {written : List Char} (spells : Spells word written)
    (plain : Plain word) : written.map lowerChar = word := by
  rw [← spells]
  exact List.map_congr_left fun character isCharacter =>
    lowerChar_of_isAlphanum (spells.plain plain character isCharacter)

theorem Spells.ne_nil {written : List Char} (spells : Spells word written)
    (notEmpty : word ≠ []) : written ≠ [] := by
  rintro rfl
  exact notEmpty spells.symm

end LaneKernel.Text
