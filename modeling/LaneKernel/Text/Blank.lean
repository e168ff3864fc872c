/-!
# White space

The characters with the white space property, and the three ways in which texts
are cut at them: trimming both ends, splitting into words, and splitting at a
separator.
-/

namespace LaneKernel.Text

/-- Characters with the white space property. -/
def isBlank (character : Char) : Bool :=
  let code := character.toNat
  (0x09 ≤ code && code ≤ 0x0d) || code == 0x20 || code == 0x85 || code == 0xa0
    || code == 0x1680
    || (0x2000 ≤ code && code ≤ 0x200a) || code == 0x2028 || code == 0x2029 ||
      code == 0x202f
    || code == 0x205f || code == 0x3000

/-- A text without the white space at its two ends. -/
def trimChars (text : List Char) : List Char :=
  ((text.dropWhile isBlank).reverse.dropWhile isBlank).reverse

def trim (text : String) : String := String.ofList (trimChars text.toList)

/-- The maximal runs of characters that are not white space; `word` collects the
current run backwards. -/
def wordsFrom (word : List Char) : List Char → List (List Char)
  | [] => if word.isEmpty then [] else [word.reverse]
  | character :: rest =>
      if isBlank character then
        if word.isEmpty then wordsFrom [] rest
        else word.reverse :: wordsFrom [] rest
      else wordsFrom (character :: word) rest

/-- The words of a text. -/
def words (text : List Char) : List (List Char) := wordsFrom [] text

/-- The pieces between separators, empty pieces included; `piece` collects the
current piece backwards. -/
def splitFrom (separator : Char) (piece : List Char) :
    List Char → List (List Char)
  | [] => [piece.reverse]
  | character :: rest =>
      if character = separator then piece.reverse :: splitFrom separator [] rest
      else splitFrom separator (character :: piece) rest

/-- The pieces of a text between separators; always at least one. -/
def split (separator : Char) (text : List Char) : List (List Char) :=
  splitFrom separator [] text

/-- Pieces put together with a separator between neighbours. -/
def join (separator : List Char) : List (List Char) → List Char
  | [] => []
  | [piece] => piece
  | piece :: rest => piece ++ separator ++ join separator rest

/-- The text in front of the first occurrence of a character and the text behind
it. -/
def cut? (mark : Char) (text : List Char) : Option (List Char × List Char) :=
  match text.span (· ≠ mark) with
  | (_, []) => none
  | (front, _ :: back) => some (front, back)

end LaneKernel.Text
