/-
White space: the characters that are trimmed from the ends of a text and that
separate the words of an order entry. The class is the Unicode one, widened by
the four ASCII information separators.
-/
import GraphMapper.Text.Class

namespace GraphMapper.Text

/-- The white space characters, as ascending inclusive ranges. -/
def blankRanges : List (Nat × Nat) :=
  [(0x9, 0xD), (0x1C, 0x20), (0x85, 0x85), (0xA0, 0xA0), (0x1680, 0x1680),
   (0x2000, 0x200A), (0x2028, 0x2029), (0x202F, 0x202F), (0x205F, 0x205F),
   (0x3000, 0x3000)]

def isBlank (c : Char) : Bool := inRanges blankRanges c

/-- The blanks of ASCII that may surround a number that is written in ASCII
alone: the information separators are not among them. -/
def isAsciiBlank (c : Char) : Bool :=
  c.toNat == 32 || (9 ≤ c.toNat && c.toNat ≤ 13)

/-- The characters without the longest ends on which `p` holds. -/
def trimBy (p : Char → Bool) (cs : List Char) : List Char :=
  ((cs.dropWhile p).reverse.dropWhile p).reverse

/-- A text without the white space at its ends. -/
def trim (s : String) : String := String.ofList (trimBy isBlank s.toList)

/-- The word that `cs` starts with, after `current` (read backwards), and the
words behind it. -/
def wordsFrom (current : List Char) : List Char → List (List Char)
  | [] => if current.isEmpty then [] else [current.reverse]
  | c :: rest =>
    if isBlank c then
      if current.isEmpty then wordsFrom [] rest else current.reverse
        :: wordsFrom [] rest
    else wordsFrom (c :: current) rest

/-- The longest runs without white space, in order. -/
def words (s : String) : List String :=
  (wordsFrom [] s.toList).map String.ofList

end GraphMapper.Text
