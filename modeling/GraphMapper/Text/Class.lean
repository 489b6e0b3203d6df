/-
Classes of characters that are given by tables of code point ranges, and the
two ways in which texts are compared without regard to them: by ASCII letter
case, and by pieces between separators.
-/
namespace GraphMapper.Text

/-- The character is in one of the inclusive ranges. -/
def inRanges (table : List (Nat × Nat)) (c : Char) : Bool :=
  table.any fun (lo, hi) => lo ≤ c.toNat && c.toNat ≤ hi

/-- A text with its ASCII capitals made small. It is used to recognise keywords
only; no keyword holds a letter that a character outside ASCII has as its small
form, so wider case rules would recognise no more. -/
def lowerAscii (s : String) : String := s.map Char.toLower

/-- The pieces between the occurrences of `sep`: one more than there are of
them. -/
def pieces (sep : Char) : List Char → List (List Char)
  | [] => [[]]
  | c :: rest =>
    if c = sep then [] :: pieces sep rest
    else match pieces sep rest with
      | [] => [[c]]
      | piece :: more => (c :: piece) :: more

/-- A row of characters, or of other things, stands somewhere in another
one. -/
def occursIn {α : Type} [BEq α] (needle : List α) : List α → Bool
  | [] => needle.isEmpty
  | c :: rest => needle.isPrefixOf (c :: rest) || occursIn needle rest

/-- A text has the other one as a consecutive part. -/
def contains (hay needle : String) : Bool := occursIn needle.toList hay.toList

/-- Digits of a number in base 16, small letters, at least `width` of them. -/
def hexadecimal (width n : Nat) : String :=
  let digits := Nat.toDigits 16 n
  String.ofList (List.replicate (width - digits.length) '0' ++ digits)

/-- A number in decimal with at least `width` digits. -/
def padded (width n : Nat) : String :=
  let digits := Nat.toDigits 10 n
  String.ofList (List.replicate (width - digits.length) '0' ++ digits)

end GraphMapper.Text
