/-
Numbers read from text. Both readers take digits of any writing system, white
space around the number, a sign, and single underscores between digits. What a
text outside ASCII may hold is decided by rewriting it to ASCII first,
character by character; in a text of ASCII alone only the ASCII blanks count as
white space.
-/
import GraphMapper.Number.Binary64
import GraphMapper.Text.Blank
import GraphMapper.Text.Digit

namespace GraphMapper.Numeral

/-- The ASCII character that stands for `c` in a number; `?` stands for what
has no place in one. -/
def asciiForm (c : Char) : Char :=
  if c.toNat < 127 then c
  else if Text.isBlank c then ' '
  else match Text.decimalValue? c with
    | some d => Nat.digitChar d
    | none => '?'

/-- The characters of a text as the readers see them. -/
def prepare (s : String) : List Char :=
  let cs := s.toList
  Text.trimBy Text.isAsciiBlank
    (if cs.all (·.toNat < 128) then cs else cs.map asciiForm)

def isAsciiDigit (c : Char) : Bool := '0' ≤ c && c ≤ '9'

/-- The sign in front, and the rest. -/
def splitSign : List Char → Bool × List Char
  | '-' :: rest => (true, rest)
  | '+' :: rest => (false, rest)
  | cs => (false, cs)

/-- The characters without their underscores, each of which has to stand
between two digits. -/
def dropUnderscores (previous : Char) : List Char → Option (List Char)
  | [] => if previous = '_' then none else some []
  | c :: rest =>
    if c = '_' then
      if isAsciiDigit previous then dropUnderscores c rest else none
    else if previous = '_' && !isAsciiDigit c then none
    else (dropUnderscores c rest).map (c :: ·)

/-- The number that a row of ASCII digits writes. -/
def valueOf (digits : List Char) : Nat :=
  digits.foldl (fun n c => 10 * n + (c.toNat - '0'.toNat)) 0

/-- The longest row of digits that is read as an integer. -/
def maxIntegerDigits : Nat := 4300

/-- An integer from prepared characters. -/
def integerOf? (cs : List Char) : Option Int :=
  let (negative, body) := splitSign cs
  match dropUnderscores ' ' body with
  | none => none
  | some digits =>
    if digits.isEmpty || !digits.all isAsciiDigit ||
      digits.length > maxIntegerDigits then none
    else some (if negative then -(valueOf digits : Int) else valueOf digits)

/-- An integer in decimal. -/
def readInteger? (s : String) : Option Int := integerOf? (prepare s)

/-- An integer from octets, all of which have to be ASCII. -/
def readIntegerOctets? (bs : List UInt8) : Option Int :=
  if bs.all (·.toNat < 128) then
    integerOf? (Text.trimBy Text.isAsciiBlank
      (bs.map fun b => Char.ofNat b.toNat))
  else none

/-- The exponent behind the digits of a number: nothing, or a mark with an
integer. -/
def exponentOf? : List Char → Option Int
  | [] => some 0
  | c :: rest =>
    if c = 'e' || c = 'E' then
      let (negative, digits) := splitSign rest
      if digits.isEmpty || !digits.all isAsciiDigit then none
      else some (if negative then -(valueOf digits : Int) else valueOf digits)
    else none

/-- An unsigned decimal with an optional fraction and exponent; it has a digit
on at least one side of the point. -/
def decimalOf? (negative : Bool) (cs : List Char) : Option Binary64 :=
  let whole := cs.takeWhile isAsciiDigit
  let afterWhole := cs.dropWhile isAsciiDigit
  let (frac, rest) := match afterWhole with
    | '.' :: more => (more.takeWhile isAsciiDigit, more.dropWhile isAsciiDigit)
    | other => ([], other)
  if whole.isEmpty && frac.isEmpty then none
  else (exponentOf? rest).map fun e =>
    Binary64.ofDecimal negative (valueOf (whole ++ frac)) (e - frac.length)

/-- A floating-point number: a decimal, an infinity or NaN, in any letter
case. -/
def readDecimal? (s : String) : Option Binary64 :=
  match dropUnderscores ' ' (prepare s) with
  | none => none
  | some cs =>
    let (negative, body) := splitSign cs
    let word := String.ofList (body.map Char.toLower)
    if word = "inf" || word = "infinity" then some (.infinite negative)
    else if word = "nan" then some (.nan 0)
    else decimalOf? negative body

end GraphMapper.Numeral
