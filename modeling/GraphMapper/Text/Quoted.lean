/-
Quoted forms of texts and octets.

The *literal* form is the one that messages show a text in when it is part of a
larger value: it stands between single quotes unless it holds a single quote
and no double quote, and whatever is not printable is an escape. The *JSON*
form is the one that composite values are stored in: double quotes, and nothing
but printable ASCII between them.
-/
import GraphMapper.Text.Printable

namespace GraphMapper.Text

/-- `'`, written by its code as all quotes here. -/
def singleQuote : Char := '\x27'

def doubleQuote : Char := '\x22'

def backslash : Char := '\x5c'

/-- The quote of a literal form: the single one, unless only the double one
avoids escapes. -/
def quoteFor (cs : List Char) : Char :=
  if cs.contains singleQuote && !cs.contains doubleQuote then doubleQuote
  else singleQuote

/-- The short escapes that literal and JSON forms share: tab, line feed and
carriage return. -/
def controlEscape? (c : Char) : Option Char :=
  if c = '\t' then some 't' else if c = '\n' then some 'n'
  else if c = '\r' then some 'r' else none

/-- The escape of a code point by number: two, four or eight hexadecimal
digits. -/
def numericEscape (n : Nat) : List Char :=
  if n < 0x100 then backslash :: 'x' :: (hexadecimal 2 n).toList
  else if n < 0x10000 then backslash :: 'u' :: (hexadecimal 4 n).toList
  else backslash :: 'U' :: (hexadecimal 8 n).toList

/-- One character inside the literal form with quote `q`. -/
def literalChar (q c : Char) : List Char :=
  if c = q || c = backslash then [backslash, c]
  else match controlEscape? c with
    | some e => [backslash, e]
    | none => if isPrintable c then [c] else numericEscape c.toNat

/-- The literal form of a text. -/
def literal (s : String) : String :=
  let cs := s.toList
  let q := quoteFor cs
  String.ofList (q :: cs.flatMap (literalChar q) ++ [q])

/-- One octet inside the literal form with quote `q`: printable ASCII stands
for itself. -/
def literalOctet (q : Char) (b : UInt8) : List Char :=
  let c := Char.ofNat b.toNat
  if c = q || c = backslash then [backslash, c]
  else match controlEscape? c with
    | some e => [backslash, e]
    | none =>
        if 0x20 ≤ b.toNat && b.toNat < 0x7f then [c] else numericEscape b.toNat

/-- The literal form of octets: that of their ASCII reading, marked by a
`b`. -/
def literalOctets (bs : List UInt8) : String :=
  let q := quoteFor (bs.map fun b => Char.ofNat b.toNat)
  String.ofList ('b' :: q :: bs.flatMap (literalOctet q) ++ [q])

/-- The UTF-16 units of a code point: one, or a surrogate pair above the basic
plane. -/
def units16 (n : Nat) : List Nat :=
  if n < 0x10000 then [n]
  else [0xd800 + (n - 0x10000) / 0x400, 0xdc00 + (n - 0x10000) % 0x400]

/-- One character inside a JSON text. What is not printable ASCII and has no
short escape is written by its UTF-16 units. -/
def jsonChar (c : Char) : List Char :=
  if c = doubleQuote || c = backslash then [backslash, c]
  else match controlEscape? c with
    | some e => [backslash, e]
    | none =>
      if c = '\x08' then [backslash, 'b']
      else if c = '\x0c' then [backslash, 'f']
      else if 0x20 ≤ c.toNat && c.toNat < 0x7f then [c]
      else (units16 c.toNat).flatMap fun u => backslash :: 'u'
        :: (hexadecimal 4 u).toList

/-- The JSON form of a text. -/
def json (s : String) : String :=
  String.ofList (doubleQuote :: s.toList.flatMap jsonChar ++ [doubleQuote])

end GraphMapper.Text
