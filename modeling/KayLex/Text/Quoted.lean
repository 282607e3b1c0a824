import KayLex.Text.Printable

/-!
The quoted form of a text: the text between quotation marks, with everything
that would not show as itself written as an escape. Lexemes and source names are
quoted in messages, because a malformed lexeme may be a control character, a
quotation mark or nothing visible at all.

Single marks are used, except for a text that holds single marks and no double
one. What is not printable is written by its code point in two, four or eight
hexadecimal digits, whichever is the shortest that has room for it.
-/

namespace KayLex.Text

def singleMark : Char := '\x27'

def doubleMark : Char := '\x22'

/-- The last `width` hexadecimal digits of a number, in lower case. -/
def hexDigits : Nat → Nat → List Char
  | 0, _ => []
  | width + 1, n => hexDigits width (n / 16) ++ [Nat.digitChar (n % 16)]

def codeEscape (n : Nat) : List Char :=
  if n < 0x100 then '\\' :: 'x' :: hexDigits 2 n
  else if n < 0x10000 then '\\' :: 'u' :: hexDigits 4 n
  else '\\' :: 'U' :: hexDigits 8 n

def quotedChar (mark c : Char) : List Char :=
  if c = '\\' ∨ c = mark then ['\\', c]
  else if c = '\n' then ['\\', 'n']
  else if c = '\r' then ['\\', 'r']
  else if c = '\t' then ['\\', 't']
  else if isPrintable c then [c]
  else codeEscape c.toNat

def markFor (cs : List Char) : Char :=
  if singleMark ∈ cs ∧ doubleMark ∉ cs then doubleMark else singleMark

def quotedChars (cs : List Char) : List Char :=
  markFor cs :: (cs.flatMap (quotedChar (markFor cs)) ++ [markFor cs])

def quoted (s : String) : String := String.ofList (quotedChars s.toList)

end KayLex.Text
