import KayLex.Text.Blank
import KayLex.Text.DecimalDigit
import KayLex.Text.Letter
import KayLex.Token

/-!
The vocabulary of the language: its reserved words, its operators and
separators, and the classes of characters that words and numerals are made of.
-/

namespace KayLex.Lexicon

def keywords : List String := ["main", "integer", "bool", "if", "else", "while"]

def booleans : List String := ["True", "False"]

def operators : List String :=
  [":=", "&&", "||", "!", "!=", "<", "<=", ">", ">=", "=", "==", "+", "-", "*", "/", "%"]

def separators : List Char := ['(', ')', '\x7b', '\x7d', ';', ',']

/-- The signs that an equals sign may follow within an operator. -/
def comparisonSigns : List Char := ['!', '<', '>', '=']

/-- The signs that are operators by themselves and go on no further. -/
def arithmeticSigns : List Char := ['+', '-', '*', '%']

/-- Whether some characters stand side by side, in their order, in a row of characters. -/
def isStretch (cs : List Char) : List Char → Bool
  | [] => cs.isEmpty
  | c :: row => cs.isPrefixOf (c :: row) || isStretch cs row

@[simp] theorem isStretch_singleton (c : Char) (row : List Char) :
    isStretch [c] row = row.contains c := by
  induction row with
  | nil => rfl
  | cons d row ih => simp [isStretch, List.isPrefixOf, ih, Bool.beq_eq_decide_eq]

/-- Whether a character can go on a word that a letter has begun. -/
def isWordChar (c : Char) : Bool := Text.isLetter c || Text.isDecimalDigit c || c == '_'

/-- Whether a character makes digits that stand before it a malformed numeral. -/
def spoilsNumeral (c : Char) : Bool := Text.isLetter c || c == '_'

def endsLine (c : Char) : Bool := c == '\n' || c == '\r'

/-- The kind of a word. The Boolean words come before the reserved ones, and capitals
count. -/
def wordKind (word : List Char) : Kind :=
  if String.ofList word ∈ booleans then .literal
  else if String.ofList word ∈ keywords then .keyword
  else .identifier

end KayLex.Lexicon
