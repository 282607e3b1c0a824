import KayLex.Lexicon

/-!
Which texts are lexemes, said of whole texts and without a scanner. There are six
rules; the first five name what they admit, and the last one admits any single
character, so that something can always be found at the front of a text.

A text can be admitted by at most one of the first five rules. The last one counts
only where none of them applies, and what it admits is malformed.
-/

namespace KayLex.Grammar

inductive Rule where
  /-- A letter and word characters behind it. -/
  | word
  /-- Decimal digits, at least one. -/
  | numeral
  /-- Decimal digits, a letter or underscore, and word characters behind it. -/
  | malformedNumeral
  | operator
  | separator
  | single
  deriving DecidableEq

namespace Rule

/-- All rules, those that name what they admit first. -/
def all : List Rule := [word, numeral, malformedNumeral, operator, separator, single]

def admits : Rule → List Char → Bool
  | word, [] => false
  | word, c :: rest => Text.isLetter c && rest.all Lexicon.isWordChar
  | numeral, cs => !cs.isEmpty && cs.all Text.isDecimalDigit
  | malformedNumeral, cs =>
    match cs.dropWhile Text.isDecimalDigit with
    | [] => false
    | c :: rest =>
      cs.head?.any Text.isDecimalDigit && Lexicon.spoilsNumeral c && rest.all Lexicon.isWordChar
  | operator, cs => String.ofList cs ∈ Lexicon.operators
  | separator, cs => cs ∈ Lexicon.separators.map ([·])
  | single, cs => cs.length = 1

def kind : Rule → List Char → Kind
  | word, cs =>
    if String.ofList cs ∈ Lexicon.keywords then .keyword
    else if String.ofList cs ∈ Lexicon.booleans then .literal
    else .identifier
  | numeral, _ => .literal
  | malformedNumeral, _ => .other
  | operator, _ => .operator
  | separator, _ => .separator
  | single, _ => .other

end Rule

def ruleFor? (cs : List Char) : Option Rule := Rule.all.find? (·.admits cs)

/-- The kind of a text that is a lexeme. -/
def kindOf? (cs : List Char) : Option Kind := (ruleFor? cs).map (·.kind cs)

/-- A kind and a text that the scanner can find together: the text is a lexeme of that
kind, and no single blank, which only separates lexemes. -/
def Valid (kind : Kind) (cs : List Char) : Prop :=
  kindOf? cs = some kind ∧ (ruleFor? cs = some .single → cs.all (!Text.isBlank ·))

instance (kind : Kind) (cs : List Char) : Decidable (Valid kind cs) :=
  inferInstanceAs (Decidable (_ ∧ _))

end KayLex.Grammar
