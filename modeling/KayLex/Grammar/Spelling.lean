import KayLex.Grammar.Gap
import KayLex.Grammar.Lexeme

/-!
Texts that are printed from lexemes. `Spells` lists, kind by kind, the texts that a
lexeme of the kind can have; `print` puts lexemes side by side with a separator between
any two of them. A separator begins with a blank, because two lexemes that touch can
make up a third one, and a slash that touches a lexeme can open a comment.

The rules of `Rule` are tried one after the other, and what a later rule admits depends
on the earlier ones. Here every case stands for itself.
-/

namespace KayLex.Grammar

/-- A text is the spelling of a lexeme of some kind. -/
inductive Spells : Kind → List Char → Prop where
  | keyword {cs : List Char} (h : String.ofList cs ∈ Lexicon.keywords) : Spells .keyword cs
  | boolean {cs : List Char} (h : String.ofList cs ∈ Lexicon.booleans) : Spells .literal cs
  | numeral {ds : List Char} (hne : ds ≠ []) (h : ∀ d ∈ ds, Text.isDecimalDigit d = true) :
      Spells .literal ds
  | identifier {c : Char} {cs : List Char} (hc : Text.isLetter c = true)
      (hcs : ∀ d ∈ cs, Lexicon.isWordChar d = true)
      (hboolean : String.ofList (c :: cs) ∉ Lexicon.booleans)
      (hkeyword : String.ofList (c :: cs) ∉ Lexicon.keywords) : Spells .identifier (c :: cs)
  | operator {cs : List Char} (h : String.ofList cs ∈ Lexicon.operators) : Spells .operator cs
  | separator {c : Char} (h : c ∈ Lexicon.separators) : Spells .separator [c]
  | malformedNumeral {ds cs : List Char} {c : Char} (hne : ds ≠ [])
      (hds : ∀ d ∈ ds, Text.isDecimalDigit d = true) (hc : Text.isLetter c = true ∨ c = '_')
      (hcs : ∀ d ∈ cs, Lexicon.isWordChar d = true) : Spells .other (ds ++ c :: cs)
  /-- A sign that is an operator only together with another one. -/
  | half {c : Char} (h : c = ':' ∨ c = '&' ∨ c = '|') : Spells .other [c]
  /-- A character that nothing starts with. -/
  | unknown {c : Char} (hblank : Text.isBlank c = false) (hletter : Text.isLetter c = false)
      (hdigit : Text.isDecimalDigit c = false)
      (hoperator : ∀ s ∈ Lexicon.operators, s.toList.head? ≠ some c)
      (hseparator : c ∉ Lexicon.separators) : Spells .other [c]

structure Spelling where
  kind : Kind
  chars : List Char
  spells : Spells kind chars

/-- What is printed between two lexemes: a blank, and any gap behind it that ends before
the next lexeme. -/
structure Separator where
  blank : Char
  gap : List Char := []
  isBlank_blank : Text.isBlank blank = true
  isGap : Gap false gap

instance : Inhabited Separator := ⟨⟨' ', [], by decide, .nil⟩⟩

def Separator.chars (s : Separator) : List Char := s.blank :: s.gap

/-- Lexemes as a text, with the separators between them in their order. -/
def print (separators : Nat → Separator) : List Spelling → List Char
  | [] => []
  | [x] => x.chars
  | x :: y :: rest =>
    x.chars ++ ((separators 0).chars ++ print (fun i => separators (i + 1)) (y :: rest))

end KayLex.Grammar
