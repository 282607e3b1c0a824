import KayLex.Failure
import KayLex.Position

/-!
Tokens: a kind, the exact text, and where it starts. Malformed text is a token
too, of kind `other`, so a scan always accounts for its whole input; the end of
the input is marked by one token of kind `endOfStream`.

Two tokens are alike when kind and text agree, wherever they stand.
-/

namespace KayLex

inductive Kind where
  | endOfStream
  | keyword
  | identifier
  | literal
  | operator
  | separator
  | other
  deriving DecidableEq

namespace Kind

/-- All kinds, in the order in which summaries list them. -/
def all : List Kind :=
  [endOfStream, keyword, identifier, literal, operator, separator, other]

def label : Kind → String
  | endOfStream => "EndOfStream"
  | keyword => "Keyword"
  | identifier => "Identifier"
  | literal => "Literal"
  | operator => "Operator"
  | separator => "Separator"
  | other => "Other"

def ofLabel? (s : String) : Option Kind := all.find? (·.label = s)

def refusal (shown : String) : Failure := .badValue s!"{shown} is not a valid TokenKind"

/-- The kind that is shown under a name; any other name is refused. -/
def named (s : String) : Except Failure Kind :=
  match ofLabel? s with
  | some k => .ok k
  | none => .error (refusal (Text.quoted s))

theorem mem_all (k : Kind) : k ∈ all := by cases k <;> simp [all]

end Kind

def unnamedSource : String := "<input>"

structure Token where
  kind : Kind
  lexeme : String
  line : Int := 0
  column : Int := 0
  offset : Int := 0
  source : String := unnamedSource
  deriving DecidableEq

/-- A lexeme that was found in a text: where it starts, what it is, and its characters. -/
structure Found where
  start : Position
  kind : Kind
  lexeme : List Char
  deriving DecidableEq

def Found.token (source : String) (x : Found) : Token :=
  ⟨x.kind, String.ofList x.lexeme, x.start.line, x.start.column, x.start.offset, source⟩

namespace Token

/-- What the token that marks the end shows as its text. -/
def endLexeme : String := "EOF"

def sentinel (source : String) (p : Position) : Token :=
  Found.token source ⟨p, .endOfStream, endLexeme.toList⟩

def location (t : Token) : Location := ⟨t.source, t.line, t.column⟩

def isError (t : Token) : Bool := t.kind = .other

def isEnd (t : Token) : Bool := t.kind = .endOfStream

def alike (a b : Token) : Bool := a.kind = b.kind && a.lexeme = b.lexeme

def text (t : Token) : String := s!"Type: {t.kind.label} - Value: {t.lexeme}"

def describe (t : Token) : String :=
  s!"Token({t.kind.label}, {Text.quoted t.lexeme}, {t.line}:{t.column})"

@[simp] theorem isEnd_sentinel (source : String) (p : Position) :
    (sentinel source p).isEnd = true := rfl

theorem mem_filter_isEnd {t : Token} {ts : List Token} :
    t ∈ ts.filter (!·.isEnd) ↔ t ∈ ts ∧ t.isEnd = false := by
  simp

end Token

end KayLex
