import KayLex.Command.Outcome
import KayLex.Listing
import KayLex.Opening

/-!
A survey of a file: the listing of its tokens, how many there are of each kind, and
where the malformed ones stand. A kind that does not occur is left out, and so is
the section on malformed tokens where there are none.
-/

namespace KayLex.Command.Survey

def kindWidth : Nat := 11

def kindLine (k : Kind) (count : Nat) : String :=
  let shown := String.ofList (k.label.toList.rightpad kindWidth ' ')
  s!"  {shown} {count}"

def kindLines (ts : List Token) : List String :=
  Kind.all.filterMap fun k =>
    let count := ts.countP (·.kind = k)
    if count = 0 then none else some (kindLine k count)

def malformedLine (t : Token) : String := s!"  {t.location.text}: {Text.quoted t.lexeme}"

def malformedSection (ts : List Token) : List String :=
  let malformed := ts.filter Token.isError
  if malformed.isEmpty then [] else ["", "Malformed lexemes:"] ++ malformed.map malformedLine

def lines (ts : List Token) : List String :=
  Listing.lines ts ++ (["", "Tokens by kind:"] ++ kindLines ts) ++ malformedSection ts

/-- Surveys the file that a path leads to, with the default options. -/
def run (look : String → Place) (path : String) : Except Failure Outcome :=
  match Scanner.ofFile look (Path.tidy path) with
  | .error refusal =>
    match refusal.failure.diagnostic? with
    | some d => .ok { status := .invalidArguments, errors := d.text ++ "\n" }
    | none => .error refusal.failure
  | .ok scanner =>
    let drained := scanner.drain
    match drained.ending with
    | .ok _ => .ok { output := Listing.unlines (lines drained.tokens) }
    | .error f => .error f

end KayLex.Command.Survey
