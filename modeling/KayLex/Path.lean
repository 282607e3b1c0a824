/-!
Paths of files, as texts. A path names its steps between slashes. Its tidy form
leaves out the steps that go nowhere; a step to the parent stays, since it may lead
out of a link.
-/

namespace KayLex.Path

/-- The pieces of a text between its slashes, empty ones included. -/
def cut : List Char → List (List Char)
  | [] => [[]]
  | c :: rest =>
    if c = '/' then [] :: cut rest
    else
      match cut rest with
      | piece :: pieces => (c :: piece) :: pieces
      | [] => [[c]]

def steps (path : String) : List String := (cut path.toList).map String.ofList

def isAbsolute (path : String) : Bool := path.toList.head? = some '/'

def endsInSlash (path : String) : Bool := path.toList.getLast? = some '/'

/-- What an absolute path begins with. Exactly two slashes are kept apart from one. -/
def root (path : String) : String :=
  match path.toList with
  | '/' :: '/' :: '/' :: _ => "/"
  | '/' :: '/' :: _ => "//"
  | '/' :: _ => "/"
  | _ => ""

def isStep (step : String) : Bool := step ≠ "" && step ≠ "."

def tidy (path : String) : String :=
  let text := root path ++ String.intercalate "/" ((steps path).filter isStep)
  if text = "" then "." else text

end KayLex.Path
