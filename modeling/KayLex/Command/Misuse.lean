import KayLex.Text.Quoted

/-!
What can be wrong with the arguments of the command line, and how it is described.
-/

namespace KayLex.Command

inductive Misuse where
  /-- There is no such option, but there may be some that look like it. -/
  | unknownOption (name : String) (guesses : List String)
  | needsValue (option : String)
  | takesNoValue (option : String)
  | missingInput
  | noSuchInput (path : String)
  | inputIsFolder (path : String)
  | extraInputs (inputs : List String)
  deriving DecidableEq

namespace Misuse

def question (guesses : List String) : String :=
  match guesses with
  | [] => ""
  | [guess] => s!" Did you mean {Text.quoted guess}?"
  | _ =>
    let shown := String.intercalate ", " (guesses.map Text.quoted)
    s!" (Did you mean one of: {shown}?)"

def message : Misuse → String
  | unknownOption name guesses => s!"No such option {Text.quoted name}." ++ question guesses
  | needsValue option => s!"Option {Text.quoted option} requires an argument."
  | takesNoValue option => s!"Option {Text.quoted option} does not take a value."
  | missingInput => "Missing argument 'INPUT_FILE'."
  | noSuchInput path =>
    s!"Invalid value for 'INPUT_FILE': File {Text.quoted path} does not exist."
  | inputIsFolder path =>
    s!"Invalid value for 'INPUT_FILE': File {Text.quoted path} is a directory."
  | extraInputs inputs =>
    let shown := String.intercalate " " inputs
    if inputs.length = 1 then s!"Got unexpected extra argument ({shown})"
    else s!"Got unexpected extra arguments ({shown})"

/-- Whether the usage is shown with a misuse. It is not where an option's value is at
fault. -/
def showsUsage : Misuse → Bool
  | needsValue _ | takesNoValue _ => false
  | _ => true

end Misuse

end KayLex.Command
