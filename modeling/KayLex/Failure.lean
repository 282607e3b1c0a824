import KayLex.Location

/-!
What can go wrong, as causes. The wording of every failure is given in one place,
`Failure.message`; what follows from a failure depends on the cause alone.

Malformed text is no failure: it becomes tokens. A failure comes from the medium
that the text is read from, from octets that the encoding does not admit, or from
a request that cannot be served.
-/

namespace KayLex

/-- A run of octets that an encoding does not admit. -/
structure Undecodable where
  codec : String
  /-- The run itself, never empty. -/
  octets : List UInt8
  /-- Where the run starts among the octets that were decoded together. -/
  position : Nat
  reason : String
  deriving DecidableEq

/-- A single octet is shown, a longer run only by where it starts and ends. -/
def Undecodable.message (u : Undecodable) : String :=
  match u.octets with
  | [octet] =>
    let shown := String.ofList (Text.hexDigits 2 octet.toNat)
    s!"'{u.codec}' codec can't decode byte 0x{shown} in position {u.position}: {u.reason}"
  | octets =>
    let last := u.position + octets.length - 1
    s!"'{u.codec}' codec can't decode bytes in position {u.position}-{last}: {u.reason}"

/-- A message for the user, with the place it is about and a hint where there is one. -/
structure Diagnostic where
  message : String
  location : Option Location := none
  hint : Option String := none
  deriving DecidableEq

/-- The lines of a diagnostic. An empty hint is left out. -/
def Diagnostic.text (d : Diagnostic) : String :=
  let place := match d.location with
    | some l => l.text ++ ": "
    | none => ""
  let advice := match d.hint with
    | some h => if h = "" then "" else "\nhint: " ++ h
    | none => ""
  place ++ "error: " ++ d.message ++ advice

/-- A source that cannot be opened, with the reason where one is known. -/
structure Unavailable where
  path : String
  reason : Option String := none
  deriving DecidableEq

def Unavailable.diagnostic (u : Unavailable) : Diagnostic :=
  let because := match u.reason with
    | some r => if r = "" then "" else s!" ({r})"
    | none => ""
  { message := "cannot open source file" ++ because
    location := some ⟨u.path, 0, 0⟩
    hint := some "check that the file exists and is readable" }

inductive Change where
  | assign
  | delete
  deriving DecidableEq

def Change.verb : Change → String
  | .assign => "assign to"
  | .delete => "delete"

inductive Failure where
  /-- The medium failed. -/
  | device (text : String)
  /-- The medium refused access. -/
  | denied (text : String)
  | undecodable (octets : Undecodable)
  /-- An encoding cannot be applied at all. -/
  | misencoded (text : String)
  /-- A value is outside of what is admitted. -/
  | badValue (text : String)
  | badSort (text : String)
  | badState (text : String)
  /-- Something ended that had to go on. -/
  | cutShort (text : String)
  | usage (text : String)
  | frozen (change : Change) (field : String)
  /-- A failure that is reported to the user as it is. -/
  | reported (diagnostic : Diagnostic)
  | unavailable (source : Unavailable)
  deriving DecidableEq

namespace Failure

def message : Failure → String
  | device text | denied text | misencoded text | badValue text | badSort text
  | badState text | cutShort text | usage text => text
  | undecodable octets => octets.message
  | frozen change field => s!"cannot {change.verb} field {Text.quoted field}"
  | reported diagnostic => diagnostic.text
  | unavailable source => source.diagnostic.text

/-- Whether a failed read counts as the end of the input. The medium and the octets
may fail in that way; any other failure goes to the caller. -/
def endsInput : Failure → Bool
  | device _ | denied _ | undecodable _ => true
  | _ => false

def diagnostic? : Failure → Option Diagnostic
  | reported diagnostic => some diagnostic
  | unavailable source => some source.diagnostic
  | _ => none

end Failure

end KayLex
