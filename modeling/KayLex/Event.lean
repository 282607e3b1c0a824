import KayLex.Failure
import KayLex.Token

/-!
The record of a scan: what happened to the source and which tokens were found
malformed. Events are kept as they are; their wording is a function of them, so a
question about the record is a question about events and not about text.
-/

namespace KayLex

inductive Level where
  | debug
  | warning
  deriving DecidableEq

def Level.label : Level → String
  | debug => "DEBUG"
  | warning => "WARNING"

inductive Origin where
  | source
  | scanner
  | command
  deriving DecidableEq

inductive Event where
  /-- A file was opened under an encoding's name. -/
  | opened (source encoding : String)
  /-- A source that owns its stream released it. -/
  | closed (source : String)
  /-- A read failed in a way that ends the input. -/
  | readFailed (source : String) (position : Position) (failure : Failure)
  | malformed (token : Token)
  | ended (location : Location) (count : Nat)
  | scanning (source encoding : String)
  deriving DecidableEq

namespace Event

/-- Only a failed read is more than a detail. -/
def level : Event → Level
  | readFailed .. => .warning
  | _ => .debug

def origin : Event → Origin
  | opened .. | closed .. | readFailed .. => .source
  | malformed .. | ended .. => .scanner
  | scanning .. => .command

/-- What the record says about a malformed token, whose lexeme is shown as given. -/
def malformedText (t : Token) (shown : String) : String :=
  s!"{t.location.text}: unrecognized lexeme {shown}"

def text : Event → String
  | opened source encoding => s!"Opened {source} (encoding={encoding})"
  | closed source => s!"Closed {source}"
  | readFailed source position failure =>
    s!"{source}:{position.line}:{position.column}: read failed, treating as end of input: " ++
      failure.message
  | malformed token => malformedText token (Text.quoted token.lexeme)
  | ended location count => s!"{location.text}: end of stream after {count} tokens"
  | scanning source encoding => s!"Scanning {source} (encoding={encoding})"

end Event

end KayLex
