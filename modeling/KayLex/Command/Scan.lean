import KayLex.Command.Notices
import KayLex.Listing
import KayLex.Opening

/-!
The command that lists the tokens of a file. Every token is listed as it is found,
so a failure in the middle of a file leaves the lines before it.

The listing is written in UTF-8, which has room for every character but for no
surrogate that stands alone. A decoder of the system may deliver one; it is a
malformed token by itself, and its line cannot be written, which ends the run.

A verbose run also shows the record of the scan and counts the tokens; a strict run
ends with a status of its own if any token is malformed. Neither changes the listing.
-/

namespace KayLex

open Encoding

-- The equations that the matches below bind serve the proof that a scan ends.
set_option linter.unusedVariables false

/-- Scans to the end and hands each token on, with those before it (which are given latest
first). Where that fails, the scan stops behind the token. -/
def Scanner.relayFrom (write? : List Token → Token → Option Failure) (found : List Token)
    (s : Scanner) : Drained :=
  match h : next s with
  | .error f s' => ⟨found.reverse, .error f, s'⟩
  | .ok t s' =>
    if ht : t.isEnd then ⟨found.reverse, .ok t, s'⟩
    else
      match write? found t with
      | some f => ⟨found.reverse, .error f, s'⟩
      | none => relayFrom write? (t :: found) s'
termination_by s.cursor.remaining
decreasing_by exact remaining_lt_of_next h (by simpa using ht)

namespace Command

/-! ### Surrogates -/

def surrogate? (surrogates : List (Nat × Surrogate)) (t : Token) : Option Surrogate :=
  surrogates.lookup t.offset.toNat

def unwritableText (s : Surrogate) (position : Nat) : String :=
  s!"'utf-8' codec can't encode character '{s.escape}' in position {position}: " ++
    "surrogates not allowed"

/-- What writing the line of a token fails with, behind the lines of others. The surrogate stands
at the end of the line. -/
def unwritable? (surrogates : List (Nat × Surrogate)) (before : List Token) (t : Token) :
    Option Failure :=
  (surrogate? surrogates t).map fun s =>
    let line := Listing.line (before.length + 1) t
    .misencoded (unwritableText s (line.length - t.lexeme.length))

/-- What the record says about an event, with surrogates shown by their codes. -/
def recordText (surrogates : List (Nat × Surrogate)) : Event → String
  | .malformed t =>
    match surrogate? surrogates t with
    | some s => Event.malformedText t s!"'{s.escape}'"
    | none => (Event.malformed t).text
  | e => e.text

/-- The listing of tokens as it is written, line by line. -/
def written (ts : List Token) : String :=
  String.join ((Listing.lines ts).map fun l => Text.plain (l ++ "\n"))

/-! ### Jobs -/

structure Job where
  path : String
  options : Options := {}
  strict : Bool := false
  verbose : Bool := false
  deriving DecidableEq

namespace Job

/-- The job that arguments and environment ask for. An empty encoding is none. -/
def ofArguments (a : Arguments) (setting? : String → Option String) (input : String) : Job :=
  let options := Options.ofEnvironment setting?
  let options := match a.encoding with
    | some name => if name = "" then options else { options with encoding := name }
    | none => options
  { path := Path.tidy input, options, strict := a.strict, verbose := a.verbose }

def shown (job : Job) (surrogates : List (Nat × Surrogate)) (events : List Event) : String :=
  if job.verbose then
    Listing.unlines (events.map fun e => s!"{e.level.label}: {recordText surrogates e}")
  else Listing.unlines ((events.filter (·.level = .warning)).map (recordText surrogates))

def beginning (job : Job) : Event := .scanning job.path job.options.encoding

def tally (job : Job) (count malformed : Nat) : String :=
  Text.plain s!"Scanned {count} tokens ({malformed} malformed) from {job.path}\n"

def complaint (job : Job) (malformed : Nat) : String :=
  Text.plain s!"Error: {malformed} malformed lexeme(s) in {job.path}\n"

/-- What a run that has scanned to the end leaves behind, without the record. -/
def completed (job : Job) (tokens : List Token) (count : Nat) : Outcome :=
  let malformed := tokens.countP Token.isError
  let output := written tokens ++
    if job.verbose then job.tally count malformed else ""
  if job.strict && 0 < malformed then
    { status := .lexicalError, output, errors := job.complaint malformed }
  else { output }

/-- What a run that has listed tokens leaves behind, without the record. -/
def concluded (job : Job) (listed : Scanner.Drained) : Outcome :=
  match listed.ending with
  | .ok _ => job.completed listed.tokens listed.scanner.count
  | .error f => { Outcome.ofFailure f job.verbose with output := written listed.tokens }

def run (job : Job) (look : String → Place) (codecs : Codecs := .empty) : Outcome :=
  let surrogates := Opening.surrogates look job.path job.options codecs
  let (events, outcome) :=
    match Scanner.ofFile look job.path job.options codecs with
    | .error refusal => ([], Outcome.ofFailure refusal.failure job.verbose)
    | .ok scanner =>
      let listed := scanner.relayFrom (unwritable? surrogates) []
      (listed.scanner.released.cursor.journal.reverse, job.concluded listed)
  { outcome with errors := job.shown surrogates (job.beginning :: events) ++ outcome.errors }

end Job

/-- The input file of a command line, if it can be one: it has to be there and be a file,
and to be the only one. Otherwise, what the command leaves behind. It breaks off at a name
that no file can have. -/
def inputOf (look : String → Place) (inputs : List String) : Except Outcome String :=
  match inputs with
  | [] => .error (.ofMisuse .missingInput)
  | input :: extra =>
    if nul ∈ input.toList then .error .brokenOff
    else
      match look input with
      | .file _ => if extra.isEmpty then .ok input else .error (.ofMisuse (.extraInputs extra))
      | .folder => .error (.ofMisuse (.inputIsFolder input))
      | _ => .error (.ofMisuse (.noSuchInput input))

/-- Runs the command with arguments, in an environment, on the files that paths lead to.
Misuse of an option comes before a notice, and a notice before anything else. -/
def scan (args : List String) (setting? : String → Option String) (look : String → Place)
    (codecs : Codecs := .empty) : Outcome :=
  match Arguments.read args with
  | .error misuse => .ofMisuse misuse
  | .ok a =>
    match a.notice with
    | some notice => { output := notice.text }
    | none =>
      match inputOf look a.inputs with
      | .error outcome => outcome
      | .ok input => (Job.ofArguments a setting? input).run look codecs

end Command

end KayLex
