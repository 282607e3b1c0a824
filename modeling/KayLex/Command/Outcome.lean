import KayLex.Failure
import KayLex.Text.ControlSequence

/-!
What a command leaves behind: how it ended and what it wrote. A failure ends a
command with a status that tells whose fault it was; only a failure that nobody
foresaw is shown with its trace, and only if the user wants to see much.

What the command says goes out as plain text: control sequences in the names that it
speaks of are left out. The record of a scan is shown as it is.
-/

namespace KayLex.Command

inductive Status where
  | success
  /-- Malformed lexemes were found, and that was not to be. -/
  | lexicalError
  /-- The command line was wrong or the file could not be opened. -/
  | invalidArguments
  | internalError
  /-- The command broke off before it had begun. -/
  | brokenOff
  deriving DecidableEq

namespace Status

/-- The statuses with which the command ends in an orderly way, in the order of their
codes. -/
def orderly : List Status := [success, lexicalError, invalidArguments, internalError]

/-- The exit code of a status. A command that breaks off has no code of its own. -/
def code : Status → Nat
  | success => 0
  | lexicalError | brokenOff => 1
  | invalidArguments => 2
  | internalError => 3

end Status

structure Outcome where
  status : Status := .success
  output : String := ""
  /-- What was written to the standard error, up to a trace. -/
  errors : String := ""
  /-- Whether a trace of the failure was asked for behind that. -/
  traced : Bool := false
  deriving DecidableEq

def Outcome.brokenOff : Outcome := { status := .brokenOff }

def Outcome.ofFailure (f : Failure) (verbose : Bool) : Outcome :=
  match f.diagnostic? with
  | some d => { status := .invalidArguments, errors := Text.plain (d.text ++ "\n") }
  | none =>
    match f with
    | .usage text =>
      { status := .invalidArguments, errors := Text.plain s!"Error: {text}\n" }
    | _ =>
      { status := .internalError
        errors := Text.plain s!"Internal error: {f.message}\n"
        traced := verbose }

end KayLex.Command
