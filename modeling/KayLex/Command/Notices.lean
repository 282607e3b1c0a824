import KayLex.Command.Arguments
import KayLex.Command.Outcome

/-!
The texts with which the command explains itself.
-/

namespace KayLex.Command

def version : String := "1.0.0"

def usageLine : String := "Usage: kayscan [OPTIONS] INPUT_FILE\n"

def helpText : String :=
  usageLine ++
  "
  Print the token stream of a KAY source file.

  INPUT_FILE is the KAY source file to scan.

  Examples:
      kayscan prog1.kay              # One line per token
      kayscan --strict prog1.kay     # Fail on malformed lexemes
      kayscan -v prog1.kay           # Debug logging and a summary

Options:
  --strict         Exit with status 1 if any malformed lexeme (Other token) is
                   found
  --encoding TEXT  Source file encoding (default: $KAY_ENCODING or utf-8)
  -v, --verbose    Verbose output
  --version        Show the version and exit.
  --help           Show this message and exit.
"

def Notice.text : Notice → String
  | help => helpText
  | version => s!"kayscan, version {Command.version}\n"

def Outcome.ofMisuse (m : Misuse) : Outcome :=
  let usage := if m.showsUsage then usageLine ++ "Try 'kayscan --help' for help.\n\n" else ""
  { status := .invalidArguments, errors := Text.plain (usage ++ s!"Error: {m.message}\n") }

end KayLex.Command
