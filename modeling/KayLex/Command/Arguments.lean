import KayLex.Command.Misuse
import KayLex.Text.Likeness

/-!
The arguments of the command line. They are read from left to right: options may
stand before or behind the input file, two dashes end them, and a single dash is a
file's name. The first argument that makes no sense ends the reading.

An option's value stands behind an equals sign or is the next argument, whatever
that looks like. Short flags can be written together behind one dash. An unknown
option is reported with the options that look like it.
-/

namespace KayLex.Command

/-- A text that is shown instead of a scan. -/
inductive Notice where
  | help
  | version
  deriving DecidableEq

structure Arguments where
  strict : Bool := false
  verbose : Bool := false
  /-- The encoding asked for last. -/
  encoding : Option String := none
  /-- The notice asked for first. -/
  notice : Option Notice := none
  /-- The arguments that are no options. -/
  inputs : List String := []
  deriving DecidableEq

namespace Arguments

def flags : List (String × (Arguments → Arguments)) :=
  [("--help", fun a => { a with notice := a.notice.or (some .help) }),
   ("--strict", fun a => { a with strict := true }),
   ("--verbose", fun a => { a with verbose := true }),
   ("--version", fun a => { a with notice := a.notice.or (some .version) })]

def encodingOption : String := "--encoding"

/-- The names of all options in alphabetical order. -/
def optionNames : List String := encodingOption :: flags.map Prod.fst

def mostGuesses : Nat := 3

def unknownOption (name : String) : Misuse :=
  .unknownOption name (Text.guesses mostGuesses name optionNames)

/-- The parts of an argument before and behind its first equals sign. -/
def splitValue (arg : List Char) : List Char × Option (List Char) :=
  match arg with
  | [] => ([], none)
  | '=' :: rest => ([], some rest)
  | c :: rest =>
    let (name, value) := splitValue rest
    (c :: name, value)

/-- Applies short flags that are written together. For an unknown one nothing is offered. -/
def applyShort (a : Arguments) : List Char → Except Misuse Arguments
  | [] => .ok a
  | 'v' :: rest => applyShort { a with verbose := true } rest
  | c :: _ => .error (.unknownOption (String.ofList ['-', c]) [])

/-- What an argument is, apart from the two dashes. -/
inductive Argument where
  | input
  | encoding (value : Option String)
  | flag (name : String) (set : Arguments → Arguments) (valued : Bool)
  | short (flags : List Char)
  | unknown (name : String)

def argument (arg : String) : Argument :=
  match arg.toList with
  | '-' :: c :: rest =>
    let (name, value) := splitValue ('-' :: c :: rest)
    let name := String.ofList name
    if name = encodingOption then .encoding (value.map String.ofList)
    else
      match flags.lookup name with
      | some set => .flag name set value.isSome
      | none => if c = '-' then .unknown name else .short (c :: rest)
  | _ => .input

def readFrom (a : Arguments) : List String → Except Misuse Arguments
  | [] => .ok a
  | arg :: rest =>
    if arg = "--" then .ok { a with inputs := a.inputs ++ rest }
    else
      match argument arg with
      | .input => readFrom { a with inputs := a.inputs ++ [arg] } rest
      | .encoding (some value) => readFrom { a with encoding := some value } rest
      | .encoding none =>
        match rest with
        | [] => .error (.needsValue encodingOption)
        | value :: rest => readFrom { a with encoding := some value } rest
      | .flag name set valued =>
        if valued then .error (.takesNoValue name) else readFrom (set a) rest
      | .short flags =>
        match applyShort a flags with
        | .ok a => readFrom a rest
        | .error m => .error m
      | .unknown name => .error (unknownOption name)

def read (args : List String) : Except Misuse Arguments := readFrom {} args

end Arguments

end KayLex.Command
