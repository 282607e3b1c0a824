import KayLex.Command.Scan

/-!
The command line. It finds out what the file names on it lead to, hands them to
`Command.scan`, and passes on what that leaves behind. It has no decoders besides
those that are described here.
-/

namespace KayLex

/-- The system's code for a path that leads to a folder. -/
def folderCode : UInt32 := 21

/-- The system's code for a name that is too long. -/
def overlongCode : UInt32 := 36

def placeOf (path : String) : IO Place := do
  try
    let octets ← IO.FS.readBinFile path
    return .file octets.toList
  catch
    | .inappropriateType _ code _ => return if code = folderCode then .folder else .behindFile
    | .invalidArgument _ code _ => return if code = overlongCode then .overlong else .missing
    | _ => return .missing

/-- The paths that a run with these arguments asks about. -/
def pathsOf (args : List String) : List String :=
  match Command.Arguments.read args with
  | .ok a => (a.inputs.take 1).flatMap fun input => [input, Path.tidy input]
  | .error _ => []

end KayLex

def main (args : List String) : IO UInt32 := do
  let places ← (KayLex.pathsOf args).mapM fun path => return (path, ← KayLex.placeOf path)
  let names := [KayLex.Options.encodingVariable, KayLex.Options.policyVariable]
  let settings ← names.mapM fun name => return (name, ← IO.getEnv name)
  let setting? (name : String) : Option String := (settings.lookup name).join
  let look (path : String) : KayLex.Place := (places.lookup path).getD .missing
  let outcome := KayLex.Command.scan args setting? look
  IO.print outcome.output
  IO.eprint outcome.errors
  return outcome.status.code.toUInt32
