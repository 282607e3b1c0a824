import KayLex.Drain
import KayLex.Encoding.Reader
import KayLex.FileTree
import KayLex.Options
import KayLex.Text.Clip

/-!
Opening a file for scanning. The order of the checks is fixed: the name of the policy
is looked up, the names of the encoding and of the path are searched for null
characters, the path is looked up, then the encoding, and last the first character
is read. The first obstacle is the one that is reported.

Whatever stands in the way of opening is reported as the source being unavailable,
with the reason. A name that holds a null character is a bad value and no obstacle,
and a first read that fails in a way the cursor does not absorb goes to the caller
as it is.
-/

namespace KayLex

open Encoding

inductive Obstacle where
  | missing
  | isFolder
  | behindFile
  | overlong
  | unknownPolicy (name : String)
  | unknownEncoding (name : String)
  | notTextEncoding (name : String)
  deriving DecidableEq

/-- How many octets of a name there is room for in a description. -/
def shownOctets : Nat := 400

/-- How an obstacle is described. The name of an encoding that is not known is never cut. -/
def Obstacle.reason : Obstacle → String
  | missing => "No such file or directory"
  | isFolder => "Is a directory"
  | behindFile => "Not a directory"
  | overlong => "File name too long"
  | unknownPolicy name => s!"unknown error handler name '{Text.clip shownOctets name}'"
  | unknownEncoding name => s!"unknown encoding: {name}"
  | notTextEncoding name =>
    let shown := Text.clip shownOctets name
    s!"'{shown}' is not a text encoding; use codecs.open() to handle arbitrary codecs"

inductive Refusal where
  | blocked (path : String) (obstacle : Obstacle)
  | failed (failure : Failure)
  deriving DecidableEq

def Refusal.failure : Refusal → Failure
  | blocked path obstacle => .unavailable ⟨path, some obstacle.reason⟩
  | failed f => f

/-- The null character, which no name may hold. -/
def nul : Char := Char.ofNat 0

namespace Opening

/-- Refuses a name that holds a null character, which is called `what`. -/
def checkName (name what : String) : Except Refusal Unit :=
  if nul ∈ name.toList then .error (.failed (.badValue s!"embedded null {what}")) else .ok ()

def checkPolicy (path : String) (o : Options) : Except Refusal Unit :=
  if Encoding.Policy.isKnown o.policy then .ok ()
  else .error (.blocked path (.unknownPolicy o.policy))

def octets (look : String → Place) (path : String) : Except Refusal (List UInt8) :=
  match look path with
  | .file octets => .ok octets
  | .missing => .error (.blocked path .missing)
  | .folder => .error (.blocked path .isFolder)
  | .behindFile => .error (.blocked path .behindFile)
  | .overlong => .error (.blocked path .overlong)

def reader (path : String) (o : Options) (codecs : Codecs) : Except Refusal Reader :=
  match Reader.ofNames codecs o.encoding o.policy with
  | .text reader => .ok reader
  | .notText => .error (.blocked path (.notTextEncoding o.encoding))
  | .unknown => .error (.blocked path (.unknownEncoding o.encoding))

/-- The reader for a file under options, and the octets that it is to read. -/
def file (look : String → Place) (path : String) (o : Options) (codecs : Codecs) :
    Except Refusal (Reader × List UInt8) := do
  checkName o.policy "character"
  checkPolicy path o
  checkName o.encoding "character"
  checkName path "byte"
  let octets ← octets look path
  let reader ← reader path o codecs
  return (reader, octets)

def stream (look : String → Place) (path : String) (o : Options) (codecs : Codecs := .empty) :
    Except Refusal Stream :=
  (file look path o codecs).map fun (reader, octets) => reader.stream octets

def surrogates (look : String → Place) (path : String) (o : Options)
    (codecs : Codecs := .empty) : List (Nat × Surrogate) :=
  match file look path o codecs with
  | .ok (reader, octets) => reader.surrogates octets
  | .error _ => []

end Opening

/-- The scanner at the start of a file, with the opening on record. -/
def Scanner.ofFile (look : String → Place) (path : String) (o : Options := {})
    (codecs : Codecs := .empty) : Except Refusal Scanner := do
  let stream ← Opening.stream look path o codecs
  match Cursor.start path stream true with
  | .ok k => return ⟨k.note (.opened path o.encoding), false, 0⟩
  | .error f => throw (.failed f)

end KayLex
