import KayLex.Failure

/-!
Policies for octets that are no text. A policy is given one ill-formed run at a
time and either supplies the characters that stand for it or gives up.

Two policies are known that describe characters in a notation of their own. There
is no character to describe in an ill-formed run, so they always give up, and not
with a failure of the input but with one of their own.

Two more put surrogates, which are no characters, in the place of octets. They are
known here by their names alone; what comes of a text under them is left to the
decoders of the system.
-/

namespace KayLex.Encoding

/-- What to do with an ill-formed run of octets. -/
inductive Policy where
  /-- Give up. -/
  | strict
  /-- One replacement character for each run. -/
  | replace
  /-- Nothing. -/
  | ignore
  /-- Each octet of the run as a hexadecimal escape. -/
  | escape
  /-- A numeric reference to a character. -/
  | reference
  /-- A reference to a character by name. -/
  | named
  deriving DecidableEq

namespace Policy

/-- The policies that are described here, with their names. -/
def table : List (String × Policy) :=
  [("strict", strict), ("replace", replace), ("ignore", ignore), ("backslashreplace", escape),
   ("xmlcharrefreplace", reference), ("namereplace", named)]

/-- The policy of a name. Names are compared exactly. -/
def ofName? (name : String) : Option Policy := table.lookup name

/-- The names of the policies that put surrogates in the place of octets. -/
def surrogateNames : List String := ["surrogateescape", "surrogatepass"]

/-- Whether there is a policy of a name. -/
def isKnown (name : String) : Bool := (ofName? name).isSome || surrogateNames.contains name

theorem isKnown_of_ofName? {name : String} {p : Policy} (h : ofName? name = some p) :
    isKnown name = true := by
  simp [isKnown, h]

def replacement : Char := '\uFFFD'

def escapedOctet (octet : UInt8) : List Char := '\\' :: 'x' :: Text.hexDigits 2 octet.toNat

/-- The characters that stand for an ill-formed run. -/
def repair (p : Policy) (u : Undecodable) : Except Failure (List Char) :=
  match p with
  | strict => .error (.undecodable u)
  | replace => .ok [replacement]
  | ignore => .ok []
  | escape => .ok (u.octets.flatMap escapedOctet)
  | reference | named =>
    .error (.badSort "don't know how to handle UnicodeDecodeError in error callback")

end Policy

end KayLex.Encoding
