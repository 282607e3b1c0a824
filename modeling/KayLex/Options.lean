import KayLex.Text.Quoted

/-!
How a source file is to be read: the name of its encoding and the name of the
policy for octets that are no text. Both are names only; whether they mean
anything shows when a file is opened.

Options are taken from the environment where it sets them. An empty setting is
none, and a policy from the environment has to be one of the three that suit a
scanner; anything else leaves the default in place.
-/

namespace KayLex

/-- The names under which a file is decoded. -/
structure Options where
  encoding : String := "utf-8"
  policy : String := "replace"
  deriving DecidableEq

namespace Options

/-- The policies that the environment can choose. -/
def scannerPolicies : List String := ["strict", "replace", "ignore"]

def encodingVariable : String := "KAY_ENCODING"

def policyVariable : String := "KAY_DECODE_ERRORS"

def ofEnvironment (setting? : String → Option String) : Options :=
  let defaults : Options := {}
  let encoding := match setting? encodingVariable with
    | some name => if name = "" then defaults.encoding else name
    | none => defaults.encoding
  let policy := match setting? policyVariable with
    | some name => if name ∈ scannerPolicies then name else defaults.policy
    | none => defaults.policy
  { encoding, policy }

def describe (o : Options) : String :=
  s!"ScannerOptions(encoding={Text.quoted o.encoding}, errors={Text.quoted o.policy})"

end Options

end KayLex
