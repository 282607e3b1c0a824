import KayLex.Encoding.Foreign

/-!
How files can be read: in an encoding and under a policy that are both described
here, or by another decoder of the system. The system is asked only where a name is
not described here, or the policy is one that delivers surrogates.
-/

namespace KayLex.Encoding

inductive Reader where
  | described (charset : Charset) (policy : Policy)
  | foreign (decoder : Foreign)

namespace Reader

/-- What the names of an encoding and of a policy can mean together. -/
inductive Meaning where
  | text (reader : Reader)
  | notText
  | unknown

/-- What names mean in a system with the given decoders. -/
def ofNames (codecs : Codecs) (encoding policy : String) : Meaning :=
  let elsewhere : Meaning := match codecs encoding policy with
    | some decoder => .text (.foreign decoder)
    | none => .unknown
  match Charset.ofName encoding with
  | .notText => .notText
  | .foreign => elsewhere
  | .text charset =>
    match Policy.ofName? policy with
    | some policy => .text (.described charset policy)
    | none => elsewhere

/-- A system is not asked about names that are both described here. -/
theorem ofNames_described {encoding name : String} {charset : Charset} {policy : Policy}
    (hcharset : Charset.ofName encoding = .text charset)
    (hpolicy : Policy.ofName? name = some policy) (codecs : Codecs) :
    ofNames codecs encoding name = .text (.described charset policy) := by
  rw [ofNames, hcharset, hpolicy]

def stream : Reader → List UInt8 → Stream
  | described charset policy, octets => fileText charset policy octets
  | foreign decoder, octets => ((decoder.answers octets).map CodePoint.standIn).stream

/-- The surrogates in the text of a file, with their places. -/
def surrogates : Reader → List UInt8 → List (Nat × Surrogate)
  | described .., _ => []
  | foreign decoder, octets => CodePoint.surrogatesFrom 0 (decoder.answers octets).text

end Reader

end KayLex.Encoding
