/-!
Texts cut to a number of octets. The cut may fall inside a character; what is left of
that one is shown by the replacement character.
-/

namespace KayLex.Text

/-- The first characters, as far as they have room in so many octets. -/
def clipChars (room : Nat) : List Char → List Char
  | [] => []
  | c :: cs =>
    if c.utf8Size ≤ room then c :: clipChars (room - c.utf8Size) cs
    else if room = 0 then []
    else ['\uFFFD']

def clip (room : Nat) (s : String) : String := String.ofList (clipChars room s.toList)

end KayLex.Text
