import KayLex.Token

/-!
Listings of tokens: one line to a token, numbered from one. The text of a token is
not quoted; since it holds no blank, the lines can still be told apart, and `read`
gets back the kinds and texts that a listing was made of.
-/

namespace KayLex.Listing

def line (number : Nat) (t : Token) : String := s!"Token {number} - {t.text}"

def lines (ts : List Token) : List String := ts.mapIdx fun i t => line (i + 1) t

theorem getElem?_lines (ts : List Token) (i : Nat) :
    (lines ts)[i]? = ts[i]?.map (line (i + 1)) := by
  simp [lines]

/-- Lines as a text, each with a line feed behind it. -/
def unlines (ls : List String) : String := String.join (ls.map (· ++ "\n"))

/-! ### Reading a listing back -/

/-- What stands behind the given characters in a text that begins with them. -/
def behind? : List Char → List Char → Option (List Char)
  | [], cs => some cs
  | _ :: _, [] => none
  | a :: as, c :: cs => if a = c then behind? as cs else none

theorem behind?_append (as cs : List Char) : behind? as (as ++ cs) = some cs := by
  induction as with
  | nil => rfl
  | cons a as ih => simp [behind?, ih]

def readLine (number : Nat) (line : List Char) : Option (Kind × String) := do
  let shown ← behind? s!"Token {number} - Type: ".toList line
  Kind.all.findSome? fun k => do
    let lexeme ← behind? s!"{k.label} - Value: ".toList shown
    return (k, String.ofList lexeme)

/-- Reads lines that are numbered from `number` on, when some of the first one has been
seen (which is given latest first). -/
def readFrom (number : Nat) (seen : List Char) : List Char → Option (List (Kind × String))
  | [] => if seen.isEmpty then some [] else none
  | c :: rest =>
    if c = '\n' then do
      let first ← readLine number seen.reverse
      let others ← readFrom (number + 1) [] rest
      return first :: others
    else readFrom number (c :: seen) rest

/-- The kinds and texts of the tokens that a listing shows. -/
def read (listing : String) : Option (List (Kind × String)) := readFrom 1 [] listing.toList

end KayLex.Listing
