import KayLex.Text.Quoted

/-!
Locations, as messages name them: a source, and a line and column in it. A line
of zero or less says that no place inside the source is meant, and then only the
source is shown.

The numbers are integers, because a location may also be made by hand; the
scanner itself only makes locations with positive lines and columns.
-/

namespace KayLex

structure Location where
  source : String
  line : Int := 0
  column : Int := 0
  deriving DecidableEq

namespace Location

/-- The location as it stands at the front of a message. -/
def text (l : Location) : String :=
  if l.line ≤ 0 then l.source else s!"{l.source}:{l.line}:{l.column}"

def describe (l : Location) : String :=
  s!"SourceLocation(filename={Text.quoted l.source}, line={l.line}, column={l.column})"

end Location

end KayLex
