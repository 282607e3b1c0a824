import KayLex.Path

/-!
A tree of files, and what a path leads to in it. The tree is given by its files and
by folders that may be empty; every folder on the way to a file exists too.

A path is walked step by step from the top folder of the tree. Whatever lies above
that folder is outside of the tree, where nothing has a name.
-/

namespace KayLex

inductive Place where
  | file (octets : List UInt8)
  | folder
  /-- There is nothing of that name. -/
  | missing
  /-- The path goes on behind a file. -/
  | behindFile
  /-- A name is longer than names can be. -/
  | overlong
  deriving DecidableEq

/-- Files and folders by their steps from the top. -/
structure FileTree where
  files : List (List String × List UInt8)
  folders : List (List String)

namespace FileTree

/-- How many octets a name can have. -/
def longestName : Nat := 255

/-- How many octets a path can have. -/
def longestPath : Nat := 4095

/-- The tree of named files. A name that ends in a slash is a folder's. -/
def ofNamed (entries : List (String × List UInt8)) : FileTree :=
  let isFolder (entry : String × List UInt8) : Bool := Path.endsInSlash entry.1
  let stepsOf (name : String) := (Path.steps name).filter Path.isStep
  { files := (entries.filter (!isFolder ·)).map fun entry => (stepsOf entry.1, entry.2)
    folders := (entries.filter isFolder).map fun entry => stepsOf entry.1 }

/-- Whether some steps lead to a folder: the top, a folder, or one on the way to
something. -/
def hasFolder (t : FileTree) (steps : List String) : Bool :=
  steps.isEmpty || t.folders.any steps.isPrefixOf ||
    t.files.any fun file => steps.isPrefixOf file.1 && steps ≠ file.1

/-- Walks on from a folder, which lies so many folders above the top, or in the tree (then
its steps are given from the top). -/
def walk (t : FileTree) (above : Nat) (here : List String) : List String → Place
  | [] => .folder
  | step :: rest =>
    if !Path.isStep step then walk t above here rest
    else if step = ".." then
      if here.isEmpty then walk t (above + 1) [] rest else walk t above here.dropLast rest
    else if longestName < step.utf8ByteSize then .overlong
    else if 0 < above then .missing
    else if t.hasFolder (here ++ [step]) then walk t above (here ++ [step]) rest
    else
      match t.files.lookup (here ++ [step]) with
      | some octets => if rest.isEmpty then .file octets else .behindFile
      | none => .missing

def look (t : FileTree) (path : String) : Place :=
  if path = "" then .missing
  else if longestPath < path.utf8ByteSize then .overlong
  else t.walk (if Path.isAbsolute path then 1 else 0) [] (Path.steps path)

end FileTree

end KayLex
