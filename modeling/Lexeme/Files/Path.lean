/-!
# Paths

A path is a text in which slashes separate names. Empty parts and single dots in it say nothing, and two dots lead out
of a directory; all other parts are names (`IsName`). The extension of a name is what follows its last dot, unless nothing
precedes that dot; the stem is what precedes it.
-/

namespace Lexeme.Files

/-- Whether a text can be the name of an entry. -/
structure IsName (name : String) : Prop where
  ne_empty : name ≠ ""
  ne_dot : name ≠ "."
  ne_parent : name ≠ ".."
  slash_notMem : '/' ∉ name.toList

instance (name : String) : Decidable (IsName name) :=
  decidable_of_iff (name ≠ "" ∧ name ≠ "." ∧ name ≠ ".." ∧ '/' ∉ name.toList)
    ⟨fun ⟨hempty, hdot, hparent, hslash⟩ => ⟨hempty, hdot, hparent, hslash⟩,
      fun h => ⟨h.ne_empty, h.ne_dot, h.ne_parent, h.slash_notMem⟩⟩

/-- The parts of a path between its slashes. -/
def parts (path : String) : List String :=
  (path.toList.splitOn '/').map String.ofList

/-- The name that a path ends with. A path that ends with two dots, or has no name in it, names no file. -/
def fileName? (path : String) : Option String :=
  ((parts path).filter fun part => part ≠ "" && part ≠ ".").getLast?.filter (· ≠ "..")

/-- The stem and the extension of a name. -/
def splitName (name : List Char) : List Char × Option (List Char) :=
  let extension := (name.reverse.takeWhile (· ≠ '.')).reverse
  let stem := name.take (name.length - extension.length - 1)
  if stem = [] then (name, none) else (stem, some extension)

/-- A name with another extension. The old one goes first, up to the dot before it. Where two dots are left, they name
no file that could have an extension, and it stays at that. -/
def withExtension (name extension : String) : String :=
  match splitName name.toList with
  | (_, none) => name ++ "." ++ extension
  | (stem, some _) =>
    let kept := String.ofList stem ++ "."
    if kept = ".." then kept else kept ++ extension

/-- The extension of the file name of a path. -/
def extension? (path : String) : Option String :=
  (fileName? path).bind fun name => (splitName name.toList).2.map String.ofList

/-- The path of a name in a directory. -/
def join (directory name : String) : String :=
  if directory.isEmpty ∨ directory.endsWith "/" then directory ++ name else directory ++ "/" ++ name

end Lexeme.Files
