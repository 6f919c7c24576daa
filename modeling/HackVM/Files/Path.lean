/-!
# Paths

A path is kept as it was written. Its *name* is the last part that is not a separator: trailing `/`
and `/.` do not count, and a path that ends in `..`, or holds nothing but dots and separators of
this kind, has no name. A name splits at its last dot into a stem and an extension, unless that dot
is its first character.
-/

namespace HackVM

/-- A path, as written. -/
structure Path where
  text : String
  deriving DecidableEq, Repr

namespace Path

/-- Drops what does not count at the end of a path, whose characters are given last first. -/
def dropTrailing : List Char → List Char
  | '/' :: cs => dropTrailing cs
  | ['.'] => []
  | '.' :: '/' :: cs => dropTrailing cs
  | cs => cs

/-- The text before the name, and the name, if the path has one. -/
def split? (p : Path) : Option (List Char × List Char) :=
  let back := dropTrailing p.text.toList.reverse
  let name := (back.takeWhile (· != '/')).reverse
  if name = [] || name = ['.', '.'] then none
  else some ((back.dropWhile (· != '/')).reverse, name)

/-- The stem and the extension of a name. -/
def splitName (name : List Char) : List Char × Option (List Char) :=
  let ext := (name.reverse.takeWhile (· != '.')).reverse
  let stem := (name.reverse.dropWhile (· != '.')).drop 1 |>.reverse
  if stem = [] then (name, none) else (stem, some ext)

/-- The name of a path. -/
def fileName? (p : Path) : Option String :=
  p.split?.map fun (_, name) => String.ofList name

/-- The name without its extension. -/
def stem? (p : Path) : Option String :=
  p.split?.map fun (_, name) => String.ofList (splitName name).1

/-- What stands behind the last dot of the name. -/
def extension? (p : Path) : Option String :=
  p.split?.bind fun (_, name) => (splitName name).2.map String.ofList

/-- Drops as many characters from the end of the path as its extension has. -/
def dropExtension (p : Path) : Path :=
  let length := (p.extension?.getD "").toList.length
  ⟨String.ofList (p.text.toList.reverse.drop length).reverse⟩

/-- Replaces the extension. The old one is dropped from the end, what is left is cut behind its
stem, and the new one is put there. If nothing with a name is left, it stays as it is: this happens
to a path without a name, and to one that ends in a name like `..x`, of which `..` is left. -/
def withExtension (p : Path) (ext : String) : Path :=
  let kept := p.dropExtension
  match kept.split? with
  | none => kept
  | some (parent, name) => ⟨String.ofList (parent ++ (splitName name).1 ++ ['.']) ++ ext⟩

/-- The path of something inside a directory. -/
def join (p : Path) (name : String) : Path :=
  match p.text.toList.getLast? with
  | none => ⟨name⟩
  | some '/' => ⟨p.text ++ name⟩
  | some _ => ⟨p.text ++ "/" ++ name⟩

/-- The parts of a text between separators; `""` for every empty one. -/
def splitParts : List Char → List (List Char)
  | [] => [[]]
  | c :: cs =>
    if c = '/' then [] :: splitParts cs
    else
      match splitParts cs with
      | [] => [[c]]
      | part :: rest => (c :: part) :: rest

/-- The parts of the path between separators. -/
def parts (p : Path) : List String :=
  (splitParts p.text.toList).map String.ofList

/-- Whether the path starts at the root. -/
def isAbsolute (p : Path) : Bool :=
  p.text.toList.head? == some '/'

end Path

end HackVM
