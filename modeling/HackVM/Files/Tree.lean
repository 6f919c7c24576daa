import HackVM.Error
import HackVM.Files.Path
import HackVM.Text.Line

/-!
# File trees

The files and directories that a run can see, as a value. A *location* is the list of names that
leads from the root to a file or directory; a path is walked from the root or from the current
directory, one part at a time, and every directory on the way has to exist. Paths and their parts
have a greatest length in bytes. A listing gives a directory's names in the order in which the tree
holds them, which means nothing.

Four things that a disk can hold are left out: links, permissions, files that are neither regular
nor directories, and names that are not text. So the only faults are those of `FileFault`, and a
file that is open can always be written.
-/

namespace HackVM

open Text

/-- The bytes that a name may have. -/
def maxNameBytes : Nat := 255

/-- The bytes that a path may have. -/
def maxPathBytes : Nat := 4095

/-- A name that something inside a directory can have. -/
structure FileName where
  text : String
  ne_empty : text ≠ ""
  ne_dot : text ≠ "."
  ne_up : text ≠ ".."
  slash_notMem : '/' ∉ text.toList
  noNull : ∀ c ∈ text.toList, c.toNat ≠ 0
  short : byteLength text.toList ≤ maxNameBytes
  deriving DecidableEq

/-- The name that a text is, if it can be one. -/
def FileName.ofText? (s : String) : Option FileName :=
  if h : s ≠ "" ∧ s ≠ "." ∧ s ≠ ".." ∧ '/' ∉ s.toList ∧
      s.toList.all (fun c => c.toNat != 0) = true ∧ byteLength s.toList ≤ maxNameBytes then
    some ⟨s, h.1, h.2.1, h.2.2.1, h.2.2.2.1, by simpa using h.2.2.2.2.1, h.2.2.2.2.2⟩
  else none

/-- The names that lead from the root to a place. -/
abbrev Location := List FileName

/-- What can stand at a location. -/
inductive Node where
  | file (content : ByteArray)
  | directory
  deriving BEq

/-- Files and directories, and the directory that paths start from. -/
@[ext] structure FileTree where
  /-- Everything but the root. -/
  entries : List (Location × Node) := []
  /-- The current directory. -/
  current : Location := []
  /-- No two entries stand at one location. -/
  distinct : (entries.map Prod.fst).Nodup := by decide

namespace FileTree

/-- What stands at a location. The root is a directory. -/
def node? (t : FileTree) (l : Location) : Option Node :=
  if l = [] then some .directory else t.entries.lookup l

/-- One part of a path further, from a place that has to be a directory. A part that is no name is
too long: it holds no separator, and a path with a null character is not walked. -/
def enter (t : FileTree) (l : Location) (part : String) : Except FileFault Location :=
  match t.node? l with
  | none => .error .notFound
  | some (.file _) => .error .notADirectory
  | some .directory =>
    if part = "" || part = "." then .ok l
    else if part = ".." then .ok l.dropLast
    else
      match FileName.ofText? part with
      | some name => .ok (l ++ [name])
      | none => .error .nameTooLong

/-- Walks the parts of a path. The last place need not exist. -/
def walk (t : FileTree) (l : Location) (parts : List String) : Except FileFault Location :=
  parts.foldlM t.enter l

/-- Where a path starts. -/
def startOf (t : FileTree) (p : Path) : Location :=
  if p.isAbsolute then [] else t.current

/-- What is wrong with the text of a path, whatever the files are. -/
def textFault? (p : Path) : Option FileFault :=
  if p.text.toList.any fun c => c.toNat == 0 then some .nullInName
  else if p.text = "" then some .notFound
  else if maxPathBytes < byteLength p.text.toList then some .nameTooLong
  else none

/-- The place of a path, which need not exist. -/
def locate (t : FileTree) (p : Path) : Except FileFault Location :=
  match textFault? p with
  | some fault => .error fault
  | none => t.walk (t.startOf p) p.parts

/-- What stands at a path. -/
def find (t : FileTree) (p : Path) : Except FileFault Node := do
  let l ← t.locate p
  match t.node? l with
  | some node => .ok node
  | none => .error .notFound

/-- Whether a path leads to a directory. -/
def isDirectory (t : FileTree) (p : Path) : Bool :=
  match t.find p with
  | .ok .directory => true
  | _ => false

/-- Whether a path leads to a file. -/
def isFile (t : FileTree) (p : Path) : Bool :=
  match t.find p with
  | .ok (.file _) => true
  | _ => false

/-- The bytes of a file. -/
def read (t : FileTree) (p : Path) : Except FileFault ByteArray := do
  match ← t.find p with
  | .file content => .ok content
  | .directory => .error .isADirectory

/-- The text of a file. -/
def readText (t : FileTree) (p : Path) : Except FileFault String := do
  match String.fromUTF8? (← t.read p) with
  | some text => .ok text
  | none => .error .notText

/-- The name of the directory at a path, as the tree knows it. The root has none. -/
def directoryName? (t : FileTree) (p : Path) : Option String :=
  match t.locate p with
  | .ok l => l.getLast?.map FileName.text
  | .error _ => none

/-- The names directly inside a location. -/
def namesIn (t : FileTree) (l : Location) : List FileName :=
  t.entries.filterMap fun (place, _) =>
    if place ≠ [] ∧ place.dropLast = l then place.getLast? else none

/-- The names directly inside the directory at a path. -/
def list (t : FileTree) (p : Path) : Except FileFault (List FileName) := do
  match ← t.find p with
  | .file _ => .error .notADirectory
  | .directory => .ok (t.namesIn (← t.locate p))

/-- The entries with something at a location, in the place of what was there. -/
def putEntry (l : Location) (node : Node) (entries : List (Location × Node)) :
    List (Location × Node) :=
  if l ∈ entries.map Prod.fst then entries.map fun e => if e.1 = l then (l, node) else e
  else entries ++ [(l, node)]

/-- Only a new location is added to those of the entries. -/
theorem map_fst_putEntry (l : Location) (node : Node) (entries : List (Location × Node)) :
    (putEntry l node entries).map Prod.fst =
      if l ∈ entries.map Prod.fst then entries.map Prod.fst else entries.map Prod.fst ++ [l] := by
  unfold putEntry
  split
  · rw [List.map_map]
    refine List.map_congr_left fun e _ => ?_
    simp only [Function.comp_apply]
    split <;> simp_all
  · rw [List.map_append]
    rfl

/-- Locations stay distinct. -/
theorem nodup_putEntry (l : Location) (node : Node) {entries : List (Location × Node)}
    (h : (entries.map Prod.fst).Nodup) : ((putEntry l node entries).map Prod.fst).Nodup := by
  rw [map_fst_putEntry]
  split
  case isTrue => exact h
  case isFalse hnew =>
    rw [List.nodup_append]
    refine ⟨h, List.pairwise_singleton _ _, fun a ha b hb => ?_⟩
    rw [List.mem_singleton.mp hb]
    exact fun hab => hnew (hab ▸ ha)

/-- Puts something at a location, in the place of what was there. -/
def put (t : FileTree) (l : Location) (node : Node) : FileTree where
  entries := putEntry l node t.entries
  current := t.current
  distinct := nodup_putEntry l node t.distinct

/-- Whether a path ends in a separator. -/
def endsInSlash (p : Path) : Bool :=
  p.text.toList.getLast? == some '/'

/-- The place where a file can be created or replaced. The directory it is in has to exist. A name
followed by a separator can only be a directory's, so it is not even looked up. -/
def locateFile (t : FileTree) (p : Path) : Except FileFault Location :=
  match textFault? p, p.parts.reverse.dropWhile (· == "") with
  | some fault, _ => .error fault
  | none, [] => .error .isADirectory
  | none, name :: above => do
    let directory ← t.walk (t.startOf p) above.reverse
    if endsInSlash p then do
      let _ ← t.enter directory "."
      .error .isADirectory
    else t.enter directory name

/-- Opens a file to write it anew: it is there afterwards, and empty. What is replaced has to be a
file. An open that fails is taken to leave the files as they are. -/
def create (t : FileTree) (p : Path) : Except FileFault Location × FileTree :=
  match t.locateFile p with
  | .error fault => (.error fault, t)
  | .ok l =>
    match t.node? l with
    | some .directory => (.error .isADirectory, t)
    | _ => (.ok l, t.put l (.file .empty))

/-- Creates or replaces a file: opens it, and fills it. -/
def write (t : FileTree) (p : Path) (content : ByteArray) : Except FileFault Unit × FileTree :=
  match t.create p with
  | (.error fault, t) => (.error fault, t)
  | (.ok l, t) => (.ok (), t.put l (.file content))

/-- The entries that a tree does not share with an earlier one. -/
def changesSince (t before : FileTree) : List (Location × Node) :=
  t.entries.filter fun (l, node) => before.node? l != some node

/-- The place of a path by its text alone, whether or not the directories on the way exist. -/
def place? (t : FileTree) (p : Path) : Option Location :=
  p.parts.foldlM (fun l part =>
    if part = "" || part = "." then some l
    else if part = ".." then some l.dropLast
    else (FileName.ofText? part).map fun name => l ++ [name]) (t.startOf p)

end FileTree

end HackVM
