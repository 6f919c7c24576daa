import HackVM.Proofs.Files.Listings
import HackVM.Proofs.Program.AllOrNothing
import Mathlib.Data.List.Lex

/-!
# Which source files are found

The input of a run may be a directory. Then the source files directly inside it are the units,
ascending by path.

* **What is found.** A source file of a directory is a file with a name that ends in the extension
  and has something in front of its dot (`IsSource`). Exactly those are found whose path is not too
  long; the list is ascending and has no path twice, and if it is empty the run has no inputs
  (`discovers_fitting`).
* **What is missed.** A file whose path is too long is left out without a word. So the list is the
  one that is expected if and only if no source file has such a path (`discovers_all_iff`).
* **The order of the entries** makes no difference, neither to the list nor to a build
  (`build_of_reordered`).

Main statement: `discovery_exact`.
-/

namespace HackVM

open Text FileTree

/-! ## The order of paths -/

namespace Path

/-- The kinds of components in their order. -/
def Component.rank : Component → Nat
  | .root => 0
  | .here => 1
  | .up => 2
  | .name _ => 3

/-- Components are ordered by their kind, and names by their text. -/
inductive Component.Precedes : Component → Component → Prop
  | kind {c d : Component} (h : c.rank < d.rank) : Precedes c d
  | text {a b : String} (h : a < b) : Precedes (.name a) (.name b)

/-- Paths are ordered by their components. -/
def Before (p q : Path) : Prop :=
  List.Lex Component.Precedes p.components q.components

/-- No two components stand before each other. -/
theorem Component.Precedes.asymm {c d : Component} (h : c.Precedes d) : ¬d.Precedes c := by
  intro h'
  cases h with
  | kind hrank =>
      cases h' with
      | kind hrank' => exact Nat.lt_asymm hrank hrank'
      | text => exact Nat.lt_irrefl _ hrank
  | text htext =>
      cases h' with
      | kind hrank => exact Nat.lt_irrefl _ hrank
      | text htext' => exact String.lt_asymm htext htext'

/-- No two paths stand before each other. -/
theorem Before.asymm {p q : Path} (h : p.Before q) : ¬q.Before p := by
  have : Std.Asymm Component.Precedes := ⟨fun _ _ => Component.Precedes.asymm⟩
  exact Std.Asymm.asymm (r := List.Lex Component.Precedes) _ _ h

/-- Inside a directory, other names have other paths. -/
theorem join_injective (p : Path) {name name' : String} (h : p.join name = p.join name') :
    name = name' := by
  have htext := congrArg (fun q : Path => q.text.toList) h
  simp only [toList_join] at htext
  exact String.toList_injective (List.append_cancel_left htext)

/-- The names inside a directory are ordered as their paths. -/
theorem before_join {p : Path} (hp : p.text ≠ "") {name name' : FileName}
    (h : name.text < name'.text) : (p.join name.text).Before (p.join name'.text) := by
  unfold Before
  rw [components_join hp name, components_join hp name']
  exact List.Lex.append_left _ (.rel (.text h)) _

end Path

/-! ## Source files -/

/-- A file directly inside a directory, with a name that ends in the extension and has something in
front of its dot. -/
def IsSource (t : FileTree) (l : Location) (name : FileName) : Prop :=
  (∃ content, t.node? (l ++ [name]) = some (.file content)) ∧
    ∃ stem, stem ≠ "" ∧ name.text = stem ++ "." ++ sourceExtension

/-- The path of a name inside a directory is not too long. -/
def Fits (input : Path) (name : FileName) : Prop :=
  byteLength (input.join name.text).text.toList ≤ maxPathBytes

/-- The name of a path inside a directory is the name it ends in. -/
theorem fileName?_join {p : Path} (hp : p.text ≠ "") (name : FileName) :
    (p.join name.text).fileName? = some name.text := by
  rw [Path.fileName?_eq_some_iff, Path.components_join hp name, List.getLast?_concat]

/-- The extension shows in the name. -/
theorem hasSourceExtension_join {p : Path} (hp : p.text ≠ "") (name : FileName) :
    hasSourceExtension (p.join name.text) = true ↔
      ∃ stem, stem ≠ "" ∧ name.text = stem ++ "." ++ sourceExtension := by
  have hvm : sourceExtension = String.ofList ['v', 'm'] := rfl
  rw [hasSourceExtension, beq_iff_eq, Path.extension?_eq, fileName?_join hp name, Option.bind_some,
    Option.map_eq_some_iff]
  simp only [hvm, String.ofList_inj, exists_eq_right]
  rw [Path.splitName_eq_some_iff (by decide)]
  constructor
  · rintro ⟨stem, hstem, htext⟩
    refine ⟨String.ofList stem, by simpa using hstem, String.toList_injective ?_⟩
    rw [htext]
    simp
  · rintro ⟨stem, hstem, htext⟩
    exact ⟨stem.toList, by simpa using hstem, by simp [htext]⟩

section directory

variable {t : FileTree} {input : Path} {l : Location} (hl : t.locate input = .ok l)
  (hdirectory : t.node? l = some .directory)
include hl hdirectory

/-- A path inside a directory leads to a file if there is one and the path is not too long. -/
theorem isFile_join (name : FileName) :
    t.isFile (input.join name.text) = true ↔
      (∃ content, t.node? (l ++ [name]) = some (.file content)) ∧ Fits input name := by
  rw [isFile_iff, locate_join name hl hdirectory, Fits]
  split_ifs with hfits
  · simp [hfits]
  · simp [hfits]

end directory

/-! ## What is found -/

/-- The name is looked up as one of a source file. -/
def countsAsSource (t : FileTree) (input : Path) (name : FileName) : Bool :=
  t.isFile (input.join name.text) && hasSourceExtension (input.join name.text)

/-- The names in the directory at a location that count, in their order. -/
def foundNames (t : FileTree) (input : Path) (l : Location) : List FileName :=
  ((t.namesIn l).mergeSort fun a b => a.text ≤ b.text).filter (countsAsSource t input)

/-- The paths of names inside a directory. -/
def pathsOf (input : Path) (names : List FileName) : List Path :=
  names.map fun name => input.join name.text

/-- A directory stands for the paths of the names that count. -/
theorem resolveInputs_of_directory {t : FileTree} {input : Path} {l : Location}
    (hl : t.locate input = .ok l) (hdirectory : t.node? l = some .directory) :
    resolveInputs t input =
      if pathsOf input (foundNames t input l) = [] then .error (.noInputs input.text)
      else .ok (pathsOf input (foundNames t input l)) := by
  have hisDirectory : t.isDirectory input = true := isDirectory_iff.mpr ⟨l, hl, hdirectory⟩
  have hlist : t.list input = .ok (t.namesIn l) := by
    simp only [FileTree.list, find_eq_ok_iff.mpr ⟨l, hl, hdirectory⟩, hl, bind, Except.bind]
  simp only [resolveInputs, hisDirectory, if_true, hlist, List.filter_map, foundNames, pathsOf]
  rfl

/-- The list is in the order of the names. -/
theorem pairwise_le_foundNames (t : FileTree) (input : Path) (l : Location) :
    (foundNames t input l).Pairwise fun a b => a.text ≤ b.text := by
  refine List.Pairwise.filter _ ?_
  have hsorted := @List.pairwise_mergeSort FileName (fun a b => decide (a.text ≤ b.text))
    (fun a b c hab hbc => by simpa using String.le_trans (by simpa using hab) (by simpa using hbc))
    (fun a b => by simpa using String.le_total a.text b.text) (t.namesIn l)
  simpa using hsorted

/-- The list has the names that count. -/
theorem foundNames_perm (t : FileTree) (input : Path) (l : Location) :
    (foundNames t input l).Perm ((t.namesIn l).filter (countsAsSource t input)) :=
  (List.mergeSort_perm _ _).filter _

/-- Only the names that count make a difference, and not their order. -/
theorem foundNames_eq_of_perm {t t' : FileTree} {input : Path} {l : Location}
    (h : ((t'.namesIn l).filter (countsAsSource t' input)).Perm
      ((t.namesIn l).filter (countsAsSource t input))) :
    foundNames t' input l = foundNames t input l := by
  refine List.Perm.eq_of_pairwise
    (fun a b _ _ hab hba => FileName.text_injective (String.le_antisymm hab hba))
    (pairwise_le_foundNames t' input l) (pairwise_le_foundNames t input l) ?_
  exact (foundNames_perm t' input l).trans (h.trans (foundNames_perm t input l).symm)

/-- The paths of the names with a property inside a directory, strictly ascending. -/
structure Lists (input : Path) (P : FileName → Prop) (paths : List Path) : Prop where
  ascending : paths.Pairwise Path.Before
  mem_iff : ∀ p, p ∈ paths ↔ ∃ name, P name ∧ p = input.join name.text

/-- There is one such list. -/
theorem Lists.unique {input : Path} {P : FileName → Prop} {paths paths' : List Path}
    (h : Lists input P paths) (h' : Lists input P paths') : paths = paths' := by
  have hnodup {ps : List Path} (hps : ps.Pairwise Path.Before) : ps.Nodup := by
    refine hps.imp fun hbefore => ?_
    rintro rfl
    exact hbefore.asymm hbefore
  refine List.Perm.eq_of_pairwise (fun p q _ _ hpq hqp => (hpq.asymm hqp).elim) h.ascending
    h'.ascending ?_
  rw [List.perm_ext_iff_of_nodup (hnodup h.ascending) (hnodup h'.ascending)]
  intro p
  rw [h.mem_iff, h'.mem_iff]

/-- The input stands for the names with a property inside it, or for nothing if there are none. -/
def Discovers (t : FileTree) (input : Path) (P : FileName → Prop) : Prop :=
  ∃ paths, Lists input P paths ∧
    resolveInputs t input = if paths = [] then .error (.noInputs input.text) else .ok paths

/-- What is found is one list. -/
theorem eq_of_resolveInputs_eq {input : Path} {paths paths' : List Path}
    (h : (if paths = [] then Except.error (Error.noInputs input.text) else .ok paths) =
      if paths' = [] then Except.error (Error.noInputs input.text) else .ok paths') :
    paths = paths' := by
  split_ifs at h with hnil hnil'
  · rw [hnil, hnil']
  · exact Except.ok.inj h

section directory

variable {t : FileTree} {input : Path} {l : Location} (hl : t.locate input = .ok l)
  (hdirectory : t.node? l = some .directory)
include hl hdirectory

/-- The names that count are those of the source files whose path is not too long. -/
theorem mem_foundNames {name : FileName} :
    name ∈ foundNames t input l ↔ IsSource t l name ∧ Fits input name := by
  rw [(foundNames_perm t input l).mem_iff, List.mem_filter, countsAsSource, Bool.and_eq_true,
    isFile_join hl hdirectory, hasSourceExtension_join (text_ne_empty_of_locate hl)]
  constructor
  · rintro ⟨-, ⟨hfile, hfits⟩, hextension⟩
    exact ⟨⟨hfile, hextension⟩, hfits⟩
  · rintro ⟨⟨⟨content, hfile⟩, hextension⟩, hfits⟩
    exact ⟨mem_namesIn_iff.mpr ⟨_, hfile⟩, ⟨⟨content, hfile⟩, hfits⟩, hextension⟩

/-- **Exactly the source files are found whose path is not too long**, in ascending order. -/
theorem discovers_fitting :
    Discovers t input fun name => IsSource t l name ∧ Fits input name := by
  refine ⟨pathsOf input (foundNames t input l), ⟨?_, ?_⟩, resolveInputs_of_directory hl hdirectory⟩
  · have hnodup : (foundNames t input l).Nodup :=
      (foundNames_perm t input l).nodup_iff.mpr ((t.nodup_namesIn l).filter _)
    rw [pathsOf, List.pairwise_map]
    refine ((pairwise_le_foundNames t input l).and hnodup).imp fun {a b} hab => ?_
    refine Path.before_join (text_ne_empty_of_locate hl) ?_
    exact String.not_le.mp fun hba => hab.2 (FileName.text_injective (String.le_antisymm hab.1 hba))
  · intro p
    rw [pathsOf, List.mem_map]
    simp only [mem_foundNames hl hdirectory, eq_comm]

/-- **All source files are found if and only if none of them has a path that is too long.** -/
theorem discovers_all_iff :
    Discovers t input (IsSource t l) ↔ ∀ name, IsSource t l name → Fits input name := by
  obtain ⟨paths, hpaths, hresult⟩ := discovers_fitting hl hdirectory
  constructor
  · rintro ⟨all, hall, hresult'⟩ name hname
    have heq : paths = all := eq_of_resolveInputs_eq (hresult.symm.trans hresult')
    have hmem : input.join name.text ∈ all := (hall.mem_iff _).mpr ⟨name, hname, rfl⟩
    obtain ⟨found, hfound, hjoin⟩ := (hpaths.mem_iff _).mp (heq ▸ hmem)
    rw [FileName.text_injective (input.join_injective hjoin)]
    exact hfound.2
  · intro hfits
    refine ⟨paths, ⟨hpaths.ascending, fun p => ?_⟩, hresult⟩
    rw [hpaths.mem_iff]
    exact exists_congr fun name => and_congr_left fun _ => and_iff_left_of_imp (hfits name)

end directory

/-! ## The order of the entries -/

/-- Builds that show the same, come to the same, and leave the same files in some order. A build
that succeeds has left the same bytes in the output. -/
structure SameBuild (output : Path) (w w' : FileWork BuildSummary) : Prop where
  attempt_eq : w'.toAttempt = w.toAttempt
  reordered : w.tree.Reordered w'.tree
  bytes_eq : w.result.isOk = true →
    ∃ bytes, w.tree.read output = .ok bytes ∧ w'.tree.read output = .ok bytes

section reordered

variable {t t' : FileTree} (h : t.Reordered t')
include h

/-- The same paths are found. -/
theorem resolveInputs_of_reordered (input : Path) :
    resolveInputs t' input = resolveInputs t input := by
  have hisDirectory : t'.isDirectory input = t.isDirectory input := by
    rw [isDirectory, isDirectory, h.find_eq]
  by_cases hdirectory : t.isDirectory input = true
  · obtain ⟨l, hl, hnode⟩ := isDirectory_iff.mp hdirectory
    have hcounts : countsAsSource t' input = countsAsSource t input := by
      funext name
      rw [countsAsSource, countsAsSource, isFile, isFile, h.find_eq]
    have hfound : foundNames t' input l = foundNames t input l := by
      apply foundNames_eq_of_perm
      rw [hcounts]
      exact (h.namesIn_perm l).filter _
    rw [resolveInputs_of_directory hl hnode,
      resolveInputs_of_directory (h.locate_eq ▸ hl) (h.node?_eq l ▸ hnode), hfound]
  · rw [resolveInputs, resolveInputs, hisDirectory, if_neg hdirectory, if_neg hdirectory]

/-- The same units are loaded. -/
theorem loadUnits_of_reordered (input : Path) : loadUnits t' input = loadUnits t input := by
  have hload : SourceUnit.load t' = SourceUnit.load t := by
    funext p
    rw [SourceUnit.load, SourceUnit.load, h.readText_eq]
  rw [loadUnits, loadUnits, resolveInputs_of_reordered h, hload]

/-- A program is written to the same effect. -/
theorem writeAssembly_of_reordered (output : Path) (units : Nat) (a : Assembly) :
    SameBuild output (writeAssembly t output units a) (writeAssembly t' output units a) := by
  obtain ⟨hresult, htree⟩ := h.write output a.bytes
  obtain ⟨hwritten, hcases⟩ := writeAssembly_cases t output units a
  obtain ⟨hwritten', -⟩ := writeAssembly_cases t' output units a
  refine ⟨?_, by rw [hwritten, hwritten']; exact htree, fun hok => ?_⟩
  · unfold writeAssembly
    revert hresult
    rcases t.write output a.bytes with ⟨result, u⟩
    rcases t'.write output a.bytes with ⟨result', u'⟩
    rintro ⟨⟩
    cases result <;> rfl
  · rcases hcases with ⟨fault, -, hfailed⟩ | ⟨hdone, -⟩
    · rw [hfailed] at hok
      cases hok
    · rw [hwritten, hwritten']
      exact ⟨a.bytes, (wrote_of_write hdone).read_eq,
        (wrote_of_write (hresult.trans hdone)).read_eq⟩

/-- Work that goes on from the same attempt stays the same. -/
theorem SameBuild.on_andThen {α : Type} {output : Path} (a : Attempt α)
    {next : α → FileTree → FileWork BuildSummary}
    (hnext : ∀ x, SameBuild output (next x t) (next x t')) :
    SameBuild output ((a.on t).andThen next) ((a.on t').andThen next) := by
  unfold FileWork.andThen Attempt.on
  cases a.result with
  | error e => exact ⟨rfl, h, nofun⟩
  | ok x =>
      refine ⟨?_, (hnext x).reordered, (hnext x).bytes_eq⟩
      simp only [(hnext x).attempt_eq]

/-- **A build does not depend on the order of the entries.** -/
theorem build_of_reordered (input output : Path) (options : Options) :
    SameBuild output (build t input output options) (build t' input output options) := by
  unfold build
  rw [loadUnits_of_reordered h]
  refine .on_andThen h _ fun units => .on_andThen h _ fun a => ?_
  exact writeAssembly_of_reordered h output units.length a

end reordered

/-! ## A directory under longer and longer paths -/

/-- The name of a directory. -/
def shelfName : FileName := .of "d"

/-- The name of a source file. -/
def shortName : FileName := .of "A.vm"

/-- The name of a source file that is one byte longer. -/
def longName : FileName := .of "AA.vm"

/-- A directory with two source files. -/
def shelf : FileTree where
  entries := [([shelfName], .directory), ([shelfName, longName], .file "return\n".toUTF8),
    ([shelfName, shortName], .file "return\n".toUTF8)]

/-- The path of the directory with separators behind it. -/
def trailed (n : Nat) : Path :=
  ⟨String.ofList ('d' :: List.replicate n '/')⟩

/-- The source files of the directory. -/
theorem isSource_shelf_iff {name : FileName} :
    IsSource shelf [shelfName] name ↔ name = shortName ∨ name = longName := by
  constructor
  · rintro ⟨⟨content, hfile⟩, -⟩
    rw [node?_eq_some_iff_mem (by simp)] at hfile
    have hlocation : [shelfName] ++ [name] ∈ shelf.locations := List.mem_map_of_mem hfile
    simpa [locations, shelf, or_comm] using hlocation
  · rintro (rfl | rfl)
    · exact ⟨⟨_, rfl⟩, "A", by decide, by decide⟩
    · exact ⟨⟨_, rfl⟩, "AA", by decide, by decide⟩

/-- Every separator is a byte more. -/
theorem byteLength_trailed (n : Nat) : byteLength (trailed n).text.toList = n + 1 := by
  have hslashes : byteLength (List.replicate n '/') = n := by
    induction n with
    | zero => rfl
    | succ n ih =>
        rw [List.replicate_succ, byteLength, ih]
        exact Nat.add_comm 1 n
  rw [trailed, String.toList_ofList, byteLength, hslashes]
  exact Nat.add_comm 1 n

/-- One separator more stands at the end. -/
theorem toList_trailed_succ (n : Nat) :
    (trailed (n + 1)).text.toList = (trailed n).text.toList ++ ['/'] := by
  simp [trailed, List.replicate_succ']

/-- One separator more is an empty part more. -/
theorem parts_trailed_succ (n : Nat) : (trailed (n + 1)).parts = (trailed n).parts ++ [""] := by
  rw [Path.parts, toList_trailed_succ, Path.splitParts_append_slash, List.map_append]
  rfl

/-- Separators behind it do not change where a path leads. -/
theorem locate_trailed {n : Nat} (hn : n < maxPathBytes) :
    shelf.locate (trailed n) = .ok [shelfName] := by
  have hwalk : shelf.walk [] (trailed n).parts = .ok [shelfName] := by
    clear hn
    induction n with
    | zero => rfl
    | succ n ih =>
        rw [parts_trailed_succ, walk_concat_eq_ok_iff]
        exact ⟨[shelfName], ih, rfl⟩
  have hstart : shelf.startOf (trailed n) = [] := ite_self _
  rw [locate_eq_ok_iff, textFault?_eq_none_iff, byteLength_trailed, hstart]
  refine ⟨⟨?_, ?_, hn⟩, hwalk⟩
  · simp [trailed]
  · simp [trailed, ← String.toList_inj]

/-- How many separators leave room for a name. -/
theorem fits_trailed_succ_iff (n : Nat) (name : FileName) :
    Fits (trailed (n + 1)) name ↔ n + 2 + byteLength name.text.toList ≤ maxPathBytes := by
  have hlast : (trailed (n + 1)).text.toList.getLast? = some '/' := by
    rw [toList_trailed_succ, List.getLast?_concat]
  have hentrance : (trailed (n + 1)).entrance = (trailed (n + 1)).text.toList := by
    simp only [Path.entrance, hlast]
  rw [Fits, Path.toList_join, hentrance, byteLength_append, byteLength_trailed]

/-- The directory with its entries in another order. -/
def turnedShelf : FileTree where
  entries := [([shelfName, shortName], .file "return\n".toUTF8),
    ([shelfName, longName], .file "return\n".toUTF8), ([shelfName], .directory)]

/-! ## Main statement -/

/-- **What is found in a directory, and that the order of its entries makes no difference.** A
directory stands for exactly those source files in it whose path is not too long, ascending by path.
These are all of them unless some path is too long. Every tree with the same entries in another
order gives the same list, and every build in it shows and comes to the same and leaves the same
files. -/
theorem discovery_exact (t : FileTree) (input : Path) :
    (∀ l, t.locate input = .ok l → t.node? l = some .directory →
      (Discovers t input fun name => IsSource t l name ∧ Fits input name) ∧
        (Discovers t input (IsSource t l) ↔ ∀ name, IsSource t l name → Fits input name)) ∧
      ∀ t', t.Reordered t' → resolveInputs t' input = resolveInputs t input ∧
        ∀ output options,
          SameBuild output (build t input output options) (build t' input output options) := by
  refine ⟨fun l hl hdirectory => ?_, fun t' h => ?_⟩
  · exact ⟨discovers_fitting hl hdirectory, discovers_all_iff hl hdirectory⟩
  · exact ⟨resolveInputs_of_reordered h input, build_of_reordered h input⟩

/-- A directory is read with its entries turned round. Under a longer path one of its files is
missing. -/
theorem discovery_exact_turned_round :
    Discovers shelf (trailed 1) (IsSource shelf [shelfName]) ∧
      ¬Discovers shelf (trailed 4090) (IsSource shelf [shelfName]) ∧
      resolveInputs turnedShelf (trailed 1) = resolveInputs shelf (trailed 1) := by
  have hnear := (discovery_exact shelf (trailed 1)).1 _ (locate_trailed (by decide)) rfl
  have hfar := (discovery_exact shelf (trailed 4090)).1 _ (locate_trailed (by decide)) rfl
  refine ⟨hnear.2.mpr fun name hname => ?_, fun hall => ?_, ?_⟩
  · rw [fits_trailed_succ_iff 0]
    rcases isSource_shelf_iff.mp hname with rfl | rfl <;> decide
  · have hfits := hfar.2.mp hall longName (isSource_shelf_iff.mpr (.inr rfl))
    exact absurd ((fits_trailed_succ_iff 4089 longName).mp hfits) (by decide)
  · exact ((discovery_exact shelf (trailed 1)).2 turnedShelf
      ⟨List.reverse_perm shelf.entries, rfl⟩).1

/-- **A source file is left out because its path is one byte too long.** -/
theorem source_left_out :
    IsSource shelf [shelfName] longName ∧
      resolveInputs shelf (trailed 4090) = .ok [(trailed 4090).join "A.vm"] := by
  have hsource : IsSource shelf [shelfName] longName := isSource_shelf_iff.mpr (.inr rfl)
  have hfits : Fits (trailed 4090) shortName :=
    (fits_trailed_succ_iff 4089 shortName).mpr (by decide)
  have hlong : ¬Fits (trailed 4090) longName :=
    mt (fits_trailed_succ_iff 4089 longName).mp (by decide)
  have hnames (name : FileName) :
      IsSource shelf [shelfName] name ∧ Fits (trailed 4090) name ↔ name = shortName := by
    rw [isSource_shelf_iff]
    constructor
    · rintro ⟨rfl | rfl, h⟩
      · rfl
      · exact absurd h hlong
    · rintro rfl
      exact ⟨.inl rfl, hfits⟩
  have hdirectory : shelf.locate (trailed 4090) = .ok [shelfName] := locate_trailed (by decide)
  obtain ⟨paths, hpaths, hresult⟩ := discovers_fitting hdirectory rfl
  simp only [hnames] at hpaths
  have hone : Lists (trailed 4090) (fun name => name = shortName)
      [(trailed 4090).join shortName.text] :=
    ⟨List.pairwise_singleton _ _, fun p => by simp⟩
  rw [hpaths.unique hone] at hresult
  exact ⟨hsource, hresult⟩

end HackVM
