import HackVM.Proofs.Files.Places
import Mathlib.Data.List.Nodup
import Mathlib.Data.List.Perm.Basic

/-!
# What a tree holds, in whatever order

A tree keeps its entries as a list. Their order shows in the listing of a directory and nowhere
else.

* **Listings.** A listing has the names under which something stands directly inside a directory
  (`mem_namesIn_iff`), each once (`nodup_namesIn`). Putting something somewhere adds at most its own
  name to the listing of the directory it is in (`namesIn_put`).
* **Reordered trees.** No two entries have the same location. So every tree with the same entries in
  another order has the same nodes (`Reordered.node?_eq`), and whatever is looked up by its path is
  the same in both. Putting something somewhere keeps this (`Reordered.put`).
-/

namespace HackVM

namespace FileTree

variable {t t' : FileTree} {l place : Location} {name : FileName} {node : Node}

/-! ## Listings -/

/-- The name of a location directly inside another one. -/
def nameIn? (l place : Location) : Option FileName :=
  if place ≠ [] ∧ place.dropLast = l then place.getLast? else none

/-- A location directly inside another one is that one and a name. -/
theorem nameIn?_eq_some_iff : nameIn? l place = some name ↔ place = l ++ [name] := by
  unfold nameIn?
  rcases List.eq_nil_or_concat place with rfl | ⟨above, last, rfl⟩
  · simp
  · rw [List.concat_eq_append, List.dropLast_concat, List.getLast?_concat]
    constructor
    · intro h
      split_ifs at h with hl
      rw [hl.2, Option.some.inj h]
    · intro h
      obtain ⟨rfl, hlast⟩ := List.append_inj' h rfl
      rw [if_pos ⟨by simp, rfl⟩, List.head_eq_of_cons_eq hlast]

/-- The locations of the entries. -/
def locations (t : FileTree) : List Location :=
  t.entries.map Prod.fst

/-- A listing only depends on the locations. -/
theorem namesIn_eq (t : FileTree) (l : Location) :
    t.namesIn l = t.locations.filterMap (nameIn? l) := by
  rw [locations, List.filterMap_map]
  rfl

/-- A listing has the names of the locations directly inside. -/
theorem mem_namesIn : name ∈ t.namesIn l ↔ l ++ [name] ∈ t.locations := by
  rw [namesIn_eq, List.mem_filterMap]
  simp only [nameIn?_eq_some_iff, exists_eq_right]

/-- **A listing has no name twice.** -/
theorem nodup_namesIn (t : FileTree) (l : Location) : (t.namesIn l).Nodup := by
  rw [namesIn_eq]
  refine t.distinct.filterMap fun place place' name hname hname' => ?_
  rw [Option.mem_def, nameIn?_eq_some_iff] at hname hname'
  rw [hname, hname']

/-- **A listing has the names under which something stands.** -/
theorem mem_namesIn_iff : name ∈ t.namesIn l ↔ ∃ node, t.node? (l ++ [name]) = some node := by
  have hne : l ++ [name] ≠ [] := List.append_ne_nil_of_right_ne_nil l (List.cons_ne_nil name [])
  rw [mem_namesIn, locations, List.mem_map]
  simp only [node?_eq_some_iff_mem hne]
  constructor
  · rintro ⟨e, he, hlocation⟩
    exact ⟨e.2, hlocation ▸ he⟩
  · rintro ⟨node, hmem⟩
    exact ⟨_, hmem, rfl⟩

/-- Putting something somewhere adds at most its name to a listing, at the end. -/
theorem namesIn_put (t : FileTree) (l place : Location) (node : Node) :
    (t.put place node).namesIn l = t.namesIn l ∨
      ∃ name, place = l ++ [name] ∧ (t.put place node).namesIn l = t.namesIn l ++ [name] := by
  rw [namesIn_eq, namesIn_eq, locations, put, map_fst_putEntry, ← locations]
  split_ifs with hplace
  · exact .inl rfl
  · rw [List.filterMap_append]
    cases hname : nameIn? l place with
    | none => exact .inl (by simp [hname])
    | some name => exact .inr ⟨name, nameIn?_eq_some_iff.mp hname, by simp [hname]⟩

/-! ## Reordered trees -/

/-- The same entries in some other order. -/
structure Reordered (t t' : FileTree) : Prop where
  entries_perm : t'.entries.Perm t.entries
  current_eq : t'.current = t.current

namespace Reordered

/-- A listing has the same names in some other order. -/
theorem namesIn_perm (h : Reordered t t') (l : Location) : (t'.namesIn l).Perm (t.namesIn l) := by
  rw [namesIn_eq, namesIn_eq]
  exact (h.entries_perm.map Prod.fst).filterMap (nameIn? l)

/-- **At every location stands the same.** -/
theorem node?_eq (h : Reordered t t') (l : Location) : t'.node? l = t.node? l := by
  by_cases hl : l = []
  · rw [node?, node?, if_pos hl, if_pos hl]
  · refine Option.ext fun node => ?_
    rw [node?_eq_some_iff_mem hl, node?_eq_some_iff_mem hl, h.entries_perm.mem_iff]

/-- One part of a path leads to the same place. -/
theorem enter_eq (h : Reordered t t') : t'.enter = t.enter := by
  funext l part
  rw [enter, enter, h.node?_eq]

/-- A path leads to the same place. -/
theorem locate_eq (h : Reordered t t') : t'.locate = t.locate := by
  funext p
  rw [locate, locate, startOf, startOf, h.current_eq, walk, walk, h.enter_eq]

/-- At a path stands the same. -/
theorem find_eq (h : Reordered t t') : t'.find = t.find := by
  funext p
  rw [find, find, h.locate_eq]
  simp only [h.node?_eq]

/-- A file has the same text. -/
theorem readText_eq (h : Reordered t t') : t'.readText = t.readText := by
  funext p
  rw [readText, readText, read, read, h.find_eq]

/-- A file can be created at the same place. -/
theorem locateFile_eq (h : Reordered t t') : t'.locateFile = t.locateFile := by
  have hwalk : t'.walk = t.walk := by
    funext l parts
    rw [walk, walk, h.enter_eq]
  funext p
  rw [locateFile, locateFile, startOf, startOf, h.current_eq, hwalk, h.enter_eq]

/-- The same thing put at the same place keeps the order apart and nothing else. -/
theorem put (h : Reordered t t') (l : Location) (node : Node) :
    Reordered (t.put l node) (t'.put l node) := by
  refine ⟨?_, h.current_eq⟩
  have hmem : l ∈ t'.entries.map Prod.fst ↔ l ∈ t.entries.map Prod.fst :=
    (h.entries_perm.map Prod.fst).mem_iff
  unfold FileTree.put putEntry
  simp only [hmem]
  split_ifs
  · exact h.entries_perm.map _
  · exact h.entries_perm.append_right _

/-- **Opening a file fails alike or leaves reordered trees.** -/
theorem create (h : Reordered t t') (p : Path) :
    (t'.create p).1 = (t.create p).1 ∧ Reordered (t.create p).2 (t'.create p).2 := by
  unfold FileTree.create
  rw [h.locateFile_eq]
  cases t.locateFile p with
  | error fault => exact ⟨rfl, h⟩
  | ok l =>
      simp only [h.node?_eq]
      split
      · exact ⟨rfl, h⟩
      · exact ⟨rfl, h.put l _⟩

/-- **Writing a file fails alike or leaves reordered trees.** -/
theorem write (h : Reordered t t') (p : Path) (content : ByteArray) :
    (t'.write p content).1 = (t.write p content).1 ∧
      Reordered (t.write p content).2 (t'.write p content).2 := by
  obtain ⟨hresult, htree⟩ := h.create p
  unfold FileTree.write
  revert hresult htree
  rcases t.create p with ⟨result, u⟩
  rcases t'.create p with ⟨result', u'⟩
  rintro ⟨⟩ htree
  cases result with
  | error fault => exact ⟨rfl, htree⟩
  | ok l => exact ⟨rfl, htree.put l _⟩

end Reordered

end FileTree

end HackVM
