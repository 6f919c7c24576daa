import HackVM.Files.Tree
import HackVM.Proofs.Base.Results
import Mathlib.Tactic.SplitIfs

/-!
# What writing a file changes

A tree is what stands at its locations. Main statement (`wrote_of_write`): if a file can be written,
then afterwards its path leads to a file with the given content, and at every other location stands
what stood there before. If it cannot be written, nothing changes (`tree_of_write_error`): a file is
filled only after it was opened, and an open that fails is assumed to change nothing.

That the path leads there has to be shown: walking a path looks at the tree, and the tree has
changed. But a walk only looks at directories, and a file is never put where a directory stands
(`walk_of_directories`).
-/

namespace HackVM

namespace Path

/-- The last part of a text that does not end in a separator is not empty. -/
theorem splitParts_eq_concat {cs : List Char} (hne : cs ≠ []) (hlast : cs.getLast? ≠ some '/') :
    ∃ front part, splitParts cs = front ++ [part] ∧ part ≠ [] := by
  induction cs with
  | nil => exact absurd rfl hne
  | cons c cs ih =>
      by_cases hcs : cs = []
      · subst hcs
        have hc : c ≠ '/' := by simpa using hlast
        exact ⟨[], [c], by simp [splitParts, hc], List.cons_ne_nil c []⟩
      · rw [List.getLast?_cons_of_ne_nil hcs] at hlast
        obtain ⟨front, part, hparts, hpart⟩ := ih hcs hlast
        rw [splitParts, hparts]
        split_ifs
        · exact ⟨[] :: front, part, rfl, hpart⟩
        · cases front with
          | nil => exact ⟨[], c :: part, rfl, List.cons_ne_nil c part⟩
          | cons first front => exact ⟨(c :: first) :: front, part, rfl, hpart⟩

end Path

namespace FileTree

/-! ## Putting something at a location -/

section entries

variable {entries : List (Location × Node)} {l l' : Location} {node node' : Node}

/-- With no location twice, what is found at a location is what the entries say. -/
theorem lookup_eq_some_iff_mem (h : (entries.map Prod.fst).Nodup) :
    entries.lookup l = some node ↔ (l, node) ∈ entries := by
  rw [List.lookup_eq_some_iff]
  constructor
  · rintro ⟨before, after, hentries, -⟩
    rw [hentries]
    simp
  · intro hmem
    obtain ⟨before, after, hentries⟩ := List.append_of_mem hmem
    refine ⟨before, after, hentries, fun e he => ?_⟩
    rw [hentries, List.map_append, List.map_cons, List.nodup_append] at h
    have hne := h.2.2 e.1 (List.mem_map_of_mem he) l List.mem_cons_self
    simpa using Ne.symm hne

/-- The entries afterwards are the new one and those of the other locations. -/
theorem mem_putEntry_iff :
    (l', node') ∈ putEntry l node entries ↔
      if l' = l then node' = node else (l', node') ∈ entries := by
  unfold putEntry
  split_ifs with hold heq heq
  · subst heq
    obtain ⟨e, he, hel⟩ := List.mem_map.mp hold
    rw [List.mem_map]
    constructor
    · rintro ⟨old, -, hnew⟩
      split_ifs at hnew with hthere
      · exact (congrArg Prod.snd hnew).symm
      · exact absurd (congrArg Prod.fst hnew) hthere
    · rintro rfl
      exact ⟨e, he, if_pos hel⟩
  · rw [List.mem_map]
    constructor
    · rintro ⟨old, hmem, hnew⟩
      split_ifs at hnew with hthere
      · exact absurd (congrArg Prod.fst hnew).symm heq
      · exact hnew ▸ hmem
    · exact fun hmem => ⟨_, hmem, if_neg heq⟩
  · subst heq
    have hnone : (l', node') ∉ entries := fun hmem => hold (List.mem_map_of_mem hmem)
    simp [hnone]
  · simp [heq]

/-- Of two things put at one place the second one stays. -/
theorem putEntry_putEntry :
    putEntry l node' (putEntry l node entries) = putEntry l node' entries := by
  have hthere : l ∈ (putEntry l node entries).map Prod.fst :=
    List.mem_map.mpr ⟨(l, node), mem_putEntry_iff.mpr (by rw [if_pos rfl]), rfl⟩
  rw [putEntry, if_pos hthere]
  unfold putEntry
  split_ifs with hold
  · rw [List.map_map]
    refine List.map_congr_left fun e _ => ?_
    by_cases he : e.1 = l <;> simp [he]
  · have hothers : (entries.map fun e => if e.1 = l then (l, node') else e) = entries := by
      conv_rhs => rw [← List.map_id entries]
      refine List.map_congr_left fun e he => if_neg ?_
      rintro rfl
      exact hold (List.mem_map_of_mem he)
    rw [List.map_append, hothers]
    simp

end entries

/-- What stands at a location other than the root is what the entries say. -/
theorem node?_eq_some_iff_mem {t : FileTree} {l : Location} (hl : l ≠ []) {node : Node} :
    t.node? l = some node ↔ (l, node) ∈ t.entries := by
  rw [node?, if_neg hl, lookup_eq_some_iff_mem t.distinct]

/-- What stands at the locations after something was put at one of them. -/
theorem node?_put (t : FileTree) {l : Location} (hl : l ≠ []) (node : Node) (l' : Location) :
    (t.put l node).node? l' = if l' = l then some node else t.node? l' := by
  by_cases hroot : l' = []
  · rw [hroot, node?, node?, if_pos rfl, if_pos rfl, if_neg hl.symm]
  · refine Option.ext fun found => ?_
    rw [node?_eq_some_iff_mem hroot, put, mem_putEntry_iff]
    split_ifs
    · rw [Option.some_inj, eq_comm]
    · rw [node?_eq_some_iff_mem hroot]

section place

variable {t : FileTree} {l : Location} (hplace : t.node? l ≠ some .directory)
include hplace

/-- Where no directory stands is not the root. -/
theorem ne_nil_of_place : l ≠ [] := by
  rintro rfl
  exact hplace rfl

/-- What was put at a place stands there. -/
theorem node?_put_self (node : Node) : (t.put l node).node? l = some node := by
  rw [node?_put t (ne_nil_of_place hplace), if_pos rfl]

/-- Elsewhere stands what stood there. -/
theorem node?_put_of_ne (node : Node) {l' : Location} (h : l' ≠ l) :
    (t.put l node).node? l' = t.node? l' := by
  rw [node?_put t (ne_nil_of_place hplace), if_neg h]

/-- A file that is put where no directory stands changes no directory. -/
theorem directory_put_iff (content : ByteArray) (l' : Location) :
    (t.put l (.file content)).node? l' = some .directory ↔ t.node? l' = some .directory := by
  by_cases h : l' = l
  · subst h
    rw [node?_put_self hplace]
    exact ⟨nofun, fun h => absurd h hplace⟩
  · rw [node?_put_of_ne hplace _ h]

end place

/-- Of two things put at one place the second one stays. -/
theorem put_put (t : FileTree) (l : Location) (node node' : Node) :
    (t.put l node).put l node' = t.put l node' :=
  FileTree.ext putEntry_putEntry rfl

/-! ## Walking after a change -/

section directories

variable {t t' : FileTree} (h : ∀ l, t.node? l = some .directory → t'.node? l = some .directory)
include h

/-- A step of a walk only looks at the directory that it starts from. -/
theorem enter_of_directories {l l' : Location} {part : String} (henter : t.enter l part = .ok l') :
    t'.enter l part = .ok l' := by
  unfold enter at henter
  split at henter
  · cases henter
  · cases henter
  · next hdirectory =>
      unfold enter
      rw [h l hdirectory]
      exact henter

/-- **A walk finds its way as long as the directories stay.** -/
theorem walk_of_directories {parts : List String} {l l' : Location}
    (hwalk : t.walk l parts = .ok l') : t'.walk l parts = .ok l' := by
  unfold walk at hwalk ⊢
  induction parts generalizing l with
  | nil => exact hwalk
  | cons part parts ih =>
      rw [List.foldlM_cons, bind_eq_ok_iff] at hwalk ⊢
      obtain ⟨next, henter, hrest⟩ := hwalk
      exact ⟨next, enter_of_directories h henter, ih hrest⟩

/-- So a path leads to the same place. -/
theorem locate_of_directories (hcurrent : t'.current = t.current) {p : Path} {l : Location}
    (hlocate : t.locate p = .ok l) : t'.locate p = .ok l := by
  unfold locate startOf at hlocate ⊢
  rw [hcurrent]
  cases hfault : textFault? p with
  | some fault =>
      rw [hfault] at hlocate
      cases hlocate
  | none =>
      rw [hfault] at hlocate
      exact walk_of_directories h hlocate

end directories

/-! ## Writing -/

/-- A walk goes to where all parts but the last lead, and from there one part further. -/
theorem walk_concat_eq_ok_iff {t : FileTree} {start l : Location} {above : List String}
    {part : String} :
    t.walk start (above ++ [part]) = .ok l ↔
      ∃ d, t.walk start above = .ok d ∧ t.enter d part = .ok l := by
  unfold walk
  rw [List.foldlM_append, bind_eq_ok_iff]
  simp only [List.foldlM_cons, List.foldlM_nil]
  refine exists_congr fun d => and_congr_right fun _ => ?_
  cases t.enter d part <;> rfl

/-- The parts of a path that can be looked up and does not end in a separator. -/
theorem parts_eq_concat {p : Path} (hfault : textFault? p = none) (hslash : endsInSlash p = false) :
    ∃ above name, p.parts = above ++ [name] ∧ name ≠ "" := by
  have hne : p.text.toList ≠ [] := by
    intro hnil
    have htext : p.text = "" := String.toList_eq_nil_iff.mp hnil
    simp [textFault?, htext] at hfault
  have hlast : p.text.toList.getLast? ≠ some '/' := by simpa [endsInSlash] using hslash
  obtain ⟨front, part, hparts, hpart⟩ := Path.splitParts_eq_concat hne hlast
  refine ⟨front.map String.ofList, String.ofList part, ?_, ?_⟩
  · rw [Path.parts, hparts, List.map_append, List.map_singleton]
  · simpa using hpart

/-- The place where a file can be created is where its path leads, if the path does not end in a
separator. -/
theorem locateFile_eq_ok_iff {t : FileTree} {p : Path} {l : Location} :
    t.locateFile p = .ok l ↔ endsInSlash p = false ∧ t.locate p = .ok l := by
  unfold locateFile locate
  cases hfault : textFault? p with
  | some fault => exact ⟨nofun, nofun⟩
  | none =>
      by_cases hslash : endsInSlash p = true
      · -- such a path is refused in the end, whatever the walk finds
        refine ⟨fun h => ?_, fun h => absurd h.1 (by simp [hslash])⟩
        cases hdrop : p.parts.reverse.dropWhile (· == "") with
        | nil =>
            rw [hdrop] at h
            cases h
        | cons name above =>
            simp only [hdrop, hslash, if_true, bind_eq_ok_iff] at h
            obtain ⟨_, -, _, -, hrefused⟩ := h
            cases hrefused
      · rw [Bool.not_eq_true] at hslash
        obtain ⟨above, name, hparts, hname⟩ := parts_eq_concat hfault hslash
        have hdrop : p.parts.reverse.dropWhile (· == "") = name :: above.reverse := by
          rw [hparts, List.reverse_concat, List.dropWhile_cons_of_neg (by simpa using hname)]
        simp only [hdrop, hslash, Bool.false_eq_true, if_false, List.reverse_reverse, true_and]
        rw [hparts, walk_concat_eq_ok_iff, bind_eq_ok_iff]

/-- **An open that fails leaves the files as they are**, which is assumed of every disk. -/
theorem tree_of_create_error {t : FileTree} {p : Path} {fault : FileFault}
    (h : (t.create p).1 = .error fault) : (t.create p).2 = t := by
  unfold create at h ⊢
  cases hlocate : t.locateFile p with
  | error fault => rfl
  | ok l =>
      simp only [hlocate] at h ⊢
      split at h
      · rfl
      · cases h

/-- A file that can be opened stands where its path leads, where no directory stood, and is
empty. -/
theorem create_eq_ok {t : FileTree} {p : Path} {l : Location} (h : (t.create p).1 = .ok l) :
    t.locateFile p = .ok l ∧ t.node? l ≠ some .directory ∧
      (t.create p).2 = t.put l (.file .empty) := by
  unfold create at h ⊢
  cases hlocate : t.locateFile p with
  | error fault =>
      rw [hlocate] at h
      cases h
  | ok place =>
      simp only [hlocate] at h ⊢
      split at h
      · cases h
      · next hnode =>
          cases h
          exact ⟨rfl, hnode, rfl⟩

/-- Writing fails as the open does, or fills what was opened. -/
theorem write_cases (t : FileTree) (p : Path) (content : ByteArray) :
    (∃ fault, (t.create p).1 = .error fault ∧
      t.write p content = (.error fault, (t.create p).2)) ∨
    ∃ l, (t.create p).1 = .ok l ∧
      t.write p content = (.ok (), (t.create p).2.put l (.file content)) := by
  unfold write
  rcases t.create p with ⟨fault | l, opened⟩
  · exact .inl ⟨fault, rfl, rfl⟩
  · exact .inr ⟨l, rfl, rfl⟩

/-- A file that cannot be written leaves the files as they are. -/
theorem tree_of_write_error {t : FileTree} {p : Path} {content : ByteArray} {fault : FileFault}
    (h : (t.write p content).1 = .error fault) : (t.write p content).2 = t := by
  rcases t.write_cases p content with ⟨fault, hcreate, hwrite⟩ | ⟨l, -, hwrite⟩
  · rw [hwrite]
    exact tree_of_create_error hcreate
  · rw [hwrite] at h
    cases h

/-- A file that can be written is put where its path leads. -/
theorem write_eq_ok {t : FileTree} {p : Path} {content : ByteArray}
    (h : (t.write p content).1 = .ok ()) :
    ∃ l, t.locateFile p = .ok l ∧ t.node? l ≠ some .directory ∧
      (t.write p content).2 = t.put l (.file content) := by
  rcases t.write_cases p content with ⟨fault, -, hwrite⟩ | ⟨l, hcreate, hwrite⟩
  · rw [hwrite] at h
    cases h
  · obtain ⟨hfile, hnode, hopened⟩ := create_eq_ok hcreate
    refine ⟨l, hfile, hnode, ?_⟩
    rw [hwrite, hopened, put_put]

/-- The second tree is the first one after a file was written: its path leads to the file, and
everywhere else stands what stood there. -/
structure Wrote (t t' : FileTree) (p : Path) (content : ByteArray) : Prop where
  read_eq : t'.read p = .ok content
  current_eq : t'.current = t.current
  only_there : ∃ l, t.locate p = .ok l ∧ t'.locate p = .ok l ∧ t.node? l ≠ some .directory ∧
    t'.node? l = some (.file content) ∧ ∀ l', l' ≠ l → t'.node? l' = t.node? l'

/-- **Writing a file changes what stands at its path and nothing else.** -/
theorem wrote_of_write {t : FileTree} {p : Path} {content : ByteArray}
    (h : (t.write p content).1 = .ok ()) : Wrote t (t.write p content).2 p content := by
  obtain ⟨l, hfile, hnode, hwritten⟩ := write_eq_ok h
  rw [hwritten]
  have hlocate := (locateFile_eq_ok_iff.mp hfile).2
  have hthere := node?_put_self hnode (.file content)
  -- what stands at `l` was no directory, so every directory is still there
  have hlocate' : (t.put l (.file content)).locate p = .ok l :=
    locate_of_directories (fun l' => (directory_put_iff hnode content l').mpr) rfl hlocate
  refine ⟨?_, rfl, l, hlocate, hlocate', hnode, hthere, fun l' => node?_put_of_ne hnode _⟩
  simp only [read, find, hlocate', hthere, bind, Except.bind]

end FileTree

end HackVM
