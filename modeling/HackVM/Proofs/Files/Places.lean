import HackVM.Proofs.Files.PathParts
import HackVM.Proofs.Files.Writing

/-!
# Where paths lead

A path is walked part by part, and only its last part can lead to something that is no directory
(`exists_enter_of_locate`). So whatever is found at the end of a path and is no directory has the
name of the path (`exists_lastPart_of_locate`), however many ways there are to spell the path.

* **Inside a directory.** The path of a name inside a directory leads to that name at the place of
  the directory, as long as it is not too long (`locate_join`).
* **Elsewhere.** Where a path leads depends on the directories alone. Trees that have the same
  directories (`SameDirectories`) therefore agree on it, and a file that is put where no directory
  stands makes no difference (`sameDirectories_put`).
-/

namespace HackVM

open Text

namespace FileName

/-- A text that is a name is its own text. -/
theorem text_of_ofText? {s : String} {name : FileName} (h : ofText? s = some name) :
    name.text = s := by
  unfold ofText? at h
  split_ifs at h
  cases h
  rfl

/-- Every name is found by its text. -/
@[simp] theorem ofText?_text (name : FileName) : ofText? name.text = some name := by
  unfold ofText?
  rw [dif_pos ⟨name.ne_empty, name.ne_dot, name.ne_up, name.slash_notMem,
    by simpa using name.noNull, name.short⟩]

/-- The name with a text that can be one. -/
def of (s : String) (h : (ofText? s).isSome = true := by decide) : FileName :=
  (ofText? s).get h

/-- Names are as their texts. -/
theorem text_injective {name name' : FileName} (h : name.text = name'.text) : name = name' := by
  cases name
  cases name'
  congr

end FileName

namespace FileTree

variable {t t' : FileTree} {p : Path} {l d : Location}

/-! ## One step -/

/-- Where one part of a path leads: nowhere else, up, or to a name. -/
theorem enter_cases {part : String} (h : t.enter d part = .ok l) :
    t.node? d = some .directory ∧
      ((part = "" ∨ part = ".") ∧ l = d ∨ part = ".." ∧ l = d.dropLast ∨
        ∃ name : FileName, part = name.text ∧ l = d ++ [name]) := by
  unfold enter at h
  split at h
  · cases h
  · cases h
  · next hdirectory =>
      refine ⟨hdirectory, ?_⟩
      split_ifs at h with htrivial hup
      · cases h
        exact .inl ⟨by simpa using htrivial, rfl⟩
      · cases h
        exact .inr (.inl ⟨hup, rfl⟩)
      · cases hname : FileName.ofText? part with
        | none =>
            rw [hname] at h
            cases h
        | some name =>
            rw [hname] at h
            cases h
            exact .inr (.inr ⟨name, (FileName.text_of_ofText? hname).symm, rfl⟩)

/-- A name leads from a directory to what has this name inside it. -/
theorem enter_text (name : FileName) (hd : t.node? d = some .directory) :
    t.enter d name.text = .ok (d ++ [name]) := by
  simp [enter, hd, name.ne_empty, name.ne_dot, name.ne_up, FileName.ofText?_text]

/-- A path leads somewhere if its text can be walked. -/
theorem locate_eq_ok_iff :
    t.locate p = .ok l ↔ textFault? p = none ∧ t.walk (t.startOf p) p.parts = .ok l := by
  unfold locate
  cases textFault? p with
  | some fault => exact ⟨nofun, nofun⟩
  | none => exact ⟨fun h => ⟨rfl, h⟩, fun h => h.2⟩

/-- What stands at a path stands at the place where it leads. -/
theorem find_eq_ok_iff {node : Node} :
    t.find p = .ok node ↔ ∃ l, t.locate p = .ok l ∧ t.node? l = some node := by
  unfold find
  rw [bind_eq_ok_iff]
  refine exists_congr fun l => and_congr_right fun _ => ?_
  cases t.node? l with
  | none => exact ⟨nofun, nofun⟩
  | some found => simp

/-- A directory is what a path leads to. -/
theorem isDirectory_iff :
    t.isDirectory p = true ↔ ∃ l, t.locate p = .ok l ∧ t.node? l = some .directory := by
  rw [← find_eq_ok_iff]
  unfold isDirectory
  split
  · next h => simp [h]
  · next h => simpa using h

/-- A file is what a path leads to. -/
theorem isFile_iff :
    t.isFile p = true ↔ ∃ l content, t.locate p = .ok l ∧ t.node? l = some (.file content) := by
  have hfind : t.isFile p = true ↔ ∃ content, t.find p = .ok (.file content) := by
    unfold isFile
    split
    · next content h => exact ⟨fun _ => ⟨content, h⟩, fun _ => rfl⟩
    · next h => exact ⟨nofun, fun hfile => (h _ hfile.choose_spec).elim⟩
  rw [hfind, exists_comm]
  exact exists_congr fun content => find_eq_ok_iff

/-! ## The last part -/

/-- A path leads to a directory, and from there one part further. -/
theorem exists_enter_of_locate (h : t.locate p = .ok l) {front part : List Char}
    (hp : p.text.toList = front ++ part) (hfront : Path.Opens front) (hpart : '/' ∉ part) :
    ∃ d, t.walk (t.startOf p) ((Path.partsAbove front).map String.ofList) = .ok d ∧
      t.enter d (String.ofList part) = .ok l := by
  have hwalk := (locate_eq_ok_iff.mp h).2
  rwa [Path.parts_append hp hfront hpart, walk_concat_eq_ok_iff] at hwalk

/-- The last part of a path, and where it leads from a directory: up, or to a name. -/
def LeadsTo (d : Location) (part : List Char) (l : Location) : Prop :=
  if part = ['.', '.'] then l = d.dropLast
  else ∃ name, name.text = String.ofList part ∧ l = d ++ [name]

/-- What stands at the end of a path and is no directory stands there under the last part of the
path, or above a directory that the path goes up from. -/
theorem exists_lastPart_of_locate (h : t.locate p = .ok l) (hnode : t.node? l ≠ some .directory) :
    ∃ front part d, p.text.toList = front ++ part ∧ Path.Opens front ∧ '/' ∉ part ∧ part ≠ [] ∧
      part ≠ ['.'] ∧ t.walk (t.startOf p) ((Path.partsAbove front).map String.ofList) = .ok d ∧
      LeadsTo d part l := by
  obtain ⟨front, part, hp, hfront, hpart⟩ := Path.exists_lastPart p.text.toList
  obtain ⟨d, hwalk, henter⟩ := exists_enter_of_locate h hp hfront hpart
  obtain ⟨hdirectory, ⟨-, rfl⟩ | ⟨hup, rfl⟩ | ⟨name, hname, rfl⟩⟩ := enter_cases henter
  · exact absurd hdirectory hnode
  · have hdots : part = ['.', '.'] := by simpa using congrArg String.toList hup
    exact ⟨front, part, d, hp, hfront, hpart, by simp [hdots], by simp [hdots], hwalk,
      by rw [LeadsTo, if_pos hdots]⟩
  · refine ⟨front, part, d, hp, hfront, hpart, ?_, ?_, hwalk, ?_⟩
    · rintro rfl
      exact name.ne_empty hname.symm
    · rintro rfl
      exact name.ne_dot hname.symm
    · rw [LeadsTo, if_neg]
      · exact ⟨name, hname.symm, rfl⟩
      · rintro rfl
        exact name.ne_up hname.symm

end FileTree

/-! ## Inside a directory -/

namespace Path

variable {p : Path}

/-- The text of a directory's path up to where the names inside it stand. -/
def entrance (p : Path) : List Char :=
  match p.text.toList.getLast? with
  | none => []
  | some '/' => p.text.toList
  | some _ => p.text.toList ++ ['/']

/-- A name inside a directory stands behind its entrance. -/
theorem toList_join (p : Path) (name : String) :
    (p.join name).text.toList = p.entrance ++ name.toList := by
  unfold join entrance
  cases p.text.toList.getLast? with
  | none => rfl
  | some c =>
      by_cases hc : c = '/'
      · subst hc
        exact String.toList_append
      · simp

/-- The separator in front of the names is the one that the path ends in, or it is added. -/
theorem entrance_eq (hp : p.text ≠ "") :
    ∃ above, p.entrance = above ++ ['/'] ∧
      (p.text.toList = above ∨ p.text.toList = above ++ ['/']) := by
  unfold entrance
  split
  · next hnone => exact absurd (String.toList_eq_nil_iff.mp (List.getLast?_eq_none_iff.mp hnone)) hp
  · next hslash =>
      obtain ⟨above, habove⟩ := List.getLast?_eq_some_iff.mp hslash
      exact ⟨above, habove, .inr habove⟩
  · exact ⟨p.text.toList, rfl, .inl rfl⟩

/-- Parts start at the entrance of a directory. -/
theorem opens_entrance (hp : p.text ≠ "") : Opens p.entrance := by
  obtain ⟨above, habove, -⟩ := entrance_eq hp
  exact .inr ⟨above, habove⟩

/-- The parts of a directory's path are those above a name inside it, and maybe an empty one. -/
theorem parts_eq_partsAbove (hp : p.text ≠ "") :
    p.parts = (partsAbove p.entrance).map String.ofList ∨
      p.parts = (partsAbove p.entrance).map String.ofList ++ [""] := by
  obtain ⟨above, habove, htext | htext⟩ := entrance_eq hp
  · exact .inl (by rw [parts, habove, partsAbove_concat, htext])
  · right
    rw [parts, habove, partsAbove_concat, htext, splitParts_append_slash, List.map_append]
    rfl

/-- The parts of the path of a name are those above it and the name. -/
theorem parts_join (hp : p.text ≠ "") {name : String} (hname : '/' ∉ name.toList) :
    (p.join name).parts = (partsAbove p.entrance).map String.ofList ++ [name] := by
  rw [parts_append (toList_join p name) (opens_entrance hp) hname, String.ofList_toList]

/-- The path of a name inside a directory starts where the path of the directory does. -/
theorem isAbsolute_join (hp : p.text ≠ "") (name : String) :
    (p.join name).isAbsolute = p.isAbsolute := by
  have hne : p.text.toList ≠ [] := by rwa [ne_eq, String.toList_eq_nil_iff]
  have hhead : (p.join name).text.toList.head? = p.text.toList.head? := by
    rw [toList_join]
    obtain ⟨above, habove, rfl | htext⟩ := entrance_eq hp
    · rw [habove, List.append_assoc, List.head?_append_of_ne_nil _ hne]
    · rw [habove, ← htext, List.head?_append_of_ne_nil _ hne]
  unfold isAbsolute
  rw [hhead]

/-- A name inside a directory is one more component. -/
theorem components_join (hp : p.text ≠ "") (name : FileName) :
    (p.join name.text).components = p.components ++ [.name name.text] := by
  have habove : (partsAbove p.entrance).map String.ofList ≠ [] := by
    obtain ⟨above, habove, -⟩ := entrance_eq hp
    rw [habove, partsAbove_concat, ne_eq, List.map_eq_nil_iff]
    exact splitParts_ne_nil above
  have hname : Component.ofPart? name.text = some (.name name.text) := by
    simp [Component.ofPart?, name.ne_empty, name.ne_dot, name.ne_up]
  have hhead : (p.join name.text).parts.head? = p.parts.head? := by
    rw [parts_join hp name.slash_notMem, List.head?_append_of_ne_nil _ habove]
    rcases parts_eq_partsAbove hp with hparts | hparts
    · rw [hparts]
    · rw [hparts, List.head?_append_of_ne_nil _ habove]
  have hcount : p.parts.filterMap Component.ofPart? =
      ((partsAbove p.entrance).map String.ofList).filterMap Component.ofPart? := by
    rcases parts_eq_partsAbove hp with hparts | hparts
    · rw [hparts]
    · rw [hparts, List.filterMap_append]
      exact List.append_nil _
  rw [components, components, start?, start?, isAbsolute_join hp, hhead,
    parts_join hp name.slash_notMem, List.filterMap_append, hcount, List.append_assoc,
    List.filterMap_cons, hname, List.filterMap_nil]

end Path

namespace FileTree

variable {t t' : FileTree} {p : Path} {l d : Location}

/-- A text can be walked if it has no null character, is not empty, and is not too long. -/
theorem textFault?_eq_none_iff :
    textFault? p = none ↔ (∀ c ∈ p.text.toList, c.toNat ≠ 0) ∧ p.text ≠ "" ∧
      byteLength p.text.toList ≤ maxPathBytes := by
  unfold textFault?
  split_ifs with hnull hempty hlong
  · simp only [List.any_eq_true, beq_iff_eq] at hnull
    obtain ⟨c, hc, hzero⟩ := hnull
    exact ⟨nofun, fun h => absurd hzero (h.1 c hc)⟩
  · exact ⟨nofun, fun h => absurd hempty h.2.1⟩
  · exact ⟨nofun, fun h => absurd h.2.2 (Nat.not_le.mpr hlong)⟩
  · refine ⟨fun _ => ⟨?_, hempty, Nat.not_lt.mp hlong⟩, fun _ => rfl⟩
    intro c hc hzero
    exact hnull (List.any_eq_true.mpr ⟨c, hc, by rw [hzero]; rfl⟩)

/-- A path that leads somewhere is not empty. -/
theorem text_ne_empty_of_locate (h : t.locate p = .ok l) : p.text ≠ "" :=
  (textFault?_eq_none_iff.mp (locate_eq_ok_iff.mp h).1).2.1

/-- **A step of a walk is refused for a name only if the part is too long**, whatever else would
keep a text from being a name. -/
theorem enter_eq_nameTooLong_iff (hp : textFault? p = none) {part : String} (hpart : part ∈ p.parts)
    (hd : t.node? d = some .directory) :
    t.enter d part = .error .nameTooLong ↔ maxNameBytes < byteLength part.toList := by
  obtain ⟨cs, hcs, rfl⟩ := List.mem_map.mp hpart
  obtain ⟨hslash, hmem⟩ := Path.mem_of_mem_splitParts hcs
  have hnull : ∀ c ∈ cs, c.toNat ≠ 0 := fun c hc => (textFault?_eq_none_iff.mp hp).1 c (hmem c hc)
  unfold enter
  rw [hd]
  split_ifs with htrivial hup
  · refine ⟨nofun, fun hlong => absurd hlong ?_⟩
    rw [Bool.or_eq_true, decide_eq_true_eq, decide_eq_true_eq] at htrivial
    rcases htrivial with h | h <;> rw [h] <;> decide
  · exact ⟨nofun, fun hlong => absurd hlong (by rw [hup]; decide)⟩
  · rw [Bool.or_eq_true, decide_eq_true_eq, decide_eq_true_eq, not_or] at htrivial
    unfold FileName.ofText?
    split_ifs with hproper
    · exact ⟨nofun, fun hlong => absurd hproper.2.2.2.2.2 (Nat.not_le.mpr hlong)⟩
    · refine ⟨fun _ => Nat.not_le.mp fun hshort => hproper ?_, fun _ => rfl⟩
      exact ⟨htrivial.1, htrivial.2, hup, by simpa using hslash, by simpa using hnull, hshort⟩

/-- The path of a directory leads to the directory that the names inside it are looked up in. -/
theorem walk_partsAbove_entrance (h : t.locate p = .ok l) :
    t.walk (t.startOf p) ((Path.partsAbove p.entrance).map String.ofList) = .ok l := by
  have hwalk := (locate_eq_ok_iff.mp h).2
  rcases Path.parts_eq_partsAbove (text_ne_empty_of_locate h) with hparts | hparts
  · rwa [hparts] at hwalk
  · rw [hparts, walk_concat_eq_ok_iff] at hwalk
    obtain ⟨d, hwalk, henter⟩ := hwalk
    obtain ⟨-, ⟨-, rfl⟩ | ⟨hup, -⟩ | ⟨name, hname, -⟩⟩ := enter_cases henter
    · exact hwalk
    · exact absurd hup (by decide)
    · exact absurd hname.symm name.ne_empty

/-- **The path of a name inside a directory leads to that name at the place of the directory**,
unless the path is too long. -/
theorem locate_join (name : FileName) (h : t.locate p = .ok l)
    (hdirectory : t.node? l = some .directory) :
    t.locate (p.join name.text) =
      if byteLength (p.join name.text).text.toList ≤ maxPathBytes then .ok (l ++ [name])
      else .error .nameTooLong := by
  have hp := text_ne_empty_of_locate h
  have hnulls : ∀ c ∈ (p.join name.text).text.toList, c.toNat ≠ 0 := by
    intro c hc
    rw [Path.toList_join, List.mem_append] at hc
    obtain ⟨above, habove, htext⟩ := Path.entrance_eq hp
    have hnull := (textFault?_eq_none_iff.mp (locate_eq_ok_iff.mp h).1).1
    rcases hc with hc | hc
    · rw [habove, List.mem_append, List.mem_singleton] at hc
      rcases hc with hc | rfl
      · refine hnull c ?_
        rcases htext with htext | htext <;> simp [htext, hc]
      · decide
    · exact name.noNull c hc
  have hne : (p.join name.text).text ≠ "" := by
    rw [ne_eq, ← String.toList_eq_nil_iff, Path.toList_join, List.append_eq_nil_iff,
      String.toList_eq_nil_iff]
    exact fun hnil => name.ne_empty hnil.2
  split_ifs with hlong
  · have hstart : t.startOf (p.join name.text) = t.startOf p := by
      rw [startOf, startOf, Path.isAbsolute_join hp]
    rw [locate_eq_ok_iff, hstart, Path.parts_join hp name.slash_notMem, walk_concat_eq_ok_iff]
    exact ⟨textFault?_eq_none_iff.mpr ⟨hnulls, hne, hlong⟩, l, walk_partsAbove_entrance h,
      enter_text name hdirectory⟩
  · have hfault : textFault? (p.join name.text) = some .nameTooLong := by
      unfold textFault?
      rw [if_neg, if_neg hne, if_pos (Nat.not_le.mp hlong)]
      intro hnull
      simp only [List.any_eq_true, beq_iff_eq] at hnull
      obtain ⟨c, hc, hzero⟩ := hnull
      exact hnulls c hc hzero
    rw [locate, hfault]

/-! ## Trees with the same directories -/

/-- Two trees that have the same directories, the current one included. -/
structure SameDirectories (t t' : FileTree) : Prop where
  directory_iff : ∀ l, t.node? l = some .directory ↔ t'.node? l = some .directory
  current_eq : t'.current = t.current

namespace SameDirectories

/-- **Where a path leads depends on the directories alone.** -/
theorem locate_eq_ok_iff (h : SameDirectories t t') (p : Path) (l : Location) :
    t'.locate p = .ok l ↔ t.locate p = .ok l :=
  ⟨locate_of_directories (fun l => (h.directory_iff l).mpr) h.current_eq.symm,
    locate_of_directories (fun l => (h.directory_iff l).mp) h.current_eq⟩

/-- A path leads nowhere in one tree if it leads nowhere in the other. -/
theorem directoryName?_eq (h : SameDirectories t t') (p : Path) :
    t'.directoryName? p = t.directoryName? p := by
  unfold directoryName?
  cases hlocate : t.locate p with
  | ok l => rw [(h.locate_eq_ok_iff p l).mpr hlocate]
  | error fault =>
      cases hlocate' : t'.locate p with
      | ok l => exact nomatch hlocate.symm.trans ((h.locate_eq_ok_iff p l).mp hlocate')
      | error fault' => rfl

/-- A path leads to a directory in both trees or in neither. -/
theorem isDirectory_eq (h : SameDirectories t t') (p : Path) :
    t'.isDirectory p = t.isDirectory p := by
  rw [Bool.eq_iff_iff, isDirectory_iff, isDirectory_iff]
  exact exists_congr fun l => and_congr (h.locate_eq_ok_iff p l) (h.directory_iff l).symm

/-- A file can be created in both trees or in neither. -/
theorem locateFile_eq_ok_iff (h : SameDirectories t t') (p : Path) (l : Location) :
    t'.locateFile p = .ok l ↔ t.locateFile p = .ok l := by
  rw [FileTree.locateFile_eq_ok_iff, FileTree.locateFile_eq_ok_iff, h.locate_eq_ok_iff]

end SameDirectories

/-- A file that is put where no directory stands makes no difference to the directories. -/
theorem sameDirectories_put (hl : t.node? l ≠ some .directory) (content : ByteArray) :
    SameDirectories t (t.put l (.file content)) :=
  ⟨fun l' => (directory_put_iff hl content l').symm, rfl⟩

end FileTree

end HackVM
