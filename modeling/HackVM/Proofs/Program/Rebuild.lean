import HackVM.Proofs.Program.Discovery

/-!
# Building again

A build that is not told where to write chooses a place by itself: beside a source file, or inside a
directory. It never chooses a source.

* **Texts.** The path has not the extension of a source (`hasSourceExtension_defaultOutput`), so it
  is none of the paths that were found.
* **Places.** Two paths can lead to the same place. But what stands at the end of a path and is no
  directory has the last part of the path as its name. A source ends in its own extension
  (`exists_of_source`) and the output in another one (`exists_of_isSuffix`), and a path that is left
  without a name leads upwards. So they never meet (`locate_defaultOutput_ne`).
* **The second run.** The tree after a build has the same directories, and whatever is found as a
  source is the same in it (`foundNames_put`). So the same units are loaded and the same bytes are
  put at the same place.

Main statement: `rebuild_changes_nothing`.
-/

namespace HackVM

open Text FileTree

/-! ## The text of the output path -/

/-- The path that is chosen in a directory ends in the extension of the output. -/
theorem isSuffix_join (input : Path) (stem : String) :
    ['.', 'a', 's', 'm'] <:+ (input.join (stem ++ "." ++ assemblyExtension)).text.toList := by
  rw [Path.toList_join]
  exact ⟨input.entrance ++ stem.toList, by simp [assemblyExtension]⟩

/-- A path that ends in the extension of the output has not that of a source. -/
theorem hasSourceExtension_of_isSuffix {p : Path} (h : ['.', 'a', 's', 'm'] <:+ p.text.toList) :
    hasSourceExtension p = false := by
  rw [hasSourceExtension, beq_eq_false_iff_ne]
  exact @Path.extension?_ne_of_isSuffix p ['a', 's', 'm'] ['v', 'm'] (by decide) (by decide)
    (by decide) (by decide) h

/-- **The output is no source.** -/
theorem hasSourceExtension_defaultOutput (t : FileTree) (input : Path) :
    hasSourceExtension (defaultOutput t input) = false := by
  unfold defaultOutput
  split_ifs
  · exact hasSourceExtension_of_isSuffix (isSuffix_join input _)
  · cases hsplit : input.dropExtension.split? with
    | none =>
        -- what is left has no name, so it has no extension either
        rw [Path.withExtension_of_none hsplit, hasSourceExtension, Path.extension?, hsplit]
        rfl
    | some found =>
        refine hasSourceExtension_of_isSuffix ?_
        rw [Path.toList_withExtension_of_some hsplit]
        exact List.suffix_append _ _

/-- What is found: files inside a directory, or the input itself. -/
theorem mem_of_resolveInputs {t : FileTree} {input : Path} {paths : List Path}
    (h : resolveInputs t input = .ok paths) {p : Path} (hp : p ∈ paths) :
    hasSourceExtension p = true ∧
      (t.isDirectory input = true ∧ t.isFile p = true ∨
        t.isDirectory input = false ∧ p = input) := by
  by_cases hdirectory : t.isDirectory input = true
  · obtain ⟨l, hl, hnode⟩ := isDirectory_iff.mp hdirectory
    rw [resolveInputs_of_directory hl hnode] at h
    split_ifs at h
    cases h
    obtain ⟨name, hname, rfl⟩ := List.mem_map.mp hp
    have hcounts := (List.mem_filter.mp hname).2
    rw [countsAsSource, Bool.and_eq_true] at hcounts
    exact ⟨hcounts.2, .inl ⟨hdirectory, hcounts.1⟩⟩
  · rw [resolveInputs, if_neg hdirectory] at h
    split_ifs at h with hextension
    cases h
    rw [List.mem_singleton] at hp
    subst hp
    exact ⟨hextension, .inr ⟨Bool.eq_false_iff.mpr hdirectory, rfl⟩⟩

/-- No directory is found. -/
theorem node?_of_resolveInputs {t : FileTree} {input : Path} {paths : List Path}
    (h : resolveInputs t input = .ok paths) {p : Path} (hp : p ∈ paths) {l : Location}
    (hl : t.locate p = .ok l) : t.node? l ≠ some .directory := by
  intro hnode
  rcases (mem_of_resolveInputs h hp).2 with ⟨-, hfile⟩ | ⟨hdirectory, rfl⟩
  · obtain ⟨l', content, hl', hnode'⟩ := isFile_iff.mp hfile
    cases hl.symm.trans hl'
    cases hnode.symm.trans hnode'
  · rw [isDirectory_iff.mpr ⟨l, hl, hnode⟩] at hdirectory
    cases hdirectory

/-! ## Where sources and outputs stand -/

section places

variable {t : FileTree} {p : Path} {l : Location} (hl : t.locate p = .ok l)
  (hnode : t.node? l ≠ some .directory)
include hl hnode

/-- A source that is no directory stands under its own name, beside nothing else. -/
theorem exists_of_source (hp : hasSourceExtension p = true) :
    ∃ front stem d name, p.text.toList = front ++ (stem ++ ['.', 'v', 'm']) ∧ Path.Opens front ∧
      '/' ∉ stem ++ ['.', 'v', 'm'] ∧ stem ≠ [] ∧
      t.walk (t.startOf p) ((Path.partsAbove front).map String.ofList) = .ok d ∧
      name.text = String.ofList (stem ++ ['.', 'v', 'm']) ∧ l = d ++ [name] := by
  obtain ⟨front, part, d, htext, hfront, hpart, hne, hdot, hwalk, hplace⟩ :=
    exists_lastPart_of_locate hl hnode
  have hsplit := Path.split?_of_lastPart htext hfront hpart hne hdot
  rw [hasSourceExtension, beq_iff_eq, Path.extension?_eq, Path.fileName?, hsplit] at hp
  by_cases hup : part = ['.', '.']
  · rw [if_pos hup] at hp
    cases hp
  rw [if_neg hup, Option.map_some, Option.bind_some, String.toList_ofList,
    Option.map_eq_some_iff] at hp
  rw [LeadsTo, if_neg hup] at hplace
  obtain ⟨name, hname, hplace⟩ := hplace
  obtain ⟨ext, hext, hvm⟩ := hp
  have hvm' : ext = ['v', 'm'] := by simpa [sourceExtension] using congrArg String.toList hvm
  subst hvm'
  obtain ⟨-, stem, hstem, rfl⟩ := Path.eq_append_of_splitName hext
  exact ⟨front, stem, d, name, htext, hfront, hpart, hstem, hwalk, hname, hplace⟩

/-- Something that is no directory, at a path that ends in the extension of the output. -/
theorem exists_of_isSuffix (hp : ['.', 'a', 's', 'm'] <:+ p.text.toList) :
    ∃ d stem name, name.text = String.ofList (stem ++ ['.', 'a', 's', 'm']) ∧ l = d ++ [name] := by
  obtain ⟨front, part, d, htext, hfront, hpart, -, -, -, hplace⟩ :=
    exists_lastPart_of_locate hl hnode
  rw [htext] at hp
  obtain ⟨stem, rfl⟩ := Path.isSuffix_lastPart hfront (by decide) hp
  rw [LeadsTo, if_neg fun hup => by simpa using congrArg List.length hup] at hplace
  obtain ⟨name, hname, hplace⟩ := hplace
  exact ⟨d, stem, name, hname, hplace⟩

end places

/-- Names with other extensions stand at other places. -/
theorem concat_ne_of_extensions {d d' : Location} {name name' : FileName} {stem stem' : List Char}
    (hname : name.text = String.ofList (stem ++ ['.', 'v', 'm']))
    (hname' : name'.text = String.ofList (stem' ++ ['.', 'a', 's', 'm'])) :
    d ++ [name] ≠ d' ++ [name'] := by
  intro h
  have hlast := congrArg FileName.text (List.singleton_inj.mp (List.append_inj_right' h rfl))
  rw [hname, hname', String.ofList_inj] at hlast
  simpa using congrArg List.reverse hlast

/-- A path that leads upwards and one that goes on from the same directory lead apart. -/
theorem dropLast_ne_concat (d : Location) (name : FileName) : d.dropLast ≠ d ++ [name] := by
  intro h
  have hlength := congrArg List.length h
  rw [List.length_dropLast, List.length_append, List.length_singleton] at hlength
  omega

/-- **The output is at no place where a source is.** -/
theorem locate_defaultOutput_ne {t : FileTree} {input : Path} {paths : List Path}
    (h : resolveInputs t input = .ok paths) {p : Path} (hp : p ∈ paths) {l : Location}
    (hl : t.locate p = .ok l) : t.locate (defaultOutput t input) ≠ .ok l := by
  intro hout
  have hnode := node?_of_resolveInputs h hp hl
  obtain ⟨hextension, hcase⟩ := mem_of_resolveInputs h hp
  obtain ⟨front, stem, d, name, htext, hfront, hslash, hstem, hwalk, hname, hsource⟩ :=
    exists_of_source hl hnode hextension
  -- whatever ends in the extension of the output stands elsewhere
  have hsuffix (hasm : ['.', 'a', 's', 'm'] <:+ (defaultOutput t input).text.toList) : False := by
    obtain ⟨d', stem', name', hname', houtput⟩ := exists_of_isSuffix hout hnode hasm
    exact concat_ne_of_extensions hname hname' (hsource.symm.trans houtput)
  rcases hcase with ⟨hdirectory, -⟩ | ⟨hdirectory, rfl⟩
  · apply hsuffix
    rw [defaultOutput, if_pos hdirectory]
    exact isSuffix_join input _
  · have hne : t.isDirectory p ≠ true := Bool.eq_false_iff.mp hdirectory
    have houtput := Path.toList_withExtension htext hfront hstem hslash (by decide)
      (fun hup => by simpa using congrArg List.length hup) assemblyExtension
    rw [defaultOutput, if_neg hne] at hout hsuffix
    split_ifs at houtput with hone
    · -- what is left of a name like `..x` leads up from the directory that the source is in
      obtain ⟨d', hwalk', henter⟩ := exists_enter_of_locate hout houtput hfront (by decide)
      have hhead : (p.withExtension assemblyExtension).text.toList.head? = p.text.toList.head? := by
        rw [houtput, htext, hone]
        cases front <;> rfl
      have hstart : t.startOf (p.withExtension assemblyExtension) = t.startOf p := by
        rw [startOf, startOf, Path.isAbsolute, Path.isAbsolute, hhead]
      rw [hstart, hwalk] at hwalk'
      cases hwalk'
      obtain ⟨-, ⟨hnone, -⟩ | ⟨-, hup⟩ | ⟨above, habove, -⟩⟩ := enter_cases henter
      · exact absurd hnone (by decide)
      · exact dropLast_ne_concat d _ (hup.symm.trans hsource)
      · exact above.ne_up habove.symm
    · apply hsuffix
      rw [houtput]
      exact List.suffix_append _ _

/-! ## The tree after a build -/

/-- The choice of the output depends on the directories alone. -/
theorem FileTree.SameDirectories.defaultOutput_eq {t t' : FileTree} (h : SameDirectories t t')
    (input : Path) : defaultOutput t' input = defaultOutput t input := by
  rw [defaultOutput, defaultOutput, h.isDirectory_eq, h.directoryName?_eq]

section inside

-- something is put inside the directory, under a name that ends in the extension of the output
variable {t : FileTree} {place d : Location} {name : FileName} {stem : List Char}
  (content : ByteArray) (hplace : t.node? place ≠ some .directory)
  (hname : name.text = String.ofList (stem ++ ['.', 'a', 's', 'm'])) (hinside : place = d ++ [name])
include hplace hname hinside

/-- The same names count as those of sources. -/
theorem countsAsSource_put (input : Path) :
    countsAsSource (t.put place (.file content)) input = countsAsSource t input := by
  funext found
  rw [Bool.eq_iff_iff, countsAsSource, countsAsSource, Bool.and_eq_true, Bool.and_eq_true,
    isFile_iff, isFile_iff]
  refine and_congr_left fun hextension => exists_congr fun l => exists_congr fun _ => ?_
  rw [(sameDirectories_put hplace content).locate_eq_ok_iff]
  refine and_congr_right fun hl => ?_
  have hne : l ≠ place := by
    rintro rfl
    obtain ⟨_, stem', d', name', -, -, -, -, -, hname', hsource⟩ :=
      exists_of_source hl hplace hextension
    exact concat_ne_of_extensions hname' hname (hsource.symm.trans hinside)
  rw [node?_put_of_ne hplace _ hne]

/-- The same names are found in a directory. -/
theorem foundNames_put (input : Path) (l : Location) :
    foundNames (t.put place (.file content)) input l = foundNames t input l := by
  apply foundNames_eq_of_perm
  rw [countsAsSource_put content hplace hname hinside]
  rcases namesIn_put t l place (.file content) with hnames | ⟨new, hlast, hnames⟩
  · rw [hnames]
  · -- the new name is not one of a source
    have hnew : new = name :=
      List.singleton_inj.mp (List.append_inj_right' (hlast.symm.trans hinside) rfl)
    have hextension : hasSourceExtension (input.join new.text) = false := by
      apply hasSourceExtension_of_isSuffix
      rw [Path.toList_join, hnew, hname, String.toList_ofList, ← List.append_assoc]
      exact List.suffix_append _ _
    have hcounts : countsAsSource t input new = false := by
      rw [countsAsSource, hextension, Bool.and_false]
    rw [hnames, List.filter_append, List.filter_cons_of_neg (by rw [hcounts]; decide),
      List.filter_nil, List.append_nil]

end inside

section afterwards

variable {t : FileTree} {input : Path} {place : Location} (content : ByteArray)
  (hout : t.locate (defaultOutput t input) = .ok place) (hplace : t.node? place ≠ some .directory)
include hout hplace

/-- **The same sources are found after the output was written.** -/
theorem resolveInputs_put :
    resolveInputs (t.put place (.file content)) input = resolveInputs t input := by
  have hsame := sameDirectories_put hplace content
  by_cases hdirectory : t.isDirectory input = true
  · obtain ⟨l, hl, hnode⟩ := isDirectory_iff.mp hdirectory
    rw [defaultOutput, if_pos hdirectory] at hout
    obtain ⟨d, stem, name, hname, hinside⟩ := exists_of_isSuffix hout hplace (isSuffix_join input _)
    rw [resolveInputs_of_directory hl hnode,
      resolveInputs_of_directory ((hsame.locate_eq_ok_iff input l).mpr hl)
        ((hsame.directory_iff l).mp hnode), foundNames_put content hplace hname hinside]
  · rw [resolveInputs, resolveInputs, hsame.isDirectory_eq, if_neg hdirectory, if_neg hdirectory]

/-- **What stood at the path of a source still stands there.** -/
theorem find_put {paths : List Path} (hpaths : resolveInputs t input = .ok paths) {p : Path}
    (hp : p ∈ paths) {node : Node} (h : t.find p = .ok node) :
    (t.put place (.file content)).find p = .ok node := by
  obtain ⟨l, hl, hnode⟩ := find_eq_ok_iff.mp h
  have hne : l ≠ place := by
    rintro rfl
    exact locate_defaultOutput_ne hpaths hp hl hout
  exact find_eq_ok_iff.mpr ⟨l, ((sameDirectories_put hplace content).locate_eq_ok_iff p l).mpr hl,
    (node?_put_of_ne hplace _ hne).trans hnode⟩

end afterwards

/-! ## The second run -/

/-- A file that can be read stands at its path. -/
theorem find_eq_ok_of_read {t : FileTree} {p : Path} {bytes : ByteArray}
    (h : t.read p = .ok bytes) : t.find p = .ok (.file bytes) := by
  unfold FileTree.read at h
  rw [bind_eq_ok_iff] at h
  obtain ⟨node, hnode, h⟩ := h
  cases node with
  | file content =>
      cases h
      exact hnode
  | directory => cases h

/-- A unit that can be loaded can be read. -/
theorem exists_read_of_load {t : FileTree} {p : Path} {u : SourceUnit}
    (h : SourceUnit.load t p = .ok u) : ∃ bytes, t.read p = .ok bytes := by
  unfold SourceUnit.load FileTree.readText at h
  cases hread : t.read p with
  | ok bytes => exact ⟨bytes, rfl⟩
  | error fault =>
      rw [hread] at h
      cases h

/-- Writing the same file again changes nothing. -/
theorem write_put {t : FileTree} {output : Path} {place : Location} {content : ByteArray}
    (hfile : t.locateFile output = .ok place) (hplace : t.node? place ≠ some .directory) :
    (t.put place (.file content)).write output content = (.ok (), t.put place (.file content)) := by
  have hthere := node?_put_self hplace (.file content)
  have hfile' := ((sameDirectories_put hplace content).locateFile_eq_ok_iff output place).mpr hfile
  simp only [FileTree.write, create, hfile', hthere, put_put]

section secondRun

variable {t : FileTree} {input : Path} {place : Location} (content : ByteArray)
  (hout : t.locate (defaultOutput t input) = .ok place) (hplace : t.node? place ≠ some .directory)
include hout hplace

/-- The bytes of the sources are the same after the output was written. -/
theorem read_put {paths : List Path} {units : List SourceUnit}
    (hpaths : resolveInputs t input = .ok paths)
    (hunits : paths.mapM (SourceUnit.load t) = .ok units) :
    ∀ p ∈ paths, (t.put place (.file content)).read p = t.read p := by
  intro p hp
  obtain ⟨n, hn, rfl⟩ := List.getElem_of_mem hp
  have hall := mapM_eq_ok_iff.mp hunits
  have hload : SourceUnit.load t paths[n] = .ok _ := hall.get hn (hall.length_eq ▸ hn)
  obtain ⟨bytes, hread⟩ := exists_read_of_load hload
  rw [hread]
  simp only [FileTree.read, find_put content hout hplace hpaths hp (find_eq_ok_of_read hread), bind,
    Except.bind]

/-- **The same units are loaded after the output was written.** -/
theorem loadUnits_put {units : List SourceUnit} (h : (loadUnits t input).result = .ok units) :
    loadUnits (t.put place (.file content)) input = loadUnits t input := by
  obtain ⟨paths, hpaths, hunits⟩ := loadUnits_eq_ok h
  have hload : paths.map (SourceUnit.load (t.put place (.file content))) =
      paths.map (SourceUnit.load t) := by
    refine List.map_congr_left fun p hp => ?_
    rw [SourceUnit.load, SourceUnit.load, FileTree.readText, FileTree.readText,
      read_put content hout hplace hpaths hunits p hp]
  have hmap (u : FileTree) : paths.mapM (SourceUnit.load u) =
      (paths.map (SourceUnit.load u)).mapM id := by
    rw [List.mapM_map]
    rfl
  rw [loadUnits, loadUnits, resolveInputs_put content hout hplace, hpaths]
  simp only [hmap, hload]

end secondRun

/-- **Building again changes nothing, and no build chooses to write over a source.** The output that
a build chooses is none of the paths that are found, and leads to no place where one of them leads.
After a build that succeeds, the same output is chosen, the same sources are found with the same
bytes, and the same build succeeds with the same reports and summary and leaves the files as they
are. -/
theorem rebuild_changes_nothing (t : FileTree) (input : Path) (options : Options) :
    (∀ paths, resolveInputs t input = .ok paths → ∀ p ∈ paths,
      p.components ≠ (defaultOutput t input).components ∧
        ∀ l, t.locate p = .ok l → t.locate (defaultOutput t input) ≠ .ok l) ∧
      ∀ made, (build t input (defaultOutput t input) options).result = .ok made →
        let t' := (build t input (defaultOutput t input) options).tree
        defaultOutput t' input = defaultOutput t input ∧
          (∃ paths, resolveInputs t input = .ok paths ∧ resolveInputs t' input = .ok paths ∧
            ∀ p ∈ paths, t'.read p = t.read p) ∧
          (build t' input (defaultOutput t' input) options).result = .ok made ∧
          (build t' input (defaultOutput t' input) options).tree = t' ∧
          (build t' input (defaultOutput t' input) options).reports =
            (build t input (defaultOutput t input) options).reports := by
  constructor
  · intro paths hpaths p hp
    refine ⟨fun hsame => ?_, fun l hl => locate_defaultOutput_ne hpaths hp hl⟩
    have hextension := (mem_of_resolveInputs hpaths hp).1
    rw [hasSourceExtension, Path.extension?_eq_of_components hsame] at hextension
    exact absurd hextension (by rw [← hasSourceExtension, hasSourceExtension_defaultOutput]; decide)
  · intro made hbuilt
    obtain ⟨units, assembly, hload, hcompile, hwrite, htree, -⟩ := build_eq_ok hbuilt
    obtain ⟨place, hfile, hplace, hwritten⟩ := write_eq_ok hwrite
    have hout := (locateFile_eq_ok_iff.mp hfile).2
    have hdefault := (sameDirectories_put hplace assembly.bytes).defaultOutput_eq input
    have hagain : build (t.put place (.file assembly.bytes)) input (defaultOutput t input) options =
        build t input (defaultOutput t input) options := by
      have hfirst : t.write (defaultOutput t input) assembly.bytes =
          (.ok (), t.put place (.file assembly.bytes)) := Prod.ext hwrite hwritten
      rw [build, build, loadUnits_put assembly.bytes hout hplace hload]
      simp only [FileWork.andThen, Attempt.on, hload, hcompile, writeAssembly, hfirst,
        write_put hfile hplace]
    obtain ⟨paths, hpaths, hunits⟩ := loadUnits_eq_ok hload
    intro t'
    have ht' : t' = t.put place (.file assembly.bytes) := htree.trans hwritten
    rw [ht', hdefault, hagain]
    exact ⟨rfl, ⟨paths, hpaths, (resolveInputs_put assembly.bytes hout hplace).trans hpaths,
      read_put assembly.bytes hout hplace hpaths hunits⟩, hbuilt, ht', rfl⟩

/-- A directory with one source file. -/
def oneSource : FileTree where
  entries := [([shelfName], .directory),
    ([shelfName, shortName], .file "push constant 7\n".toUTF8)]

/-- A directory is built twice; its own output is in it the second time. -/
theorem rebuild_changes_nothing_inside :
    (resolveInputs oneSource ⟨"d"⟩ = .ok [⟨"d/A.vm"⟩] ∧
      Path.components ⟨"d/A.vm"⟩ ≠ (defaultOutput oneSource ⟨"d"⟩).components) ∧
      ∃ made t', (build oneSource ⟨"d"⟩ (defaultOutput oneSource ⟨"d"⟩) {}).result = .ok made ∧
        (build oneSource ⟨"d"⟩ (defaultOutput oneSource ⟨"d"⟩) {}).tree = t' ∧
        (build t' ⟨"d"⟩ (defaultOutput t' ⟨"d"⟩) {}).result = .ok made ∧
        (build t' ⟨"d"⟩ (defaultOutput t' ⟨"d"⟩) {}).tree = t' := by
  have hrun := rebuild_changes_nothing oneSource ⟨"d"⟩ {}
  have hpaths : resolveInputs oneSource ⟨"d"⟩ = .ok [⟨"d/A.vm"⟩] := by decide +kernel
  have hok : (build oneSource ⟨"d"⟩ (defaultOutput oneSource ⟨"d"⟩) {}).result.isOk = true := by
    decide +kernel
  refine ⟨⟨hpaths, (hrun.1 _ hpaths _ (List.mem_singleton_self _)).1⟩, ?_⟩
  cases hresult : (build oneSource ⟨"d"⟩ (defaultOutput oneSource ⟨"d"⟩) {}).result with
  | error e =>
      rw [hresult] at hok
      cases hok
  | ok made => exact ⟨made, _, rfl, rfl, (hrun.2 made hresult).2.2.1, (hrun.2 made hresult).2.2.2.1⟩

end HackVM
