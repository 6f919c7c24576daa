import HackVM.CommandLine.Session
import HackVM.Proofs.Files.Writing
import HackVM.Proofs.Lowering.LineFeeds
import HackVM.Proofs.Program.CheckAndBuild
import HackVM.Proofs.Program.LabelClash

/-!
# What a build leaves behind

A build writes one file, and only after everything else succeeded. Main statement
(`build_all_or_nothing`): a build that fails leaves the files as they were, and so does every check;
a build that succeeds has put the program of its units at the output path and has changed nothing
else.

Files are handed on from step to step, so that a failure comes with the files as they are by then. A
build fails before its last step with the files it started with (`Attempt.on_andThen`), and in its
last step if the output cannot be opened. That a failed open changes nothing is assumed in
`FileTree.create`, and that an open file can be written in `FileTree.write`.

The summary of a build is what the writer counted on the way. Here it is said on what there is to
see: the instructions of the units, those of them that take a label number, and the line feeds among
the bytes.
-/

namespace HackVM

open Source Lowering Text CommandLine

/-! ## Label numbers -/

/-- The bootstrap takes one label number, for its call. -/
theorem labelsTaken_runInstructions (options : Options) (units : List UnitCode) :
    labelsTaken (runInstructions options units) =
      labelsTaken (units.flatMap UnitCode.code) + if options.bootstrap then 1 else 0 := by
  rw [runInstructions, labelsTaken, List.countP_append, Nat.add_comm]
  cases options.bootstrap <;> rfl

/-! ## Builds that succeed -/

/-- An attempt that goes on succeeds when both parts do. -/
theorem Attempt.andThen_eq_ok_iff {α β : Type} {first : Attempt α} {next : α → Attempt β} {b : β} :
    (first.andThen next).result = .ok b ↔ ∃ a, first.result = .ok a ∧ (next a).result = .ok b := by
  unfold andThen
  cases first.result with
  | error e => simp
  | ok a => simp

/-- Units that were loaded are those of the paths that were found. -/
theorem loadUnits_eq_ok {t : FileTree} {input : Path} {units : List SourceUnit}
    (h : (loadUnits t input).result = .ok units) :
    ∃ paths, resolveInputs t input = .ok paths ∧ paths.mapM (SourceUnit.load t) = .ok units := by
  unfold loadUnits at h
  cases hpaths : resolveInputs t input with
  | error e =>
      rw [hpaths] at h
      cases h
  | ok paths =>
      rw [hpaths] at h
      exact ⟨paths, rfl, h⟩

/-- Units that can be compiled can be read. -/
theorem exists_reads_of_compile {options : Options} {units : List SourceUnit} {a : Assembly}
    (h : (compile options units).result = .ok a) : ∃ codes, List.Forall₂ Reads units codes := by
  have hcompile := (compile_comesTo options units).result_eq
  cases hverdict : verdict units with
  | error e =>
      rw [hverdict] at hcompile
      cases h.symm.trans hcompile
  | ok n => exact exists_reads_of_verdict hverdict

/-- The summary describes a program of units, by its options, the units, their instructions and its
bytes. Label numbers are counted in 32 bits. -/
structure BuildSummary.Describes (made : BuildSummary) (options : Options) (units : List SourceUnit)
    (is : List Instruction) (bytes : ByteArray) : Prop where
  units_eq : made.units = units.length
  instructions_eq : made.instructions = is.length
  labels_eq : made.labels = UInt32.ofNat (labelsTaken is + if options.bootstrap then 1 else 0)
  labels_exact : labelsTaken is + (if options.bootstrap then 1 else 0) < UInt32.size →
    made.labels.toNat = labelsTaken is + if options.bootstrap then 1 else 0
  lines_eq : '\n' ∉ options.entry.toList → (∀ u ∈ units, '\n' ∉ u.name.toList) →
    made.lines = lineFeeds bytes

/-- What a program is, of units that can be read. -/
theorem describes_of_reads {options : Options} {units : List SourceUnit} {codes : List UnitCode}
    {a : Assembly} (hread : List.Forall₂ Reads units codes)
    (h : (compile options units).result = .ok a) (output : Path) :
    BuildSummary.Describes ⟨output, units.length, a.instructions, a.lines, a.labels⟩ options units
      (codes.flatMap UnitCode.code) a.bytes := by
  rw [compile_of_reads hread] at h
  cases h
  have hlabels := total_runEnd options codes
  rw [labelsTaken_runInstructions] at hlabels
  refine ⟨rfl, ?_, hlabels, fun hfew => ?_, ?_⟩
  · rw [List.length_flatMap]
  · rw [hlabels, UInt32.toNat_ofNat_of_lt' hfew]
  · intro hentry hunits
    exact (lineFeeds_render (namesOnLine_of_reads hread hunits hentry).allLegible_runLines).symm

/-- The bytes of a program are those of its text. -/
theorem bytes_of_compile {options : Options} {units : List SourceUnit} {codes : List UnitCode}
    {a : Assembly} (hread : List.Forall₂ Reads units codes)
    (h : (compile options units).result = .ok a) : a.bytes = a.text.toUTF8 := by
  rw [compile_of_reads hread] at h
  cases h
  rw [text_of_bytes rfl]

/-! ## The files step by step -/

/-- Work that goes on from an attempt leaves the files alone if the attempt fails, and leaves them
as its second part does otherwise. -/
theorem Attempt.on_andThen {α β : Type} (a : Attempt α) (t : FileTree)
    (next : α → FileTree → FileWork β) :
    (∃ e, a.result = .error e ∧ ((a.on t).andThen next).tree = t) ∨
      ∃ x, a.result = .ok x ∧ ((a.on t).andThen next).tree = (next x t).tree ∧
        ((a.on t).andThen next).result = (next x t).result := by
  unfold FileWork.andThen on
  cases a.result with
  | error e => exact .inl ⟨e, rfl, rfl⟩
  | ok x => exact .inr ⟨x, rfl, rfl, rfl⟩

/-- Writing a program leaves the files as the writing of its file does, and succeeds as that
does. -/
theorem writeAssembly_cases (t : FileTree) (output : Path) (units : Nat) (a : Assembly) :
    (writeAssembly t output units a).tree = (t.write output a.bytes).2 ∧
      ((∃ fault, (t.write output a.bytes).1 = .error fault ∧
          (writeAssembly t output units a).result = .error (.cannotOpen output.text fault)) ∨
        (t.write output a.bytes).1 = .ok () ∧
          (writeAssembly t output units a).result =
            .ok ⟨output, units, a.instructions, a.lines, a.labels⟩) := by
  unfold writeAssembly
  rcases t.write output a.bytes with ⟨result, t'⟩
  cases result with
  | error fault => exact ⟨rfl, .inl ⟨fault, rfl, rfl⟩⟩
  | ok done => exact ⟨rfl, .inr ⟨rfl, rfl⟩⟩

/-- **A build that fails leaves the files as they were**, wherever it fails. -/
theorem tree_of_build_error {t : FileTree} {input output : Path} {options : Options} {e : Error}
    (h : (build t input output options).result = .error e) :
    (build t input output options).tree = t := by
  unfold build at h ⊢
  -- loading and compiling hand the files on as they are
  rcases (loadUnits t input).on_andThen t _ with
    ⟨-, -, htree⟩ | ⟨units, -, htree, hresult⟩
  · exact htree
  rw [hresult] at h
  rw [htree]
  rcases (compile options units).on_andThen t _ with
    ⟨-, -, htree⟩ | ⟨a, -, htree, hresult⟩
  · exact htree
  rw [hresult] at h
  rw [htree]
  obtain ⟨hwritten, ⟨fault, hfault, -⟩ | ⟨-, hmade⟩⟩ := writeAssembly_cases t output units.length a
  · exact hwritten.trans (FileTree.tree_of_write_error hfault)
  · cases h.symm.trans hmade

/-- What a build that succeeds came through: its units were loaded and compiled, and the bytes were
written. -/
theorem build_eq_ok {t : FileTree} {input output : Path} {options : Options} {made : BuildSummary}
    (h : (build t input output options).result = .ok made) :
    ∃ units a, (loadUnits t input).result = .ok units ∧ (compile options units).result = .ok a ∧
      (t.write output a.bytes).1 = .ok () ∧
      (build t input output options).tree = (t.write output a.bytes).2 ∧
      made = ⟨output, units.length, a.instructions, a.lines, a.labels⟩ := by
  have hattempt := congrArg Attempt.result (toAttempt_build t input output options)
  rw [h] at hattempt
  obtain ⟨units, hload, hrest⟩ := Attempt.andThen_eq_ok_iff.mp hattempt.symm
  obtain ⟨a, hcompile, hmade⟩ := Attempt.andThen_eq_ok_iff.mp hrest
  obtain ⟨hwritten, ⟨fault, -, hfailed⟩ | ⟨hwrite, hdone⟩⟩ :=
    writeAssembly_cases t output units.length a
  · cases hmade.symm.trans hfailed
  · refine ⟨units, a, hload, hcompile, hwrite, ?_, Except.ok.inj (hmade.symm.trans hdone)⟩
    rw [← hwritten]
    simp only [build, FileWork.andThen, Attempt.on, hload, hcompile]

/-- **A check leaves the files as they are**, whether or not it fails. -/
theorem tree_check (t : FileTree) (input : Path) : (check t input).tree = t := by
  unfold check
  rcases (loadUnits t input).on_andThen t _ with
    ⟨-, -, htree⟩ | ⟨units, -, htree, -⟩
  · exact htree
  rw [htree]
  rcases (checkUnits units).on_andThen t _ with ⟨-, -, htree⟩ | ⟨n, -, htree, -⟩
  · exact htree
  · exact htree

/-- A session leaves the files as its command does. -/
theorem tree_conclude {α : Type} (work : FileWork α) (status : α → Report) :
    (conclude work status).tree = work.tree := by
  unfold conclude
  cases work.result <;> rfl

/-! ## The files afterwards -/

/-- What a build that succeeds has done: it resolved and loaded its inputs in their order, compiled
the units and wrote the bytes of the text to the output path, and nothing else. -/
def Built (t : FileTree) (input output : Path) (options : Options) (made : BuildSummary)
    (t' : FileTree) : Prop :=
  ∃ paths units codes text, resolveInputs t input = .ok paths ∧
    paths.mapM (SourceUnit.load t) = .ok units ∧ List.Forall₂ Reads units codes ∧
    (compile options units).result.map Assembly.text = .ok text ∧
    t.Wrote t' output text.toUTF8 ∧ made.output = output ∧
    made.Describes options units (codes.flatMap UnitCode.code) text.toUTF8

/-- A build that succeeds has done all of this. -/
theorem built_of_build {t : FileTree} {input output : Path} {options : Options}
    {made : BuildSummary} (h : (build t input output options).result = .ok made) :
    Built t input output options made (build t input output options).tree := by
  obtain ⟨units, a, hload, hcompile, hwrite, htree, rfl⟩ := build_eq_ok h
  obtain ⟨paths, hpaths, hunits⟩ := loadUnits_eq_ok hload
  obtain ⟨codes, hread⟩ := exists_reads_of_compile hcompile
  have hdescribes := describes_of_reads hread hcompile output
  have hwrote := FileTree.wrote_of_write hwrite
  rw [← htree, bytes_of_compile hread hcompile] at hwrote
  rw [bytes_of_compile hread hcompile] at hdescribes
  exact ⟨paths, units, codes, a.text, hpaths, hunits, hread, by rw [hcompile]; rfl, hwrote, rfl,
    hdescribes⟩

/-- **All or nothing.** A build that fails leaves the files as they were, whichever of its steps
failed. A build that succeeds leaves files that differ in one place: the output path leads to the
bytes of the text that its units are compiled to. Its summary counts the units, their instructions,
the label numbers that they take, and the line feeds among the bytes, if no name that is written
holds one. A check leaves the files as they were. The commands leave the files as the build and the
check do. It is assumed that the output is left alone if it cannot be opened, and that it can be
written once it is open. -/
theorem build_all_or_nothing (t : FileTree) (input output : Path) (options : Options) :
    (match (build t input output options).result with
      | .error _ => (build t input output options).tree = t
      | .ok made => Built t input output options made (build t input output options).tree) ∧
    (check t input).tree = t ∧
    (perform t (.build input (some output) options)).tree =
      (build t input output options).tree ∧
    (perform t (.check input)).tree = t := by
  refine ⟨?_, tree_check t input, tree_conclude _ _, (tree_conclude _ _).trans (tree_check t input)⟩
  cases hbuild : (build t input output options).result with
  | error e => exact tree_of_build_error hbuild
  | ok made => exact built_of_build hbuild

end HackVM
