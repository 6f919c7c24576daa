import HackVM.Proofs.Program.CheckAndBuild
import HackVM.Proofs.Program.RunAssembly

/-!
# Annotated runs

An annotated run writes every instruction as a comment in front of its code. The names in an
instruction can hold any characters but line feeds, so a comment never leaves its line, and the
assembler sees nothing of it. This holds whatever the names of units and of the entry function are:
a line feed in one of those breaks up lines of code, but in the same way in both runs
(`statements_render_append`).

Main statement (`annotation_keeps_program`): a run fails or succeeds alike with and without
annotations, and if it succeeds, the two texts are assembled to the same program, or to none for the
same reason.
-/

namespace HackVM.Lowering

open Text Hack Source

/-! ## Comments leave no trace -/

/-- Behind a line feed the assembler starts afresh. -/
theorem statements_append_newline (s t : String) :
    statements (s ++ "\n" ++ t) = statements (s ++ "\n") ++ statements t := by
  have hleft : (s ++ "\n" ++ t).toList = s.toList ++ '\n' :: t.toList := by
    simp [String.toList_append]
  have hright : (s ++ "\n").toList = s.toList ++ ['\n'] := by
    simp [String.toList_append]
  rw [statements, statements, statements, hleft, hright, lines_append_newline, List.map_append,
    List.filter_append, List.map_append]

/-- The assembler reads lines one after the other, even if some of them hold line feeds. -/
theorem statements_render_append (xs ys : List AsmLine) :
    statements (render (xs ++ ys)) = statements (render xs) ++ statements (render ys) := by
  induction xs with
  | nil => rfl
  | cons x xs ih =>
      rw [List.cons_append, render, render, statements_append_newline, statements_append_newline,
        ih, List.append_assoc]

/-- The assembler sees no comment that stands on one line. -/
theorem statements_render_lines {site : Site} (h : ∀ text ∈ site.comment, '\n' ∉ text.toList)
    (annotate : Bool) :
    statements (render (site.lines annotate)) = statements (render site.code) := by
  have hcomments : statements (render (site.comment.toList.map .comment)) = [] := by
    rw [statements_render]
    · simp [AsmLine.statement?]
    · intro l hl
      obtain ⟨text, htext, rfl⟩ := List.mem_map.mp hl
      exact h text (Option.mem_toList.mp htext)
  rw [Site.lines, statements_render_append]
  cases annotate with
  | false => rfl
  | true => rw [if_pos rfl, hcomments, List.nil_append]

/-! ## The comments of a run -/

/-- Every instruction has its own text as its comment. -/
theorem comments_instructionSites (s : Scope) (is : List Instruction) :
    (instructionSites s is).filterMap Site.comment = is.map Instruction.text := by
  induction is generalizing s with
  | nil => rfl
  | cons i is ih => simp [instructionSites, ih]

/-- A run has a comment for the bootstrap and one for each instruction. -/
theorem comments_runSites (options : Options) (units : List UnitCode) :
    (runSites options units).filterMap Site.comment =
      (if options.bootstrap then ["bootstrap"] else []) ++
        units.flatMap fun u => u.code.map Instruction.text := by
  have hunits : ∀ s, (unitSites s units).filterMap Site.comment =
      units.flatMap fun u => u.code.map Instruction.text := by
    induction units with
    | nil => exact fun _ => rfl
    | cons u units ih =>
        intro s
        simp [unitSites, comments_instructionSites, ih]
  rw [runSites, List.filterMap_append, hunits, bootstrapSites]
  split_ifs <;> rfl

/-- A run has one comment for each instruction, and one for the bootstrap. -/
theorem length_comments_runSites (options : Options) (units : List UnitCode) :
    ((runSites options units).filterMap Site.comment).length =
      (units.map fun u => u.code.length).sum + if options.bootstrap then 1 else 0 := by
  rw [comments_runSites]
  split_ifs <;> simp [List.length_flatMap, Nat.add_comm]

/-- Every comment of a run stands on one line. -/
theorem newline_notMem_comment {options : Options} {units : List UnitCode}
    (h : ∀ u ∈ units, ∀ i ∈ u.code, Readable i) {site : Site}
    (hsite : site ∈ runSites options units) : ∀ text ∈ site.comment, '\n' ∉ text.toList := by
  intro text htext
  have hmem : text ∈ (runSites options units).filterMap Site.comment :=
    List.mem_filterMap.mpr ⟨site, hsite, htext⟩
  rw [comments_runSites, List.mem_append] at hmem
  rcases hmem with hmem | hmem
  · split_ifs at hmem
    · rw [List.mem_singleton.mp hmem]
      decide
    · cases hmem
  · obtain ⟨u, hu, hmem⟩ := List.mem_flatMap.mp hmem
    obtain ⟨i, hi, rfl⟩ := List.mem_map.mp hmem
    exact newline_notMem_text (onLine_of_readable (h u hu i hi))

/-- The assembler sees the code of a run and nothing else, annotated or not. -/
theorem statements_runLines {options : Options} {units : List UnitCode}
    (h : ∀ u ∈ units, ∀ i ∈ u.code, Readable i) :
    statements (render (runLines options units)) =
      (runSites options units).flatMap fun site => statements (render site.code) := by
  have hsites : ∀ sites : List Site, (∀ site ∈ sites, ∀ text ∈ site.comment, '\n' ∉ text.toList) →
      statements (render (sites.flatMap (Site.lines options.annotate))) =
        sites.flatMap fun site => statements (render site.code) := by
    intro sites hsites
    induction sites with
    | nil => rfl
    | cons site sites ih =>
        rw [List.flatMap_cons, List.flatMap_cons, statements_render_append,
          statements_render_lines (hsites site List.mem_cons_self),
          ih fun x hx => hsites x (List.mem_cons_of_mem _ hx)]
  exact hsites _ fun site hsite => newline_notMem_comment h hsite

/-- What annotation adds to a run is its comments. -/
theorem length_runLines_annotated (options : Options) (units : List UnitCode) :
    (runLines { options with annotate := true } units).length =
      (runLines { options with annotate := false } units).length +
        ((runSites options units).filterMap Site.comment).length := by
  have hsites : ∀ sites : List Site, (sites.flatMap (Site.lines true)).length =
      (sites.flatMap (Site.lines false)).length + (sites.filterMap Site.comment).length := by
    intro sites
    induction sites with
    | nil => rfl
    | cons site sites ih =>
        rw [List.flatMap_cons, List.flatMap_cons, List.length_append, List.length_append, ih,
          List.filterMap_cons]
        cases hcomment : site.comment <;> simp [Site.lines, hcomment] <;> omega
  exact hsites (runSites options units)

end HackVM.Lowering

namespace HackVM

open Source Lowering Hack

/-- The last that a run tells is how many lines it wrote, and how many labels of each kind. -/
theorem compile_getLast?_reports {options : Options} {units : List SourceUnit}
    {codes : List UnitCode} (h : List.Forall₂ Reads units codes) :
    (compile options units).reports.getLast? =
      some
        (.event (.runFinished (runLines options codes).length (runEnd options codes).labels)) := by
  obtain ⟨reports, hcompile⟩ := compile_eq_of_reads options h
  rw [hcompile]
  exact List.getLast?_concat

/-- Texts with the same statements are assembled alike. -/
theorem assemble_congr {s t : String} (h : statements s = statements t) :
    assemble s = assemble t := by
  unfold assemble
  rw [h]

/-- **Annotation does not change the program.** With and without annotations a run fails with the
same error, or it succeeds with the same count of instructions and the same label counters, and the
assembler makes the same of the two texts: the same operations, symbols and labels, or the same
fault. What annotation adds is one line for each instruction, and one for the bootstrap. -/
theorem annotation_keeps_program (options : Options) (units : List SourceUnit) :
    let plain := compile { options with annotate := false } units
    let noted := compile { options with annotate := true } units
    match plain.result, noted.result with
    | .error e, .error e' => e' = e
    | .ok a, .ok b =>
        b.instructions = a.instructions ∧ b.labels = a.labels ∧
        (∃ counters, plain.reports.getLast? = some (.event (.runFinished a.lines counters)) ∧
          noted.reports.getLast? = some (.event (.runFinished b.lines counters))) ∧
        b.lines = a.lines + a.instructions + (if options.bootstrap then 1 else 0) ∧
        assemble b.text = assemble a.text
    | _, _ => False := by
  intro plain noted
  have hplain : plain.ComesTo (findings units) (verdict units) _ := compile_comesTo _ units
  have hnoted : noted.ComesTo (findings units) (verdict units) _ := compile_comesTo _ units
  cases hverdict : verdict units with
  | error e =>
      rw [hverdict] at hplain hnoted
      rw [hplain.result_eq, hnoted.result_eq]
  | ok count =>
      obtain ⟨codes, hcodes⟩ := exists_reads_of_verdict hverdict
      have hreadable := readable_of_reads hcodes
      rw [compile_of_reads hcodes, compile_of_reads hcodes]
      refine ⟨rfl, rfl,
        ⟨_, compile_getLast?_reports hcodes, compile_getLast?_reports hcodes⟩, ?_, ?_⟩
      · change (runLines _ codes).length = (runLines _ codes).length + _ + _
        rw [length_runLines_annotated, length_comments_runSites, Nat.add_assoc]
      · rw [text_of_bytes rfl, text_of_bytes rfl]
        refine assemble_congr ?_
        rw [statements_runLines hreadable, statements_runLines hreadable]
        rfl

end HackVM
