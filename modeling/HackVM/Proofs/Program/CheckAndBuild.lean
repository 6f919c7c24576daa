import HackVM.Build
import HackVM.Proofs.Program.RunCode

/-!
# Checking and building

A check reads the units of an input; a build reads them, lowers them and writes a file. Both work
through the units with `readEach`, and lowering never fails on what was read, so both stop at the
same line and have the same to say about the source.

What there is to say is stated on the readings of the lines alone: `SourceUnit.findings` for a unit,
`findings` for units, and `verdict` for the failure or the count of instructions. `Outcome.Follows`
says that a reading went by these rules, whatever was done with the instructions.

Main statement (`build_agrees_with_check`): a build fails as the check of its input fails, or counts
what the check counts unless its output cannot be written, and it shows the diagnostics that the
check shows.
-/

namespace HackVM.Source

/-- The syntax error of a bad line. -/
def Reading.fault? (r : Reading) : Option SyntaxError :=
  match r.result with
  | .error e => some e
  | .ok _ => none

/-- The items up to and including the first that passes a test, or all of them if none does. -/
def upToFirst {α : Type} (test : α → Bool) (xs : List α) : List α :=
  xs.take (xs.findIdx test + 1)

/-- The first item is taken, and the others if it does not pass. -/
theorem upToFirst_cons {α : Type} (test : α → Bool) (x : α) (xs : List α) :
    upToFirst test (x :: xs) = x :: if test x then [] else upToFirst test xs := by
  unfold upToFirst
  cases htest : test x <;> simp [List.findIdx_cons, htest]

/-- What a line of a unit reads as is an instruction that can be read. -/
theorem readable_of_mem_codeLines {source : String} {l : CodeLine} {i : Located Instruction}
    (hl : l ∈ codeLines source) (hread : l.read.result = .ok i) : Readable i.value := by
  have hspells := CodeLine.spells_of_read (onOneLine_of_mem_codeLines hl) hread
  have hwords : (l.number, l.allWords) ∈ numberedWords source := by
    rw [← map_codeLines]
    exact List.mem_map_of_mem hl
  exact hspells.readable fun w hw => plainName_of_mem_numberedWords hwords hw

end HackVM.Source

namespace HackVM

open Source Lowering

/-! ## What there is to say about units -/

namespace SourceUnit

/-- The error of the first bad line. -/
def fault? (u : SourceUnit) : Option SyntaxError :=
  (readings u.source).findSome? Reading.fault?

/-- The warnings of the lines up to the first bad one, in order, and then the error of that line. -/
def findings (u : SourceUnit) : List Diagnostic :=
  (upToFirst (·.fault?.isSome) (readings u.source)).flatMap Reading.warnings ++
    (u.fault?.map SyntaxError.diagnostic).toList

/-- A unit without a bad line can be read. -/
theorem exists_reads {u : SourceUnit} (h : u.fault? = none) : ∃ c, Reads u c := by
  cases hparse : parse u.source with
  | ok is => exact ⟨⟨u.name, is.map Located.value⟩, rfl, by rw [hparse]; rfl⟩
  | error e =>
      obtain ⟨before, r, after, hsplit, -, hr⟩ := mapM_eq_error_iff.mp hparse
      have hgood := List.findSome?_eq_none_iff.mp h r (by simp [hsplit])
      simp [Reading.fault?, hr] at hgood

end SourceUnit

/-- What is shown about units: the findings of each, up to the first that has a bad line. -/
def findings (units : List SourceUnit) : List Report :=
  (upToFirst (·.fault?.isSome) units).flatMap fun u => u.findings.map (.diagnostic u.path)

/-- What comes of units: the error of the first bad line, or the count of their instructions. -/
def verdict (units : List SourceUnit) : Except Error Nat :=
  match units.findSome? SourceUnit.fault? with
  | some e => .error (.source e)
  | none => .ok (units.map fun u => (readings u.source).length).sum

theorem map_id_verdict (units : List SourceUnit) : (verdict units).map id = verdict units := by
  cases verdict units <;> rfl

/-- A bad first unit decides the verdict. -/
theorem verdict_cons_of_some {u : SourceUnit} {e : SyntaxError} (h : u.fault? = some e)
    (rest : List SourceUnit) : verdict (u :: rest) = .error (.source e) := by
  simp [verdict, h]

/-- A good first unit counts, and the others decide. -/
theorem verdict_cons_of_none {u : SourceUnit} (h : u.fault? = none) (rest : List SourceUnit) :
    verdict (u :: rest) = (verdict rest).map ((readings u.source).length + ·) := by
  unfold verdict
  rw [List.findSome?_cons, h]
  cases rest.findSome? SourceUnit.fault? <;> rfl

/-- Units that come to a count can be read. -/
theorem exists_reads_of_verdict {units : List SourceUnit} {count : Nat}
    (h : verdict units = .ok count) : ∃ codes, List.Forall₂ Reads units codes := by
  induction units generalizing count with
  | nil => exact ⟨[], .nil⟩
  | cons u rest ih =>
      cases hfault : u.fault? with
      | some e =>
          rw [verdict_cons_of_some hfault] at h
          cases h
      | none =>
          rw [verdict_cons_of_none hfault] at h
          cases hrest : verdict rest with
          | error e => simp [hrest, Except.map] at h
          | ok more =>
              obtain ⟨codes, hcodes⟩ := ih hrest
              obtain ⟨c, hc⟩ := SourceUnit.exists_reads hfault
              exact ⟨c :: codes, .cons hc hcodes⟩

/-! ## Reading by the rules -/

/-- A reading went by the rules: it stopped at the first bad line, with the warnings of the lines so
far, or it dealt with every line. -/
structure Outcome.Follows {σ : Type} (o : Outcome σ) (rs : List Reading) : Prop where
  warnings_eq : o.warnings = (upToFirst (·.fault?.isSome) rs).flatMap Reading.warnings
  failure_eq : o.failure = (rs.findSome? Reading.fault?).map .source
  length_done : o.failure = none → o.done.length = rs.length

/-- Reading goes by the rules if the action never fails, and an action that keeps an invariant on
the instructions that can be read keeps it for all lines. -/
theorem readEach_follows {σ : Type} {act : σ → Instruction → Except Error Unit × σ} {P : σ → Prop}
    (hact : ∀ s i, P s → Readable i → (act s i).1 = .ok () ∧ P (act s i).2) {ls : List CodeLine}
    (hls : ∀ l ∈ ls, ∀ i, l.read.result = .ok i → Readable i.value) {s : σ} (hs : P s) :
    (readEach act s ls).Follows (ls.map CodeLine.read) ∧ P (readEach act s ls).final := by
  induction ls generalizing s with
  | nil => exact ⟨⟨rfl, rfl, fun _ => rfl⟩, hs⟩
  | cons l rest ih =>
      cases hread : l.read.result with
      | error e =>
          have hfault : l.read.fault? = some e := by simp [Reading.fault?, hread]
          simp only [readEach, hread]
          refine ⟨⟨?_, ?_, by simp⟩, hs⟩
          · simp [upToFirst_cons, hfault]
          · simp [hfault]
      | ok i =>
          have hfault : l.read.fault? = none := by simp [Reading.fault?, hread]
          obtain ⟨hdone, hkept⟩ := hact s i.value hs (hls l List.mem_cons_self i hread)
          obtain ⟨hrest, hfinal⟩ := ih (fun l hl => hls l (List.mem_cons_of_mem _ hl)) hkept
          have hstep : act s i.value = (.ok (), (act s i.value).2) := Prod.ext hdone rfl
          simp only [readEach, hread]
          rw [hstep]
          refine ⟨⟨?_, ?_, ?_⟩, hfinal⟩
          · simp [upToFirst_cons, hfault, hrest.warnings_eq]
          · simpa [hfault] using hrest.failure_eq
          · intro hnone
            simpa using hrest.length_done hnone

namespace Outcome.Follows

variable {σ : Type} {o : Outcome σ} {u : SourceUnit}

/-- A reading that went by the rules has found what there is to find. -/
theorem diagnostics_eq (h : o.Follows (readings u.source)) : o.diagnostics = u.findings := by
  unfold Outcome.diagnostics SourceUnit.findings
  rw [h.warnings_eq, h.failure_eq]
  change _ ++ (Option.bind (Option.map _ u.fault?) _).toList = _
  cases u.fault? <;> rfl

/-- It failed with the first bad line, if there is one. -/
theorem result_of_some (h : o.Follows (readings u.source)) {e : SyntaxError}
    (he : u.fault? = some e) : o.result = .error (.source e) := by
  have hfailure : o.failure = some (.source e) := h.failure_eq.trans (congrArg (Option.map _) he)
  rw [Outcome.result, hfailure]

/-- It read every line, if there is no bad one. -/
theorem result_of_none (h : o.Follows (readings u.source)) (hnone : u.fault? = none) :
    o.result = .ok ((readings u.source).length, o.final) := by
  have hfailure : o.failure = none := h.failure_eq.trans (congrArg (Option.map _) hnone)
  rw [Outcome.result, hfailure]
  simp only [h.length_done hfailure]

end Outcome.Follows

/-! ## Checks and lowerings go by the rules -/

/-- A check does nothing with an instruction. -/
theorem SourceUnit.check_follows (u : SourceUnit) : u.check.Follows (readings u.source) :=
  (readEach_follows (P := fun _ => True) (fun _ _ _ _ => ⟨rfl, trivial⟩)
    (fun _ hl _ hread => readable_of_mem_codeLines hl hread) trivial).1

namespace Writer

/-- The sink takes everything that is written to it. -/
structure Unbounded (w : Writer) : Prop where
  limit_eq : w.sink.limit = none
  flushFails_eq : w.sink.flushFails = false

/-- Lowering never fails on what was read, and the sink goes on to take everything. -/
theorem Unbounded.lower {w : Writer} {unit : String} (hw : w.Unbounded)
    (hunit : w.scope.unit = some unit) {i : Instruction} (hi : Readable i) :
    (w.lower i).1 = .ok () ∧ (w.lower i).2.Unbounded ∧ (w.lower i).2.scope.unit = some unit := by
  rw [lower_of_readable hw.limit_eq hunit hi]
  exact ⟨rfl, ⟨hw.limit_eq, hw.flushFails_eq⟩, by simpa using hunit⟩

/-- A writer without a limit reads by the rules and stays without a limit. -/
theorem Unbounded.lowerUnit {w : Writer} (hw : w.Unbounded) (u : SourceUnit) :
    (w.lowerUnit u).Follows (readings u.source) ∧ (w.lowerUnit u).final.Unbounded := by
  obtain ⟨hfollows, hfinal, -⟩ := readEach_follows
    (P := fun w : Writer => w.Unbounded ∧ w.scope.unit = some u.name)
    (fun w i h hi => h.1.lower h.2 hi)
    (fun _ hl _ hread => readable_of_mem_codeLines hl hread) (s := w.setUnit u.name)
    ⟨⟨hw.limit_eq, hw.flushFails_eq⟩, rfl⟩
  exact ⟨hfollows, hfinal⟩

end Writer

/-! ## Diagnostics of an attempt -/

/-- The diagnostics that an attempt shows, in order, each with the path of its unit. -/
def Attempt.rendered {α : Type} (t : Attempt α) : List Report :=
  t.reports.filter (·.diagnostic?.isSome)

/-- An attempt at units shows their findings and comes to a verdict: its error, or a result `a` that
accounts for `n` instructions, `counts n a`. -/
structure Attempt.ComesTo {α : Type} (t : Attempt α) (shown : List Report) (v : Except Error Nat)
    (counts : Nat → α → Prop) : Prop where
  rendered_eq : t.rendered = shown
  result_eq : match v with
    | .error e => t.result = .error e
    | .ok n => ∃ a, t.result = .ok a ∧ counts n a

namespace Attempt.ComesTo

variable {α β : Type} {t : Attempt α} {shown : List Report} {v : Except Error Nat}
  {counts : Nat → α → Prop}

/-- Going on from an error changes nothing. -/
theorem andThen_error {e : Error} (h : t.ComesTo shown (.error e) counts) (next : α → Attempt β)
    (counts' : Nat → β → Prop) : (t.andThen next).ComesTo shown (.error e) counts' := by
  have hresult : t.result = .error e := h.result_eq
  refine ⟨?_, ?_⟩
  · rw [← h.rendered_eq]
    simp [Attempt.andThen, Attempt.rendered, hresult]
  · simp [Attempt.andThen, hresult]

/-- Going on from a result adds what is shown then. -/
theorem andThen_ok {n : Nat} (h : t.ComesTo shown (.ok n) counts) {next : α → Attempt β}
    {more : List Report} {v' : Except Error Nat} {counts' : Nat → β → Prop}
    (hnext : ∀ a, counts n a → (next a).ComesTo more v' counts') :
    (t.andThen next).ComesTo (shown ++ more) v' counts' := by
  obtain ⟨a, hresult, ha⟩ := h.result_eq
  have hstep : t.andThen next = ⟨t.reports ++ (next a).reports, (next a).result⟩ := by
    simp [Attempt.andThen, hresult]
  refine ⟨?_, ?_⟩
  · rw [← h.rendered_eq, ← (hnext a ha).rendered_eq, hstep]
    simp [Attempt.rendered]
  · rw [hstep]
    exact (hnext a ha).result_eq

/-- A last step that shows nothing and always succeeds only recounts. -/
theorem andThen_map (h : t.ComesTo shown v counts) {next : α → Attempt β} {recount : Nat → Nat}
    {counts' : Nat → β → Prop}
    (hnext : ∀ n a, counts n a → (next a).ComesTo [] (.ok (recount n)) counts') :
    (t.andThen next).ComesTo shown (v.map recount) counts' := by
  cases v with
  | error e => exact h.andThen_error next counts'
  | ok n =>
      rw [← List.append_nil shown]
      exact h.andThen_ok (hnext n)

end Attempt.ComesTo

/-! ## Working through units -/

/-- The findings of later units are told only if the first one is good. -/
theorem findings_cons (u : SourceUnit) (rest : List SourceUnit) :
    findings (u :: rest) = u.findings.map (.diagnostic u.path) ++
      if u.fault?.isSome then [] else findings rest := by
  unfold findings
  rw [upToFirst_cons]
  split <;> simp

/-- One unit more: a reading that goes by the rules, and then the rest of the units from where it
ended. -/
theorem comesTo_cons {α σ : Type} {counts : Nat → α → Prop} {u : SourceUnit}
    {rest : List SourceUnit} {o : Outcome σ} {reports : List Report} (next : σ → Attempt α)
    (add : Nat → α → α) (ho : o.Follows (readings u.source))
    (hreports : (Attempt.mk reports o.result).rendered = u.findings.map (.diagnostic u.path))
    (hadd : ∀ m n a, counts n a → counts (m + n) (add m a))
    (hrest : (next o.final).ComesTo (findings rest) (verdict rest) counts) :
    (Attempt.andThen ⟨reports, o.result⟩ fun (count, s) =>
      (next s).andThen fun a => ⟨[], .ok (add count a)⟩).ComesTo (findings (u :: rest))
        (verdict (u :: rest))
        counts := by
  rw [findings_cons]
  cases hfault : u.fault? with
  | some e =>
      have hunit : (Attempt.mk reports o.result).ComesTo (u.findings.map (.diagnostic u.path))
          (.error (.source e)) fun _ _ => False := ⟨hreports, ho.result_of_some hfault⟩
      rw [verdict_cons_of_some hfault]
      simpa using hunit.andThen_error _ counts
  | none =>
      have hunit : (Attempt.mk reports o.result).ComesTo (u.findings.map (.diagnostic u.path))
          (.ok (readings u.source).length) fun n p => p = (n, o.final) :=
        ⟨hreports, _, ho.result_of_none hfault, rfl⟩
      rw [verdict_cons_of_none hfault]
      refine hunit.andThen_ok fun p hp => ?_
      subst hp
      exact hrest.andThen_map fun n a ha => ⟨rfl, _, rfl, hadd _ n a ha⟩

/-- A check shows the findings of its units and comes to their verdict. -/
theorem checkUnits_comesTo (units : List SourceUnit) :
    (checkUnits units).ComesTo (findings units) (verdict units) fun n count => count = n := by
  induction units with
  | nil => exact ⟨rfl, 0, rfl, rfl⟩
  | cons u rest ih =>
      have hfollows := u.check_follows
      refine comesTo_cons (fun _ => checkUnits rest) (· + ·) hfollows ?_ ?_ ih
      · rw [hfollows.diagnostics_eq]
        simp [Attempt.rendered, List.filter_map, Function.comp_def, Report.diagnostic?]
      · intro m n a ha
        rw [ha]

/-- So does lowering, and the writer goes on to take everything. -/
theorem lowerUnits_comesTo {w : Writer} (hw : w.Unbounded) (units : List SourceUnit) :
    (lowerUnits w units).ComesTo (findings units) (verdict units)
      fun n p => p.1 = n ∧ p.2.Unbounded := by
  induction units generalizing w with
  | nil => exact ⟨rfl, (0, w), rfl, rfl, hw⟩
  | cons u rest ih =>
      obtain ⟨hfollows, hfinal⟩ := hw.lowerUnit u
      refine comesTo_cons (fun w => lowerUnits w rest) (fun m p => (m + p.1, p.2)) hfollows ?_ ?_
        (ih hfinal)
      · unfold Attempt.rendered loweringReports
        rw [hfollows.diagnostics_eq]
        split <;>
          simp [List.filter_map, Function.comp_def, Report.diagnostic?]
      · rintro m n ⟨count, w⟩ ⟨rfl, hw⟩
        exact ⟨rfl, hw⟩

/-- Compiling shows the findings of the units and comes to their verdict, whatever the options
are. -/
theorem compile_comesTo (options : Options) (units : List SourceUnit) :
    (compile options units).ComesTo (findings units) (verdict units) fun n a =>
      a.instructions = n := by
  have hstart : (Attempt.mk [] (startWriter options)).ComesTo [] (.ok 0) fun _ w => w.Unbounded :=
    ⟨rfl, _, startWriter_eq options, rfl, rfl⟩
  refine hstart.andThen_ok fun w hw => ?_
  rw [← map_id_verdict]
  refine (lowerUnits_comesTo hw units).andThen_map ?_
  rintro n ⟨count, w⟩ ⟨hcount, hw⟩
  have hfinish : w.finish = .ok w.sink := by
    have hflush : w.sink.flushFails = false := hw.flushFails_eq
    simp [Writer.finish, Sink.flush, hflush]
  change (closeWriter count w).ComesTo [] (.ok n) _
  rw [closeWriter, hfinish]
  exact ⟨rfl, _, rfl, hcount⟩

/-! ## Checks and builds of an input -/

/-- Loading shows no diagnostic. -/
theorem loadUnits_rendered (t : FileTree) (input : Path) : (loadUnits t input).rendered = [] := by
  unfold loadUnits
  split <;> rfl

/-- Work on loaded units comes to what it comes to without the loading. -/
theorem loadUnits_andThen {α : Type} {t : FileTree} {input : Path} {units : List SourceUnit}
    {next : List SourceUnit → Attempt α} {shown : List Report} {v : Except Error Nat}
    {counts : Nat → α → Prop} (h : (loadUnits t input).result = .ok units)
    (hnext : (next units).ComesTo shown v counts) :
    ((loadUnits t input).andThen next).ComesTo shown v counts := by
  have hload : (loadUnits t input).ComesTo [] (.ok 0) fun _ loaded => loaded = units :=
    ⟨loadUnits_rendered t input, units, h, rfl⟩
  rw [← List.nil_append shown]
  refine hload.andThen_ok fun loaded hloaded => ?_
  rw [hloaded]
  exact hnext

/-- A check without its files: it loads, reads and counts. -/
theorem toAttempt_check (t : FileTree) (input : Path) :
    (check t input).toAttempt = (loadUnits t input).andThen fun units =>
      (checkUnits units).andThen fun count => ⟨[], .ok ⟨units.length, count⟩⟩ := by
  simp only [check, FileWork.toAttempt_andThen, Attempt.on]

/-- A build without its files: it loads, compiles and writes, into the tree it started with. -/
theorem toAttempt_build (t : FileTree) (input output : Path) (options : Options) :
    (build t input output options).toAttempt = (loadUnits t input).andThen fun units =>
      (compile options units).andThen fun assembly =>
        (writeAssembly t output units.length assembly).toAttempt := by
  simp only [build, FileWork.toAttempt_andThen, Attempt.on]

/-- A check shows the findings of its units and comes to their verdict. -/
theorem check_comesTo {t : FileTree} {input : Path} {units : List SourceUnit}
    (h : (loadUnits t input).result = .ok units) :
    (check t input).ComesTo (findings units) (verdict units)
      fun n found => found = ⟨units.length, n⟩ := by
  rw [toAttempt_check]
  refine loadUnits_andThen h ?_
  rw [← map_id_verdict]
  refine (checkUnits_comesTo units).andThen_map ?_
  rintro n count rfl
  exact ⟨rfl, _, rfl, rfl⟩

/-- Writing the output fails as the files fail, or counts what was compiled. -/
theorem writeAssembly_comesTo (t : FileTree) (output : Path) (units : Nat) (a : Assembly) :
    (writeAssembly t output units a).ComesTo []
      (match (t.write output a.bytes).1 with
        | .error fault => .error (.cannotOpen output.text fault)
        | .ok _ => .ok a.instructions)
      fun n made => made.units = units ∧ made.instructions = n := by
  unfold writeAssembly
  rcases t.write output a.bytes with ⟨result, t'⟩
  cases result with
  | error fault => exact ⟨rfl, rfl⟩
  | ok done => exact ⟨rfl, _, rfl, rfl, rfl⟩

/-- A build fails as its units do, or goes on to write what was compiled. -/
theorem build_comesTo {t : FileTree} {input : Path} {units : List SourceUnit} (output : Path)
    (options : Options) (h : (loadUnits t input).result = .ok units) :
    match verdict units with
    | .error e =>
        (build t input output options).ComesTo (findings units) (.error e) fun _ _ => False
    | .ok n => ∃ a, (compile options units).result = .ok a ∧ a.instructions = n ∧
        (build t input output options).ComesTo (findings units)
          (match (t.write output a.bytes).1 with
            | .error fault => .error (.cannotOpen output.text fault)
            | .ok _ => .ok n)
          fun n made => made.units = units.length ∧ made.instructions = n := by
  rw [toAttempt_build]
  have hcompile := compile_comesTo options units
  cases hverdict : verdict units with
  | error e =>
      rw [hverdict] at hcompile
      exact loadUnits_andThen h (hcompile.andThen_error _ _)
  | ok n =>
      rw [hverdict] at hcompile
      obtain ⟨a, hresult, hn⟩ := hcompile.result_eq
      refine ⟨a, hresult, hn, loadUnits_andThen h ?_⟩
      have hmade : (compile options units).ComesTo (findings units) (.ok n) fun _ b => b = a :=
        ⟨hcompile.rendered_eq, a, hresult, rfl⟩
      rw [← List.append_nil (findings units)]
      refine hmade.andThen_ok fun b hb => ?_
      subst hb
      rw [← hn]
      exact writeAssembly_comesTo t output units.length b

/-- **A build agrees with the check of its input.** They show the same diagnostics: those of each
unit up to and including the first bad one, its warnings in the order of the lines and then its
error. If the check fails, the build fails with the same error. If the check succeeds, the build
succeeds with as many units and instructions, or everything but the writing of its output
succeeds. -/
theorem build_agrees_with_check (t : FileTree) (input output : Path) (options : Options) :
    (build t input output options).rendered = (check t input).rendered ∧
    (check t input).rendered =
      (match (loadUnits t input).result with
        | .ok units => findings units
        | .error _ => []) ∧
    match (check t input).result with
    | .error e => (build t input output options).result = .error e
    | .ok found =>
        (∃ made, (build t input output options).result = .ok made ∧
          made.units = found.units ∧ made.instructions = found.instructions) ∨
        ∃ units assembly fault, (loadUnits t input).result = .ok units ∧
          (compile options units).result = .ok assembly ∧
          (t.write output assembly.bytes).1 = .error fault ∧
          (build t input output options).result = .error (.cannotOpen output.text fault) := by
  cases hload : (loadUnits t input).result with
  | error e =>
      have hfails : (loadUnits t input).ComesTo [] (.error e) fun _ _ => False :=
        ⟨loadUnits_rendered t input, hload⟩
      have hcheck : (check t input).ComesTo [] (.error e) fun _ _ => False := by
        rw [toAttempt_check]
        exact hfails.andThen_error _ _
      have hbuild : (build t input output options).ComesTo [] (.error e) fun _ _ => False := by
        rw [toAttempt_build]
        exact hfails.andThen_error _ _
      rw [hbuild.rendered_eq, hcheck.rendered_eq, hcheck.result_eq]
      exact ⟨rfl, rfl, hbuild.result_eq⟩
  | ok units =>
      have hcheck := check_comesTo hload
      have hbuild := build_comesTo output options hload
      cases hverdict : verdict units with
      | error e =>
          rw [hverdict] at hcheck hbuild
          rw [hbuild.rendered_eq, hcheck.rendered_eq, hcheck.result_eq]
          exact ⟨rfl, rfl, hbuild.result_eq⟩
      | ok n =>
          rw [hverdict] at hcheck hbuild
          obtain ⟨found, hfound, rfl⟩ := hcheck.result_eq
          obtain ⟨a, hcompile, -, hmade⟩ := hbuild
          rw [hmade.rendered_eq, hcheck.rendered_eq, hfound]
          refine ⟨rfl, rfl, ?_⟩
          have hresult := hmade.result_eq
          cases hwrite : (t.write output a.bytes).1 with
          | error fault =>
              rw [hwrite] at hresult
              exact .inr ⟨units, a, fault, rfl, hcompile, hwrite, hresult⟩
          | ok done =>
              rw [hwrite] at hresult
              obtain ⟨made, hok, hunits, hcount⟩ := hresult
              exact .inl ⟨made, hok, hunits, hcount⟩

end HackVM
