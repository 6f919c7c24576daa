import HackVM.Proofs.Program.CheckAndBuild
import HackVM.Proofs.Writer.Calls

/-!
# Lowering line by line and all at once

A unit is lowered while it is read: every instruction is written before the next line is looked at.
The other way is to read the whole unit and then to lower its instructions, one call each. On a
writer whose sink takes everything the two come to the same, and where a unit has a bad line, the
first way has done what the second does for the lines before it.

* `readEach_append`: lines that can be read are so many calls of `lower`, and reading goes on behind
  them.
* `lowerUnit_of_parse` and `FirstBad.lowerUnit_eq` say all that comes of a unit in the two cases.
* `compile_eq_error_iff`: a run fails as the first of its units that cannot be read.

Main statement: `lowerUnit_eq_calls`.
-/

namespace HackVM

open Source Lowering

/-! ## The first bad line -/

namespace Source

/-- The lines `before` read as the instructions `is`, and the line behind them is bad. -/
structure FirstBad (source : String) (before : List CodeLine) (is : List (Located Instruction))
    (l : CodeLine) (e : SyntaxError) : Prop where
  lines_eq : ∃ rest, codeLines source = before ++ l :: rest
  before_eq : List.Forall₂ (fun b i => b.read.result = .ok i) before is
  result_eq : l.read.result = .error e

/-- What stands before the bad line can be read. -/
theorem FirstBad.readable {source : String} {before : List CodeLine}
    {is : List (Located Instruction)} {l : CodeLine} {e : SyntaxError}
    (h : FirstBad source before is l e) :
    ∀ b ∈ before, ∀ i, b.read.result = .ok i → Readable i.value := by
  obtain ⟨rest, hlines⟩ := h.lines_eq
  intro b hb i hi
  exact readable_of_mem_codeLines (hlines ▸ List.mem_append_left _ hb) hi

/-- A unit that cannot be read has a first bad line, and its error is that of the line. -/
theorem exists_firstBad_iff {source : String} {e : SyntaxError} :
    (∃ before is l, FirstBad source before is l e) ↔ parse source = .error e := by
  rw [parse_eq_mapM, mapM_eq_error_iff]
  constructor
  · rintro ⟨before, is, l, ⟨rest, hlines⟩, hbefore, hl⟩
    refine ⟨before, l, rest, hlines, ?_, hl⟩
    intro b hb
    obtain ⟨k, rfl⟩ := List.get_of_mem hb
    obtain ⟨hlength, hget⟩ := List.forall₂_iff_get.mp hbefore
    exact ⟨_, hget k k.isLt (hlength ▸ k.isLt)⟩
  · rintro ⟨before, l, rest, hlines, hbefore, hl⟩
    have hread : ∃ is, before.mapM (fun b => b.read.result) = .ok is := by
      cases hresult : before.mapM fun b => b.read.result with
      | ok is => exact ⟨is, rfl⟩
      | error fault =>
          obtain ⟨_, b, _, rfl, -, hb⟩ := mapM_eq_error_iff.mp hresult
          obtain ⟨i, hi⟩ := hbefore b (by simp)
          cases hb.symm.trans hi
    obtain ⟨is, his⟩ := hread
    exact ⟨before, is, l, ⟨rest, hlines⟩, mapM_eq_ok_iff.mp his, hl⟩

end Source

/-! ## Lines as calls -/

/-- The outcome with more instructions and warnings in front. -/
def Outcome.behind {σ : Type} (o : Outcome σ) (done : List Instruction)
    (warnings : List Diagnostic) : Outcome σ :=
  { o with done := done ++ o.done, warnings := warnings ++ o.warnings }

namespace Writer

/-- The calls that lower instructions one after the other. -/
def lowerings (is : List (Located Instruction)) : List Call :=
  is.map fun i => .lower i.value

/-- The writer stands in a unit, and its sink takes everything. -/
structure Ready (w : Writer) : Prop where
  limit_eq : w.sink.limit = none
  exists_unit : ∃ unit, w.scope.unit = some unit

/-- A writer without a limit is ready once it has a unit. -/
theorem ready_setUnit {w : Writer} (hw : w.sink.limit = none) (unit : String) :
    (w.setUnit unit).Ready :=
  ⟨hw, unit, rfl⟩

variable {w : Writer} (hw : w.Ready)
include hw

/-- A writer that is ready lowers what can be read, and is ready for more. -/
theorem Ready.lower {i : Instruction} (hi : Readable i) :
    w.lower i = (.ok (), (w.perform (.lower i)).final) ∧ (w.perform (.lower i)).final.Ready := by
  obtain ⟨unit, hunit⟩ := hw.exists_unit
  have hlower := lower_of_readable hw.limit_eq hunit hi
  have hfinal : (w.perform (.lower i)).final = (w.lower i).2 := Step.final_outcome _ _
  rw [hfinal, hlower]
  exact ⟨rfl, hw.limit_eq, unit, by simpa using hunit⟩

variable {before : List CodeLine} {is : List (Located Instruction)}
  (hbefore : List.Forall₂ (fun b i => b.read.result = .ok i) before is)
  (hreadable : ∀ b ∈ before, ∀ i, b.read.result = .ok i → Readable i.value)
include hbefore hreadable

/-- Lines that can be read are so many calls, and reading goes on behind them. -/
theorem Ready.readEach_append (rest : List CodeLine) :
    readEach Writer.lower w (before ++ rest) =
      (readEach Writer.lower (w.after (lowerings is)) rest).behind (is.map Located.value)
        (before.flatMap fun b => b.read.warnings) := by
  induction hbefore generalizing w with
  | nil => rfl
  | @cons b i before is hb _ ih =>
      rw [List.forall_mem_cons] at hreadable
      obtain ⟨hlower, hready⟩ := hw.lower (hreadable.1 i hb)
      rw [List.cons_append, readEach_cons_done hb hlower, ih hready hreadable.2]
      simp only [Outcome.behind, lowerings, List.map_cons, List.flatMap_cons, List.append_assoc,
        after_cons, List.cons_append]

/-- None of the calls fails. -/
theorem Ready.failure_of_mem_outcomes : ∀ o ∈ w.outcomes (lowerings is), o.failure = none := by
  induction hbefore generalizing w with
  | nil =>
      intro o ho
      cases ho
  | @cons b i before is hb _ ih =>
      rw [List.forall_mem_cons] at hreadable
      obtain ⟨hlower, hready⟩ := hw.lower (hreadable.1 i hb)
      intro o ho
      rcases List.mem_cons.mp ho with rfl | ho
      · show (Step.outcome [i.value] (w.lower i.value)).failure = none
        rw [hlower]
        rfl
      · exact ih hready hreadable.2 o ho

end Writer

/-! ## What comes of a unit -/

section unit

variable {w : Writer} (hw : w.sink.limit = none) {u : SourceUnit}
include hw

/-- A unit that can be read. -/
theorem lowerUnit_of_parse {is : List (Located Instruction)} (hparse : parse u.source = .ok is) :
    w.lowerUnit u =
      ⟨is.map Located.value, (codeLines u.source).flatMap fun l => l.read.warnings, none,
      w.after (.setUnit u.name :: Writer.lowerings is)⟩ := by
  rw [parse_eq_mapM, mapM_eq_ok_iff] at hparse
  have hread := (Writer.ready_setUnit hw u.name).readEach_append hparse
    (fun _ hb _ hi => readable_of_mem_codeLines hb hi) []
  rw [List.append_nil] at hread
  rw [Writer.lowerUnit, hread]
  simp only [Outcome.behind, readEach, List.append_nil]
  rfl

variable {before : List CodeLine} {is : List (Located Instruction)} {l : CodeLine} {e : SyntaxError}

/-- A unit that cannot be read: the instructions before the bad line are lowered, and the warnings
include those of the bad line. -/
theorem Source.FirstBad.lowerUnit_eq (h : FirstBad u.source before is l e) :
    w.lowerUnit u =
      ⟨is.map Located.value, (before ++ [l]).flatMap fun l => l.read.warnings, some (.source e),
      w.after (.setUnit u.name :: Writer.lowerings is)⟩ := by
  obtain ⟨rest, hlines⟩ := h.lines_eq
  have hread := (Writer.ready_setUnit hw u.name).readEach_append h.before_eq h.readable (l :: rest)
  rw [Writer.lowerUnit, hlines, hread, readEach_cons_bad h.result_eq]
  simp only [Outcome.behind, List.append_nil, List.flatMap_append, List.flatMap_singleton]
  rfl

end unit

/-- The diagnostics that are shown about a unit that was lowered. -/
theorem filterMap_loweringReports (u : SourceUnit) (o : Outcome Writer) :
    (loweringReports u o).filterMap Report.diagnostic? = o.diagnostics := by
  have hevents (es : List Event) : (es.map Report.event).filterMap Report.diagnostic? = [] := by
    rw [List.filterMap_map, List.filterMap_eq_nil_iff]
    exact fun _ _ => rfl
  have hdiagnostics :
      (o.diagnostics.map (Report.diagnostic u.path)).filterMap Report.diagnostic? =
        o.diagnostics := by
    rw [List.filterMap_map]
    exact List.filterMap_some
  have hlast :
      (if o.failure.isNone then [Report.event (.unitFinished u.name o.done.length)]
        else []).filterMap
        Report.diagnostic? = [] := by
    split <;> rfl
  unfold loweringReports
  rw [List.filterMap_append, List.filterMap_append, List.filterMap_append, hevents, hdiagnostics,
    hlast, List.append_nil]
  rfl

/-! ## What comes of a run -/

/-- A reading has the fault that it failed with. -/
theorem Source.Reading.fault?_eq_some_iff {r : Reading} {e : SyntaxError} :
    r.fault? = some e ↔ r.result = .error e := by
  unfold Reading.fault?
  cases r.result <;> simp

/-- A reading without a fault gave an instruction. -/
theorem Source.Reading.fault?_eq_none_iff {r : Reading} :
    r.fault? = none ↔ ∃ i, r.result = .ok i := by
  unfold Reading.fault?
  cases r.result <;> simp

/-- The fault of a unit is the one that its source is refused for. -/
theorem SourceUnit.fault?_eq_some_iff {u : SourceUnit} {e : SyntaxError} :
    u.fault? = some e ↔ parse u.source = .error e := by
  unfold SourceUnit.fault? parse
  rw [List.findSome?_eq_some_iff, mapM_eq_error_iff]
  simp only [Reading.fault?_eq_some_iff, Reading.fault?_eq_none_iff, and_comm]

/-- A unit without a fault is read as a whole. -/
theorem SourceUnit.fault?_eq_none_iff {u : SourceUnit} :
    u.fault? = none ↔ ∃ is, parse u.source = .ok is := by
  rw [Option.eq_none_iff_forall_ne_some]
  simp only [ne_eq, SourceUnit.fault?_eq_some_iff]
  cases parse u.source <;> simp

/-- A run fails as the first of its units that cannot be read. -/
theorem compile_eq_error_iff {options : Options} {units : List SourceUnit} {e : Error} :
    (compile options units).result = .error e ↔
      ∃ before u rest fault, units = before ++ u :: rest ∧
        (∀ b ∈ before, ∃ is, parse b.source = .ok is) ∧
        parse u.source = .error fault ∧ e = .source fault := by
  have hfirst (fault : SyntaxError) : units.findSome? SourceUnit.fault? = some fault ↔
      ∃ before u rest, units = before ++ u :: rest ∧ parse u.source = .error fault ∧
        ∀ b ∈ before, ∃ is, parse b.source = .ok is := by
    rw [List.findSome?_eq_some_iff]
    simp only [SourceUnit.fault?_eq_some_iff, SourceUnit.fault?_eq_none_iff]
  have hresult := (compile_comesTo options units).result_eq
  unfold verdict at hresult
  cases hfault : units.findSome? SourceUnit.fault? with
  | some fault =>
      rw [hfault] at hresult
      constructor
      · intro he
        obtain ⟨before, u, rest, hunits, hu, hbefore⟩ := (hfirst fault).mp hfault
        rw [he] at hresult
        exact ⟨before, u, rest, fault, hunits, hbefore, hu, Except.error.inj hresult⟩
      · rintro ⟨before, u, rest, fault', hunits, hbefore, hu, rfl⟩
        have hsame := hfault.symm.trans ((hfirst fault').mpr ⟨before, u, rest, hunits, hu, hbefore⟩)
        cases hsame
        exact hresult
  | none =>
      rw [hfault] at hresult
      obtain ⟨a, ha, -⟩ := hresult
      constructor
      · intro he
        cases ha.symm.trans he
      · rintro ⟨before, u, rest, fault, hunits, hbefore, hu, -⟩
        cases hfault.symm.trans ((hfirst fault).mpr ⟨before, u, rest, hunits, hu, hbefore⟩)

/-- **Lowering while reading comes to the same as reading first.** Let a writer have any state and a
sink that takes everything.

* If a unit can be read, it is lowered as if the unit were named and its instructions then lowered,
  one call after the other: the same writer is left, no call fails, and the count is that of the
  instructions. What is shown are the warnings.
* If a unit has a bad line, the error is the one that reading the unit gives, and the writer that is
  left is that of the calls for the lines before the first bad one. What is shown are the warnings
  of the lines up to and including it, in order, and then its error.
* There is no third case. So a run fails, whatever its options are, if and only if one of its units
  cannot be read, and with the error of the first such unit. -/
theorem lowerUnit_eq_calls {w : Writer} (hw : w.sink.limit = none) (u : SourceUnit) :
    (∀ is, parse u.source = .ok is →
      (w.lowerUnit u).result = .ok (is.length, w.after (.setUnit u.name :: Writer.lowerings is)) ∧
      (∀ o ∈ w.outcomes (.setUnit u.name :: Writer.lowerings is), o.failure = none) ∧
      (loweringReports u (w.lowerUnit u)).filterMap Report.diagnostic? =
        (codeLines u.source).flatMap fun l => l.read.warnings) ∧
    (∀ before is l e, FirstBad u.source before is l e →
      parse u.source = .error e ∧
      (w.lowerUnit u).result = .error (.source e) ∧
      (w.lowerUnit u).final = w.after (.setUnit u.name :: Writer.lowerings is) ∧
      (∀ o ∈ w.outcomes (.setUnit u.name :: Writer.lowerings is), o.failure = none) ∧
      (loweringReports u (w.lowerUnit u)).filterMap Report.diagnostic? =
        ((before ++ [l]).flatMap fun l => l.read.warnings) ++ [e.diagnostic]) ∧
    ((∃ is, parse u.source = .ok is) ∨ ∃ before is l e, FirstBad u.source before is l e) ∧
    ∀ options units e, (compile options units).result = .error e ↔
      ∃ before v rest fault, units = before ++ v :: rest ∧
        (∀ b ∈ before, ∃ is, parse b.source = .ok is) ∧
        parse v.source = .error fault ∧ e = .source fault := by
  have hready := Writer.ready_setUnit hw u.name
  refine ⟨?_, ?_, ?_, fun _ _ _ => compile_eq_error_iff⟩
  · intro is hparse
    have hunit := lowerUnit_of_parse hw hparse
    rw [parse_eq_mapM, mapM_eq_ok_iff] at hparse
    refine ⟨?_, ?_, ?_⟩
    · rw [hunit, Outcome.result, List.length_map]
    · refine List.forall_mem_cons.mpr ⟨rfl, ?_⟩
      exact hready.failure_of_mem_outcomes hparse fun _ hb _ hi => readable_of_mem_codeLines hb hi
    · rw [filterMap_loweringReports, hunit]
      exact List.append_nil _
  · intro before is l e hbad
    have hunit := hbad.lowerUnit_eq hw
    refine ⟨exists_firstBad_iff.mp ⟨before, is, l, hbad⟩, ?_, ?_, ?_, ?_⟩
    · rw [hunit, Outcome.result]
    · rw [hunit]
    · refine List.forall_mem_cons.mpr ⟨rfl, ?_⟩
      exact hready.failure_of_mem_outcomes hbad.before_eq hbad.readable
    · rw [filterMap_loweringReports, hunit]
      rfl
  · cases hparse : parse u.source with
    | ok is => exact .inl ⟨is, rfl⟩
    | error e =>
        obtain ⟨before, is, l, hbad⟩ := exists_firstBad_iff.mpr hparse
        exact .inr ⟨before, is, l, e, hbad⟩

/-- A bad line that comes with a warning, between a good line with one and a line that is not looked
at. -/
def halfBadUnit : SourceUnit :=
  .named "A" "label a b\nfunction f x y\nadd z\n"

/-- The good line is lowered, and what is shown are both warnings and the error. -/
theorem lowerUnit_eq_calls_of_bad_line :
    ∃ e, parse halfBadUnit.source = .error e ∧
      (Writer.lowerUnit {} halfBadUnit).result = .error (.source e) ∧
      (Writer.lowerUnit {} halfBadUnit).final =
        Writer.after {} [.setUnit "A", .lower (.label "a")] ∧
      ((loweringReports halfBadUnit (Writer.lowerUnit {} halfBadUnit)).filterMap
        Report.diagnostic?).map
          Diagnostic.span = [⟨1, 8, 9⟩, ⟨2, 23, 24⟩, ⟨2, 21, 22⟩] := by
  have hbad : FirstBad halfBadUnit.source
      [⟨1, ⟨"label", ⟨1, 0, 5⟩⟩, [⟨"a", ⟨1, 6, 7⟩⟩, ⟨"b", ⟨1, 8, 9⟩⟩]⟩] [⟨.label "a", ⟨1, 0, 9⟩⟩]
      ⟨2, ⟨"function", ⟨2, 10, 18⟩⟩, [⟨"f", ⟨2, 19, 20⟩⟩, ⟨"x", ⟨2, 21, 22⟩⟩, ⟨"y", ⟨2, 23, 24⟩⟩]⟩
      ⟨.malformedInteger "x", ⟨2, 21, 22⟩⟩ :=
    ⟨⟨[⟨3, ⟨"add", ⟨3, 25, 28⟩⟩, [⟨"z", ⟨3, 29, 30⟩⟩]⟩], by decide +kernel⟩,
      .cons (by decide +kernel) .nil, by decide +kernel⟩
  obtain ⟨-, hcases, -⟩ := lowerUnit_eq_calls (w := {}) rfl halfBadUnit
  obtain ⟨hparse, hresult, hfinal, -, hshown⟩ := hcases _ _ _ _ hbad
  refine ⟨_, hparse, hresult, hfinal, ?_⟩
  rw [hshown]
  decide +kernel

end HackVM
