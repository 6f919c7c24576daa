import HackVM.CommandLine.Session
import HackVM.Proofs.Files.Places
import HackVM.Proofs.Program.CheckAndBuild
import HackVM.Proofs.Source.Locations
import HackVM.Proofs.Writer.Calls

/-!
# How failures are told

A failure that lies in the source is told deep inside a run, by the diagnostic of the unit that it
is in; any other one is told at the very end, by a status line. Nothing but the span of the error
connects the two places.

* **On the way.** `Attempt.Accounts` says what an attempt owes: no status line, and diagnostics that
  are all warnings, up to the one of its error, which comes last. Reading a unit accounts for itself
  (`Outcome.accounts`), whatever is done with the instructions, and attempts one after the other do
  (`Attempt.Accounts.andThen`), so builds and checks do.
* **At the end.** A session adds the status line (`tells_conclude`), and hiding a part of the
  journal hides none of this (`tells_filter`).

Main statement: `failure_told_once`.
-/

namespace HackVM

open Source Text

/-! ## Errors and their diagnostics -/

/-- Exactly the failures that lie in the source have a diagnostic. It is an error with the wording
and the place of the failure. -/
theorem Error.diagnostic?_cases (e : Error) :
    (e.span? = none ∧ e.diagnostic? = none) ∨
      ∃ span d, e.span? = some span ∧ e.diagnostic? = some d ∧ d.severity = .error ∧
        d.message = e.message ∧
        d.span = span := by
  cases e with
  | source e =>
      obtain ⟨fault, span⟩ := e
      refine .inr ⟨span, _, rfl, rfl, ?_, ?_, ?_⟩
      all_goals cases fault <;> rfl
  | _ => exact .inl ⟨rfl, rfl⟩

/-- The diagnostic of the error that something came to, if it came to one that has any. -/
def blame {α : Type} : Except Error α → List Diagnostic
  | .ok _ => []
  | .error e => e.diagnostic?.toList

/-! ## Attempts -/

/-- What an attempt owes for its result: it shows no status line, and the diagnostic of its error
behind nothing but warnings. -/
structure Attempt.Accounts {α : Type} (a : Attempt α) : Prop where
  statuses_eq : a.reports.filterMap Report.status? = []
  diagnostics_eq : ∃ warnings : List Diagnostic, (∀ d ∈ warnings, d.severity = .warning) ∧
    a.reports.filterMap Report.diagnostic? = warnings ++ blame a.result

/-- An attempt that shows nothing but events, and does not fail in the source. -/
theorem Attempt.accounts_of_events {α : Type} {a : Attempt α}
    (hreports : ∀ r ∈ a.reports, ∃ e, r = .event e) (hresult : blame a.result = []) :
    a.Accounts := by
  refine ⟨?_, [], nofun, ?_⟩
  · rw [List.filterMap_eq_nil_iff]
    intro r hr
    obtain ⟨e, rfl⟩ := hreports r hr
    rfl
  · rw [hresult, List.append_nil, List.filterMap_eq_nil_iff]
    intro r hr
    obtain ⟨e, rfl⟩ := hreports r hr
    rfl

/-- Attempts that account for themselves do so one after the other: a first one that succeeds has
only shown warnings. -/
theorem Attempt.Accounts.andThen {α β : Type} {a : Attempt α} (ha : a.Accounts)
    {next : α → Attempt β} (hnext : ∀ x, (next x).Accounts) : (a.andThen next).Accounts := by
  obtain ⟨reports, result⟩ := a
  obtain ⟨hstatuses, warnings, hwarnings, hdiagnostics⟩ := ha
  cases result with
  | error e => exact ⟨hstatuses, warnings, hwarnings, hdiagnostics⟩
  | ok x =>
      obtain ⟨hstatuses', warnings', hwarnings', hdiagnostics'⟩ := hnext x
      have hshown : reports.filterMap Report.diagnostic? = warnings := by
        rw [hdiagnostics]
        exact List.append_nil warnings
      refine ⟨?_, warnings ++ warnings', ?_, ?_⟩
      · show (reports ++ (next x).reports).filterMap _ = []
        rw [List.filterMap_append, hstatuses', List.append_nil]
        exact hstatuses
      · intro d hd
        rcases List.mem_append.mp hd with hd | hd
        · exact hwarnings d hd
        · exact hwarnings' d hd
      · show (reports ++ (next x).reports).filterMap _ = _ ++ blame (next x).result
        rw [List.filterMap_append, hshown, hdiagnostics', List.append_assoc]

/-! ## Reading a unit -/

/-- The warnings of a line are warnings. -/
theorem Source.CodeLine.severity_of_mem_warnings {l : CodeLine} {d : Diagnostic}
    (h : d ∈ l.read.warnings) : d.severity = .warning := by
  rcases l.read_cases with hread | ⟨k, -, hread⟩
  · rw [hread] at h
    cases h
  · rw [hread] at h
    have hwarning := Option.mem_toList.mp h
    unfold ignoredWarning? at hwarning
    split at hwarning
    · cases hwarning
      rfl
    · cases hwarning

/-- The warnings of a reading are warnings. -/
theorem severity_of_mem_readEach {σ : Type} (act : σ → Instruction → Except Error Unit × σ) (s : σ)
    (ls : List CodeLine) : ∀ d ∈ (readEach act s ls).warnings, d.severity = .warning := by
  induction ls generalizing s with
  | nil => exact nofun
  | cons l rest ih =>
      intro d hd
      rcases hread : l.read.result with fault | i
      · rw [readEach_cons_bad hread] at hd
        exact CodeLine.severity_of_mem_warnings hd
      · rcases hact : act s i.value with ⟨e | _, s'⟩
        · rw [readEach_cons_failed hread hact] at hd
          exact CodeLine.severity_of_mem_warnings hd
        · rw [readEach_cons_done hread hact] at hd
          rcases List.mem_append.mp hd with hd | hd
          · exact CodeLine.severity_of_mem_warnings hd
          · exact ih s' d hd

/-- A reading is blamed for its failure. -/
theorem Outcome.blame_result {σ : Type} (o : Outcome σ) :
    blame o.result = (o.failure.bind Error.diagnostic?).toList := by
  unfold result
  cases o.failure <;> rfl

/-- A unit accounts for itself if its warnings and its failure are shown, among events. -/
theorem Outcome.accounts {σ : Type} {o : Outcome σ} (h : ∀ d ∈ o.warnings, d.severity = .warning)
    (path : Path) (before after : List Event) :
    (Attempt.mk (before.map .event ++ o.diagnostics.map (.diagnostic path) ++ after.map .event)
      o.result).Accounts := by
  have hevents (es : List Event) : (es.map Report.event).filterMap Report.diagnostic? = [] := by
    rw [List.filterMap_map, List.filterMap_eq_nil_iff]
    exact fun _ _ => rfl
  have hstatus (es : List Event) : (es.map Report.event).filterMap Report.status? = [] := by
    rw [List.filterMap_map, List.filterMap_eq_nil_iff]
    exact fun _ _ => rfl
  refine ⟨?_, o.warnings, h, ?_⟩
  · show List.filterMap _ (_ ++ _ ++ _) = []
    rw [List.filterMap_append, List.filterMap_append, hstatus, hstatus, List.append_nil,
      List.nil_append, List.filterMap_map, List.filterMap_eq_nil_iff]
    exact fun _ _ => rfl
  · show List.filterMap _ (_ ++ _ ++ _) = _ ++ blame o.result
    rw [List.filterMap_append, List.filterMap_append, hevents, hevents, List.append_nil,
      List.nil_append, List.filterMap_map, o.blame_result]
    exact List.filterMap_some

/-! ## Builds and checks -/

/-- Units that cannot be loaded are no fault of the source. -/
theorem blame_mapM_load (t : FileTree) (paths : List Path) :
    blame (paths.mapM (SourceUnit.load t)) = [] := by
  cases hload : paths.mapM (SourceUnit.load t) with
  | ok units => rfl
  | error e =>
      obtain ⟨_, p, _, -, -, hp⟩ := mapM_eq_error_iff.mp hload
      unfold SourceUnit.load at hp
      split at hp
      · cases hp
      · cases hp
        rfl

/-- Inputs that cannot be found are no fault of the source. -/
theorem blame_resolveInputs {t : FileTree} {input : Path} {e : Error}
    (h : resolveInputs t input = .error e) : e.diagnostic? = none := by
  unfold resolveInputs at h
  split at h
  · split at h
    · cases h
      rfl
    · dsimp only at h
      split at h
      · cases h
        rfl
      · cases h
  · split at h
    · cases h
    · cases h
      rfl

/-- Loading accounts for itself. -/
theorem loadUnits_accounts (t : FileTree) (input : Path) : (loadUnits t input).Accounts := by
  unfold loadUnits
  cases hpaths : resolveInputs t input with
  | error e =>
      refine Attempt.accounts_of_events nofun ?_
      rw [blame, blame_resolveInputs hpaths]
      rfl
  | ok paths =>
      refine Attempt.accounts_of_events ?_ (blame_mapM_load t paths)
      rintro r hr
      exact ⟨_, List.mem_singleton.mp hr⟩

/-- Reading units to check them accounts for itself. -/
theorem checkUnits_accounts (units : List SourceUnit) : (checkUnits units).Accounts := by
  induction units with
  | nil => exact Attempt.accounts_of_events nofun rfl
  | cons u rest ih =>
      have hunit := Outcome.accounts
        (severity_of_mem_readEach _ _ _ : ∀ d ∈ u.check.warnings, _) u.path [] []
      rw [List.map_nil, List.nil_append, List.append_nil] at hunit
      refine hunit.andThen fun counted => ih.andThen fun more => ?_
      exact Attempt.accounts_of_events nofun rfl

/-- **A check accounts for itself.** -/
theorem check_accounts (t : FileTree) (input : Path) : (check t input).Accounts := by
  rw [toAttempt_check]
  refine (loadUnits_accounts t input).andThen fun units =>
    (checkUnits_accounts units).andThen fun count => ?_
  exact Attempt.accounts_of_events nofun rfl

/-- The reports about a unit are its diagnostics, among events. -/
theorem loweringReports_eq (u : SourceUnit) (o : Outcome Writer) :
    ∃ before after : List Event, loweringReports u o =
      before.map .event ++ o.diagnostics.map (.diagnostic u.path) ++ after.map .event := by
  refine ⟨.unitStarted u.name :: o.done.filterMap enteredEvent?,
    if o.failure.isNone then [.unitFinished u.name o.done.length] else [], ?_⟩
  unfold loweringReports
  split <;> rfl

/-- Lowering units accounts for itself. -/
theorem lowerUnits_accounts (w : Writer) (units : List SourceUnit) :
    (lowerUnits w units).Accounts := by
  induction units generalizing w with
  | nil => exact Attempt.accounts_of_events nofun rfl
  | cons u rest ih =>
      obtain ⟨before, after, hreports⟩ := loweringReports_eq u (w.lowerUnit u)
      have hunit :
          (Attempt.mk (loweringReports u (w.lowerUnit u)) (w.lowerUnit u).result).Accounts := by
        rw [hreports]
        exact Outcome.accounts (severity_of_mem_readEach _ _ _) u.path before after
      refine hunit.andThen fun counted => (ih counted.2).andThen fun more => ?_
      exact Attempt.accounts_of_events nofun rfl

/-- Compiling accounts for itself. -/
theorem compile_accounts (options : Options) (units : List SourceUnit) :
    (compile options units).Accounts := by
  have hstart : (Attempt.mk [] (startWriter options)).Accounts := by
    rw [startWriter_eq]
    exact Attempt.accounts_of_events nofun rfl
  refine hstart.andThen fun w => (lowerUnits_accounts w units).andThen fun counted => ?_
  show (closeWriter counted.1 counted.2).Accounts
  unfold closeWriter
  split
  · next e hfinish =>
      refine Attempt.accounts_of_events nofun ?_
      unfold Writer.finish at hfinish
      split at hfinish
      · cases hfinish
      · cases hfinish
        rfl
  · refine Attempt.accounts_of_events ?_ rfl
    intro r hr
    exact ⟨_, List.mem_singleton.mp hr⟩

/-- Writing a program accounts for itself. -/
theorem writeAssembly_accounts (t : FileTree) (output : Path) (units : Nat) (a : Assembly) :
    (writeAssembly t output units a).Accounts := by
  unfold writeAssembly
  split
  · exact Attempt.accounts_of_events nofun rfl
  · refine Attempt.accounts_of_events ?_ rfl
    intro r hr
    exact ⟨_, List.mem_singleton.mp hr⟩

/-- **A build accounts for itself.** -/
theorem build_accounts (t : FileTree) (input output : Path) (options : Options) :
    (build t input output options).Accounts := by
  rw [toAttempt_build]
  refine (loadUnits_accounts t input).andThen fun units => ?_
  exact (compile_accounts options units).andThen fun a =>
    writeAssembly_accounts t output units.length a

namespace CommandLine

/-! ## Sessions -/

/-- The diagnostics that a session shows, in order. -/
def Session.diagnostics (s : Session) : List Diagnostic :=
  s.reports.filterMap Report.diagnostic?

/-- The status lines that a session shows. -/
def Session.statuses (s : Session) : List String :=
  s.reports.filterMap Report.status?

/-- The failure lies in the source and is told there: its diagnostic is the only error, and comes
after all warnings. There is no status line. -/
structure ToldInSource (e : Error) (diagnostics : List Diagnostic) (statuses : List String) :
    Prop where
  diagnostics_eq : ∃ span warnings d, e.span? = some span ∧ diagnostics = warnings ++ [d] ∧
    (∀ w ∈ warnings, w.severity = .warning) ∧ d.severity = .error ∧ d.message = e.message ∧
      d.span = span
  statuses_eq : statuses = []

/-- The failure does not lie in the source and is told by a status line. No diagnostic is an
error. -/
structure ToldByStatus (e : Error) (diagnostics : List Diagnostic) (statuses : List String) :
    Prop where
  span?_eq : e.span? = none
  severity_eq : ∀ d ∈ diagnostics, d.severity = .warning
  statuses_eq : statuses = ["error: " ++ e.message]

/-- What a session tells about what came of its command: the status line of its success, or the
error, in one of the two ways. -/
def Session.Tells (s : Session) : Except Error String → Prop
  | .ok status =>
    s.exitCode = 0 ∧ s.statuses = [status] ∧ ∀ d ∈ s.diagnostics, d.severity = .warning
  | .error e =>
    s.exitCode = 1 ∧
      Xor (ToldInSource e s.diagnostics s.statuses) (ToldByStatus e s.diagnostics s.statuses)

/-- What comes of a command: the status line of its success, or the error. -/
def Command.outcome (t : FileTree) : Command → Except Error String
  | .build input output options =>
    (HackVM.build t input (output.getD (defaultOutput t input)) options).result.map fun made =>
      "Translated " ++ Decimal.text made.units ++ " unit(s), " ++ Decimal.text made.instructions ++
        " instructions -> " ++ made.output.text
  | .check input =>
    (HackVM.check t input).result.map fun found =>
      "OK: " ++ input.text ++ " (" ++ Decimal.text found.units ++ " unit(s), " ++
        Decimal.text found.instructions ++ " instructions)"

/-- A session that ends with work that accounts for itself tells what came of it. -/
theorem tells_conclude {α : Type} {work : FileWork α} (hwork : work.Accounts)
    {report : α → Report} {status : α → String} (hstatus : ∀ x, report x = .status (status x)) :
    (conclude work report).Tells (work.result.map status) := by
  obtain ⟨⟨reports, result⟩, t⟩ := work
  obtain ⟨hstatuses, warnings, hwarnings, hdiagnostics⟩ := hwork
  dsimp only at hstatuses hdiagnostics
  cases result with
  | ok x =>
      have hreports : (conclude ⟨⟨reports, .ok x⟩, t⟩ report).reports =
          reports ++ [.status (status x)] := by
        rw [← hstatus x]
        rfl
      refine ⟨rfl, ?_, ?_⟩
      · rw [Session.statuses, hreports, List.filterMap_append, hstatuses]
        rfl
      · rw [Session.diagnostics, hreports, List.filterMap_append, hdiagnostics]
        simpa [blame, Report.diagnostic?] using hwarnings
  | error e =>
      have hreports : (conclude ⟨⟨reports, .error e⟩, t⟩ report).reports =
          reports ++ failureStatus e := rfl
      refine ⟨rfl, ?_⟩
      rcases e.diagnostic?_cases with
          ⟨hspan, hnone⟩ | ⟨span, d, hspan, hsome, hseverity, hmessage, hplace⟩
      · have hstatusLine : failureStatus e = [.status ("error: " ++ e.message)] := by
          rw [failureStatus, hspan]
          rfl
        refine .inr ⟨⟨hspan, ?_, ?_⟩, ?_⟩
        · rw [Session.diagnostics, hreports, hstatusLine, List.filterMap_append, hdiagnostics,
            blame, hnone]
          simpa [Report.diagnostic?] using hwarnings
        · rw [Session.statuses, hreports, hstatusLine, List.filterMap_append, hstatuses]
          rfl
        · rintro ⟨⟨_, _, _, hlocated, -⟩, -⟩
          cases hspan.symm.trans hlocated
      · have hstatusLine : failureStatus e = [] := by
          rw [failureStatus, hspan]
          rfl
        refine .inl ⟨⟨⟨span, warnings, d, hspan, ?_, hwarnings, hseverity, hmessage, hplace⟩, ?_⟩,
          ?_⟩
        · rw [Session.diagnostics, hreports, hstatusLine, List.append_nil, hdiagnostics, blame,
            hsome]
          rfl
        · rw [Session.statuses, hreports, hstatusLine, List.append_nil, hstatuses]
        · rintro ⟨hunlocated, -, -⟩
          cases hspan.symm.trans hunlocated

/-- A command tells what came of it. -/
theorem perform_tells (t : FileTree) (command : Command) :
    (perform t command).Tells (command.outcome t) := by
  cases command with
  | build input output options =>
    exact tells_conclude (build_accounts t input _ options) fun _ => rfl
  | check input => exact tells_conclude (check_accounts t input) fun _ => rfl

/-- Hiding a part of the journal hides neither diagnostics nor status lines. -/
theorem filterMap_filter_shownAt {α : Type} {f : Report → Option α} (hf : ∀ e, f (.event e) = none)
    (level : LogLevel) (reports : List Report) :
    (reports.filter (Report.shownAt level)).filterMap f = reports.filterMap f := by
  rw [List.filterMap_filter]
  refine List.filterMap_congr fun r _ => ?_
  cases r with
  | event e =>
      rw [hf]
      exact ite_self _
  | _ => rfl

/-- So a session tells as much at any level. -/
theorem tells_filter {s : Session} {result : Except Error String} (h : s.Tells result)
    (level : LogLevel) :
    { s with reports := s.reports.filter (Report.shownAt level) }.Tells result := by
  have hdiagnostics : { s with reports := s.reports.filter (Report.shownAt level) }.diagnostics =
      s.diagnostics :=
    filterMap_filter_shownAt (fun _ => rfl) level s.reports
  have hstatuses : { s with reports := s.reports.filter (Report.shownAt level) }.statuses =
      s.statuses :=
    filterMap_filter_shownAt (fun _ => rfl) level s.reports
  cases result <;>
    · unfold Session.Tells
      rw [hdiagnostics, hstatuses]
      exact h

/-- **Every failure is told exactly once.** A command ends with code 0 if its build or check
succeeds, and then it shows one status line, of the success, and no diagnostic but warnings.
Otherwise it ends with code 1 and tells the error in exactly one of two ways. If the error lies in
the source, its diagnostic is shown after all warnings and is the only error among the diagnostics,
and there is no status line. If it does not, the only status line has its message, and no diagnostic
is an error. This is so at every level of the journal, and for every command line that is read as
the command. -/
theorem failure_told_once (t : FileTree) (command : Command) :
    (∀ level, (performAt level t command).Tells (command.outcome t)) ∧
      ∀ setting args verbosity, parse args = .run command verbosity →
        (session t setting args).Tells (command.outcome t) := by
  have hlevel (level : LogLevel) : (performAt level t command).Tells (command.outcome t) :=
    tells_filter (perform_tells t command) level
  refine ⟨hlevel, fun setting args verbosity h => ?_⟩
  rw [session, h]
  exact hlevel _

/-- A unit with a line that gives a warning and a bad one behind it. -/
def warnedAndBad : FileTree where
  entries := [([.of "Warned.vm"], .file "return x\npush heap 2\n".toUTF8)]

/-- The bad line is told behind the warning, and by no status line. -/
theorem failure_told_once_behind_warning :
    parse ["-v", "build", "Warned.vm"] = .run (.build ⟨"Warned.vm"⟩ none {}) 1 ∧
      (session warnedAndBad none ["-v", "build", "Warned.vm"]).exitCode = 1 ∧
      ToldInSource (.source ⟨.unknownSegment "heap", ⟨2, 14, 18⟩⟩)
        (session warnedAndBad none ["-v", "build", "Warned.vm"]).diagnostics
        (session warnedAndBad none ["-v", "build", "Warned.vm"]).statuses := by
  have hparse : parse ["-v", "build", "Warned.vm"] = .run (.build ⟨"Warned.vm"⟩ none {}) 1 := by
    decide +kernel
  have houtcome : (Command.build ⟨"Warned.vm"⟩ none {}).outcome warnedAndBad =
      .error (.source ⟨.unknownSegment "heap", ⟨2, 14, 18⟩⟩) := by
    decide +kernel
  have htells := (failure_told_once warnedAndBad _).2 none _ _ hparse
  rw [houtcome] at htells
  obtain ⟨hcode, ⟨htold, -⟩ | ⟨hstatus, -⟩⟩ := htells
  · exact ⟨hparse, hcode, htold⟩
  · cases hstatus.span?_eq

end CommandLine

end HackVM
