import HackVM.Proofs.Lowering.LineFeeds
import HackVM.Proofs.Lowering.StackSetup
import HackVM.Proofs.Lowering.Vocabulary
import HackVM.Proofs.Program.Modularity
import HackVM.Proofs.Writer.Calls

/-!
# The books of a writer

A writer counts its lines and its labels, and remembers its function. Main statement
(`books_balance`): over a sink without limit the books agree with the sink and with the calls that
were made, whichever calls these are and whether or not they succeed.

* `final_perform` says once what a call does: it adds lines (`Call.lines`) and moves on to a scope
  (`Call.scopeBehind`). A misuse adds its comment at most, and its scope is the one before it.
* `Kept.perform` is the step: what holds of the lines so far holds of those that a call adds.
* `Kept.after`, `issued_after_calls` and `function_after_calls` follow calls to their end.

A bootstrap is written only while there are no lines, and then no label has been taken, so its text
does not depend on the calls before it. Where it stands in the sink is settled by `before_eq_empty`.
-/

namespace HackVM

open Text Source Lowering

namespace Lowering

/-- An instruction that is refused would have left the scope as it is. -/
theorem Scope.after_of_misuse {s : Scope} {i : Instruction} {m : Misuse}
    (h : s.block i = .error m) : s.after i = s := by
  cases i with
  | push seg n => rfl
  | pop seg n => rfl
  | _ => cases h

/-- An instruction that takes no label leaves the counters as they are. -/
theorem Scope.labels_after_of_none {s : Scope} {i : Instruction} (h : labelKind? i = none) :
    (s.after i).labels = s.labels := by
  rw [after, number, h]
  cases i <;> rfl

/-- An instruction without code takes no label. -/
theorem labelKind?_of_code_eq_nil {s : Scope} {i : Instruction} {comment : Option String}
    (h : Site.code ⟨s, .perform i, comment⟩ = []) : labelKind? i = none := by
  cases i with
  | arithmetic op => cases op <;> cases h
  | ifGoto name => cases h
  | function name n => cases h
  | call name n => cases h
  | _ => rfl

/-! ## Line feeds -/

/-- A text is its lines, each with a line feed behind it. -/
theorem toList_render (ls : List AsmLine) :
    (render ls).toList = (ls.map AsmLine.text).flatMap fun l => l.toList ++ ['\n'] := by
  induction ls with
  | nil => rfl
  | cons l ls ih => simp [render, String.toList_append, ih]

/-- The code of an instruction keeps to its lines where its names do. -/
theorem newline_notMem_code {s : Scope} {i : Instruction} (h : OneLine s i)
    (comment : Option String) : ∀ l ∈ Site.code ⟨s, .perform i, comment⟩, '\n' ∉ l.text.toList := by
  cases hblock : s.block i with
  | error m =>
      rw [Site.code_of_misuse hblock]
      simp
  | ok block =>
      rw [Site.code_of_block hblock]
      intro l hl
      exact newline_notMem_of_writtenFor h (writtenFor_of_mem_block hblock l hl)

/-- The lines of an instruction whose names stand on one line. -/
theorem newline_notMem_lines {s : Scope} {i : Instruction} (h : OneLine s i) (annotate : Bool) :
    ∀ l ∈ Site.lines annotate ⟨s, .perform i, some i.text⟩, '\n' ∉ l.text.toList := by
  intro l hl
  rw [Site.lines, List.mem_append] at hl
  rcases hl with hl | hl
  · have hcomment : l = .comment i.text := by
      split_ifs at hl
      · simpa using hl
      · cases hl
    have htext := newline_notMem_text_of_subject h.subject
    simp [hcomment, AsmLine.text, String.toList_append, htext]
  · exact newline_notMem_code h (some i.text) l hl

/-- The lines of a bootstrap whose entry stands on one line. -/
theorem newline_notMem_bootstrapLines {options : Options} (hentry : '\n' ∉ options.entry.toList) :
    ∀ l ∈ bootstrapLines options, '\n' ∉ l.text.toList := by
  have hhead : ∀ l ∈ bootstrapHead options, '\n' ∉ l.text.toList := by
    intro l hl
    have hcomment : (AsmLine.comment "bootstrap").Legible := by
      show '\n' ∉ "bootstrap".toList
      decide
    have hlegible : AllLegible (bootstrapHead options) := by
      unfold bootstrapHead
      split_ifs
      · simp [hcomment]
      · simp
    exact AsmLine.newline_notMem_text (hlegible l hl)
  have hcall : OneLine {} (.call options.entry 0) := ⟨by simp, by simp, hentry⟩
  intro l hl
  rw [bootstrapLines, List.mem_append, List.mem_append] at hl
  rcases hl with (hl | hl) | hl
  · exact hhead l hl
  · revert l
    decide
  · exact newline_notMem_code hcall none l hl

end Lowering

namespace Writer

/-! ## Calls by what they ask for -/

/-- The instruction that a call asks for. -/
def Call.instruction? : Call → Option Instruction
  | .write i | .lower i => some i
  | _ => none

/-- Whether a call asks for an instruction that takes a label of a kind. -/
def Call.asks (k : LabelKind) (call : Call) : Bool :=
  call.instruction?.any fun i => labelKind? i = some k

/-- The function that a call declares. -/
def Call.declares? (call : Call) : Option String :=
  match call.instruction? with
  | some (.function name _) => some name
  | _ => none

/-- The function that calls declare last. -/
def lastFunction (calls : List Call) : String :=
  (calls.filterMap Call.declares?).getLast?.getD ""

/-- A call of the writer itself whose names hold no line feed. A unit is no such call, but a
sequence of them. -/
def Call.OneLine : Call → Prop
  | .setUnit name => '\n' ∉ name.toList
  | .bootstrap => True
  | .write i | .lower i => '\n' ∉ i.subject.toList
  | .lowerUnit _ => False

instance : DecidablePred Call.OneLine
  | .setUnit name => inferInstanceAs (Decidable ('\n' ∉ name.toList))
  | .bootstrap => .isTrue trivial
  | .write i | .lower i => inferInstanceAs (Decidable ('\n' ∉ i.subject.toList))
  | .lowerUnit _ => .isFalse id

/-- Whether a call is a bootstrap that succeeds. -/
def starts (w : Writer) : Call → Bool
  | .bootstrap => (w.perform .bootstrap).failure.isNone
  | _ => false

/-- How many bootstraps among calls succeed. -/
def bootstraps (w : Writer) : List Call → Nat
  | [] => 0
  | call :: rest => (if w.starts call then 1 else 0) + (w.perform call).final.bootstraps rest

/-- How many label numbers of a kind one call takes. -/
def takenBy (w : Writer) (call : Call) (k : LabelKind) : Nat :=
  (if call.asks k then 1 else 0) + if k = .returnSite then (if w.starts call then 1 else 0) else 0

/-- How many label numbers of a kind calls take: one for each call that asks for it, and for a
return site one for each bootstrap that succeeds. -/
def taken (w : Writer) (calls : List Call) (k : LabelKind) : Nat :=
  calls.countP (Call.asks k) + if k = .returnSite then w.bootstraps calls else 0

/-- One call more takes its own numbers more. -/
theorem taken_cons (w : Writer) (call : Call) (rest : List Call) (k : LabelKind) :
    w.taken (call :: rest) k = w.takenBy call k + (w.perform call).final.taken rest k := by
  rw [taken, taken, takenBy, List.countP_cons, bootstraps]
  split_ifs <;> omega

/-- How many label numbers calls take in all. -/
def takenInAll (w : Writer) (calls : List Call) : Nat :=
  w.taken calls .comparison + w.taken calls .ifFalse + w.taken calls .returnSite +
    w.taken calls .localsLoop

/-! ## What a call does -/

/-- The lines that a call adds to a sink without limit. -/
def Call.lines (w : Writer) : Call → List AsmLine
  | .bootstrap =>
    if w.lines = 0 then
      bootstrapHead w.options ++ stackSetup ++ callBlock w.options.entry 0 w.scope.labels.returnSite
    else []
  | .write i => Site.code ⟨w.scope, .perform i, none⟩
  | .lower i => Site.lines w.options.annotate ⟨w.scope, .perform i, some i.text⟩
  | _ => []

/-- The scope behind a call. -/
def Call.scopeBehind (w : Writer) : Call → Scope
  | .setUnit name => w.scope.inUnit name
  | .bootstrap => if w.lines = 0 then w.scope.after (.call w.options.entry 0) else w.scope
  | .write i | .lower i => w.scope.after i
  | .lowerUnit _ => w.scope

section unlimited

variable {w : Writer} (hlimit : w.sink.limit = none)
include hlimit

/-- Asking for the code of an instruction adds it, if there is any. -/
theorem final_write (i : Instruction) :
    (w.write i).2 = (w.wrote (Site.code ⟨w.scope, .perform i, none⟩)).within (w.scope.after i) := by
  cases hblock : w.scope.block i with
  | error m =>
      rw [Site.code_of_misuse hblock, Scope.after_of_misuse hblock, wrote_nil, write, hblock]
      rfl
  | ok block => rw [Site.code_of_block hblock, write_of_block hlimit hblock]

/-- A writer behind an instruction, whether there was code for it or not. -/
theorem final_lower (i : Instruction) :
    (w.lower i).2 =
      (w.wrote (Site.lines w.options.annotate ⟨w.scope, .perform i, some i.text⟩)).within
      (w.scope.after i) := by
  unfold lower annotate Site.lines
  split_ifs
  · rw [emit_of_unlimited hlimit]
    have hwrite := final_write (w := w.wrote [.comment i.text]) hlimit i
    rw [wrote_wrote] at hwrite
    exact hwrite
  · exact final_write hlimit i

/-- Before any line, a bootstrap adds its text. -/
theorem bootstrap_of_unlimited (hlines : w.lines = 0) :
    w.bootstrap =
      (.ok (), (w.wrote (Call.lines w .bootstrap)).within (Call.scopeBehind w .bootstrap)) := by
  have hblock : w.scope.block (.call w.options.entry 0) =
      .ok (callBlock w.options.entry 0 w.scope.labels.returnSite) := rfl
  have hstack : (if w.options.annotate then [AsmLine.comment "bootstrap"] else []) ++
      stackBlock w.options.stackBase = bootstrapHead w.options ++ stackSetup := by
    simp [bootstrapHead, stackBlock, stackSetup]
  have hcall := write_of_block (w := w.wrote (bootstrapHead w.options ++ stackSetup)) hlimit hblock
  rw [wrote_wrote] at hcall
  rw [bootstrap, if_neg (by omega), Call.lines, if_pos hlines, Call.scopeBehind, if_pos hlines]
  simp only [hstack, emit_of_unlimited hlimit, Step.andThen]
  exact hcall

/-- **What a call does.** It adds its lines and moves on to its scope. -/
theorem final_perform {call : Call} (hcall : call.OneLine) :
    (w.perform call).final = (w.wrote (call.lines w)).within (call.scopeBehind w) := by
  cases call with
  | setUnit name =>
      rw [Call.lines, wrote_nil]
      · rfl
      all_goals simp
  | bootstrap =>
      rw [perform, Step.final_outcome]
      by_cases hlines : w.lines = 0
      · rw [bootstrap_of_unlimited hlimit hlines]
      · rw [Call.lines, if_neg hlines, Call.scopeBehind, if_neg hlines, wrote_nil, bootstrap,
          if_pos (by omega)]
        rfl
  | write i =>
      rw [perform, Step.final_outcome]
      exact final_write hlimit i
  | lower i =>
      rw [perform, Step.final_outcome]
      exact final_lower hlimit i
  | lowerUnit u => exact hcall.elim

/-- A call leaves a writer without a limit without one. -/
theorem limit_perform {call : Call} (hcall : call.OneLine) :
    (w.perform call).final.sink.limit = none := by
  rw [final_perform hlimit hcall]
  exact hlimit

/-- A bootstrap succeeds before any line, and only then. -/
theorem failure_bootstrap_eq_none_iff : (w.perform .bootstrap).failure = none ↔ w.lines = 0 := by
  by_cases hlines : w.lines = 0
  · have hstep : w.perform .bootstrap = Step.outcome [] w.bootstrap := rfl
    rw [hstep, bootstrap_of_unlimited hlimit hlines]
    exact iff_of_true rfl hlines
  · have hstep : w.perform .bootstrap = Step.outcome [] w.bootstrap := rfl
    rw [hstep, bootstrap, if_pos (by omega)]
    exact iff_of_false (by intro h; cases h) hlines

/-- A bootstrap starts the program exactly if nothing was written before. -/
theorem starts_bootstrap : w.starts .bootstrap = decide (w.lines = 0) := by
  rw [starts, Bool.eq_iff_iff, Option.isNone_iff_eq_none, failure_bootstrap_eq_none_iff hlimit,
    decide_eq_true_eq]

end unlimited

/-! ## Labels and functions -/

/-- A call takes the label of its kind, and a bootstrap that succeeds one for its call. -/
theorem issued_perform {w : Writer} (hlimit : w.sink.limit = none) {call : Call}
    (hcall : call.OneLine) (k : LabelKind) :
    (w.perform call).final.scope.labels.issued k =
      w.scope.labels.issued k + UInt32.ofNat (w.takenBy call k) := by
  rw [final_perform hlimit hcall, within_scope]
  cases call with
  | setUnit name =>
      have htaken : w.takenBy (.setUnit name) k = 0 := by
        simp [takenBy, Call.asks, Call.instruction?, starts]
      rw [htaken]
      exact (UInt32.add_zero _).symm
  | bootstrap =>
      have htaken : w.takenBy .bootstrap k =
          if k = .returnSite then (if w.lines = 0 then 1 else 0) else 0 := by
        simp [takenBy, Call.asks, Call.instruction?, starts_bootstrap hlimit]
      rw [htaken, Call.scopeBehind]
      by_cases hlines : w.lines = 0
      · rw [if_pos hlines, if_pos hlines, Scope.issued_after]
        cases k <;> rfl
      · simp [hlines]
  | write i | lower i =>
      have htaken : ∀ call : Call, call.instruction? = some i → w.starts call = false →
          w.takenBy call k = if labelKind? i = some k then 1 else 0 := by
        intro call hinstruction hstarts
        simp [takenBy, Call.asks, hinstruction, hstarts]
      rw [Call.scopeBehind, Scope.issued_after, htaken _ rfl rfl]
      split_ifs <;> rfl
  | lowerUnit u => exact hcall.elim

/-- **Label counters count calls.** -/
theorem issued_after_calls {w : Writer} (hlimit : w.sink.limit = none) {calls : List Call}
    (hcalls : ∀ call ∈ calls, call.OneLine) (k : LabelKind) :
    (w.after calls).scope.labels.issued k =
      w.scope.labels.issued k + UInt32.ofNat (w.taken calls k) := by
  induction calls generalizing w with
  | nil => simp [after, taken, bootstraps]
  | cons call rest ih =>
      rw [List.forall_mem_cons] at hcalls
      rw [after_cons, ih (limit_perform hlimit hcalls.1) hcalls.2, issued_perform hlimit hcalls.1,
        taken_cons, UInt32.ofNat_add, ← UInt32.add_assoc]

/-- A call opens the function that it declares, and no other. -/
theorem function_perform {w : Writer} (hlimit : w.sink.limit = none) {call : Call}
    (hcall : call.OneLine) :
    (w.perform call).final.scope.function = call.declares?.getD w.scope.function := by
  rw [final_perform hlimit hcall, within_scope]
  cases call with
  | setUnit name => rfl
  | bootstrap =>
      unfold Call.scopeBehind
      split_ifs
      · exact Scope.function_after w.scope _
      · rfl
  | write i | lower i =>
      rw [Call.scopeBehind, Scope.function_after]
      cases i <;> rfl
  | lowerUnit u => exact hcall.elim

/-- **The function of the scope is the one declared last.** -/
theorem function_after_calls {w : Writer} (hlimit : w.sink.limit = none) {calls : List Call}
    (hcalls : ∀ call ∈ calls, call.OneLine) :
    (w.after calls).scope.function =
      (calls.filterMap Call.declares?).getLast?.getD w.scope.function := by
  induction calls generalizing w with
  | nil => rfl
  | cons call rest ih =>
      rw [List.forall_mem_cons] at hcalls
      rw [after_cons, ih (limit_perform hlimit hcalls.1) hcalls.2, function_perform hlimit hcalls.1,
        List.filterMap_cons]
      cases call.declares? with
      | none => rfl
      | some name => simp [List.getLast?_cons]

/-! ## Lines -/

/-- What is kept of a writer over a sink without limit: its lines stand in the sink and in the
count, each on one line; labels are taken for code only; and a bootstrap, if there is one, comes
first. -/
structure Kept (options : Options) (started : Nat) (ls : List AsmLine) (w : Writer) : Prop where
  options_eq : w.options = options
  unlimited : w.sink.limit = none
  accepted_eq : w.sink.accepted = (render ls).toUTF8
  lines_eq : w.lines = ls.length
  oneLine : ∀ l ∈ ls, '\n' ∉ l.text.toList
  unit : ∀ u ∈ w.scope.unit, '\n' ∉ u.toList
  function : '\n' ∉ w.scope.function.toList
  fresh : ls = [] → w.scope.labels = {}
  first : started = 0 ∧ Quiet ls ∨
    started = 1 ∧ ∃ rest, ls = bootstrapLines options ++ rest ∧ Quiet rest

namespace Kept

variable {options : Options} {started : Nat} {ls : List AsmLine} {w : Writer}

/-- The books of a new writer. -/
theorem start (options : Options) : Kept options 0 [] { options } where
  options_eq := rfl
  unlimited := rfl
  accepted_eq := rfl
  lines_eq := rfl
  oneLine := by simp
  unit := by simp
  function := by simp
  fresh := fun _ => rfl
  first := .inl ⟨rfl, rfl⟩

/-- While there are no lines, a bootstrap writes its text. -/
theorem lines_bootstrap (h : Kept options started ls w) (hlines : w.lines = 0) :
    started = 0 ∧ ls = [] ∧ Call.lines w .bootstrap = bootstrapLines options := by
  have hls : ls = [] := List.length_eq_zero_iff.mp (h.lines_eq.symm.trans hlines)
  refine ⟨?_, hls, ?_⟩
  · rcases h.first with ⟨hstarted, -⟩ | ⟨-, rest, hrest, -⟩
    · exact hstarted
    · simp [hls, bootstrapLines, stackSetup] at hrest
  · rw [Call.lines, if_pos hlines, h.fresh hls, h.options_eq]
    rfl

/-- Lines and a scope are added. -/
theorem add (h : Kept options started ls w) {new : List AsmLine} {s : Scope} {started' : Nat}
    (hnew : ∀ l ∈ new, '\n' ∉ l.text.toList) (hunit : ∀ u ∈ s.unit, '\n' ∉ u.toList)
    (hfunction : '\n' ∉ s.function.toList) (hfresh : ls = [] → new = [] → s.labels = {})
    (hfirst : started' = 0 ∧ Quiet (ls ++ new) ∨
      started' = 1 ∧ ∃ rest, ls ++ new = bootstrapLines options ++ rest ∧ Quiet rest) :
    Kept options started' (ls ++ new) ((w.wrote new).within s) where
  options_eq := h.options_eq
  unlimited := h.unlimited
  accepted_eq := by
    change w.sink.accepted ++ (render new).toUTF8 = _
    rw [h.accepted_eq, render_append]
    simp
  lines_eq := by
    change w.lines + new.length = _
    rw [h.lines_eq, List.length_append]
  oneLine := List.forall_mem_append.mpr ⟨h.oneLine, hnew⟩
  unit := hunit
  function := hfunction
  fresh := fun hnil => hfresh (List.append_eq_nil_iff.mp hnil).1 (List.append_eq_nil_iff.mp hnil).2
  first := hfirst

/-- Quiet lines leave a bootstrap where it is. -/
theorem first_append (h : Kept options started ls w) {new : List AsmLine} (hnew : Quiet new) :
    started = 0 ∧ Quiet (ls ++ new) ∨
      started = 1 ∧ ∃ rest, ls ++ new = bootstrapLines options ++ rest ∧ Quiet rest := by
  rcases h.first with ⟨hstarted, hls⟩ | ⟨hstarted, rest, hrest, hquiet⟩
  · exact .inl ⟨hstarted, hls.append hnew⟩
  · exact .inr ⟨hstarted, rest ++ new, by rw [hrest, List.append_assoc], hquiet.append hnew⟩

/-- An instruction is added with its code. -/
theorem addInstruction (h : Kept options started ls w) {i : Instruction}
    (hi : '\n' ∉ i.subject.toList) {new : List AsmLine} (hnew : ∀ l ∈ new, '\n' ∉ l.text.toList)
    (hquiet : Quiet new) (hcode : new = [] → labelKind? i = none) :
    Kept options started (ls ++ new) ((w.wrote new).within (w.scope.after i)) := by
  refine h.add hnew ?_ ?_ ?_ (h.first_append hquiet)
  · rw [Scope.after_unit]
    exact h.unit
  · rw [Scope.function_after]
    cases i with
    | function name n => exact hi
    | _ => exact h.function
  · intro hls hnil
    rw [Scope.labels_after_of_none (hcode hnil)]
    exact h.fresh hls

/-- **A call keeps the books.** -/
theorem perform (h : Kept options started ls w) (hentry : '\n' ∉ options.entry.toList) {call : Call}
    (hcall : call.OneLine) :
    Kept options (started + if w.starts call then 1 else 0) (ls ++ call.lines w)
      (w.perform call).final := by
  rw [final_perform h.unlimited hcall]
  cases call with
  | setUnit name =>
      refine h.add (by simp [Call.lines]) ?_ h.function (fun hls _ => h.fresh hls)
        (h.first_append rfl)
      rintro u ⟨⟩
      exact hcall
  | bootstrap =>
      rw [starts_bootstrap h.unlimited]
      by_cases hlines : w.lines = 0
      · obtain ⟨rfl, rfl, hboot⟩ := h.lines_bootstrap hlines
        rw [hboot, Call.scopeBehind, if_pos hlines, if_pos (decide_eq_true hlines)]
        refine h.add (newline_notMem_bootstrapLines hentry) ?_ ?_ ?_ (.inr ⟨rfl, [], ?_, rfl⟩)
        · rw [Scope.after_unit]
          exact h.unit
        · rw [Scope.function_after]
          exact h.function
        · intro _ hnil
          simp [bootstrapLines, stackSetup] at hnil
        · rw [List.nil_append, List.append_nil]
      · rw [Call.lines, if_neg hlines, Call.scopeBehind, if_neg hlines,
          if_neg (by simpa using hlines)]
        exact h.add (by simp) h.unit h.function (fun hls _ => h.fresh hls) (h.first_append rfl)
  | write i =>
      exact h.addInstruction hcall (newline_notMem_code ⟨h.unit, h.function, hcall⟩ none)
        (quiet_code _ _ _)
        labelKind?_of_code_eq_nil
  | lower i =>
      refine h.addInstruction hcall (newline_notMem_lines ⟨h.unit, h.function, hcall⟩ _)
        (quiet_lines _ _ _ _) ?_
      intro hnil
      exact labelKind?_of_code_eq_nil (List.append_eq_nil_iff.mp hnil).2
  | lowerUnit u => exact hcall.elim

/-- **Calls keep the books.** -/
theorem after (h : Kept options started ls w) (hentry : '\n' ∉ options.entry.toList)
    {calls : List Call} (hcalls : ∀ call ∈ calls, call.OneLine) :
    ∃ ls, Kept options (started + w.bootstraps calls) ls (w.after calls) := by
  induction calls generalizing w started ls with
  | nil => exact ⟨ls, h⟩
  | cons call rest ih =>
      rw [List.forall_mem_cons] at hcalls
      rw [bootstraps, ← Nat.add_assoc]
      exact ih (h.perform hentry hcalls.1) hcalls.2

/-- The text of a bootstrap stands in the sink if and only if one succeeded. -/
theorem started_eq_one_iff (h : Kept options started ls w) :
    started = 1 ↔ ∃ behind, render ls = bootstrapText options ++ behind := by
  constructor
  · intro hone
    rcases h.first with ⟨hzero, -⟩ | ⟨-, rest, hrest, -⟩
    · omega
    · exact ⟨render rest, by rw [hrest, render_append, bootstrapText]⟩
  · rintro ⟨behind, hbehind⟩
    rcases h.first with ⟨-, hquiet⟩ | ⟨hone, -⟩
    · have hoccurs : render ls = "" ++ bootstrapText options ++ behind := by
        rw [hbehind, String.empty_append]
      exact absurd hquiet (not_quiet_of_occurs h.oneLine hoccurs)
    · exact hone

/-- The text of a bootstrap stands at the start of the sink only. -/
theorem before_eq_empty (h : Kept options started ls w) {before behind : String}
    (htext : render ls = before ++ bootstrapText options ++ behind) : before = "" := by
  rcases h.first with ⟨-, hquiet⟩ | ⟨-, rest, hrest, hquiet⟩
  · exact absurd hquiet (not_quiet_of_occurs h.oneLine htext)
  · exact Lowering.before_eq_empty h.oneLine htext hrest hquiet

/-- The text has as many line feeds as lines were counted. -/
theorem lineFeeds_eq (h : Kept options started ls w) : lineFeeds w.sink.accepted = w.lines := by
  rw [h.accepted_eq, h.lines_eq, lineFeeds_render_of_notMem h.oneLine]

/-- There are no bytes if and only if there are no lines. -/
theorem size_eq_zero_iff (h : Kept options started ls w) :
    w.sink.accepted.size = 0 ↔ w.lines = 0 := by
  constructor
  · intro hsize
    have hle : lineFeeds w.sink.accepted ≤ w.sink.accepted.size := List.count_le_length
    rw [h.lineFeeds_eq] at hle
    omega
  · intro hlines
    have hls : ls = [] := List.length_eq_zero_iff.mp (h.lines_eq.symm.trans hlines)
    rw [h.accepted_eq, hls]
    rfl

end Kept

end Writer

/-- **The books of a writer balance, and a bootstrap comes first.** Take any calls of a new writer,
in any order and with any misuses among them, over a sink without limit, and let no name hold a line
feed. Then

* the sink holds whole lines only, as many as were counted, and as many as it has line feeds;
* each label counter tells how many calls of its kind there were, a bootstrap that succeeded
  counting as a call, and the total is the sum; counters have 32 bits, so this holds up to multiples
  of `2 ^ 32`, and exactly while there are fewer such calls;
* the function is the one declared last;
* a bootstrap would succeed if and only if the sink is empty, so at most one ever did; and its text
  stands nowhere in the sink but at the very start, and there if and only if one succeeded. -/
theorem books_balance {options : Options} {calls : List Writer.Call}
    (hentry : '\n' ∉ options.entry.toList) (hcalls : ∀ call ∈ calls, call.OneLine) :
    let w := Writer.after { options } calls
    let started := Writer.bootstraps { options } calls
    (∃ text : String, w.sink.accepted = text.toUTF8 ∧
      (∃ ls : List String, (text.toList = ls.flatMap fun l => l.toList ++ ['\n']) ∧
        (∀ l ∈ ls, '\n' ∉ l.toList) ∧ ls.length = w.lines) ∧
      (∀ before behind, text = before ++ bootstrapText options ++ behind → before = "") ∧
      (started = 1 ↔ ∃ behind, text = bootstrapText options ++ behind)) ∧
    lineFeeds w.sink.accepted = w.lines ∧
    (∀ k, w.scope.labels.issued k = UInt32.ofNat (Writer.taken { options } calls k) ∧
      (Writer.taken { options } calls k < UInt32.size →
        (w.scope.labels.issued k).toNat = Writer.taken { options } calls k)) ∧
    w.scope.labels.total = UInt32.ofNat (Writer.takenInAll { options } calls) ∧
    (Writer.takenInAll { options } calls < UInt32.size →
      w.scope.labels.total.toNat = Writer.takenInAll { options } calls) ∧
    w.scope.function = Writer.lastFunction calls ∧
    ((w.perform .bootstrap).failure = none ↔ w.sink.accepted.size = 0) ∧
    started ≤ 1 := by
  intro w started
  obtain ⟨ls, hkept⟩ := (Writer.Kept.start options).after hentry hcalls
  rw [Nat.zero_add] at hkept
  have hissued : ∀ k, w.scope.labels.issued k =
      UInt32.ofNat (Writer.taken { options } calls k) := by
    intro k
    have hcount := Writer.issued_after_calls (w := { options }) rfl hcalls k
    rwa [LabelCounters.issued_start, UInt32.zero_add] at hcount
  have htotal : w.scope.labels.total = UInt32.ofNat (Writer.takenInAll { options } calls) := by
    rw [LabelCounters.total_eq, hissued, hissued, hissued, hissued, Writer.takenInAll,
      UInt32.ofNat_add, UInt32.ofNat_add, UInt32.ofNat_add]
  refine ⟨⟨render ls, hkept.accepted_eq, ⟨ls.map AsmLine.text, toList_render ls, ?_, ?_⟩,
    fun before behind => hkept.before_eq_empty, hkept.started_eq_one_iff⟩, hkept.lineFeeds_eq,
    fun k => ⟨hissued k, fun hfew => ?_⟩, htotal, fun hfew => ?_, ?_, ?_, ?_⟩
  · rw [List.forall_mem_map]
    exact hkept.oneLine
  · rw [List.length_map, hkept.lines_eq]
  · rw [hissued, UInt32.toNat_ofNat_of_lt' hfew]
  · rw [htotal, UInt32.toNat_ofNat_of_lt' hfew]
  · exact Writer.function_after_calls rfl hcalls
  · rw [Writer.failure_bootstrap_eq_none_iff hkept.unlimited, hkept.size_eq_zero_iff]
  · rcases hkept.first with ⟨hzero, -⟩ | ⟨hone, -⟩
    · exact hzero.le.trans (Nat.zero_le 1)
    · exact hone.le

/-- Calls with four misuses among them: two pops into `constant`, and two bootstraps that come too
late. -/
def mixedCalls : List Writer.Call :=
  [.write (.pop .constant 0), .setUnit "A", .bootstrap, .lower (.function "f" 1), .bootstrap,
    .lower (.push .static 3), .write (.ifGoto "x"), .lower (.arithmetic .gt), .write (.call "g" 2),
    .lower (.pop .constant 1), .bootstrap]

/-- The books behind `mixedCalls`. -/
theorem books_balance_of_mixedCalls :
    let w := Writer.after {} mixedCalls
    (∀ call ∈ mixedCalls, call.OneLine) ∧ '\n' ∉ ({} : Options).entry.toList ∧
      lineFeeds w.sink.accepted = w.lines ∧ w.scope.labels.issued .returnSite = 2 ∧
        w.scope.labels.total = 5 ∧
      w.scope.function = "f" ∧ ∃ text behind : String, w.sink.accepted = text.toUTF8 ∧
        text = bootstrapText {} ++ behind := by
  intro w
  have hcalls : ∀ call ∈ mixedCalls, call.OneLine := by decide
  have hentry : '\n' ∉ ({} : Options).entry.toList := by decide
  have hstarted : Writer.bootstraps {} mixedCalls = 1 := by decide +kernel
  have htaken : Writer.taken {} mixedCalls .returnSite = 2 := by
    rw [Writer.taken, hstarted]
    rfl
  have hinAll : Writer.takenInAll {} mixedCalls = 5 := by
    rw [Writer.takenInAll, htaken]
    rfl
  obtain ⟨⟨text, haccepted, -, -, hstart⟩, hfeeds, hissued, htotal, -, hfunction, -, -⟩ :=
    books_balance hentry hcalls
  obtain ⟨behind, hbehind⟩ := hstart.mp hstarted
  have hreturn := (hissued .returnSite).1
  rw [htaken] at hreturn
  rw [hinAll] at htotal
  exact ⟨hcalls, hentry, hfeeds, hreturn, htotal, hfunction, text, behind, haccepted, hbehind⟩

end HackVM
