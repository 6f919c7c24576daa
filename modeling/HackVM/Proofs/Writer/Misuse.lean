import HackVM.Proofs.Program.CheckAndBuild
import HackVM.Proofs.Writer.FullSink

/-!
# What a misuse leaves behind

A writer can be misused in three ways: the bootstrap is asked for after other code, a pop goes into
`constant`, or a static cell is named outside any unit. Each is found before the code of the call is
written (`write_eq_of_misuse`, `bootstrap_eq_of_misuse`), and a unit never comes to one
(`lowerUnit_ne_misuse`). But the comment of an annotated instruction is written before the
instruction is looked at, so there the comment stays (`final_lower_of_misuse`).

Main statement (`misuse_untraced_iff`): a call that ends in a misuse leaves the writer as it was,
its sink included, except where it was to annotate an instruction; there it leaves the comment, and
one more line in the books.
-/

namespace HackVM

open Source Lowering

namespace Writer

/-- The lines that a call writes before it looks at the instruction. -/
def Call.comments (annotate : Bool) : Call → List AsmLine
  | .lower i => if annotate then [.comment i.text] else []
  | _ => []

/-! ## Blocks -/

/-- A block is taken in full, or the sink is to blame. -/
theorem emit_cases (w : Writer) (block : List AsmLine) :
    w.emit block = (.ok (), w.wrote block) ∨
      ∃ fault sink, w.emit block = (.error (.cannotWrite fault), { w with sink }) := by
  by_cases hroom : ∀ limit ∈ w.sink.limit, (render block).toUTF8.size ≤ limit - w.sink.accepted.size
  · left
    rw [emit, Sink.write_of_room hroom]
    rfl
  · right
    push Not at hroom
    obtain ⟨limit, hlimit, hlt⟩ := hroom
    rw [emit, Sink.write_of_lt hlimit hlt]
    exact ⟨_, _, rfl⟩

variable {w : Writer} {i : Instruction} {m : Misuse}

/-- Code that is there is written, or the sink is to blame. -/
theorem write_ne_misuse {block : List AsmLine} (hblock : w.scope.block i = .ok block) :
    (w.write i).1 ≠ .error (.misuse m) := by
  unfold write
  rw [hblock]
  rcases emit_cases { w with scope := w.scope.number i } block with hemit | ⟨fault, sink, hemit⟩ <;>
    · simp only [hemit, Step.andThen]
      intro h
      cases h

/-- A misuse is found before anything is written. -/
theorem write_eq_of_misuse (h : (w.write i).1 = .error (.misuse m)) :
    w.write i = (.error (.misuse m), w) := by
  cases hblock : w.scope.block i with
  | ok block => exact absurd h (write_ne_misuse hblock)
  | error n =>
      have hwrite : w.write i = (.error (.misuse n), w) := by rw [write, hblock]
      rw [hwrite] at h ⊢
      cases h
      rfl

/-- A bootstrap that is misused changes nothing. -/
theorem bootstrap_eq_of_misuse (h : w.bootstrap.1 = .error (.misuse m)) :
    w.bootstrap = (.error (.misuse m), w) := by
  rw [bootstrap] at h ⊢
  by_cases hlines : 0 < w.lines
  · rw [if_pos hlines] at h ⊢
    cases h
    rfl
  · -- nothing has been written yet, and a call has code in every scope
    exfalso
    rw [if_neg hlines] at h
    dsimp only at h
    generalize hblock : (if w.options.annotate then [AsmLine.comment "bootstrap"] else []) ++
      stackBlock w.options.stackBase = block at h
    rcases emit_cases w block with hemit | ⟨fault, sink, hemit⟩
    · rw [hemit] at h
      have hcall : ((w.wrote block).write (.call w.options.entry 0)).1 = .error (.misuse m) := h
      exact write_ne_misuse rfl hcall
    · rw [hemit] at h
      cases h

/-- The comment, if any, has been written when a misuse is found. -/
theorem final_lower_of_misuse (h : (w.lower i).1 = .error (.misuse m)) :
    (w.lower i).2 = w.wrote (Call.comments w.options.annotate (.lower i)) := by
  unfold lower annotate at h ⊢
  rw [Call.comments]
  split_ifs at h ⊢ with hannotate
  · rcases emit_cases w [.comment i.text] with hemit | ⟨fault, sink, hemit⟩
    · rw [hemit] at h ⊢
      exact congrArg Prod.snd (write_eq_of_misuse h)
    · rw [hemit] at h
      cases h
  · rw [wrote_nil]
    exact congrArg Prod.snd (write_eq_of_misuse h)

/-! ## Units -/

/-- Writing code stays in the unit. -/
theorem unit_write (w : Writer) (i : Instruction) : (w.write i).2.scope.unit = w.scope.unit := by
  unfold write
  cases w.scope.block i with
  | error m => rfl
  | ok block =>
      have hafter : (w.scope.after i).unit = w.scope.unit := w.scope.after_unit i
      have hnumber : (w.scope.number i).unit = w.scope.unit := by
        unfold Scope.number
        split <;> rfl
      rcases emit_cases { w with scope := w.scope.number i } block with hemit | ⟨fault, sink, hemit⟩
      · simp only [hemit, Step.andThen]
        exact hafter
      · simp only [hemit, Step.andThen]
        exact hnumber

/-- So does an instruction with its comment. -/
theorem unit_lower (w : Writer) (i : Instruction) : (w.lower i).2.scope.unit = w.scope.unit := by
  unfold lower annotate
  split_ifs
  · rcases emit_cases w [.comment i.text] with hemit | ⟨fault, sink, hemit⟩
    · rw [hemit]
      exact unit_write (w.wrote _) i
    · rw [hemit]
      rfl
  · exact unit_write w i

/-- Inside a unit, what was read is never a misuse. -/
theorem lower_ne_misuse {unit : String} (hunit : w.scope.unit = some unit) (hi : Readable i) :
    (w.lower i).1 ≠ .error (.misuse m) := by
  obtain ⟨block, hblock⟩ := Scope.block_of_readable hunit hi
  unfold lower annotate
  split_ifs
  · rcases emit_cases w [.comment i.text] with hemit | ⟨fault, sink, hemit⟩
    · rw [hemit]
      exact write_ne_misuse (w := w.wrote _) hblock
    · rw [hemit]
      intro h
      cases h
  · exact write_ne_misuse hblock

/-- In a unit, what is read from a source is not misused. -/
theorem readEach_ne_misuse {unit : String} {ls : List CodeLine} (hunit : w.scope.unit = some unit)
    (hls : ∀ l ∈ ls, ∀ i, l.read.result = .ok i → Readable i.value) :
    (readEach lower w ls).failure ≠ some (.misuse m) := by
  induction ls generalizing w with
  | nil =>
      intro h
      cases h
  | cons l rest ih =>
      rw [List.forall_mem_cons] at hls
      rcases hread : l.read.result with fault | i
      · rw [readEach_cons_bad hread]
        intro h
        cases h
      · have hne := lower_ne_misuse (m := m) hunit (hls.1 i hread)
        have hunit' := (unit_lower w i.value).trans hunit
        rcases hstep : w.lower i.value with ⟨e | _, w'⟩
        · rw [hstep] at hne
          rw [readEach_cons_failed hread hstep]
          intro h
          cases h
          exact hne rfl
        · rw [hstep] at hunit'
          rw [readEach_cons_done hread hstep]
          exact ih hunit' hls.2

/-- A unit names itself before its instructions, and its reader refuses what a writer would. -/
theorem lowerUnit_ne_misuse (w : Writer) (u : SourceUnit) :
    (w.lowerUnit u).failure ≠ some (.misuse m) :=
  readEach_ne_misuse (w := w.setUnit u.name) rfl fun _ hl _ hi => readable_of_mem_codeLines hl hi

/-! ## Calls -/

/-- An outcome fails with the failure of its step. -/
theorem Step.failure_outcome {is : List Instruction} {step : Step} {e : Error}
    (h : (step.outcome is).failure = some e) : step.1 = .error e := by
  obtain ⟨result, w⟩ := step
  cases result with
  | error e' =>
      cases h
      rfl
  | ok u => cases h

/-- What a call that ends in a misuse has done. -/
theorem final_of_misuse {call : Call} (h : (w.perform call).failure = some (.misuse m)) :
    (w.perform call).final = w.wrote (call.comments w.options.annotate) := by
  cases call with
  | setUnit name => cases h
  | bootstrap =>
      have hstep := bootstrap_eq_of_misuse (Step.failure_outcome h)
      rw [perform, Step.final_outcome, hstep, Call.comments, wrote_nil]
      rintro i ⟨⟩
  | write i =>
      have hstep := write_eq_of_misuse (Step.failure_outcome h)
      rw [perform, Step.final_outcome, hstep, Call.comments, wrote_nil]
      rintro j ⟨⟩
  | lower i =>
      rw [perform, Step.final_outcome]
      exact final_lower_of_misuse (Step.failure_outcome h)
  | lowerUnit u => exact absurd h (lowerUnit_ne_misuse w u)

/-- Only nothing can be written without a trace. -/
theorem wrote_eq_self_iff {ls : List AsmLine} : w.wrote ls = w ↔ ls = [] := by
  constructor
  · intro h
    have hlines : w.lines + ls.length = w.lines := congrArg Writer.lines h
    exact List.length_eq_zero_iff.mp (by omega)
  · rintro rfl
    exact wrote_nil w

/-- Comments are written for instructions only, and only on demand. -/
theorem Call.comments_eq_nil_iff {annotate : Bool} {call : Call} :
    call.comments annotate = [] ↔ ¬ (annotate = true ∧ ∃ i, call = .lower i) := by
  cases call with
  | lower i => cases annotate <;> simp [comments]
  | _ => simp [comments]

end Writer

/-- **A misuse leaves no trace, but for a comment.** Take any writer, in whatever state its earlier
calls left it, and any call that ends in a misuse. The writer is afterwards what it was before, with
the same bytes in its sink, the same lines, label counters, function and unit, exactly if the call
was not to annotate an instruction. If it was, the comment stays in the sink and is counted as a
line, and nothing else has changed. -/
theorem misuse_untraced_iff {w : Writer} {call : Writer.Call} {m : Misuse}
    (h : (w.perform call).failure = some (.misuse m)) :
    ((w.perform call).final = w ↔ ¬ (w.options.annotate = true ∧ ∃ i, call = .lower i)) ∧
      (w.perform call).final = w.wrote (call.comments w.options.annotate) := by
  have hfinal := Writer.final_of_misuse h
  refine ⟨?_, hfinal⟩
  rw [hfinal, Writer.wrote_eq_self_iff, Writer.Call.comments_eq_nil_iff]

/-- A static cell outside any unit, asked for behind a comparison and a call, without a comment. -/
theorem misuse_untraced_behind_calls :
    let w := Writer.after {} [.write (.arithmetic .eq), .lower (.call "f" 1)]
    (w.perform (.lower (.push .static 3))).failure = some (.misuse (.staticWithoutUnit 3)) ∧
      (w.perform (.lower (.push .static 3))).final = w := by
  intro w
  have hmisuse : (w.perform (.lower (.push .static 3))).failure =
      some (.misuse (.staticWithoutUnit 3)) :=
    rfl
  refine ⟨hmisuse, (misuse_untraced_iff hmisuse).1.mpr ?_⟩
  rintro ⟨hannotate, -⟩
  cases hannotate

/-- A writer that annotates keeps the comment of an instruction that it refuses. -/
theorem misuse_traced :
    let w : Writer := { options := { annotate := true } }
    (w.perform (.lower (.pop .constant 0))).failure = some (.misuse .popConstant) ∧
      (w.perform (.lower (.pop .constant 0))).final ≠ w ∧
      (w.perform (.lower (.pop .constant 0))).final.lines = 1 ∧
      (w.perform (.lower (.pop .constant 0))).final.sink.accepted =
        "// pop constant 0\n".toUTF8 := by
  intro w
  refine ⟨rfl, ?_, rfl, ?_⟩
  · intro h
    have hlines : (1 : Nat) = 0 := congrArg Writer.lines h
    cases hlines
  · decide +kernel

end HackVM
