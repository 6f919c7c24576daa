import HackVM.Program.SourceUnit

/-!
# Calls of a writer

What can be asked of a writer, as data, so that statements can speak of every sequence of calls. A
call that fails does not end the sequence: the next call finds the writer as the failed one left it.

A writer touches its sink in one place only (`emit`). So a property of sinks that every write keeps
is kept by every call (`perform_keeps`), whatever the call asks for and whether or not it succeeds.
-/

namespace HackVM

open Source Lowering

/-- What can be asked of a writer. -/
inductive Writer.Call where
  | setUnit (name : String)
  | bootstrap
  /-- Write the code of an instruction. -/
  | write (i : Instruction)
  /-- Write an instruction with its comment, if the options ask for one. -/
  | lower (i : Instruction)
  | lowerUnit (u : SourceUnit)

namespace Writer

/-- What came of a step that deals with the given instructions if it succeeds. -/
def Step.outcome (is : List Instruction) : Step → Outcome Writer
  | (.ok (), w) => ⟨is, [], none, w⟩
  | (.error e, w) => ⟨[], [], some e, w⟩

/-- What comes of a call. -/
def perform (w : Writer) : Call → Outcome Writer
  | .setUnit name => ⟨[], [], none, w.setUnit name⟩
  | .bootstrap => Step.outcome [] w.bootstrap
  | .write i => Step.outcome [i] (w.write i)
  | .lower i => Step.outcome [i] (w.lower i)
  | .lowerUnit u => w.lowerUnit u

/-- What comes of each of a sequence of calls. -/
def outcomes (w : Writer) : List Call → List (Outcome Writer)
  | [] => []
  | call :: rest => w.perform call :: (w.perform call).final.outcomes rest

/-- The writer after a sequence of calls. -/
def after (w : Writer) (calls : List Call) : Writer :=
  calls.foldl (fun w call => (w.perform call).final) w

theorem after_cons (w : Writer) (call : Call) (rest : List Call) :
    w.after (call :: rest) = (w.perform call).final.after rest :=
  rfl

theorem Step.final_outcome (is : List Instruction) (step : Step) :
    (step.outcome is).final = step.2 := by
  obtain ⟨result, w⟩ := step
  cases result <;> rfl

end Writer

/-! ## Reading line by line -/

section readEach

variable {σ : Type} {act : σ → Instruction → Except Error Unit × σ} {s s' : σ} {l : CodeLine}
  {e : Error}

/-- A bad line ends the reading. -/
theorem readEach_cons_bad {fault : SyntaxError} (hread : l.read.result = .error fault)
    (rest : List CodeLine) :
    readEach act s (l :: rest) = ⟨[], l.read.warnings, some (.source fault), s⟩ := by
  simp only [readEach, hread]

variable {i : Located Instruction} (hread : l.read.result = .ok i)
include hread

/-- So does an instruction that cannot be dealt with. -/
theorem readEach_cons_failed (hact : act s i.value = (.error e, s')) (rest : List CodeLine) :
    readEach act s (l :: rest) = ⟨[], l.read.warnings, some e, s'⟩ := by
  simp only [readEach, hread, hact]

/-- An instruction that was dealt with counts, and the reading goes on. -/
theorem readEach_cons_done (hact : act s i.value = (.ok (), s')) (rest : List CodeLine) :
    readEach act s (l :: rest) =
      { readEach act s' rest with
        done := i.value :: (readEach act s' rest).done
        warnings := l.read.warnings ++ (readEach act s' rest).warnings } := by
  simp only [readEach, hread, hact]

end readEach

/-- What every action keeps is kept by reading lines. -/
theorem readEach_keeps {σ : Type} {act : σ → Instruction → Except Error Unit × σ} {P : σ → Prop}
    (hact : ∀ s i, P s → P (act s i).2) {s : σ} (hs : P s) (ls : List CodeLine) :
    P (readEach act s ls).final := by
  induction ls generalizing s with
  | nil => exact hs
  | cons l rest ih =>
      rcases hread : l.read.result with fault | i
      · rw [readEach_cons_bad hread]
        exact hs
      · have hkept := hact s i.value hs
        rcases hstep : act s i.value with ⟨e | _, s'⟩
        · rw [hstep] at hkept
          rw [readEach_cons_failed hread hstep]
          exact hkept
        · rw [hstep] at hkept
          rw [readEach_cons_done hread hstep]
          exact ih hkept

/-! ## What every call keeps -/

namespace Writer

section keeps

variable {P : Sink → Prop} (hwrite : ∀ s bytes, P s → P (s.write bytes).2)
include hwrite

/-- What every write to a sink keeps, a block keeps. -/
theorem emit_keeps {w : Writer} (h : P w.sink) (block : List AsmLine) :
    P (w.emit block).2.sink := by
  have hkept := hwrite w.sink (render block).toUTF8 h
  unfold emit
  rcases hresult : w.sink.write (render block).toUTF8 with ⟨fault | _, sink⟩
  · rw [hresult] at hkept
    exact hkept
  · rw [hresult] at hkept
    exact hkept

omit hwrite in
/-- Two steps that keep it keep it together. -/
theorem Step.andThen_keeps {step : Step} (h : P step.2.sink) {next : Writer → Step}
    (hnext : ∀ w : Writer, P w.sink → P (next w).2.sink) : P (step.andThen next).2.sink := by
  obtain ⟨result, w⟩ := step
  cases result with
  | error e => exact h
  | ok u => exact hnext w h

/-- So does the code of an instruction. -/
theorem write_keeps {w : Writer} (h : P w.sink) (i : Instruction) : P (w.write i).2.sink := by
  unfold write
  rcases w.scope.block i with m | block
  · exact h
  · apply Step.andThen_keeps
    · exact emit_keeps hwrite (w := { w with scope := w.scope.number i }) h block
    · exact fun _ h => h

/-- So does an instruction with its comment. -/
theorem lower_keeps {w : Writer} (h : P w.sink) (i : Instruction) : P (w.lower i).2.sink := by
  unfold lower annotate
  apply Step.andThen_keeps
  · split
    · exact emit_keeps hwrite h _
    · exact h
  · exact fun _ h => write_keeps hwrite h i

/-- So does the bootstrap. -/
theorem bootstrap_keeps {w : Writer} (h : P w.sink) : P w.bootstrap.2.sink := by
  unfold bootstrap
  split
  · exact h
  · apply Step.andThen_keeps
    · exact emit_keeps hwrite h _
    · exact fun _ h => write_keeps hwrite h _

/-- **What every write keeps of a sink, every call keeps.** -/
theorem perform_keeps {w : Writer} (h : P w.sink) (call : Call) :
    P (w.perform call).final.sink := by
  cases call with
  | setUnit name => exact h
  | bootstrap =>
      unfold perform
      rw [Step.final_outcome]
      exact bootstrap_keeps hwrite h
  | write i =>
      unfold perform
      rw [Step.final_outcome]
      exact write_keeps hwrite h i
  | lower i =>
      unfold perform
      rw [Step.final_outcome]
      exact lower_keeps hwrite h i
  | lowerUnit u =>
      exact readEach_keeps (P := fun w : Writer => P w.sink) (fun w i h => lower_keeps hwrite h i)
        (s := w.setUnit u.name) h _

/-- **What writes keep, calls keep.** -/
theorem after_keeps {w : Writer} (h : P w.sink) (calls : List Call) : P (w.after calls).sink := by
  induction calls generalizing w with
  | nil => exact h
  | cons call rest ih => exact ih (perform_keeps hwrite h call)

end keeps

end Writer

end HackVM
