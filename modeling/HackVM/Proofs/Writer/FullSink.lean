import HackVM.Proofs.Program.RunCode
import HackVM.Proofs.Writer.Calls

/-!
# Writers whose sink runs full

A writer with a bounded sink beside the same writer without the bound, both given the same calls. As
long as everything fits, the two do the same (`Step.Agrees`, `Outcome.Agrees`). The first write that
does not fit is cut at the limit, and the call that made it fails. From then on the two go different
ways: the counts of lines and labels differ, the scopes may, and the bootstrap may be a misuse for
one of them only. So the two are followed apart, by one property each that every write keeps:

* a sink that is full stays as it is (`Sink.Full.write`);
* what a sink without limit holds stays where it is (`Sink.StartsWith.write`).

Main statement (`full_sink_truncates`): after any calls the bounded sink holds the first bytes of
what the other one holds, and up to the first call that cannot write, nobody can tell the two
writers apart.
-/

namespace HackVM

open Source Lowering

/-! ## Sinks before and behind their limit -/

namespace Sink

/-- The sink takes everything, and what it holds so far is within a limit. -/
structure Fits (limit : Nat) (s : Sink) : Prop where
  limit_eq : s.limit = none
  size_le : s.accepted.size ≤ limit

/-- The sink holds the bytes and has no room for more. -/
structure Full (bytes : ByteArray) (s : Sink) : Prop where
  limit_eq : s.limit = some bytes.size
  accepted_eq : s.accepted = bytes

/-- The sink takes everything, and it took the bytes first. -/
structure StartsWith (bytes : ByteArray) (s : Sink) : Prop where
  limit_eq : s.limit = none
  extract_eq : s.accepted.extract 0 bytes.size = bytes

/-- Bytes for which there is room are taken. -/
theorem write_of_room {s : Sink} {bytes : ByteArray}
    (h : ∀ limit ∈ s.limit, bytes.size ≤ limit - s.accepted.size) :
    s.write bytes = (.ok (), { s with accepted := s.accepted ++ bytes }) := by
  unfold write
  rcases hlimit : s.limit with _ | limit
  · rfl
  · exact if_pos (h limit hlimit)

/-- Of other bytes, those are taken for which there is room. -/
theorem write_of_lt {s : Sink} {bytes : ByteArray} {limit : Nat} (hlimit : s.limit = some limit)
    (h : limit - s.accepted.size < bytes.size) :
    s.write bytes =
      (.error s.fullFault,
        { s with accepted := s.accepted ++ bytes.extract 0 (limit - s.accepted.size) }) := by
  unfold write
  rw [hlimit]
  exact if_neg (Nat.not_le.mpr h)

/-- A text that is short enough is not cut. -/
theorem extract_of_size_le {bytes : ByteArray} {n : Nat} (h : bytes.size ≤ n) :
    bytes.extract 0 n = bytes := by
  have hall := @ByteArray.extract_zero_max_size bytes n
  rwa [Nat.max_eq_left h] at hall

/-- A full sink takes nothing, whether it says so or not. -/
theorem Full.write {bytes : ByteArray} {s : Sink} (h : s.Full bytes) (more : ByteArray) :
    (s.write more).2.Full bytes := by
  have hroom : bytes.size - s.accepted.size = 0 := by rw [h.accepted_eq, Nat.sub_self]
  by_cases hmore : more.size = 0
  · have hempty : more = ByteArray.empty := ByteArray.size_eq_zero_iff.mp hmore
    rw [write_of_room (by simp [hmore])]
    refine ⟨h.limit_eq, ?_⟩
    show s.accepted ++ more = bytes
    rw [hempty, ByteArray.append_empty, h.accepted_eq]
  · rw [write_of_lt h.limit_eq (by omega), hroom]
    refine ⟨h.limit_eq, ?_⟩
    show s.accepted ++ more.extract 0 0 = bytes
    rw [ByteArray.extract_same, ByteArray.append_empty, h.accepted_eq]

/-- What a sink without limit took first stays first. -/
theorem StartsWith.write {bytes : ByteArray} {s : Sink} (h : s.StartsWith bytes)
    (more : ByteArray) : (s.write more).2.StartsWith bytes := by
  have hle : bytes.size ≤ s.accepted.size := by
    have hsize := congrArg ByteArray.size h.extract_eq
    rw [ByteArray.size_extract] at hsize
    omega
  rw [write_of_room (by simp [h.limit_eq])]
  refine ⟨h.limit_eq, ?_⟩
  show (s.accepted ++ more).extract 0 bytes.size = bytes
  rw [ByteArray.extract_append, h.extract_eq, Nat.sub_eq_zero_of_le hle, Nat.zero_sub,
    ByteArray.extract_same, ByteArray.append_empty]

/-- The first sink is full, and the second one took the same bytes first. -/
def CutAt (limit : Nat) (s free : Sink) : Prop :=
  ∃ bytes, bytes.size = limit ∧ s.Full bytes ∧ free.StartsWith bytes

/-- A sink that is cut holds the front of what the free one holds. -/
theorem CutAt.accepted_eq {limit : Nat} {s free : Sink} (h : CutAt limit s free) :
    s.accepted = free.accepted.extract 0 limit := by
  obtain ⟨bytes, rfl, hfull, hstarts⟩ := h
  rw [hfull.accepted_eq, hstarts.extract_eq]

end Sink

/-! ## Agreement -/

/-- The writer with a sink that takes no more than `limit` bytes in all. -/
def Writer.bounded (w : Writer) (limit : Nat) (stalls : Bool) : Writer :=
  { w with sink := { w.sink with limit := some limit, stalls } }

/-- How a step of a writer with a bounded sink compares with the step of the writer without the
bound: it is the same, or it fails because the sink is full. -/
def Writer.Step.Agrees (limit : Nat) (stalls : Bool) (step free : Step) : Prop :=
  (step = (free.1, free.2.bounded limit stalls) ∧ free.2.sink.Fits limit) ∨
    (∃ fault, step.1 = .error (.cannotWrite fault)) ∧ Sink.CutAt limit step.2.sink free.2.sink

namespace Outcome

/-- How what came of a call compares. -/
def Agrees (limit : Nat) (stalls : Bool) (o free : Outcome Writer) : Prop :=
  (o = { free with final := free.final.bounded limit stalls } ∧ free.final.sink.Fits limit) ∨
    (∃ fault, o.failure = some (.cannotWrite fault)) ∧ Sink.CutAt limit o.final.sink free.final.sink

/-- What a caller can see of a call: its result, its warnings, and the books of the writer
afterwards. -/
structure Account where
  done : List Instruction
  warnings : List Diagnostic
  failure : Option Error
  lines : Nat
  /-- The unit, the function and the label counters. -/
  scope : Scope

/-- What a caller can see of an outcome. -/
def account (o : Outcome Writer) : Account :=
  ⟨o.done, o.warnings, o.failure, o.final.lines, o.final.scope⟩

/-- Whether a call failed because its sink did not take the code. -/
def cannotWrite (o : Outcome Writer) : Bool :=
  match o.failure with
  | some (.cannotWrite _) => true
  | _ => false

end Outcome

namespace Writer

/-! ## Steps -/

variable {limit : Nat} (stalls : Bool)

/-- A block is written in full, or up to the limit. -/
theorem emit_agrees {w : Writer} (h : w.sink.Fits limit) (block : List AsmLine) :
    Step.Agrees limit stalls ((w.bounded limit stalls).emit block) (w.emit block) := by
  have hle := h.size_le
  have hlimit : (w.bounded limit stalls).sink.limit = some limit := rfl
  have haccepted : (w.bounded limit stalls).sink.accepted = w.sink.accepted := rfl
  rw [emit_of_unlimited h.limit_eq, emit]
  by_cases hfits : (render block).toUTF8.size ≤ limit - w.sink.accepted.size
  · left
    rw [Sink.write_of_room (by simpa [hlimit, haccepted] using hfits)]
    refine ⟨rfl, h.limit_eq, ?_⟩
    show (w.sink.accepted ++ (render block).toUTF8).size ≤ limit
    rw [ByteArray.size_append]
    omega
  · right
    rw [Sink.write_of_lt hlimit (by rw [haccepted]; omega), haccepted]
    -- what was taken fills the sink, and it is how the whole block begins
    have hsize :
        (w.sink.accepted ++ (render block).toUTF8.extract 0 (limit - w.sink.accepted.size)).size =
        limit := by
      rw [ByteArray.size_append, ByteArray.size_extract]
      omega
    refine ⟨⟨_, rfl⟩, _, hsize, ⟨?_, rfl⟩, h.limit_eq, ?_⟩
    · rw [hsize]
      exact hlimit
    · show (w.sink.accepted ++ (render block).toUTF8).extract 0 _ = _
      rw [hsize, ByteArray.extract_append, Sink.extract_of_size_le hle, Nat.zero_sub]

/-- Going on keeps two steps in agreement. If the first one failed, the other one may go on alone,
but what its sink holds stays where it is. -/
theorem Step.Agrees.andThen {step free : Step} (h : Step.Agrees limit stalls step free)
    {next : Writer → Step}
    (hnext : ∀ w : Writer, w.sink.Fits limit →
      Step.Agrees limit stalls (next (w.bounded limit stalls)) (next w))
    (hkeeps : ∀ bytes, ∀ w : Writer, w.sink.StartsWith bytes → (next w).2.sink.StartsWith bytes) :
    Step.Agrees limit stalls (step.andThen next) (free.andThen next) := by
  rcases h with ⟨rfl, hfits⟩ | ⟨⟨fault, hfault⟩, bytes, hsize, hfull, hstarts⟩
  · obtain ⟨result, w⟩ := free
    cases result with
    | ok u => exact hnext w hfits
    | error e => exact .inl ⟨rfl, hfits⟩
  · right
    obtain ⟨result, w⟩ := step
    have hresult : result = .error (.cannotWrite fault) := hfault
    subst hresult
    exact ⟨⟨fault, rfl⟩, bytes, hsize, hfull, Step.andThen_keeps hstarts (hkeeps bytes)⟩

/-- With and without a limit, the code of an instruction is written in agreement. -/
theorem write_agrees {w : Writer} (h : w.sink.Fits limit) (i : Instruction) :
    Step.Agrees limit stalls ((w.bounded limit stalls).write i) (w.write i) := by
  unfold write
  have hscope : (w.bounded limit stalls).scope = w.scope := rfl
  rw [hscope]
  rcases w.scope.block i with m | block
  · exact .inl ⟨rfl, h⟩
  · apply Step.Agrees.andThen
    · exact emit_agrees stalls (w := { w with scope := w.scope.number i }) h block
    · exact fun w hw => .inl ⟨rfl, hw⟩
    · exact fun _ _ hw => hw

/-- So is an instruction with its comment. -/
theorem lower_agrees {w : Writer} (h : w.sink.Fits limit) (i : Instruction) :
    Step.Agrees limit stalls ((w.bounded limit stalls).lower i) (w.lower i) := by
  unfold lower annotate
  have hoptions : (w.bounded limit stalls).options = w.options := rfl
  rw [hoptions]
  apply Step.Agrees.andThen
  · split_ifs
    · exact emit_agrees stalls h _
    · exact .inl ⟨rfl, h⟩
  · exact fun w hw => write_agrees stalls hw i
  · exact fun bytes w hw => write_keeps (fun _ more hs => hs.write more) hw i

/-- So is the bootstrap. -/
theorem bootstrap_agrees {w : Writer} (h : w.sink.Fits limit) :
    Step.Agrees limit stalls (w.bounded limit stalls).bootstrap w.bootstrap := by
  unfold bootstrap
  have hlines : (w.bounded limit stalls).lines = w.lines := rfl
  have hoptions : (w.bounded limit stalls).options = w.options := rfl
  rw [hlines, hoptions]
  split_ifs
  · exact .inl ⟨rfl, h⟩
  all_goals
    apply Step.Agrees.andThen
    · exact emit_agrees stalls h _
    · exact fun w hw => write_agrees stalls hw _
    · exact fun bytes w hw => write_keeps (fun _ more hs => hs.write more) hw _

/-! ## Calls -/

/-- Steps in agreement have outcomes in agreement. -/
theorem Step.Agrees.outcome {step free : Step} (h : Step.Agrees limit stalls step free)
    (is : List Instruction) : Outcome.Agrees limit stalls (step.outcome is) (free.outcome is) := by
  rcases h with ⟨rfl, hfits⟩ | ⟨⟨fault, hfault⟩, hcut⟩
  · left
    obtain ⟨result, w⟩ := free
    cases result <;> exact ⟨rfl, hfits⟩
  · right
    rw [Step.final_outcome, Step.final_outcome]
    obtain ⟨result, w⟩ := step
    have hresult : result = .error (.cannotWrite fault) := hfault
    subst hresult
    exact ⟨⟨fault, rfl⟩, hcut⟩

/-- Lines are lowered alike, up to the first one whose code does not fit. -/
theorem readEach_agrees {w : Writer} (h : w.sink.Fits limit) (ls : List CodeLine) :
    Outcome.Agrees limit stalls (readEach lower (w.bounded limit stalls) ls)
      (readEach lower w ls) := by
  induction ls generalizing w with
  | nil => exact .inl ⟨rfl, h⟩
  | cons l rest ih =>
      rcases hread : l.read.result with fault | i
      · rw [readEach_cons_bad hread, readEach_cons_bad hread]
        exact .inl ⟨rfl, h⟩
      · rcases lower_agrees stalls h i.value with ⟨hstep, hfits⟩ | ⟨⟨fault, hfault⟩, hcut⟩
        · rcases hfree : w.lower i.value with ⟨e | _, w'⟩
          · rw [hfree] at hstep hfits
            rw [readEach_cons_failed hread hstep, readEach_cons_failed hread hfree]
            exact .inl ⟨rfl, hfits⟩
          · rw [hfree] at hstep hfits
            rw [readEach_cons_done hread hstep, readEach_cons_done hread hfree]
            rcases ih hfits with ⟨hrest, hfinal⟩ | hfails
            · rw [hrest]
              exact .inl ⟨rfl, hfinal⟩
            · exact .inr hfails
        · -- the bounded writer stops at this line; the other one may lower the rest
          obtain ⟨bytes, hsize, hfull, hstarts⟩ := hcut
          have hstep : (w.bounded limit stalls).lower i.value =
              (.error (.cannotWrite fault), ((w.bounded limit stalls).lower i.value).2) :=
                Prod.ext hfault rfl
          rw [readEach_cons_failed hread hstep]
          refine .inr ⟨⟨fault, rfl⟩, bytes, hsize, hfull, ?_⟩
          rcases hfree : w.lower i.value with ⟨e | _, w'⟩
          · rw [hfree] at hstarts
            rw [readEach_cons_failed hread hfree]
            exact hstarts
          · rw [hfree] at hstarts
            rw [readEach_cons_done hread hfree]
            exact readEach_keeps (P := fun w : Writer => w.sink.StartsWith bytes)
              (fun _ i hw => lower_keeps (fun _ more hs => hs.write more) hw i) hstarts rest

/-- **A call does the same with and without the bound, or fails because the sink is full.** -/
theorem perform_agrees {w : Writer} (h : w.sink.Fits limit) (call : Call) :
    Outcome.Agrees limit stalls ((w.bounded limit stalls).perform call) (w.perform call) := by
  cases call with
  | setUnit name => exact .inl ⟨rfl, h⟩
  | bootstrap => exact (bootstrap_agrees stalls h).outcome stalls []
  | write i => exact (write_agrees stalls h i).outcome stalls [i]
  | lower i => exact (lower_agrees stalls h i).outcome stalls [i]
  | lowerUnit u => exact readEach_agrees stalls (w := w.setUnit u.name) h (codeLines u.source)

/-! ## Sequences of calls -/

/-- Once a sink is cut, no calls change what it holds, nor the beginning of what the other one
holds. -/
theorem after_cutAt {w free : Writer} (h : Sink.CutAt limit w.sink free.sink) (calls : List Call) :
    Sink.CutAt limit (w.after calls).sink (free.after calls).sink := by
  obtain ⟨bytes, hsize, hfull, hstarts⟩ := h
  exact ⟨bytes, hsize,
    after_keeps (P := Sink.Full bytes) (fun _ more hs => hs.write more) hfull calls,
    after_keeps (P := Sink.StartsWith bytes) (fun _ more hs => hs.write more) hstarts calls⟩

/-- A sink with a limit holds the front of what one without a limit would hold. -/
theorem accepted_after_bounded {w : Writer} (h : w.sink.Fits limit) (calls : List Call) :
    ((w.bounded limit stalls).after calls).sink.accepted =
      (w.after calls).sink.accepted.extract 0 limit := by
  induction calls generalizing w with
  | nil => exact (Sink.extract_of_size_le h.size_le).symm
  | cons call rest ih =>
      rw [after_cons, after_cons]
      rcases perform_agrees stalls h call with ⟨ho, hfits⟩ | ⟨-, hcut⟩
      · rw [ho]
        exact ih hfits
      · exact (after_cutAt hcut rest).accepted_eq

/-- Up to the first failure of the sink, the calls end as they would without a limit. -/
theorem accounts_prefix {w : Writer} (h : w.sink.Fits limit) (calls : List Call) :
    (((w.bounded limit stalls).outcomes calls).takeWhile fun o => !o.cannotWrite).map
      Outcome.account <+:
      (w.outcomes calls).map Outcome.account := by
  induction calls generalizing w with
  | nil => exact List.nil_prefix
  | cons call rest ih =>
      rw [outcomes, outcomes, List.takeWhile_cons]
      rcases perform_agrees stalls h call with ⟨ho, hfits⟩ | ⟨⟨fault, hfault⟩, -⟩
      · split_ifs
        · rw [ho, List.map_cons, List.map_cons]
          exact List.cons_prefix_cons.mpr ⟨rfl, ih hfits⟩
        · exact List.nil_prefix
      · have hfails : ((w.bounded limit stalls).perform call).cannotWrite = true := by
          rw [Outcome.cannotWrite, hfault]
        rw [if_neg (by simp [hfails])]
        exact List.nil_prefix

end Writer

/-- **A full sink only truncates.** Give the same calls, failed ones included, to a new writer whose
sink takes `limit` bytes and then fails, in either way, and to a new writer with the same options
whose sink takes everything. Then the first sink holds the first `limit` bytes of what the second
one holds, or all of them if there are fewer. Up to the first call that fails because the sink is
full, the two writers give the same results and warnings and keep the same books: lines, unit,
function and label counters. -/
theorem full_sink_truncates (options : Options) (limit : Nat) (stalls : Bool)
    (calls : List Writer.Call) :
    let full : Writer := { options, sink := { limit := some limit, stalls } }
    let free : Writer := { options }
    (full.after calls).sink.accepted = (free.after calls).sink.accepted.extract 0 limit ∧
      ((full.outcomes calls).takeWhile fun o => !o.cannotWrite).map Outcome.account <+:
        (free.outcomes calls).map Outcome.account := by
  intro full free
  have hfits : free.sink.Fits limit := ⟨rfl, Nat.zero_le limit⟩
  exact ⟨Writer.accepted_after_bounded stalls hfits calls,
    Writer.accounts_prefix stalls hfits calls⟩

end HackVM
