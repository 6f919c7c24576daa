import HackVM.Program.SourceUnit
import HackVM.Source.Reader

/-!
# Sessions with a reader

A reader can be asked four things, in any order and any number of times. Whatever is asked, it gives
out one and the same stream, the readings of the unit's code lines (`readings`), and the warnings of
the lines that it has read.

* `pending` is what is still to be read: the line that is held and those behind it. A reader holds
  no line only if none is left (`Settled`), so looking ahead neither loses a line nor makes one up.
* `next?_eq_some` says all that reading a line does to a reader, `next?_eq_none_iff` when there is
  none.
* `feed` hands the instructions that are read on to an action, as a run does. `feed_eq` says that it
  comes to what the lines of the unit come to one by one, so lowering and checking a unit
  (`Writer.lowerUnit_eq_feed`, `SourceUnit.check_eq_feed`) are loops over a reader.
* `Spent` says what a reader has given out on the way to another one. A single call spends
  (`spent_answer`), so a session does (`spent_answers`).

Main statement: `session_follows_stream`.
-/

namespace HackVM.Source

open Text

namespace Reader

/-! ## What is still to be read -/

/-- The code lines that are still to be read. -/
def pending (r : Reader) : List CodeLine :=
  r.held.toList ++ CodeLine.ofLines (r.passed + 1) r.offset r.unread

/-- A reader that holds no line is at the end. -/
def Settled (r : Reader) : Prop :=
  r.held = none → r.unread = []

/-- A line of code is held, and the lines behind it wait. -/
theorem seek_of_some {passed offset : Nat} {line : List Char} {l : CodeLine}
    (h : CodeLine.ofPhysical? (passed + 1) offset line = some l) (warnings : List Diagnostic)
    (rest : List (List Char)) :
    seek warnings passed offset (line :: rest) =
      ⟨rest, passed + 1, offset + byteLength line, some l, warnings⟩ := by
  simp only [seek, h]

/-- A line without code is passed over. -/
theorem seek_of_none {passed offset : Nat} {line : List Char}
    (h : CodeLine.ofPhysical? (passed + 1) offset line = none) (warnings : List Diagnostic)
    (rest : List (List Char)) :
    seek warnings passed offset (line :: rest) =
      seek warnings (passed + 1) (offset + byteLength line) rest := by
  simp only [seek, h]

/-- Seeking comes to a reader that has all code lines of the text before it, and keeps the
warnings. -/
theorem seek_spec (warnings : List Diagnostic) (passed offset : Nat) (ls : List (List Char)) :
    (seek warnings passed offset ls).Settled ∧
      (seek warnings passed offset ls).pending = CodeLine.ofLines (passed + 1) offset ls ∧
      (seek warnings passed offset ls).warnings = warnings := by
  induction ls generalizing passed offset with
  | nil => exact ⟨fun _ => rfl, rfl, rfl⟩
  | cons line rest ih =>
      rw [CodeLine.ofLines]
      rcases h : CodeLine.ofPhysical? (passed + 1) offset line with _ | l
      · rw [seek_of_none h]
        exact ih (passed + 1) (offset + byteLength line)
      · rw [seek_of_some h]
        exact ⟨nofun, rfl, rfl⟩

/-- A new reader is settled. -/
theorem settled_ofSource (source : String) : (ofSource source).Settled :=
  (seek_spec [] 0 0 _).1

/-- Every line of code is still to come. -/
theorem pending_ofSource (source : String) : (ofSource source).pending = codeLines source :=
  (seek_spec [] 0 0 _).2.1

theorem warnings_ofSource (source : String) : (ofSource source).warnings = [] :=
  (seek_spec [] 0 0 _).2.2

/-! ## Reading a line -/

variable {r : Reader}

/-- **What reading a line does.** The reader gives out what the first pending line reads as, goes on
to the one behind it, and keeps its warnings after those it had. -/
theorem next?_eq_some {step : Except SyntaxError (Located Instruction) × Reader}
    (h : r.next? = some step) :
    ∃ l, r.pending = l :: step.2.pending ∧ step.1 = l.read.result ∧ step.2.Settled ∧
      step.2.warnings = r.warnings ++ l.read.warnings := by
  unfold next? at h
  rcases hheld : r.held with _ | l
  · rw [hheld] at h
    cases h
  · rw [hheld] at h
    cases h
    obtain ⟨hsettled, hpending, hwarnings⟩ :=
      seek_spec (r.warnings ++ l.read.warnings) r.passed r.offset r.unread
    refine ⟨l, ?_, rfl, hsettled, hwarnings⟩
    show r.held.toList ++ _ = l :: Reader.pending _
    rw [hpending, hheld]
    rfl

/-- A settled reader holds nothing exactly at the end. -/
theorem held_eq_none_iff (hr : r.Settled) : r.held = none ↔ r.pending = [] := by
  constructor
  · intro h
    show r.held.toList ++ _ = []
    rw [h, hr h]
    rfl
  · intro h
    exact Option.toList_eq_nil_iff.mp (List.append_eq_nil_iff.mp h).1

/-- It gives nothing more exactly at the end. -/
theorem next?_eq_none_iff (hr : r.Settled) : r.next? = none ↔ r.pending = [] := by
  rw [← held_eq_none_iff hr]
  unfold next?
  rcases r.held with _ | l
  · exact ⟨fun _ => rfl, fun _ => rfl⟩
  · exact ⟨nofun, nofun⟩

/-- It says that there is more exactly before the end. -/
theorem hasMore_iff (hr : r.Settled) : r.hasMore = true ↔ r.pending ≠ [] := by
  rw [ne_eq, ← held_eq_none_iff hr]
  exact Option.isSome_iff_ne_none

/-- Either everything is read, or the next line can be read. -/
theorem next?_cases (hr : r.Settled) :
    (r.pending = [] ∧ r.next? = none) ∨
      ∃ l r', r.pending = l :: r'.pending ∧ r.next? = some (l.read.result, r') ∧ r'.Settled ∧
        r'.warnings = r.warnings ++ l.read.warnings := by
  rcases hnext : r.next? with _ | ⟨result, r'⟩
  · exact .inl ⟨(next?_eq_none_iff hr).mp hnext, rfl⟩
  · obtain ⟨l, hpending, rfl, hsettled, hwarnings⟩ := next?_eq_some hnext
    exact .inr ⟨l, r', hpending, rfl, hsettled, hwarnings⟩

/-! ## Reading to the end -/

/-- A line that was read is no longer pending. -/
theorem length_pending_lt {step : Except SyntaxError (Located Instruction) × Reader}
    (h : r.next? = some step) : step.2.pending.length < r.pending.length := by
  obtain ⟨l, hpending, -⟩ := next?_eq_some h
  rw [hpending]
  exact Nat.lt_succ_self _

/-- Reads on until no line is left, past lines that cannot be read: what the lines read as, and the
reader at the end. -/
def drain (r : Reader) : List (Except SyntaxError (Located Instruction)) × Reader :=
  match _h : r.next? with
  | none => ([], r)
  | some step => (step.1 :: step.2.drain.1, step.2.drain.2)
termination_by r.pending.length
decreasing_by
  all_goals exact length_pending_lt ‹_›

/-- Reading to the end gives what every pending line reads as, and has met all of their warnings. -/
theorem drain_spec (hr : r.Settled) :
    r.drain.1 = r.pending.map (fun l => l.read.result) ∧ r.drain.2.next? = none ∧
      r.drain.2.warnings = r.warnings ++ r.pending.flatMap fun l => l.read.warnings := by
  induction h : r.pending.length using Nat.strongRecOn generalizing r with
  | ind n ih =>
      rw [drain]
      split
      · next hnext =>
          rw [(next?_eq_none_iff hr).mp hnext]
          exact ⟨rfl, hnext, (List.append_nil _).symm⟩
      · next step hnext =>
          obtain ⟨l, hpending, hresult, hsettled, hwarnings⟩ := next?_eq_some hnext
          rw [hpending, List.length_cons] at h
          obtain ⟨hresults, hend, htaken⟩ := ih step.2.pending.length (by omega) hsettled rfl
          rw [hpending, List.map_cons, List.flatMap_cons, ← List.append_assoc, ← hwarnings, hresult]
          exact ⟨congrArg _ hresults, hend, htaken⟩

/-- A fresh reader gives out the readings of the unit. -/
theorem drain_ofSource (source : String) :
    (ofSource source).drain.1 = (readings source).map Reading.result ∧
      (ofSource source).drain.2.warnings = (readings source).flatMap Reading.warnings := by
  obtain ⟨hresults, -, hwarnings⟩ := drain_spec (settled_ofSource source)
  rw [pending_ofSource] at hresults hwarnings
  rw [warnings_ofSource, List.nil_append] at hwarnings
  rw [hresults, hwarnings, readings, List.map_map, List.flatMap_map]
  exact ⟨rfl, rfl⟩

/-! ## Reading for the instructions -/

/-- Hands each instruction that is read to `act`, until a line or an action fails or no line is
left, and takes the warnings then. -/
def feed {σ : Type} (act : σ → Instruction → Except Error Unit × σ) (s : σ) (r : Reader) :
    Outcome σ :=
  match _h : r.next? with
  | none => ⟨[], r.takeWarnings.1, none, s⟩
  | some step =>
    match step.1 with
    | .error e => ⟨[], step.2.takeWarnings.1, some (.source e), s⟩
    | .ok i =>
      match act s i.value with
      | (.error e, s) => ⟨[], step.2.takeWarnings.1, some e, s⟩
      | (.ok (), s) =>
        let o := step.2.feed act s
        { o with done := i.value :: o.done }
termination_by r.pending.length
decreasing_by
  all_goals exact length_pending_lt ‹_›

/-- **Looking one line ahead makes no difference.** What comes of handing on the instructions that a
reader reads is what comes of its pending lines, with the warnings it had in front. -/
theorem feed_eq {σ : Type} (act : σ → Instruction → Except Error Unit × σ) (s : σ)
    (hr : r.Settled) :
    let o := readEach act s r.pending
    r.feed act s = ⟨o.done, r.warnings ++ o.warnings, o.failure, o.final⟩ := by
  dsimp only
  induction h : r.pending.length using Nat.strongRecOn generalizing r s with
  | ind n ih =>
      rw [feed]
      split
      · next hnext =>
          rw [(next?_eq_none_iff hr).mp hnext]
          simp [readEach, takeWarnings]
      · next step hnext =>
          obtain ⟨l, hpending, hresult, hsettled, hwarnings⟩ := next?_eq_some hnext
          rw [hpending, List.length_cons] at h
          rw [hresult, hpending, readEach]
          cases hread : l.read.result with
          | error e => simp only [takeWarnings, hwarnings]
          | ok i =>
              rcases hact : act s i.value with ⟨_ | _, s'⟩
              · simp only [hact, takeWarnings, hwarnings]
              · have hrest := ih step.2.pending.length (by omega) s' hsettled rfl
                simp only [hact, hrest, hwarnings, List.append_assoc]

/-- A fresh reader comes to what the code lines of the unit come to. -/
theorem feed_ofSource {σ : Type} (act : σ → Instruction → Except Error Unit × σ) (s : σ)
    (source : String) : (ofSource source).feed act s = readEach act s (codeLines source) := by
  rw [feed_eq act s (settled_ofSource source), pending_ofSource, warnings_ofSource, List.nil_append]

/-! ## Calls -/

/-- What can be asked of a reader. -/
inductive Call where
  | hasMore
  | advance
  | next
  | takeWarnings
  deriving DecidableEq, Repr

/-- What a reader answers. -/
inductive Answer where
  | more (yes : Bool)
  | advanced (result : Except Error (Located Instruction))
  /-- There is no result at the end. -/
  | next (result : Option (Except SyntaxError (Located Instruction)))
  | warnings (ds : List Diagnostic)

/-- What a call read, if it read a line. -/
def Answer.read? : Answer → Option (Except SyntaxError (Located Instruction))
  | .advanced (.ok i) => some (.ok i)
  | .advanced (.error (.source e)) => some (.error e)
  | .next result => result
  | _ => none

/-- The warnings that a call handed over. -/
def Answer.taken : Answer → List Diagnostic
  | .warnings ds => ds
  | _ => []

/-- The answer to a call, and the reader afterwards. -/
def answer (r : Reader) : Call → Answer × Reader
  | .hasMore => (.more r.hasMore, r)
  | .advance => (.advanced r.advance.1, r.advance.2)
  | .next =>
    match r.next? with
    | none => (.next none, r)
    | some step => (.next (some step.1), step.2)
  | .takeWarnings => (.warnings r.takeWarnings.1, r.takeWarnings.2)

/-- The answers to calls, one after the other. -/
def answers (r : Reader) : List Call → List Answer
  | [] => []
  | call :: rest => (r.answer call).1 :: (r.answer call).2.answers rest

/-- The reader after calls. -/
def after (r : Reader) (calls : List Call) : Reader :=
  calls.foldl (fun r call => (r.answer call).2) r

/-- Calls are answered in their order. -/
theorem answers_append (r : Reader) (calls more : List Call) :
    r.answers (calls ++ more) = r.answers calls ++ (r.after calls).answers more := by
  induction calls generalizing r with
  | nil => rfl
  | cons call rest ih => exact congrArg _ (ih (r.answer call).2)

/-- With no line left, reading leaves the reader as it is. -/
theorem answer_of_done (h : r.next? = none) :
    r.answer .next = (.next none, r) ∧
      r.answer .advance = (.advanced (.error (.misuse .advancePastEnd)), r) := by
  constructor
  · simp only [answer, h]
  · simp only [answer, advance, h]

/-- Both ways to read a line give what it reads as, and go on to the same reader. -/
theorem answer_of_next {x : Except SyntaxError (Located Instruction)} {r' : Reader}
    (h : r.next? = some (x, r')) :
    r.answer .next = (.next (some x), r') ∧
      r.answer .advance = (.advanced (x.mapError .source), r') := by
  constructor
  · simp only [answer, h]
  · simp only [answer, advance, h]

/-- An answer to `advance` tells the result that was read. -/
theorem read?_advanced (x : Except SyntaxError (Located Instruction)) :
    (Answer.advanced (x.mapError .source)).read? = some x := by
  rcases x with e | i
  · rfl
  · rfl

/-! ## What a session spends -/

/-- Between two readers these answers were given: they read the first `k` of the pending lines, and
the warnings they handed over, with those that are left, are the ones there were and those of the
`k` lines. -/
structure Spent (r : Reader) (given : List Answer) (k : Nat) (r' : Reader) : Prop where
  le : k ≤ r.pending.length
  read_eq : given.filterMap Answer.read? = (r.pending.take k).map fun l => l.read.result
  pending_eq : r'.pending = r.pending.drop k
  settled : r'.Settled
  warnings_eq : given.flatMap Answer.taken ++ r'.warnings =
    r.warnings ++ (r.pending.take k).flatMap fun l => l.read.warnings

/-- As many results were given out as lines were read. -/
theorem Spent.length_read {r' : Reader} {given : List Answer} {k : Nat} (h : r.Spent given k r') :
    (given.filterMap Answer.read?).length = k := by
  rw [h.read_eq, List.length_map, List.length_take, Nat.min_eq_left h.le]

/-- There is more exactly while lines are left. -/
theorem Spent.hasMore_eq {r' : Reader} {given : List Answer} {k : Nat} (h : r.Spent given k r') :
    r'.hasMore = decide (k < r.pending.length) := by
  rw [Bool.eq_iff_iff, hasMore_iff h.settled, h.pending_eq, decide_eq_true_iff, ne_eq,
    List.drop_eq_nil_iff, Nat.not_le]

/-- The line to be read next is the first that was not read. -/
theorem Spent.next?_eq {r' : Reader} {given : List Answer} {k : Nat} (h : r.Spent given k r')
    {l : CodeLine} (hl : r.pending[k]? = some l) : ∃ r'', r'.next? = some (l.read.result, r'') := by
  rw [← List.head?_drop, ← h.pending_eq] at hl
  rcases next?_cases h.settled with ⟨hnone, -⟩ | ⟨first, r'', hcons, hnext, -, -⟩
  · rw [hnone] at hl
    cases hl
  · rw [hcons] at hl
    cases hl
    exact ⟨r'', hnext⟩

/-- When every line is spent, there is nothing more. -/
theorem Spent.next?_eq_none {r' : Reader} {given : List Answer}
    (h : r.Spent given r.pending.length r') : r'.next? = none := by
  rw [next?_eq_none_iff h.settled, h.pending_eq, List.drop_length]

theorem Spent.refl (hr : r.Settled) : r.Spent [] 0 r :=
  ⟨Nat.zero_le _, rfl, rfl, hr, (List.append_nil _).symm⟩

/-- What was spent before and after adds up. -/
theorem Spent.trans {r' r'' : Reader} {given more : List Answer} {k j : Nat}
    (h : r.Spent given k r') (h' : r'.Spent more j r'') : r.Spent (given ++ more) (k + j) r'' := by
  have hle := h'.le
  have hread := h'.read_eq
  have hpending := h'.pending_eq
  have hwarnings := h'.warnings_eq
  rw [h.pending_eq] at hle hread hpending hwarnings
  rw [List.length_drop] at hle
  have hfits := h.le
  refine ⟨by omega, ?_, ?_, h'.settled, ?_⟩
  · rw [List.filterMap_append, h.read_eq, hread, List.take_add, List.map_append]
  · rw [hpending, List.drop_drop]
  · rw [List.flatMap_append, List.append_assoc, hwarnings, ← List.append_assoc, h.warnings_eq,
      List.append_assoc, List.take_add, List.flatMap_append]

/-- A call that reads no line and hands over what it takes. -/
theorem Spent.of_kept {r' : Reader} {a : Answer} (hr : r'.Settled) (hread : a.read? = none)
    (hpending : r'.pending = r.pending) (hwarnings : a.taken ++ r'.warnings = r.warnings) :
    r.Spent [a] 0 r' := by
  refine ⟨Nat.zero_le _, ?_, hpending, hr, ?_⟩
  · rw [List.filterMap_cons_none hread]
    rfl
  · rw [List.flatMap_singleton, hwarnings]
    exact (List.append_nil _).symm

/-- A call that reads a line and hands over no warning. -/
theorem Spent.of_read {r' : Reader} {a : Answer} {l : CodeLine} (hr : r'.Settled)
    (hread : a.read? = some l.read.result) (htaken : a.taken = [])
    (hpending : r.pending = l :: r'.pending)
    (hwarnings : r'.warnings = r.warnings ++ l.read.warnings) : r.Spent [a] 1 r' := by
  have hfirst : r.pending.take 1 = [l] := by
    rw [hpending]
    rfl
  refine ⟨?_, ?_, ?_, hr, ?_⟩
  · rw [hpending]
    exact Nat.succ_le_succ (Nat.zero_le _)
  · rw [List.filterMap_cons_some hread, hfirst]
    rfl
  · rw [hpending]
    rfl
  · rw [List.flatMap_singleton, htaken, hwarnings, hfirst, List.flatMap_singleton, List.nil_append]

/-- **A call spends at most one line.** -/
theorem spent_answer (hr : r.Settled) (call : Call) :
    ∃ k, r.Spent [(r.answer call).1] k (r.answer call).2 := by
  cases call with
  | hasMore => exact ⟨0, .of_kept hr rfl rfl rfl⟩
  | takeWarnings =>
      have hkept : r.answer .takeWarnings = (.warnings r.warnings, { r with warnings := [] }) := rfl
      rw [hkept]
      exact ⟨0, .of_kept hr rfl rfl (List.append_nil _)⟩
  | next =>
      rcases next?_cases hr with ⟨-, hnone⟩ | ⟨l, r', hpending, hnext, hsettled, hwarnings⟩
      · rw [(answer_of_done hnone).1]
        exact ⟨0, .of_kept hr rfl rfl rfl⟩
      · rw [(answer_of_next hnext).1]
        exact ⟨1, .of_read hsettled rfl rfl hpending hwarnings⟩
  | advance =>
      rcases next?_cases hr with ⟨-, hnone⟩ | ⟨l, r', hpending, hnext, hsettled, hwarnings⟩
      · rw [(answer_of_done hnone).2]
        exact ⟨0, .of_kept hr rfl rfl rfl⟩
      · rw [(answer_of_next hnext).2]
        exact ⟨1, .of_read hsettled (read?_advanced _) rfl hpending hwarnings⟩

/-- **A session spends lines in order.** -/
theorem spent_answers (hr : r.Settled) (calls : List Call) :
    ∃ k, r.Spent (r.answers calls) k (r.after calls) := by
  induction calls generalizing r with
  | nil => exact ⟨0, .refl hr⟩
  | cons call rest ih =>
      obtain ⟨k, hfirst⟩ := spent_answer hr call
      obtain ⟨j, hrest⟩ := ih hfirst.settled
      exact ⟨k + j, hfirst.trans hrest⟩

/-- **Every session reads the same stream.** After any calls on a reader of a unit, with the stream
being what a fresh reader gives out when it is read to the end:

* what the calls have read so far is the beginning of the stream;
* there is more exactly while the stream goes on, and then both ways to read a line give its next
  element;
* at the end reading gives nothing, or is a misuse, and leaves the reader as it is;
* the stream is what the code lines of the unit read as, and if the warnings are taken now, then all
  that were ever taken are those of the lines read so far, in order. -/
theorem session_follows_stream (source : String) (calls : List Call) :
    let stream := (ofSource source).drain.1
    let read := ((ofSource source).answers calls).filterMap Answer.read?
    let r := (ofSource source).after calls
    read <+: stream ∧
    r.answer .hasMore = (.more (decide (read.length < stream.length)), r) ∧
    (∀ x, stream[read.length]? = some x →
      (r.answer .next).1 = .next (some x) ∧
        (r.answer .advance).1 = .advanced (x.mapError .source)) ∧
    (read.length = stream.length →
      r.answer .next = (.next none, r) ∧
      r.answer .advance = (.advanced (.error (.misuse .advancePastEnd)), r)) ∧
    stream = (readings source).map Reading.result ∧
    ((ofSource source).answers (calls ++ [Call.takeWarnings])).flatMap Answer.taken =
      ((readings source).take read.length).flatMap Reading.warnings := by
  intro stream read r
  obtain ⟨k, hspent⟩ := spent_answers (settled_ofSource source) calls
  have hlength : read.length = k := hspent.length_read
  have hpending : (ofSource source).pending = codeLines source := pending_ofSource source
  have hstream : stream = (codeLines source).map fun l => l.read.result :=
    (drain_ofSource source).1.trans List.map_map
  have hcount : stream.length = (codeLines source).length := by rw [hstream, List.length_map]
  rw [hlength]
  refine ⟨?_, ?_, ?_, ?_, (drain_ofSource source).1, ?_⟩
  · show List.filterMap Answer.read? _ <+: stream
    rw [hspent.read_eq, hpending, hstream]
    exact (List.take_prefix k _).map _
  · have hmore : r.hasMore = decide (k < stream.length) := by
      rw [hspent.hasMore_eq, hpending, hcount]
    exact congrArg (fun b => (Answer.more b, r)) hmore
  · intro x hx
    rw [hstream, List.getElem?_map, Option.map_eq_some_iff] at hx
    obtain ⟨l, hl, rfl⟩ := hx
    rw [← hpending] at hl
    obtain ⟨r', hnext⟩ := hspent.next?_eq hl
    obtain ⟨hanswer, hadvance⟩ := answer_of_next hnext
    exact ⟨congrArg Prod.fst hanswer, congrArg Prod.fst hadvance⟩
  · intro hend
    rw [hend, hcount, ← hpending] at hspent
    exact answer_of_done hspent.next?_eq_none
  · have htaken := hspent.warnings_eq
    rw [hpending, warnings_ofSource, List.nil_append] at htaken
    rw [answers_append, List.flatMap_append, readings, ← List.map_take, List.flatMap_map, ← htaken]
    exact congrArg _ (List.append_nil _)

end Reader

end HackVM.Source

namespace HackVM

open Source

/-- **Lowering a unit is reading it line by line** and lowering each instruction as soon as it is
read. -/
theorem Writer.lowerUnit_eq_feed (w : Writer) (u : SourceUnit) :
    w.lowerUnit u = (Reader.ofSource u.source).feed Writer.lower (w.setUnit u.name) :=
  (Reader.feed_ofSource _ _ _).symm

/-- **Checking a unit is reading it line by line.** -/
theorem SourceUnit.check_eq_feed (u : SourceUnit) :
    u.check = (Reader.ofSource u.source).feed (fun _ _ => (.ok (), ())) () :=
  (Reader.feed_ofSource _ _ _).symm

end HackVM
