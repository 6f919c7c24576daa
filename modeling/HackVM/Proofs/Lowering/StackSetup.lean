import HackVM.Proofs.Program.RunAssembly

/-!
# Where the stack is set up

The bootstrap sets the stack pointer to a number: `D=A`, `@SP`, `M=D`. The code of instructions
holds each of these lines, but never all three in a row. A `Watch` reads lines and looks out for
them:

* `quiet_block`: the code of an instruction leaves a watch idle, so code can be put together freely;
* `watch_of_setup`: a text with the three lines in it does not, whatever the names in its lines are.

Main statement (`before_eq_empty`): in a program that starts with a bootstrap, the text of the
bootstrap stands nowhere but at the start; in code without one it stands nowhere
(`not_quiet_of_occurs`).
-/

namespace HackVM.Lowering

open Text Hack

/-! ## Spelling -/

/-- A register is one character, which opens no comment, label or load. -/
theorem Register.text_head (r : Register) :
    ∃ c, r.text.toList = [c] ∧ c ≠ '/' ∧ c ≠ '(' ∧ c ≠ '@' := by
  cases r <;> exact ⟨_, rfl, by decide, by decide, by decide⟩

/-- An assignment is known by its text. -/
theorem AsmLine.eq_assign_of_text {l : AsmLine} {r : Register} {v : Computation}
    (h : l.text = (AsmLine.assign r v).text) : l = .assign r v := by
  have hchars : l.text.toList = r.text.toList ++ '=' :: v.text.toList := by
    rw [h]
    simp [AsmLine.text, String.toList_append]
  obtain ⟨c, hc, hslash, hparen, hat⟩ := Register.text_head r
  cases l with
  | comment text =>
      simp only [AsmLine.text, String.toList_append, hc] at hchars
      exact absurd (List.cons.inj hchars).1.symm hslash
  | define x =>
      simp only [AsmLine.text, String.toList_append, hc] at hchars
      exact absurd (List.cons.inj hchars).1.symm hparen
  | load o =>
      simp only [AsmLine.text, String.toList_append, hc] at hchars
      exact absurd (List.cons.inj hchars).1.symm hat
  | assign r' v' =>
      have hread : Compute.ofText (r'.text.toList ++ '=' :: v'.text.toList) =
          Compute.ofText (r.text.toList ++ '=' :: v.text.toList) := by
        rw [← hchars]
        simp [AsmLine.text, String.toList_append]
      rw [Compute.ofText_assign, Compute.ofText_assign] at hread
      injection hread with hdest hvalue
      injection hvalue with hvalue
      rw [hvalue]
      cases r <;> cases r' <;> first | rfl | simp at hdest
  | branch v' j =>
      have hsemi : ';' ∈ r.text.toList ++ '=' :: v.text.toList := by
        rw [← hchars]
        simp [AsmLine.text, String.toList_append]
      have hr := notMem_of_isMnemonic r.isMnemonic_text (c := ';') rfl
      have hv := notMem_of_isMnemonic v.isMnemonic_text (c := ';') rfl
      simp [hr, hv] at hsemi

/-- A line that reads `@SP` loads a symbol of that name. -/
theorem AsmLine.eq_load_of_text {l : AsmLine} (h : l.text = "@SP") :
    ∃ x : Symbol, l = .load (.symbol x) ∧ x.text = "SP" := by
  have hchars : l.text.toList = ['@', 'S', 'P'] := by
    rw [h]
    rfl
  cases l with
  | comment text => simp [AsmLine.text, String.toList_append] at hchars
  | define x => simp [AsmLine.text, String.toList_append] at hchars
  | load o =>
      have htext : o.text.toList = ['S', 'P'] := by
        simpa [AsmLine.text, String.toList_append] using hchars
      cases o with
      | number n =>
          have hdigit : 'S' ∈ Decimal.digits n.toNat := by
            rw [← Decimal.toList_text]
            simp only [Operand.text] at htext
            simp [htext]
          exact absurd hdigit (Decimal.notMem_digits (by decide) _)
      | symbol x => exact ⟨x, rfl, String.toList_injective htext⟩
  | assign r v =>
      obtain ⟨c, hc, -, -, hat⟩ := Register.text_head r
      simp only [AsmLine.text, String.toList_append, hc] at hchars
      exact absurd (List.cons.inj hchars).1 hat
  | branch v j =>
      obtain ⟨c, cs, hc, -, hat⟩ := v.text_head
      simp only [AsmLine.text, String.toList_append, hc] at hchars
      exact absurd (List.cons.inj hchars).1 hat

/-! ## Watches -/

/-- How much of a setup of the stack the last lines are. -/
inductive Watch where
  | idle
  /-- `D=A`. -/
  | copied
  /-- `D=A`, `@SP`. -/
  | pointed
  /-- All of it, here or further up. -/
  | found
  deriving DecidableEq, Repr

/-- Reads one more line. -/
def Watch.step : Watch → AsmLine → Watch
  | .found, _ => .found
  | _, .assign .d (.copy .a) => .copied
  | .copied, .load (.symbol x) => if x.text = "SP" then .pointed else .idle
  | .pointed, .assign .m (.copy .d) => .found
  | _, _ => .idle

/-- Reads lines. -/
def watch (s : Watch) (ls : List AsmLine) : Watch :=
  ls.foldl Watch.step s

/-- Watching goes on where it stopped. -/
theorem watch_append (s : Watch) (xs ys : List AsmLine) :
    watch s (xs ++ ys) = watch (watch s xs) ys :=
  List.foldl_append

/-- Code that a watch finds nothing in, not even a beginning at its end. -/
def Quiet (ls : List AsmLine) : Prop :=
  watch .idle ls = .idle

/-- Quiet code behind quiet code is quiet. -/
theorem Quiet.append {xs ys : List AsmLine} (hxs : Quiet xs) (hys : Quiet ys) :
    Quiet (xs ++ ys) := by
  rw [Quiet, watch_append, hxs]
  exact hys

/-- Comments are quiet. -/
theorem quiet_comments (texts : List String) : Quiet (texts.map .comment) := by
  induction texts with
  | nil => rfl
  | cons text texts ih => exact ih

/-- The code of an address is quiet. -/
theorem quiet_addressBlock {unit : Option String} {seg : Segment} {n : Word} {block : List AsmLine}
    (h : addressBlock unit seg n = .ok block) : Quiet block := by
  rcases addressBlock_cases h with rfl | ⟨base, r, rfl⟩ | ⟨u, -, rfl⟩
  · rfl
  · cases r <;> rfl
  · rfl

/-- **The code of an instruction sets up no stack.** -/
theorem quiet_block {s : Scope} {i : Instruction} {block : List AsmLine}
    (h : s.block i = .ok block) : Quiet block := by
  cases i with
  | arithmetic op =>
      cases h
      cases op <;> rfl
  | push seg n =>
      obtain ⟨address, haddress, rfl⟩ := pushBlock_eq_ok h
      rw [List.append_assoc]
      refine (quiet_addressBlock haddress).append ?_
      split_ifs <;> rfl
  | pop seg n =>
      obtain ⟨address, haddress, rfl⟩ := popBlock_eq_ok h
      rw [List.append_assoc, List.append_assoc]
      exact (quiet_addressBlock haddress).append rfl
  | _ =>
      cases h
      rfl

/-- An instruction that is misused has no code. -/
theorem Site.code_of_misuse {s : Scope} {i : Instruction} {comment : Option String} {m : Misuse}
    (h : s.block i = .error m) : Site.code ⟨s, .perform i, comment⟩ = [] := by
  simp [Site.code, h, Except.toOption]

/-- The code of an instruction is quiet. -/
theorem quiet_code (s : Scope) (i : Instruction) (comment : Option String) :
    Quiet (Site.code ⟨s, .perform i, comment⟩) := by
  cases hblock : s.block i with
  | error m =>
      rw [Site.code_of_misuse hblock]
      rfl
  | ok block =>
      rw [Site.code_of_block hblock]
      exact quiet_block hblock

/-- So is the code of an instruction with its comment. -/
theorem quiet_lines (s : Scope) (i : Instruction) (comment : Option String) (annotate : Bool) :
    Quiet (Site.lines annotate ⟨s, .perform i, comment⟩) := by
  unfold Site.lines
  split_ifs
  · exact (quiet_comments _).append (quiet_code s i comment)
  · exact quiet_code s i comment

/-! ## Texts -/

/-- A line with its line feed. -/
def AsmLine.line (l : AsmLine) : List Char :=
  l.text.toList ++ ['\n']

/-- Lines that are written alike have the same text. -/
theorem AsmLine.text_eq_of_line {l m : AsmLine} (h : l.line = m.line) : l.text = m.text :=
  String.toList_injective (List.append_cancel_right h)

/-- Lines that hold no line feed are the lines of their text. -/
theorem lines_render_append {ls : List AsmLine} (h : ∀ l ∈ ls, '\n' ∉ l.text.toList)
    (rest : List Char) :
    lines ((render ls).toList ++ rest) = ls.map AsmLine.line ++ lines rest := by
  induction ls with
  | nil => rfl
  | cons l ls ih =>
      rw [List.forall_mem_cons] at h
      have htext : (render (l :: ls)).toList ++ rest =
          l.text.toList ++ '\n' :: ((render ls).toList ++ rest) := by
        simp [render, String.toList_append]
      rw [htext, lines_line h.1, ih h.2]
      rfl

/-- The three lines that set up a stack. -/
def stackSetup : List AsmLine :=
  [copyTo .d .a, loadCell .sp, copyTo .m .d]

/-- Whatever a watch has seen before, it finds a setup among lines, by their text. -/
theorem watch_of_setup {ls : List AsmLine} {before behind : List (List Char)}
    (h : ls.map AsmLine.line = before ++ stackSetup.map AsmLine.line ++ behind) (s : Watch) :
    watch s ls = .found := by
  obtain ⟨xs, ys, rfl, -, hys⟩ := List.map_eq_append_iff.mp (h.trans (List.append_assoc _ _ _))
  obtain ⟨l, ys, rfl, hl, hys⟩ := List.map_eq_cons_iff.mp hys
  obtain ⟨m, ys, rfl, hm, hys⟩ := List.map_eq_cons_iff.mp hys
  obtain ⟨n, ys, rfl, hn, -⟩ := List.map_eq_cons_iff.mp hys
  obtain rfl := AsmLine.eq_assign_of_text (AsmLine.text_eq_of_line hl)
  obtain ⟨x, rfl, hx⟩ := AsmLine.eq_load_of_text (AsmLine.text_eq_of_line hm)
  obtain rfl := AsmLine.eq_assign_of_text (AsmLine.text_eq_of_line hn)
  have hfound : ∀ ls, watch .found ls = .found := by
    intro ls
    induction ls with
    | nil => rfl
    | cons l ls ih => exact ih
  have hthree : ∀ t : Watch, (((t.step (.assign .d (.copy .a))).step (.load (.symbol x))).step
      (.assign .m (.copy .d))) = .found := by
    intro t
    cases t <;> simp [Watch.step, hx]
  rw [watch_append]
  change watch (((Watch.step _ _).step _).step _) ys = _
  rw [hthree, hfound]

/-- A setup that was found in front of quiet code is the first one. -/
theorem eq_head_of_setup {head tail : List AsmLine} {before behind : List (List Char)}
    (hhead : copyTo .d .a ∉ head) (htail : Quiet tail)
    (h : (head ++ copyTo .d .a :: tail).map AsmLine.line =
      before ++ stackSetup.map AsmLine.line ++ behind) :
    before = head.map AsmLine.line := by
  rw [List.map_append, List.append_assoc] at h
  rcases List.append_eq_append_iff.mp h with ⟨extra, hbefore, htexts⟩ | ⟨extra, hbefore, htexts⟩
  · cases extra with
    | nil => rw [hbefore, List.append_nil]
    | cons first extra =>
        -- the setup would stand in the quiet code
        rw [List.map_cons, List.cons_append, ← List.append_assoc] at htexts
        have hsetup := (List.cons.inj htexts).2
        have hfound := watch_of_setup hsetup .idle
        rw [htail] at hfound
        cases hfound
  · cases extra with
    | nil => rw [hbefore, List.append_nil]
    | cons first extra =>
        -- the head would hold the first line of the setup
        have hmem : first ∈ head.map AsmLine.line := by simp [hbefore]
        obtain ⟨l, hl, hline⟩ := List.mem_map.mp hmem
        have hcopy : (copyTo .d .a).line = first := (List.cons.inj htexts).1
        obtain rfl := AsmLine.eq_assign_of_text (AsmLine.text_eq_of_line (hline.trans hcopy.symm))
        exact absurd hl hhead

/-! ## Bootstraps -/

/-- What a bootstrap writes in front of the setup of the stack. -/
def bootstrapHead (options : Options) : List AsmLine :=
  (if options.annotate then [.comment "bootstrap"] else []) ++ [loadNumber options.stackBase]

/-- What a bootstrap writes when no label is taken yet. -/
def bootstrapLines (options : Options) : List AsmLine :=
  bootstrapHead options ++ stackSetup ++ callBlock options.entry 0 0

/-- The text of a bootstrap. -/
def bootstrapText (options : Options) : String :=
  render (bootstrapLines options)

section occurrence

variable {options : Options} {ls : List AsmLine} (hls : ∀ l ∈ ls, '\n' ∉ l.text.toList)
  {before behind : String} (h : render ls = before ++ bootstrapText options ++ behind)
include hls h

/-- Where the text of a bootstrap stands, a setup stands among the lines, behind whole lines. -/
theorem setup_of_occurs : ∃ rest, ls.map AsmLine.line =
    lines (before.toList ++ (render (bootstrapHead options)).toList) ++
      stackSetup.map AsmLine.line ++ rest := by
  obtain ⟨body, hbody⟩ : ∃ body, (render (bootstrapHead options)).toList = body ++ ['\n'] := by
    refine ⟨(render (if options.annotate then [AsmLine.comment "bootstrap"] else [])).toList ++
      (loadNumber options.stackBase).text.toList, ?_⟩
    simp [bootstrapHead, render, String.toList_append]
  have hchars : (render ls).toList ++ [] =
      before.toList ++ body ++ '\n' :: ((render stackSetup).toList ++
      ((render (callBlock options.entry 0 0)).toList ++ behind.toList)) := by
    rw [h, bootstrapText, bootstrapLines, render_append, render_append, String.toList_append,
      String.toList_append, String.toList_append, String.toList_append, hbody]
    simp
  have hlines := congrArg lines hchars
  have hsetup : ∀ l ∈ stackSetup, '\n' ∉ l.text.toList := by decide
  rw [lines_render_append hls, lines_append_newline, lines_render_append hsetup,
    ← List.append_assoc, List.append_assoc before.toList, ← hbody] at hlines
  exact ⟨_, (List.append_nil _).symm.trans hlines⟩

/-- Code that is quiet holds no text of a bootstrap. -/
theorem not_quiet_of_occurs : ¬ Quiet ls := by
  intro hquiet
  obtain ⟨rest, hrest⟩ := setup_of_occurs hls h
  have hfound := watch_of_setup hrest .idle
  rw [hquiet] at hfound
  cases hfound

/-- **The text of a bootstrap stands at the start or nowhere**, if the code behind the first one is
quiet. -/
theorem before_eq_empty {rest : List AsmLine} (hstart : ls = bootstrapLines options ++ rest)
    (hrest : Quiet rest) : before = "" := by
  obtain ⟨behind, hsetup⟩ := setup_of_occurs hls h
  have hhead : copyTo .d .a ∉ bootstrapHead options := by
    unfold bootstrapHead
    split_ifs <;> simp [copyTo, loadNumber]
  have htail : Quiet ([loadCell .sp, copyTo .m .d] ++ callBlock options.entry 0 0 ++ rest) :=
    Quiet.append rfl hrest
  have hsplit : bootstrapLines options ++ rest = bootstrapHead options ++ copyTo .d .a ::
      ([loadCell .sp, copyTo .m .d] ++ callBlock options.entry 0 0 ++ rest) := by
    simp [bootstrapLines, stackSetup]
  rw [hstart, hsplit] at hsetup
  have hlines : lines (before.toList ++ (render (bootstrapHead options)).toList) =
      lines ((render (bootstrapHead options)).toList ++ []) := by
    rw [eq_head_of_setup hhead htail hsetup, lines_render_append, lines, List.append_nil]
    intro l hl
    exact hls l (by simp [hstart, hsplit, hl])
  have hflatten := congrArg List.flatten hlines
  rw [flatten_lines, flatten_lines, List.append_nil, List.append_left_eq_self] at hflatten
  exact String.toList_eq_nil_iff.mp hflatten

end occurrence

end HackVM.Lowering
