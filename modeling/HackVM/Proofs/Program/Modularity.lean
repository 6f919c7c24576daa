import HackVM.Proofs.Program.LabelClash

/-!
# Programs in two parts

A run lowers its units one after the other with one scope, so what stands in front of a unit can
show in its code. Three things cross from one unit to the next: the label counters, the function
that was entered last, and the unit. The unit is named anew before its instructions, and the
function matters to labels and branches only. So all that the code of later units owes to earlier
ones is where its label numbers start, as long as each of its labels and branches stands behind a
function of its own part.

`AsmLine.raise` raises the numbers of generated labels, each kind by its own amount, and leaves
everything else as it is. `Scope.Raised` relates the scopes of two runs over the same instructions.
One instruction keeps it (`Scope.Raised.after`) and gives lines that are raised
(`Scope.Raised.block_eq`), so units do (`Scope.Raised.lines_unitSites`).

Main statement (`compile_append`): the program of two lists of units is the program of the first,
followed by that of the second with its labels raised by the numbers that the first has taken.
-/

namespace HackVM.Lowering

open Source

/-! ## Raising label numbers -/

variable {amount : LabelKind → Nat}

/-- Raises the number of a generated label by the amount for its kind. Behind the last number comes
0, as it does for the counters. -/
def Symbol.raise (amount : LabelKind → Nat) : Symbol → Symbol
  | .generated role number => .generated role (number + UInt32.ofNat (amount role.kind))
  | s => s

/-- Raises the number of a generated label that is loaded. -/
def Operand.raise (amount : LabelKind → Nat) : Operand → Operand
  | .symbol s => .symbol (s.raise amount)
  | .number n => .number n

/-- Raises the number of a generated label that a line defines or loads. -/
def AsmLine.raise (amount : LabelKind → Nat) : AsmLine → AsmLine
  | .define s => .define (s.raise amount)
  | .load o => .load (o.raise amount)
  | l => l

/-- Pushes and pops load no generated label. -/
theorem raise_addressBlock {unit : Option String} {seg : Segment} {n : Word} {block : List AsmLine}
    (h : addressBlock unit seg n = .ok block) : block.map (AsmLine.raise amount) = block := by
  unfold addressBlock at h
  cases seg with
  | static =>
      cases unit with
      | none => cases h
      | some unit =>
          cases h
          rfl
  | _ =>
      cases h
      rfl

/-- A push takes no label, so raising the numbers leaves its code alone. -/
theorem raise_pushBlock (unit : Option String) (seg : Segment) (n : Word) :
    (pushBlock unit seg n).map (List.map (AsmLine.raise amount)) = pushBlock unit seg n := by
  cases hblock : pushBlock unit seg n with
  | error m => rfl
  | ok block =>
      obtain ⟨address, haddress, rfl⟩ := pushBlock_eq_ok hblock
      show Except.ok _ = Except.ok _
      rw [List.map_append, List.map_append, raise_addressBlock haddress]
      rfl

/-- So does a pop. -/
theorem raise_popBlock (unit : Option String) (seg : Segment) (n : Word) :
    (popBlock unit seg n).map (List.map (AsmLine.raise amount)) = popBlock unit seg n := by
  cases hblock : popBlock unit seg n with
  | error m => rfl
  | ok block =>
      obtain ⟨address, haddress, rfl⟩ := popBlock_eq_ok hblock
      show Except.ok _ = Except.ok _
      rw [List.map_append, List.map_append, List.map_append, raise_addressBlock haddress]
      rfl

/-! ## Instructions that depend on their function -/

/-- The instruction names a label of the function that it stands in. -/
def namesLabel : Instruction → Bool
  | .label _ | .goto _ | .ifGoto _ => true
  | _ => false

/-- The instruction declares a function. -/
def declaresFunction : Instruction → Bool
  | .function .. => true
  | _ => false

/-- Every label and every branch stands behind a function, unless a function was open before. -/
def BehindFunction (opened : Prop) (is : List Instruction) : Prop :=
  ∀ before i after, is = before ++ i :: after → namesLabel i = true →
    opened ∨ ∃ j ∈ before, declaresFunction j = true

namespace BehindFunction

variable {opened : Prop}

/-- The front of a list stands behind a function where the list does. -/
theorem left {is js : List Instruction} (h : BehindFunction opened (is ++ js)) :
    BehindFunction opened is := by
  intro before i after his hi
  exact h before i (after ++ js) (by rw [his, List.append_assoc]; rfl) hi

/-- What stands behind other instructions may count on the functions that these declare. -/
theorem right {is js : List Instruction} (h : BehindFunction opened (is ++ js)) :
    BehindFunction (opened ∨ ∃ j ∈ is, declaresFunction j = true) js := by
  intro before i after hjs hi
  rcases h (is ++ before) i after (by rw [hjs, List.append_assoc]) hi with
      hopened | ⟨f, hf, hfunction⟩
  · exact .inl (.inl hopened)
  · rcases List.mem_append.mp hf with hf | hf
    · exact .inl (.inr ⟨f, hf, hfunction⟩)
    · exact .inr ⟨f, hf, hfunction⟩

/-- A label or branch in front needs a function that was open before. -/
theorem head {i : Instruction} {is : List Instruction} (h : BehindFunction opened (i :: is))
    (hi : namesLabel i = true) : opened := by
  rcases h [] i is rfl hi with hopened | ⟨j, hj, -⟩
  · exact hopened
  · cases hj

/-- The rest may also stand behind a function in front of it. -/
theorem tail {i : Instruction} {is : List Instruction} (h : BehindFunction opened (i :: is)) :
    BehindFunction (opened ∨ declaresFunction i = true) is := by
  have hright := @right opened [i] is h
  simpa only [List.mem_singleton, exists_eq_left] using hright

end BehindFunction

/-! ## Two runs over the same instructions -/

/-- The second scope has taken more label numbers than the first, by the given amounts, and is
inside the same function if one was opened. -/
structure Scope.Raised (amount : LabelKind → Nat) (opened : Prop) (s t : Scope) : Prop where
  issued_eq : ∀ k, t.labels.issued k = s.labels.issued k + UInt32.ofNat (amount k)
  function_eq : opened → t.function = s.function

namespace Scope.Raised

variable {opened : Prop} {s t : Scope}

/-- A new unit keeps the label numbers and the function. -/
theorem inUnit (h : Raised amount opened s t) (name : String) :
    Raised amount opened (s.inUnit name) (t.inUnit name) :=
  ⟨h.issued_eq, h.function_eq⟩

/-- **One instruction gives lines that are raised.** -/
theorem block_eq (h : Raised amount opened s t) (hunit : t.unit = s.unit) {i : Instruction}
    (hi : namesLabel i = true → opened) :
    t.block i = (s.block i).map (List.map (AsmLine.raise amount)) := by
  cases i with
  | arithmetic op =>
      have hnumber : t.labels.comparison =
          s.labels.comparison + UInt32.ofNat (amount .comparison) :=
        h.issued_eq .comparison
      rw [block, block, hnumber]
      cases op <;> rfl
  | push seg n =>
      rw [block, block, hunit]
      exact (raise_pushBlock _ _ _).symm
  | pop seg n =>
      rw [block, block, hunit]
      exact (raise_popBlock _ _ _).symm
  | label name =>
      rw [block, block, h.function_eq (hi rfl)]
      rfl
  | goto name =>
      rw [block, block, h.function_eq (hi rfl)]
      rfl
  | ifGoto name =>
      have hnumber : t.labels.ifFalse = s.labels.ifFalse + UInt32.ofNat (amount .ifFalse) :=
        h.issued_eq .ifFalse
      rw [block, block, h.function_eq (hi rfl), hnumber]
      rfl
  | function name n =>
      have hnumber : t.labels.localsLoop =
          s.labels.localsLoop + UInt32.ofNat (amount .localsLoop) :=
        h.issued_eq .localsLoop
      rw [block, block, hnumber]
      rfl
  | call name n =>
      have hnumber : t.labels.returnSite =
          s.labels.returnSite + UInt32.ofNat (amount .returnSite) :=
        h.issued_eq .returnSite
      rw [block, block, hnumber]
      rfl
  | ret => rfl

/-- **One instruction, two scopes.** The lines are the same up to the label numbers, which are
raised. -/
theorem lines_eq (h : Raised amount opened s t) (hunit : t.unit = s.unit) {i : Instruction}
    (hi : namesLabel i = true → opened) (annotate : Bool) (comment : Option String) :
    Site.lines annotate ⟨t, .perform i, comment⟩ =
      (Site.lines annotate ⟨s, .perform i, comment⟩).map (AsmLine.raise amount) := by
  have hcode : Site.code ⟨t, .perform i, comment⟩ =
      (Site.code ⟨s, .perform i, comment⟩).map (AsmLine.raise amount) := by
    show (t.block i).toOption.getD [] = ((s.block i).toOption.getD []).map _
    rw [h.block_eq hunit hi]
    cases s.block i <;> rfl
  rw [Site.lines, Site.lines, List.map_append, hcode]
  cases annotate <;> cases comment <;> rfl

/-- **One instruction keeps the relation**, and may open a function. -/
theorem after (h : Raised amount opened s t) (i : Instruction) :
    Raised amount (opened ∨ declaresFunction i = true) (s.after i) (t.after i) := by
  refine ⟨?_, ?_⟩
  · intro k
    rw [issued_after, issued_after, h.issued_eq, UInt32.add_assoc, UInt32.add_assoc,
      UInt32.add_comm (UInt32.ofNat (amount k))]
  · intro hopened
    rw [Scope.function_after, Scope.function_after]
    cases i with
    | function name n => rfl
    | _ => exact h.function_eq (hopened.resolve_right (by simp [declaresFunction]))

theorem imp {opened' : Prop} (h : Raised amount opened s t) (himp : opened' → opened) :
    Raised amount opened' s t :=
  ⟨h.issued_eq, fun hopened => h.function_eq (himp hopened)⟩

/-- A list of instructions keeps two scopes apart by the same amounts. -/
theorem foldl_after (h : Raised amount opened s t) (is : List Instruction) :
    Raised amount (opened ∨ ∃ j ∈ is, declaresFunction j = true) (is.foldl Scope.after s)
      (is.foldl Scope.after t) := by
  induction is generalizing opened s t with
  | nil =>
      apply h.imp
      rintro (hopened | ⟨j, hj, -⟩)
      · exact hopened
      · cases hj
  | cons i is ih =>
      apply (ih (h.after i)).imp
      rw [List.exists_mem_cons_iff, or_assoc]
      exact id

/-- Instructions inside a unit give lines that are raised. -/
theorem lines_instructionSites (h : Raised amount opened s t) (hunit : t.unit = s.unit)
    {is : List Instruction} (his : BehindFunction opened is) (annotate : Bool) :
    (instructionSites t is).flatMap (Site.lines annotate) =
      ((instructionSites s is).flatMap (Site.lines annotate)).map (AsmLine.raise amount) := by
  induction is generalizing opened s t with
  | nil => rfl
  | cons i is ih =>
      have hrest := ih (h.after i) (by rw [after_unit, after_unit, hunit]) his.tail
      rw [instructionSites, instructionSites, List.flatMap_cons, List.flatMap_cons, List.map_append,
        hrest, h.lines_eq hunit his.head]

/-- **Units give lines that are raised**, whatever unit came before them. -/
theorem lines_unitSites (h : Raised amount opened s t) {units : List UnitCode}
    (hunits : BehindFunction opened (units.flatMap UnitCode.code)) (annotate : Bool) :
    (unitSites t units).flatMap (Site.lines annotate) =
      ((unitSites s units).flatMap (Site.lines annotate)).map (AsmLine.raise amount) := by
  induction units generalizing opened s t with
  | nil => rfl
  | cons u units ih =>
      rw [List.flatMap_cons] at hunits
      have hin := h.inUnit u.name
      have hfirst := hin.lines_instructionSites rfl hunits.left annotate
      have hrest := ih (hin.foldl_after u.code) hunits.right
      rw [unitSites, unitSites, List.flatMap_append, List.flatMap_append, List.map_append, hfirst]
      exact congrArg _ hrest

end Scope.Raised

/-! ## Runs -/

/-- The sites of two lists of units, one behind the other. -/
theorem unitSites_append (s : Scope) (us vs : List UnitCode) :
    unitSites s (us ++ vs) = unitSites s us ++ unitSites (us.foldl unitEnd s) vs := by
  induction us generalizing s with
  | nil => rfl
  | cons u us ih =>
    rw [List.cons_append, unitSites, unitSites, ih, List.append_assoc, List.foldl_cons]

/-- Without a bootstrap, the lines of two lists of units are those of the first and then those of
the second, raised. -/
theorem runLines_append {options : Options} (hbootstrap : options.bootstrap = false)
    (us : List UnitCode) {vs : List UnitCode}
    (hvs : BehindFunction False (vs.flatMap UnitCode.code)) :
    runLines options (us ++ vs) = runLines options us ++
      (runLines options vs).map (AsmLine.raise (issuedBy (us.flatMap UnitCode.code))) := by
  have hsites : ∀ units, runSites options units = unitSites {} units := by
    intro units
    rw [runSites, bootstrapSites, bootstrapScope, hbootstrap]
    rfl
  have hraised :
      Scope.Raised (issuedBy (us.flatMap UnitCode.code)) False {} (us.foldl unitEnd {}) :=
    ⟨fun k => issued_foldl_unitEnd us {} k, False.elim⟩
  rw [runLines, runLines, runLines, hsites, hsites, hsites, unitSites_append, List.flatMap_append,
    hraised.lines_unitSites hvs]

/-! ## How far numbers are raised -/

/-- A line that is no comment stands in the code of a site. -/
theorem mem_code_of_mem_runLines {options : Options} {units : List UnitCode} {o : Operand}
    (h : .load o ∈ runLines options units) :
    ∃ site ∈ runSites options units, .load o ∈ site.code := by
  obtain ⟨site, hsite, hl⟩ := List.mem_flatMap.mp h
  refine ⟨site, hsite, ?_⟩
  rcases List.mem_append.mp hl with hcomment | hcode
  · cases hannotate : options.annotate <;> cases hsaid : site.comment <;>
      simp [hannotate, hsaid] at hcomment
  · exact hcode

/-- The lines define a label of this role and number, or load it. -/
def MentionsLabel (ls : List AsmLine) (r : LabelRole) (n : UInt32) : Prop :=
  .define (.generated r n) ∈ ls ∨ .load (.symbol (.generated r n)) ∈ ls

/-- Every generated label that a run mentions has one of the numbers that its instructions take. -/
theorem exists_lt_of_mentionsLabel {options : Options} {units : List UnitCode} {r : LabelRole}
    {n : UInt32} (h : MentionsLabel (runLines options units) r n) :
    ∃ m < issuedBy (runInstructions options units) r.kind, n = UInt32.ofNat m := by
  have hdefine : .define (.generated r n) ∈ runLines options units := by
    rcases h with hdefine | hload
    · exact hdefine
    · obtain ⟨site, hsite, hcode⟩ := mem_code_of_mem_runLines hload
      exact List.mem_flatMap.mpr
        ⟨site, hsite, List.mem_append_right _ (Site.define_of_load_generated hcode)⟩
  have hdefined : Symbol.generated r n ∈ definedSymbols (runLines options units) :=
    List.mem_filterMap.mpr ⟨_, hdefine, rfl⟩
  rw [definedSymbols_runLines] at hdefined
  have hisRole : (Symbol.generated r n).isRole r = true := decide_eq_true rfl
  have hrole := List.mem_filter.mpr ⟨hdefined, hisRole⟩
  rw [filter_isRole_start] at hrole
  obtain ⟨m, hm, hnumber⟩ := List.mem_map.mp hrole
  exact ⟨m, List.mem_range.mp hm, ((Symbol.generated.inj hnumber).2).symm⟩

/-- **A number is raised by the whole amount** as long as the numbers do not run out. -/
theorem toNat_raise {options : Options} {units : List UnitCode} {r : LabelRole} {n : UInt32}
    (h : MentionsLabel (runLines options units) r n) {amount : Nat}
    (hfew : amount + issuedBy (runInstructions options units) r.kind ≤ UInt32.size) :
    (n + UInt32.ofNat amount).toNat = n.toNat + amount := by
  obtain ⟨m, hm, rfl⟩ := exists_lt_of_mentionsLabel h
  rw [← UInt32.ofNat_add, UInt32.toNat_ofNat_of_lt' (by omega),
    UInt32.toNat_ofNat_of_lt' (by omega)]

/-! ## Main statement -/

/-- **Compiling is modular up to label numbers.** Take two lists of units that can be read, and
options without a bootstrap. Let every label and every branch of the second list stand behind a
function that the second list declares. Then the program of both is that of the first list, followed
by the lines of the second list's own program; the only difference in these is that the number of
each generated label is raised by how many labels of its kind the instructions of the first list
take. Numbers have 32 bits: they are raised by the whole amount as long as both lists together take
no more than `2 ^ 32` of the kind. -/
theorem compile_append {options : Options} {us vs : List SourceUnit} {ucodes vcodes : List UnitCode}
    (hbootstrap : options.bootstrap = false) (hus : List.Forall₂ Reads us ucodes)
    (hvs : List.Forall₂ Reads vs vcodes)
    (hbehind : ∀ before i after, vcodes.flatMap UnitCode.code = before ++ i :: after →
      namesLabel i = true → ∃ j ∈ before, declaresFunction j = true) :
    ∃ a b c, (compile options us).result = .ok a ∧ (compile options vs).result = .ok b ∧
      (compile options (us ++ vs)).result = .ok c ∧
      b.text = render (runLines options vcodes) ∧
      c.text = a.text ++ render ((runLines options vcodes).map
        (AsmLine.raise (issuedBy (ucodes.flatMap UnitCode.code)))) ∧
      ∀ r n, MentionsLabel (runLines options vcodes) r n →
        issuedBy (ucodes.flatMap UnitCode.code) r.kind +
          issuedBy (vcodes.flatMap UnitCode.code) r.kind ≤ UInt32.size →
        (n + UInt32.ofNat (issuedBy (ucodes.flatMap UnitCode.code) r.kind)).toNat =
          n.toNat + issuedBy (ucodes.flatMap UnitCode.code) r.kind := by
  obtain ⟨a, ha, hatext⟩ := exists_text_of_reads options hus
  obtain ⟨b, hb, hbtext⟩ := exists_text_of_reads options hvs
  obtain ⟨c, hc, hctext⟩ := exists_text_of_reads options (List.rel_append hus hvs)
  have hvs' : BehindFunction False (vcodes.flatMap UnitCode.code) := by
    intro before i after hsplit hi
    exact .inr (hbehind before i after hsplit hi)
  refine ⟨a, b, c, ha, hb, hc, hbtext, ?_, fun r n hmentions hfew => toNat_raise hmentions ?_⟩
  · rw [hctext, hatext, runLines_append hbootstrap ucodes hvs', render_append]
  · rw [runInstructions, hbootstrap]
    exact hfew

/-- A unit that leaves a function open, and takes a comparison's number, in front of one that has a
comparison and a label of its own. The function that the second unit calls is spelled like a label
of the first, and stays. -/
theorem compile_append_behind_open_function :
    ∃ ucodes vcodes a b c,
      List.Forall₂ Reads [.named "A" "function f 0\neq\n"] ucodes ∧
      List.Forall₂ Reads [.named "B" "call TRUE_0 0\nfunction g 1\nlabel L\nlt\n"] vcodes ∧
      (compile .withoutBootstrap [.named "A" "function f 0\neq\n"]).result = .ok a ∧
      (compile .withoutBootstrap [.named "B" "call TRUE_0 0\nfunction g 1\nlabel L\nlt\n"]).result =
        .ok b ∧
      (compile .withoutBootstrap [.named "A" "function f 0\neq\n",
        .named "B" "call TRUE_0 0\nfunction g 1\nlabel L\nlt\n"]).result = .ok c ∧
      b.text = render (runLines .withoutBootstrap vcodes) ∧
      c.text = a.text ++ render ((runLines .withoutBootstrap vcodes).map
        (AsmLine.raise (issuedBy (ucodes.flatMap UnitCode.code)))) ∧
      AsmLine.load (.symbol (.function "TRUE_0")) ∈ (runLines .withoutBootstrap vcodes).map
        (AsmLine.raise (issuedBy (ucodes.flatMap UnitCode.code))) ∧
      AsmLine.load (.symbol (.generated .holds 1)) ∈ (runLines .withoutBootstrap vcodes).map
        (AsmLine.raise (issuedBy (ucodes.flatMap UnitCode.code))) := by
  have hus : List.Forall₂ Reads [.named "A" "function f 0\neq\n"]
      [⟨"A", [.function "f" 0, .arithmetic .eq]⟩] :=
    .cons ⟨rfl, by decide +kernel⟩ .nil
  have hvs : List.Forall₂ Reads [.named "B" "call TRUE_0 0\nfunction g 1\nlabel L\nlt\n"]
      [⟨"B", [.call "TRUE_0" 0, .function "g" 1, .label "L", .arithmetic .lt]⟩] :=
    .cons ⟨rfl, by decide +kernel⟩ .nil
  have hbehind : ∀ before i after,
      [Instruction.call "TRUE_0" 0, .function "g" 1, .label "L", .arithmetic .lt] =
        before ++ i :: after →
      namesLabel i = true → ∃ j ∈ before, declaresFunction j = true := by
    intro before i after hsplit hi
    -- the first two instructions are a call and the function
    rcases before with _ | ⟨j, _ | ⟨f, before⟩⟩
    · cases hsplit
      cases hi
    · cases hsplit
      cases hi
    · obtain ⟨-, hsplit⟩ := List.cons.inj hsplit
      obtain ⟨rfl, -⟩ := List.cons.inj hsplit
      exact ⟨.function "g" 1, by simp, rfl⟩
  obtain ⟨a, b, c, ha, hb, hc, hbtext, hctext, -⟩ :=
    @compile_append .withoutBootstrap _ _ _ _ rfl hus hvs hbehind
  exact ⟨_, _, a, b, c, hus, hvs, ha, hb, hc, hbtext, hctext, by decide, by decide⟩

end HackVM.Lowering
