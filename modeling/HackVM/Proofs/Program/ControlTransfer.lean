import HackVM.Proofs.Program.Layout

/-!
# Where calls and branches go

A call loads the name of a function and jumps; a branch loads a label of the function it stands in.
The label is defined under the name as it stands, but the operand of an address instruction is read
in a way of its own: one that spells a number which fits a word is that number, and blanks at its
end are dropped. So a transfer goes where the name *as read* leads (`leadsIn_call`, `leadsIn_goto`,
`leadsIn_ifGoto`), and that is where the name is defined unless it is such a number or ends in a
blank (`nameValue_declared`).

Main statement (`transfers_land`): in every run that is assembled, a call of a declared function and
a branch to a declared label get to the address of the declaration, if the name is no number and
does not end in a blank. Names that break these conditions lead astray (`transfers_astray`).
-/

namespace HackVM.Lowering

open Text Hack Source Machine

/-! ## Declarations -/

/-- The name is a label of the program, with the address of the site at a position. -/
def DefinedAt (p : Program) (sites : List Site) (k : Nat) (name : String) : Prop :=
  ∃ address, p.symbol? name = some address ∧ address.toNat = addressOf sites k

section placed

variable {options : Options} {units : List UnitCode}
  (hplace : Placeable (runStatements options units)) {k : Nat} {site : Site}
  (hk : (runSites options units)[k]? = some site)
include hplace hk

/-- A name that a site declares is defined at the address of the site, however it is spelled. -/
theorem definedAt_of_declared {name : String} (hname : declared? site = some name) :
    DefinedAt (programOf (runStatements options units)) (runSites options units) k name := by
  obtain ⟨s, rest, hcode, rfl⟩ := code_of_declared hname
  have hlines := flatMap_code_eq hk
  rw [hcode, List.append_assoc, List.cons_append] at hlines
  have hss : runStatements options units =
      (((runSites options units).take k).flatMap Site.code).filterMap AsmLine.statement? ++
        .define s.text ::
          (rest ++ ((runSites options units).drop (k + 1)).flatMap Site.code).filterMap
            AsmLine.statement? := by
    rw [runStatements_eq, hlines, List.filterMap_append, List.filterMap_cons]
    rfl
  have hle : addressOf (runSites options units) k ≤ Word.maxUnsigned := by
    have hextent := hplace.extent_le
    rw [runStatements_eq, extent_statements, hlines, size_append, size_flatMap_take] at hextent
    omega
  have hmax : Word.maxUnsigned = 65535 := rfl
  refine ⟨_, hplace.lookup_label hss, ?_⟩
  rw [extent_statements, size_flatMap_take, BitVec.toNat_ofNat]
  exact Nat.mod_eq_of_lt (by omega)

/-- A declared name that is read as it was written has the address of its declaration. -/
theorem nameValue_declared {name : String} (hname : declared? site = some name)
    (hread : asRead name = name) (hnumber : numeral? name = none) :
    (nameValue (runStatements options units) name).toNat =
      addressOf (runSites options units) k := by
  obtain ⟨address, hlookup, haddress⟩ := definedAt_of_declared hplace hk hname
  have hvalue : (symbolsOf (runStatements options units)).lookup name = some address := hlookup
  rw [nameValue, hread, valueIn, hnumber, hvalue]
  exact haddress

/-! ## Transfers -/

/-- A call goes where the name of the function leads, with a frame for it on the stack. -/
theorem leadsIn_call {f : String} {args : Word} (hcommand : site.command = .perform (.call f args))
    (m : Memory) :
    LeadsIn (programOf (runStatements options units)).rom (size site.code) m
      (addressOf (runSites options units) k)
      (enterFrame (BitVec.ofNat 16 (addressOf (runSites options units) (k + 1))) args m)
      (nameValue (runStatements options units) f).toNat := by
  have hplaced := placed_site_of_generated hplace hk hcommand (by simp [ownSymbols])
  have hcode : site.code = callBlock f args site.scope.labels.returnSite := by
    rw [Site.code, hcommand]
    rfl
  rw [addressOf_succ hk]
  rw [hcode] at hplaced ⊢
  exact leadsIn_callBlock m hplaced

/-- A branch goes where its label leads, in the function that it stands in. -/
theorem leadsIn_goto {l : String} (hcommand : site.command = .perform (.goto l)) (m : Memory) :
    LeadsIn (programOf (runStatements options units)).rom (size site.code) m
      (addressOf (runSites options units) k) m
      (nameValue (runStatements options units)
        (Symbol.scoped site.scope.function l).text).toNat := by
  have hplaced := placed_site_of_generated hplace hk hcommand (by simp [ownSymbols])
  have hcode : site.code = jumpTo (.scoped site.scope.function l) := by
    rw [Site.code, hcommand]
    rfl
  rw [hcode] at hplaced ⊢
  exact leadsIn_jumpTo m rfl hplaced

/-- So does a conditional branch that finds something other than zero on the stack. -/
theorem leadsIn_ifGoto {l : String} (hcommand : site.command = .perform (.ifGoto l)) {m : Memory}
    (htop : (pop m).1 ≠ 0) :
    LeadsIn (programOf (runStatements options units)).rom (size site.code) m
      (addressOf (runSites options units) k) (pop m).2
      (nameValue (runStatements options units)
        (Symbol.scoped site.scope.function l).text).toNat := by
  have hplaced := placed_site_of_generated hplace hk hcommand (by simp [ownSymbols])
  have hcode : site.code =
      ifGotoBlock (.scoped site.scope.function l) site.scope.labels.ifFalse := by
    rw [Site.code, hcommand]
    rfl
  rw [hcode] at hplaced ⊢
  exact leadsIn_ifGotoBlock htop rfl hplaced

end placed

/-! ## Runs -/

section readable

variable {options : Options} {units : List UnitCode}
  (hreadable : ∀ u ∈ units, ∀ i ∈ u.code, Readable i) {j : Nat} {target : Site}
  (hj : (runSites options units)[j]? = some target)
include hreadable hj

/-- A site that declares a name is that of an instruction of a unit. -/
theorem inUnit_of_declared (name : String) (hname : declared? target = some name) :
    ∃ i, InUnit units target i := by
  rcases site_cases hreadable (List.mem_of_getElem? hj) with
      ⟨base, hcommand⟩ | ⟨-, hcommand⟩ | hunit
  · rw [declared?, hcommand] at hname
    cases hname
  · rw [declared?, hcommand] at hname
    cases hname
  · exact hunit

/-- A function that does not end in a blank is read as it was written. -/
theorem asRead_of_function {f : String} {locals : Word}
    (hcommand : target.command = .perform (.function f locals)) (hlast : NoBlankEnd f) :
    asRead f = f := by
  obtain ⟨i, hi⟩ := inUnit_of_declared hreadable hj f (by rw [declared?, hcommand])
  cases hcommand.symm.trans hi.command
  exact asRead_eq_self hi.readable.1.noComment hlast

/-- A label that does not end in a blank is read as it was written, with the function it stands
in. -/
theorem faithful_of_label {l : String} (hcommand : target.command = .perform (.label l))
    (hlast : NoBlankEnd l) : (Symbol.scoped target.scope.function l).Faithful := by
  obtain ⟨i, hi⟩ := inUnit_of_declared hreadable hj (Symbol.scoped target.scope.function l).text
    (by rw [declared?, hcommand])
  cases hcommand.symm.trans hi.command
  exact Symbol.faithful_scoped hi.function hi.readable.noComment hlast

end readable

/-- **Calls and branches land on their targets.** Let a run be read, written and assembled, its
units and its entry function being named on one line. Let `site` and `target` be any two of its
sites.

* If `site` calls the function that `target` declares, and the name spells no number that fits a
  word and does not end in a blank, then the name is defined at the address of `target`, and that is
  where the processor is behind the code of the call.
* If `target` is a label that does not end in a blank, and `site` branches to it inside the same
  function, then the label is defined at the address of `target`, and that is where the processor is
  behind the code of the branch; for a conditional branch if it pops something other than zero. -/
theorem transfers_land {options : Options} {units : List SourceUnit} {codes : List UnitCode}
    {a : Assembly} {p : Program} (hread : List.Forall₂ Reads units codes)
    (hunits : ∀ u ∈ units, '\n' ∉ u.name.toList) (hentry : '\n' ∉ options.entry.toList)
    (hrun : (compile options units).result = .ok a) (hprogram : assemble a.text = .ok p)
    {k j : Nat} {site target : Site} (hk : (runSites options codes)[k]? = some site)
    (hj : (runSites options codes)[j]? = some target) :
    (∀ f args locals, site.command = .perform (.call f args) →
      target.command = .perform (.function f locals) → numeral? f = none → NoBlankEnd f →
      DefinedAt p (runSites options codes) j f ∧
      ∀ m, LeadsIn p.rom (size site.code) m (addressOf (runSites options codes) k)
        (enterFrame (BitVec.ofNat 16 (addressOf (runSites options codes) (k + 1))) args m)
        (addressOf (runSites options codes) j)) ∧
    (∀ l, target.command = .perform (.label l) → site.scope.function = target.scope.function →
      NoBlankEnd l →
      DefinedAt p (runSites options codes) j (Symbol.scoped target.scope.function l).text ∧
      (site.command = .perform (.goto l) → ∀ m,
        LeadsIn p.rom (size site.code) m (addressOf (runSites options codes) k) m
          (addressOf (runSites options codes) j)) ∧
      (site.command = .perform (.ifGoto l) → ∀ m, (pop m).1 ≠ 0 →
        LeadsIn p.rom (size site.code) m (addressOf (runSites options codes) k) (pop m).2
          (addressOf (runSites options codes) j))) := by
  have hnames := namesOnLine_of_reads hread hunits hentry
  obtain ⟨hplace, rfl⟩ := hnames.assembled hread hrun hprogram
  have hreadable := readable_of_reads hread
  refine ⟨?_, ?_⟩
  · intro f args locals hcall hfunction hnumber hlast
    have hdeclared : declared? target = some f := by rw [declared?, hfunction]
    have hvalue :=
      nameValue_declared hplace hj hdeclared (asRead_of_function hreadable hj hfunction hlast)
      hnumber
    refine ⟨definedAt_of_declared hplace hj hdeclared, ?_⟩
    intro m
    rw [← hvalue]
    exact leadsIn_call hplace hk hcall m
  · intro l hlabel hfunction hlast
    have hdeclared : declared? target = some (Symbol.scoped target.scope.function l).text := by
      rw [declared?, hlabel]
    have hfaithful := faithful_of_label hreadable hj hlabel hlast
    have hvalue := nameValue_declared hplace hj hdeclared hfaithful.asRead_eq hfaithful.numeral?_eq
    rw [← hfunction] at hvalue
    refine ⟨definedAt_of_declared hplace hj hdeclared, ?_, ?_⟩
    · intro hgoto m
      rw [← hvalue]
      exact leadsIn_goto hplace hk hgoto m
    · intro hgoto m htop
      rw [← hvalue]
      exact leadsIn_ifGoto hplace hk hgoto htop

/-- A function may be named like a number that fits no word, and a label like any number. -/
theorem transfers_land_on_numbers :
    ∃ codes a p,
      List.Forall₂ Reads [SourceUnit.named "Main"
        "function 65536 0\nlabel 5\npush constant 1\nif-goto 5\ngoto 5\n"] codes ∧
      (compile { entry := "65536" } [SourceUnit.named "Main"
        "function 65536 0\nlabel 5\npush constant 1\nif-goto 5\ngoto 5\n"]).result = .ok a ∧
      assemble a.text = .ok p ∧
      DefinedAt p (runSites { entry := "65536" } codes) 2 "65536" ∧
      (∀ m, LeadsIn p.rom 47 m 4 (enterFrame 51 0 m) 51) ∧
      DefinedAt p (runSites { entry := "65536" } codes) 3 "65536.5" ∧
      (∀ m, (pop m).1 ≠ 0 → LeadsIn p.rom 8 m 76 (pop m).2 69) ∧
      ∀ m, LeadsIn p.rom 2 m 84 m 69 := by
  have hread : List.Forall₂ Reads
      [SourceUnit.named "Main" "function 65536 0\nlabel 5\npush constant 1\nif-goto 5\ngoto 5\n"]
      [⟨"Main", [.function "65536" 0, .label "5", .push .constant 1, .ifGoto "5", .goto "5"]⟩] :=
    .cons ⟨rfl, by decide +kernel⟩ .nil
  have hnames : NamesOnLine { entry := "65536" } _ :=
    namesOnLine_of_reads hread (by decide) (by decide)
  obtain ⟨a, p, hrun, hprogram⟩ := hnames.exists_program hread (by decide) (by decide)
  have hcall := transfers_land hread (by decide) (by decide) hrun hprogram (k := 1) (j := 2) rfl rfl
  have hifGoto :=
    transfers_land hread (by decide) (by decide) hrun hprogram (k := 5) (j := 3) rfl rfl
  have hgoto := transfers_land hread (by decide) (by decide) hrun hprogram (k := 6) (j := 3) rfl rfl
  obtain ⟨hfunction, hlands⟩ := hcall.1 "65536" 0 0 rfl rfl (by decide +kernel) (by decide)
  obtain ⟨hlabel, -, htaken⟩ := hifGoto.2 "5" rfl rfl (by decide)
  obtain ⟨-, hgone, -⟩ := hgoto.2 "5" rfl rfl (by decide)
  exact ⟨_, a, p, hread, hrun, hprogram, hfunction, hlands, hlabel, htaken rfl, hgone rfl⟩

/-! ## Names that lead astray -/

/-- A unit with a call of a number, and a call and a branch to names that end in a no-break space.
The word behind a label keeps the space from being trimmed with the line. -/
def strayUnit : SourceUnit :=
  .named "A" ("call 5 0\nfunction 5 0\ncall f\u00a0 0\nfunction f\u00a0 0\n" ++
    "goto l\u00a0 -\nlabel l\u00a0 -\n")

/-- What the unit reads as. -/
def strayCode : UnitCode :=
  ⟨"A", [.call "5" 0, .function "5" 0, .call "f\u00a0" 0, .function "f\u00a0" 0, .goto "l\u00a0",
    .label "l\u00a0"]⟩

/-- **Names that are numbers or end in a blank lead astray.** The unit can be read, and its program
is assembled, with every name defined at the address of its declaration. Yet neither the two calls
nor the branch get there: the number is taken for the address, and the other names, without their
blanks, for variables. -/
theorem transfers_astray :
    List.Forall₂ Reads [strayUnit] [strayCode] ∧
      ∃ a p, (compile .withoutBootstrap [strayUnit]).result = .ok a ∧ assemble a.text = .ok p ∧
        (DefinedAt p (runSites .withoutBootstrap [strayCode]) 1 "5" ∧
          ∀ m m', ¬ LeadsIn p.rom 47 m (addressOf (runSites .withoutBootstrap [strayCode]) 0)
            m' (addressOf (runSites .withoutBootstrap [strayCode]) 1)) ∧
        (DefinedAt p (runSites .withoutBootstrap [strayCode]) 3 "f\u00a0" ∧
          ∀ m m', ¬ LeadsIn p.rom 47 m (addressOf (runSites .withoutBootstrap [strayCode]) 2)
            m' (addressOf (runSites .withoutBootstrap [strayCode]) 3)) ∧
        (DefinedAt p (runSites .withoutBootstrap [strayCode]) 5 "f\u00a0.l\u00a0" ∧
          ∀ m m', ¬ LeadsIn p.rom 2 m (addressOf (runSites .withoutBootstrap [strayCode]) 4)
            m' (addressOf (runSites .withoutBootstrap [strayCode]) 5)) := by
  have hread : List.Forall₂ Reads [strayUnit] [strayCode] := .cons ⟨rfl, by decide +kernel⟩ .nil
  have hnames : NamesOnLine .withoutBootstrap [strayCode] :=
    namesOnLine_of_reads hread (by decide) (by decide)
  obtain ⟨a, p, hrun, hprogram⟩ := hnames.exists_program hread (by decide) (by decide)
  obtain ⟨hplace, rfl⟩ := hnames.assembled hread hrun hprogram
  have hvalues : (nameValue (runStatements .withoutBootstrap [strayCode]) "5").toNat = 5 ∧
      (nameValue (runStatements .withoutBootstrap [strayCode]) "f\u00a0").toNat = 16 ∧
      (nameValue (runStatements .withoutBootstrap [strayCode])
        (Symbol.scoped "f\u00a0" "l\u00a0").text).toNat = 17 := by
    decide +kernel
  refine ⟨hread, a, _, hrun, hprogram, ⟨definedAt_of_declared hplace rfl rfl, ?_⟩,
    ⟨definedAt_of_declared hplace rfl rfl, ?_⟩, ⟨definedAt_of_declared hplace rfl rfl, ?_⟩⟩
  · intro m m' h
    have hpc := h.pc_unique (leadsIn_call (k := 0) hplace rfl rfl m)
    exact absurd (hpc.trans hvalues.1) (by decide)
  · intro m m' h
    have hpc := h.pc_unique (leadsIn_call (k := 2) hplace rfl rfl m)
    exact absurd (hpc.trans hvalues.2.1) (by decide)
  · intro m m' h
    have hpc := h.pc_unique (leadsIn_goto (k := 4) hplace rfl rfl m)
    exact absurd (hpc.trans hvalues.2.2) (by decide)

end HackVM.Lowering
