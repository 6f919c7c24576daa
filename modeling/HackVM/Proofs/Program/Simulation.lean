import HackVM.Proofs.Program.Layout

/-!
# Runs of the stack machine and of the processor

The simulation: what the stack machine does on the instructions of a run, the processor does on the
program that the run is assembled to. A position of the stack machine corresponds to its address
(`addressOf`), and the contents of RAM are the same on both sides, cell by cell.

* One command is one block (`leads_step`): control goes on where the names of the run say, and these
  are labels that stand at the addresses of their sites.
* Commands follow each other (`leads_steps`), for any number of steps, from any RAM and any
  position.
* The stack machine is never stuck inside a run, but for a return to an address that is none of a
  site (`step_eq_none_iff`).

Main statement: `run_simulates`.
-/

namespace HackVM.Lowering

open Text Hack Source Machine

/-- The effect of a command depends on no static cell but its own. -/
theorem effect_congr (f g : String → Word → Word) {site : Site} (hcode : site.HasCode)
    (h : ∀ cell, static? site = some cell → f cell.1 cell.2 = g cell.1 cell.2) (behind : Word)
    (m : Memory) : effect f behind site m = effect g behind site m := by
  obtain ⟨scope, command, comment⟩ := site
  cases command with
  | setStack base => rfl
  | perform i =>
      obtain ⟨block, hblock⟩ := hcode.block i rfl
      cases i with
      | push seg n =>
          cases seg with
          | static =>
              obtain ⟨unit, function, labels⟩ := scope
              cases unit with
              | none => cases hblock
              | some u =>
                  have hcell : f u n = g u n := h (u, n) rfl
                  unfold effect segmentValue segmentCell
                  simp only [Option.getD_some, hcell]
          | _ => rfl
      | pop seg n =>
          cases seg with
          | static =>
              obtain ⟨unit, function, labels⟩ := scope
              cases unit with
              | none => cases hblock
              | some u =>
                  have hcell : f u n = g u n := h (u, n) rfl
                  unfold effect segmentCell
                  simp only [Option.getD_some, hcell]
          | _ => rfl
      | _ => rfl

/-- A name is located where it is declared. -/
theorem declared_of_locate {sites : List Site} {name : String} {k : Nat}
    (h : locate sites name = some k) :
    ∃ site, sites[k]? = some site ∧ declared? site = some name := by
  obtain ⟨hk, hdeclared, -⟩ := List.findIdx?_eq_some_iff_getElem.mp h
  exact ⟨sites[k], List.getElem?_eq_getElem hk, by simpa using hdeclared⟩

/-- A name that is declared is located. -/
theorem locate_of_declared {sites : List Site} {name : String}
    (h : ∃ site ∈ sites, declared? site = some name) : ∃ k, locate sites name = some k := by
  obtain ⟨site, hsite, hdeclared⟩ := h
  cases hlocate : locate sites name with
  | some k => exact ⟨k, rfl⟩
  | none =>
      have hnone := List.findIdx?_eq_none_iff.mp hlocate site hsite
      simp [hdeclared] at hnone

/-- The position at an address has that address. -/
theorem addressOf_positionAt {sites : List Site} {address : Word} {k : Nat}
    (h : positionAt sites address = some k) : addressOf sites k = address.toNat := by
  have hfound := List.find?_some h
  simpa using hfound

/-- Where a command can go on: behind itself, at its target, or, if it is a return, at the address
that the frame holds. -/
theorem control_cases (static : String → Word → Word) (behind : Word) (site : Site) (m : Memory) :
    (effect static behind site m).2 = .next ∨
      (∃ name, target? site = some name ∧ (effect static behind site m).2 = .goTo name) ∨
      (site.command = .perform .ret ∧
        (effect static behind site m).2 = .back (leaveFrame m).1) := by
  obtain ⟨scope, command, comment⟩ := site
  cases command with
  | setStack base => exact .inl rfl
  | perform i =>
      cases i with
      | goto name => exact .inr (.inl ⟨_, rfl, rfl⟩)
      | ifGoto name =>
          by_cases hv : (pop m).1 = 0
          · exact .inl (if_pos hv)
          · exact .inr (.inl ⟨_, rfl, if_neg hv⟩)
      | call name args => exact .inr (.inl ⟨_, rfl, rfl⟩)
      | ret => exact .inr (.inr ⟨rfl, rfl⟩)
      | _ => exact .inl rfl

section simulation

variable {options : Options} {units : List UnitCode}
  (hreadable : ∀ u ∈ units, ∀ i ∈ u.code, Readable i) (hnames : WellNamed options units)
include hreadable hnames

/-- Control goes on at the address of the position that it is resolved to. -/
theorem destination_eq (hplace : Placeable (runStatements options units)) {pc pc' : Nat}
    {site : Site} {c : Control} (hpc : (runSites options units)[pc]? = some site)
    (hc : resolve (runSites options units) pc c = some pc') :
    destination (nameValue (runStatements options units))
      (addressOf (runSites options units) pc + size site.code) c =
        addressOf (runSites options units) pc' := by
  cases c with
  | next =>
      cases hc
      exact (addressOf_succ hpc).symm
  | goTo name =>
      obtain ⟨other, hother, hdeclared⟩ := declared_of_locate hc
      exact names_declared hreadable hnames hplace hother hdeclared
  | back address => exact (addressOf_positionAt hc).symm

/-- **One command is one block.** -/
theorem leads_step (hplace : Placeable (runStatements options units)) {s s' : State}
    (h : step (runSites options units) s = some s') :
    Leads (programOf (runStatements options units)).rom s.ram
      (addressOf (runSites options units) s.pc)
      s'.ram (addressOf (runSites options units) s'.pc) := by
  unfold step at h
  cases hsite : (runSites options units)[s.pc]? with
  | none =>
      rw [hsite] at h
      cases h
  | some site =>
      rw [hsite] at h
      have hmem := List.mem_of_getElem? hsite
      have hcode := hasCode_of_mem hreadable hmem
      have hstatic : ∀ cell, static? site = some cell →
          nameValue (runStatements options units) (Symbol.static cell.1 cell.2).text =
            staticCell (runSites options units) cell.1 cell.2 :=
        fun cell hcell => names_static hreadable hnames hmem hcell
      have hleads := leads_effect s.ram hcode (placed_site hreadable hnames hplace hsite)
      rw [addressOf_succ hsite] at h
      cases heffect : effect (staticCell (runSites options units))
          (BitVec.ofNat 16 (addressOf (runSites options units) s.pc + size site.code))
          site s.ram with
      | mk ram control =>
          simp only [heffect, Option.map_eq_some_iff] at h
          obtain ⟨pc', hresolve, rfl⟩ := h
          have hsame :
              effect (fun u i => nameValue (runStatements options units) (Symbol.static u i).text)
                (BitVec.ofNat 16 (addressOf (runSites options units) s.pc + size site.code))
                site s.ram = (ram, control) := by
            rw [← heffect]
            exact effect_congr
              (fun u i => nameValue (runStatements options units) (Symbol.static u i).text)
              (staticCell (runSites options units)) hcode hstatic _ _
          simp only [hsame] at hleads
          have hdestination := destination_eq hreadable hnames hplace hsite hresolve
          rw [hdestination] at hleads
          exact hleads

/-- **Any number of commands.** -/
theorem leads_steps (hplace : Placeable (runStatements options units)) {k : Nat} {s s' : State}
    (h : steps (runSites options units) k s = some s') :
    Leads (programOf (runStatements options units)).rom s.ram
      (addressOf (runSites options units) s.pc)
      s'.ram (addressOf (runSites options units) s'.pc) := by
  induction k generalizing s with
  | zero =>
      cases h
      exact Leads.refl _ _ _
  | succ k ih =>
      obtain ⟨t, ht, hrest⟩ := Option.bind_eq_some_iff.mp h
      exact (leads_step hreadable hnames hplace ht).trans (ih hrest)

end simulation

/-- **The stack machine is stuck only where it has to be**: behind the last site, or at a return to
an address at which no site stands. -/
theorem step_eq_none_iff {options : Options} {units : List UnitCode}
    (hnames : WellNamed options units) (s : State) :
    step (runSites options units) s = none ↔
      (runSites options units).length ≤ s.pc ∨
      ∃ site, (runSites options units)[s.pc]? = some site ∧ site.command = .perform .ret ∧
        positionAt (runSites options units) (leaveFrame s.ram).1 = none := by
  constructor
  · intro h
    unfold step at h
    cases hsite : (runSites options units)[s.pc]? with
    | none => exact .inl (List.getElem?_eq_none_iff.mp hsite)
    | some site =>
        rw [hsite] at h
        simp only [Option.map_eq_none_iff] at h
        rcases control_cases (staticCell (runSites options units))
            (BitVec.ofNat 16 (addressOf (runSites options units) (s.pc + 1))) site s.ram with
          hnext | ⟨name, hname, hgoto⟩ | ⟨hret, hback⟩
        · rw [hnext] at h
          cases h
        · -- a target that is declared can be located
          obtain ⟨k, hk⟩ :=
            locate_of_declared (hnames.target site (List.mem_of_getElem? hsite) name hname)
          rw [hgoto, resolve, hk] at h
          cases h
        · rw [hback] at h
          exact .inr ⟨site, rfl, hret, h⟩
  · rintro (hend | ⟨site, hsite, hret, hnone⟩)
    · unfold step
      rw [List.getElem?_eq_none_iff.mpr hend]
    · unfold step effect
      rw [hsite]
      simp only [hret, resolve, hnone, Option.map_none]

/-- Behind the last site the program ends. -/
theorem size_rom (options : Options) (units : List UnitCode) :
    (programOf (runStatements options units)).rom.size =
      addressOf (runSites options units) (runSites options units).length := by
  rw [← size_flatMap_take, List.take_length, programOf, List.size_toArray, runStatements_eq,
    filterMap_operation?, length_filterMap_operation?]

/-- What is promised of names is enough for every name to stand on one line. -/
theorem WellNamed.namesOnLine {options : Options} {units : List UnitCode}
    (h : WellNamed options units) (hreadable : ∀ u ∈ units, ∀ i ∈ u.code, Readable i) :
    NamesOnLine options units :=
  ⟨hreadable, fun u hu => (h.unit u hu).1, fun _ => h.entry.1⟩

/-- The assembled program of a well-named run is the one in closed form. -/
theorem assembled_of_reads {options : Options} {units : List SourceUnit} {codes : List UnitCode}
    {a : Assembly} {p : Program} (hread : List.Forall₂ Reads units codes)
    (hnames : WellNamed options codes) (hrun : (compile options units).result = .ok a)
    (hprogram : assemble a.text = .ok p) :
    Placeable (runStatements options codes) ∧ p = programOf (runStatements options codes) :=
  (hnames.namesOnLine (readable_of_reads hread)).assembled hread hrun hprogram

/-- A well-named run without a clash that fits the addresses becomes a program. -/
theorem exists_program_of_reads {options : Options} {units : List SourceUnit}
    {codes : List UnitCode} (hread : List.Forall₂ Reads units codes)
    (hnames : WellNamed options codes) (hfit : runSize options codes ≤ Word.maxUnsigned)
    (hclash : ¬ LabelClash (runInstructions options codes)) :
    ∃ a p, (compile options units).result = .ok a ∧ assemble a.text = .ok p :=
  (hnames.namesOnLine (readable_of_reads hread)).exists_program hread hfit hclash

/-- **The simulation.** Let a run be read, written and assembled, its names being fit for it. Then
every run of the stack machine, of any length, from any RAM and any position, is a run of the
processor, and the two agree on all of RAM and on where they are. The stack machine stops only
behind the last site, where the program ends too, and at a return to an address that is none of a
site. Where the stack keeps clear of `R13`, entering a function pushes as many zeros as it has
locals and leaves 0 in `R13` if there are any. -/
theorem run_simulates {options : Options} {units : List SourceUnit} {codes : List UnitCode}
    {a : Assembly} {p : Program} (hread : List.Forall₂ Reads units codes)
    (hnames : WellNamed options codes) (hrun : (compile options units).result = .ok a)
    (hprogram : assemble a.text = .ok p) :
    (∀ k s s', steps (runSites options codes) k s = some s' →
      Leads p.rom s.ram (addressOf (runSites options codes) s.pc)
        s'.ram (addressOf (runSites options codes) s'.pc)) ∧
    (∀ s, step (runSites options codes) s = none ↔
      (runSites options codes).length ≤ s.pc ∨
      ∃ site, (runSites options codes)[s.pc]? = some site ∧ site.command = .perform .ret ∧
        positionAt (runSites options codes) (leaveFrame s.ram).1 = none) ∧
    p.rom.size = addressOf (runSites options codes) (runSites options codes).length ∧
    (∀ n m, ClearOfR13 n m →
      clearLocals n m = if n = 0 then m else set .r13 0 (pushZeros n m)) := by
  obtain ⟨hplace, rfl⟩ := assembled_of_reads hread hnames hrun hprogram
  have hreadable := readable_of_reads hread
  refine ⟨?_, ?_, ?_, ?_⟩
  · intro k s s' h
    exact leads_steps hreadable hnames hplace h
  · exact step_eq_none_iff hnames
  · exact size_rom options codes
  · intro n m h
    exact clearLocals_eq h

/-- From any RAM, the bootstrap and a function with two locals lead to a static cell that holds 7,
and from there round a loop. -/
theorem run_simulates_store_to_static :
    ∃ codes a p,
      List.Forall₂ Reads
        [SourceUnit.named "Main"
          "function Sys.init 2\npush constant 7\npop static 0\nlabel L\ngoto L\n"] codes ∧
      WellNamed {} codes ∧
      (compile {} [SourceUnit.named "Main"
        "function Sys.init 2\npush constant 7\npop static 0\nlabel L\ngoto L\n"]).result = .ok a ∧
      assemble a.text = .ok p ∧
      ∀ m, ∃ s', steps (runSites {} codes) 7 ⟨m, 0⟩ = some s' ∧ s'.ram.read 16 = 7 ∧
        Leads p.rom m 0 s'.ram (addressOf (runSites {} codes) 5) := by
  have hread : List.Forall₂ Reads
      [SourceUnit.named "Main"
        "function Sys.init 2\npush constant 7\npop static 0\nlabel L\ngoto L\n"]
      [⟨"Main",
        [.function "Sys.init" 2, .push .constant 7, .pop .static 0, .label "L", .goto "L"]⟩] :=
    .cons ⟨rfl, by decide +kernel⟩ .nil
  have hnames : WellNamed {}
      [⟨"Main",
        [.function "Sys.init" 2, .push .constant 7, .pop .static 0, .label "L", .goto "L"]⟩] :=
    ⟨by decide, by decide, by decide, by decide, by decide⟩
  obtain ⟨a, p, hrun, hprogram⟩ := exists_program_of_reads hread hnames (by decide) (by decide)
  refine ⟨_, a, p, hread, hnames, hrun, hprogram, ?_⟩
  intro m
  refine ⟨_, rfl, ?_, (run_simulates hread hnames hrun hprogram).1 7 ⟨m, 0⟩ _ rfl⟩
  -- what is left after the reads and writes are carried out: the static cell stands at 16
  simpa [popTo, pop, push, Machine.get, Machine.set, Cell.address, clearLocals, enterFrame,
    segmentCell, segmentValue, Scope.inUnit] using fun h => absurd (by decide) h

end HackVM.Lowering
