import HackVM.Proofs.Lowering.BlockExecution
import HackVM.Proofs.Program.LabelClash

/-!
# Where a run stands in memory

What the assembler makes of the names of a run. If the names are fit for it (`WellNamed`), then

* the code of every site stands in ROM at the address of the site (`placed_site`), so that a name
  that a site declares has the address of the site (`names_declared`);
* the only variables are the static cells, and they get consecutive cells of RAM in the order of
  their first use (`names_static`).

The value of a name is what the assembler gives an address instruction that was written with it
(`nameValue`); that a name is read back as it was written is part of what has to be shown.
-/

namespace HackVM.Lowering

open Text Hack Source Machine

/-- The value that an address instruction with a name gets. -/
def nameValue (ss : List Statement) (name : String) : Word :=
  valueIn (symbolsOf ss) (asRead name)

/-- A variable that is read as it was written has the cell that its first use gives it. -/
theorem nameValue_of_variable {ss : List Statement} {name : String} (hread : asRead name = name)
    (hmem : name ∈ newVariables (labelsOf ss).symbols ss) :
    nameValue ss name =
      BitVec.ofNat 16 (firstVariable + (newVariables (labelsOf ss).symbols ss).idxOf name) := by
  have hvariable := isVariable_of_mem hmem
  rw [isVariable, Bool.and_eq_true, Option.isNone_iff_eq_none] at hvariable
  have hlookup := Symbols.lookup_after_newVariables (s := { table := (labelsOf ss).symbols }) hmem
  rw [nameValue, hread, valueIn, hvariable.1, symbolsOf, hlookup]
  rfl

/-! ## Placed code -/

/-- The operation that a line is assembled to. -/
def AsmLine.operation? (table : SymbolTable) (l : AsmLine) : Option Operation :=
  l.statement?.bind (Statement.operation? table)

/-- The operations of lines are those of the statements they stand for. -/
theorem filterMap_operation? (table : SymbolTable) (ls : List AsmLine) :
    (ls.filterMap AsmLine.statement?).filterMap (Statement.operation? table) =
      ls.filterMap (AsmLine.operation? table) :=
  List.filterMap_filterMap

/-- Lines have as many operations as their size says. -/
theorem length_filterMap_operation? (table : SymbolTable) (ls : List AsmLine) :
    (ls.filterMap (AsmLine.operation? table)).length = size ls := by
  induction ls with
  | nil => rfl
  | cons l ls ih =>
      cases l <;>
        simp [AsmLine.operation?, AsmLine.statement?, Statement.operation?, List.filterMap_cons,
        size, ih]

/-- The operation of a line stands behind those of the lines before it. -/
theorem getElem?_rom {ls before after : List AsmLine} {l : AsmLine} {op : Operation}
    {table : SymbolTable} (hls : ls = before ++ l :: after) (hop : l.operation? table = some op) :
    (ls.filterMap (AsmLine.operation? table)).toArray[size before]? = some op := by
  rw [hls, List.filterMap_append, List.filterMap_cons, hop, List.getElem?_toArray,
    List.getElem?_append_right (Nat.le_of_eq (length_filterMap_operation? table before)),
    length_filterMap_operation?, Nat.sub_self]
  rfl

section placement

variable {ls : List AsmLine} (hplace : Placeable (ls.filterMap AsmLine.statement?))
include hplace

/-- What an operand is assembled to. -/
theorem valueIn_operand (o : Operand) :
    valueIn (symbolsOf (ls.filterMap AsmLine.statement?)) (asRead o.text) =
      o.value (nameValue (ls.filterMap AsmLine.statement?)) := by
  cases o with
  | number n =>
      rw [Operand.text, asRead_number, valueIn, numeral?_text]
      rfl
  | symbol s =>
      cases s with
      | cell c =>
          have hcell := Symbol.faithful_cell c
          rw [Operand.text, hcell.asRead_eq, valueIn, hcell.numeral?_eq, Symbol.text,
            hplace.lookup_predefined c.lookup_predefined]
          rfl
      | _ => rfl

/-- A label that is read as it was written has the address it stands at. -/
theorem nameValue_define {before after : List AsmLine} {s : Symbol}
    (hls : ls = before ++ .define s :: after) (hs : s.Faithful) :
    (nameValue (ls.filterMap AsmLine.statement?) s.text).toNat = size before := by
  have hss : ls.filterMap AsmLine.statement? =
      before.filterMap AsmLine.statement? ++
        .define s.text :: after.filterMap AsmLine.statement? := by
    rw [hls, List.filterMap_append, List.filterMap_cons]
    rfl
  have hle : size before ≤ Word.maxUnsigned := by
    have hextent := hplace.extent_le
    rw [extent_statements, hls, size_append] at hextent
    omega
  have hmax : Word.maxUnsigned = 65535 := rfl
  rw [nameValue, hs.asRead_eq, valueIn, hs.numeral?_eq, hplace.lookup_label hss, extent_statements]
  rw [Option.getD_none, Option.getD_some, BitVec.toNat_ofNat]
  exact Nat.mod_eq_of_lt (by omega)

/-- **Lines stand where they are counted to stand.** -/
theorem placed_lines {before middle after : List AsmLine} (hls : ls = before ++ middle ++ after)
    (hfaithful : ∀ s, .define s ∈ middle → s.Faithful) :
    Placed (programOf (ls.filterMap AsmLine.statement?)).rom
      (nameValue (ls.filterMap AsmLine.statement?)) (size before) middle := by
  induction middle generalizing before with
  | nil => trivial
  | cons l middle ih =>
      have hsplit : ls = before ++ l :: (middle ++ after) := by
        rw [hls, List.append_assoc, List.cons_append]
      have hrest := @ih (before ++ [l]) (by rw [hls]; simp)
        (fun s hs => hfaithful s (List.mem_cons_of_mem _ hs))
      rw [size_append] at hrest
      have hrom : (programOf (ls.filterMap AsmLine.statement?)).rom =
          (ls.filterMap
            (AsmLine.operation? (symbolsOf (ls.filterMap AsmLine.statement?)))).toArray := by
        rw [programOf, filterMap_operation?]
      cases l with
      | comment text => exact hrest
      | define s => exact ⟨nameValue_define hplace hsplit (hfaithful s List.mem_cons_self), hrest⟩
      | load o =>
          refine ⟨?_, hrest⟩
          rw [hrom, getElem?_rom hsplit rfl, valueIn_operand hplace]
      | assign target value =>
          refine ⟨?_, hrest⟩
          rw [hrom, getElem?_rom hsplit rfl]
      | branch tested jump =>
          refine ⟨?_, hrest⟩
          rw [hrom, getElem?_rom hsplit rfl]

end placement

/-! ## Sites and addresses -/

/-- Comments are no statements, so the statements of a run are those of its code. -/
theorem runStatements_eq (options : Options) (units : List UnitCode) :
    runStatements options units =
      ((runSites options units).flatMap Site.code).filterMap AsmLine.statement? := by
  rw [runStatements, List.filterMap_flatMap]
  rfl

/-- The address of a site is the size of the code in front of it. -/
theorem size_flatMap_take (sites : List Site) (k : Nat) :
    size ((sites.take k).flatMap Site.code) = addressOf sites k := by
  unfold addressOf
  induction sites.take k with
  | nil => rfl
  | cons site sites ih => rw [List.flatMap_cons, size_append, ih, List.map_cons, List.sum_cons]

/-- The next site begins behind the code of this one. -/
theorem addressOf_succ {sites : List Site} {k : Nat} {site : Site} (hk : sites[k]? = some site) :
    addressOf sites (k + 1) = addressOf sites k + size site.code := by
  unfold addressOf
  rw [List.take_add_one, hk, List.map_append, List.sum_append]
  simp

/-- The code before a site, at it and behind it. -/
theorem flatMap_code_eq {sites : List Site} {k : Nat} {site : Site} (hk : sites[k]? = some site) :
    sites.flatMap Site.code =
      (sites.take k).flatMap Site.code ++ site.code ++ (sites.drop (k + 1)).flatMap Site.code := by
  have hsites : sites.take k ++ [site] ++ sites.drop (k + 1) = sites := by
    have hsplit := List.take_append_drop (k + 1) sites
    rwa [List.take_add_one, hk] at hsplit
  conv_lhs => rw [← hsites]
  rw [List.flatMap_append, List.flatMap_append, List.flatMap_singleton]

/-- A symbol is defined if a line defines it. -/
theorem mem_definedSymbols {ls : List AsmLine} {s : Symbol} :
    s ∈ definedSymbols ls ↔ .define s ∈ ls := by
  rw [definedSymbols, List.mem_filterMap]
  constructor
  · rintro ⟨l, hl, hsome⟩
    cases l with
    | define s' =>
        cases hsome
        exact hl
    | _ => cases hsome
  · intro h
    exact ⟨_, h, rfl⟩

/-- The code of a site whose labels are read as they were written stands at the address of the
site. -/
theorem placed_site_of_faithful {options : Options} {units : List UnitCode}
    (hplace : Placeable (runStatements options units)) {k : Nat} {site : Site}
    (hk : (runSites options units)[k]? = some site)
    (hfaithful : ∀ s, .define s ∈ site.code → s.Faithful) :
    Placed (programOf (runStatements options units)).rom (nameValue (runStatements options units))
      (addressOf (runSites options units) k) site.code := by
  rw [runStatements_eq] at hplace ⊢
  rw [← size_flatMap_take]
  exact placed_lines hplace (flatMap_code_eq hk) hfaithful

/-- So does the code of a site that declares nothing but generated labels. -/
theorem placed_site_of_generated {options : Options} {units : List UnitCode}
    (hplace : Placeable (runStatements options units)) {k : Nat} {site : Site}
    (hk : (runSites options units)[k]? = some site) {i : Instruction}
    (hcommand : site.command = .perform i)
    (hown : ∀ s ∈ ownSymbols site.scope i, ∃ r n, s = .generated r n) :
    Placed (programOf (runStatements options units)).rom (nameValue (runStatements options units))
      (addressOf (runSites options units) k) site.code := by
  refine placed_site_of_faithful hplace hk ?_
  intro s hs
  rw [← mem_definedSymbols, definedSymbols_code hcommand] at hs
  obtain ⟨r, n, rfl⟩ := hown s hs
  exact Symbol.faithful_generated r n

/-! ## Names that are fit to be assembled -/

/-- The name does not end in a blank. -/
def NoBlankEnd (name : String) : Prop :=
  ∀ c ∈ name.toList.getLast?, isBlank c = false

/-- The test for a blank end, character by character. -/
theorem all_getLast_iff {name : String} :
    name.toList.getLast?.all (fun c => !isBlank c) = true ↔ NoBlankEnd name := by
  unfold NoBlankEnd
  cases name.toList.getLast? <;> simp

instance (name : String) : Decidable (NoBlankEnd name) :=
  decidable_of_iff _ all_getLast_iff

/-- The instruction declares no function that is named like a number, and nothing whose name ends in
a blank. -/
def WellSpelled : Instruction → Prop
  | .function name _ => numeral? name = none ∧ NoBlankEnd name
  | .label name => NoBlankEnd name
  | _ => True

instance : (i : Instruction) → Decidable (WellSpelled i)
  | .function .. => inferInstanceAs (Decidable (_ ∧ _))
  | .label _ => inferInstanceAs (Decidable (NoBlankEnd _))
  | .arithmetic _ | .push .. | .pop .. | .goto _ | .ifGoto _ | .call .. | .ret => .isTrue trivial

/-- What a run has to promise about its names. -/
structure WellNamed (options : Options) (units : List UnitCode) : Prop where
  /-- Units stand on one line and hold no comment. -/
  unit : ∀ u ∈ units, '\n' ∉ u.name.toList ∧ NoComment u.name.toList
  /-- So does the entry function. -/
  entry : '\n' ∉ options.entry.toList ∧ NoComment options.entry.toList
  /-- Functions and labels are spelled so that they are read back as they were written. -/
  spelled : ∀ u ∈ units, ∀ i ∈ u.code, WellSpelled i
  /-- Every name that control may go to is declared. -/
  target : ∀ site ∈ runSites options units, ∀ name ∈ target? site,
    ∃ other ∈ runSites options units, declared? other = some name
  /-- No static cell is spelled like a name that is declared. -/
  static : ∀ site ∈ runSites options units, ∀ cell ∈ static? site,
    ∀ other ∈ runSites options units, declared? other ≠ some (Symbol.static cell.1 cell.2).text

/-- The name of a function is read back if it holds no comment, ends in no blank and is no
number. -/
theorem Symbol.faithful_function {name : String} (hname : NoComment name.toList)
    (hlast : NoBlankEnd name) (hnumber : numeral? name = none) : (Symbol.function name).Faithful :=
  ⟨asRead_eq_self hname hlast, hnumber⟩

/-- What is known of the site of an instruction of a unit. -/
structure InUnit (units : List UnitCode) (site : Site) (i : Instruction) : Prop where
  command : site.command = .perform i
  readable : Readable i
  mem : ∃ u ∈ units, i ∈ u.code
  unit : ∃ u ∈ units, site.scope.unit = some u.name
  function : NoComment site.scope.function.toList

section wellNamed

variable {options : Options} {units : List UnitCode}
  (hreadable : ∀ u ∈ units, ∀ i ∈ u.code, Readable i)
include hreadable

/-- Every site is one of the two of the bootstrap, or that of an instruction of a unit. -/
theorem site_cases {site : Site} (hsite : site ∈ runSites options units) :
    (∃ base, site.command = .setStack base) ∨
      (options.bootstrap = true ∧ site.command = .perform (.call options.entry 0)) ∨
      ∃ i, InUnit units site i := by
  rcases List.mem_append.mp hsite with hsite | hsite
  · unfold bootstrapSites at hsite
    split_ifs at hsite with hboot
    · simp only [List.mem_cons, List.not_mem_nil, or_false] at hsite
      rcases hsite with rfl | rfl
      · exact .inl ⟨_, rfl⟩
      · exact .inr (.inl ⟨hboot, rfl⟩)
    · cases hsite
  · right
    right
    have hafter : ∀ (s : Scope) (i : Instruction),
        (NoComment s.function.toList ∧ ∃ u ∈ units, s.unit = some u.name) →
        (Readable i ∧ ∃ u ∈ units, i ∈ u.code) →
        (NoComment (s.after i).function.toList ∧ ∃ u ∈ units, (s.after i).unit = some u.name) := by
      rintro s i ⟨hfunction, hunit⟩ ⟨hi, -⟩
      rw [Scope.after_unit, Scope.function_after]
      refine ⟨?_, hunit⟩
      cases i with
      | function name n => exact hi.1.noComment
      | _ => exact hfunction
    have hstart : NoComment (bootstrapScope options).function.toList := by
      unfold bootstrapScope
      split_ifs
      · exact noComment_nil
      · exact noComment_nil
    obtain ⟨⟨hfunction, hunit⟩, i, hcommand, ⟨hi, hmem⟩, -⟩ := forall_unitSites
      (P := fun s => NoComment s.function.toList ∧ ∃ u ∈ units, s.unit = some u.name)
      (fun s u hu hs => ⟨hs, u, hu, rfl⟩) hafter (fun s hs => hs.1)
      (fun u hu i hi => ⟨hreadable u hu i hi, u, hu, hi⟩) hstart site hsite
    exact ⟨i, hcommand, hi, hmem, hunit, hfunction⟩

/-- Every command of a run has code. -/
theorem hasCode_of_mem {site : Site} (hsite : site ∈ runSites options units) : site.HasCode := by
  rcases site_cases hreadable hsite with ⟨base, hcommand⟩ | ⟨-, hcommand⟩ | ⟨j, hj⟩
  · refine ⟨?_, ?_⟩
    · intro i hi
      rw [hcommand] at hi
      cases hi
    · intro name n hi
      rw [hcommand] at hi
      cases hi
  · refine ⟨?_, ?_⟩
    · intro i hi
      rw [hcommand] at hi
      cases hi
      exact ⟨_, rfl⟩
    · intro name n hi
      rw [hcommand] at hi
      cases hi
  · refine ⟨?_, ?_⟩
    · intro i hi
      rw [hj.command] at hi
      cases hi
      obtain ⟨u, -, hunit⟩ := hj.unit
      exact Scope.block_of_readable hunit hj.readable
    · intro name n hi
      rw [hj.command] at hi
      cases hi
      exact hj.readable.2

variable (hnames : WellNamed options units)
include hnames

/-- Every label of a run is read as it was written. -/
theorem faithful_of_mem {site : Site} (hsite : site ∈ runSites options units) {s : Symbol}
    (hs : .define s ∈ site.code) : s.Faithful := by
  rw [← mem_definedSymbols] at hs
  rcases site_cases hreadable hsite with ⟨base, hcommand⟩ | ⟨-, hcommand⟩ | ⟨i, hi⟩
  · rw [Site.code, hcommand] at hs
    cases hs
  · rw [definedSymbols_code hcommand] at hs
    cases List.mem_singleton.mp hs
    exact Symbol.faithful_generated _ _
  · rw [definedSymbols_code hi.command] at hs
    obtain ⟨u, hu, hmem⟩ := hi.mem
    have hreads := hi.readable
    cases i with
    | label name =>
        cases List.mem_singleton.mp hs
        exact Symbol.faithful_scoped hi.function hreads.noComment (hnames.spelled u hu _ hmem)
    | function name n =>
        simp only [ownSymbols, List.mem_cons, List.not_mem_nil, or_false] at hs
        obtain ⟨hnumber, hlast⟩ := hnames.spelled u hu _ hmem
        rcases hs with rfl | rfl | rfl
        · exact Symbol.faithful_function hreads.1.noComment hlast hnumber
        · exact Symbol.faithful_generated _ _
        · exact Symbol.faithful_generated _ _
    | arithmetic op =>
        cases op <;> simp [ownSymbols, shapeOf] at hs <;> rcases hs with rfl | rfl <;>
          exact Symbol.faithful_generated _ _
    | ifGoto name =>
        cases List.mem_singleton.mp hs
        exact Symbol.faithful_generated _ _
    | call name n =>
        cases List.mem_singleton.mp hs
        exact Symbol.faithful_generated _ _
    | _ => cases hs

/-- The code of every site stands at the address of the site. -/
theorem placed_site (hplace : Placeable (runStatements options units)) {k : Nat} {site : Site}
    (hk : (runSites options units)[k]? = some site) :
    Placed (programOf (runStatements options units)).rom (nameValue (runStatements options units))
      (addressOf (runSites options units) k) site.code := by
  refine placed_site_of_faithful hplace hk ?_
  intro s hs
  exact faithful_of_mem hreadable hnames (List.mem_of_getElem? hk) hs

/-- A name that a site declares has the address of the site. -/
theorem names_declared (hplace : Placeable (runStatements options units)) {k : Nat} {site : Site}
    {name : String} (hk : (runSites options units)[k]? = some site)
    (hname : declared? site = some name) :
    (nameValue (runStatements options units) name).toNat =
      addressOf (runSites options units) k := by
  have hplaced := placed_site hreadable hnames hplace hk
  obtain ⟨scope, command, comment⟩ := site
  cases command with
  | setStack base => cases hname
  | perform i =>
      cases i with
      | function f n =>
          cases hname
          exact hplaced.1
      | label l =>
          cases hname
          exact hplaced.1
      | _ => cases hname

end wellNamed

/-! ## Variables -/

/-- The static cell that a line loads. -/
def AsmLine.staticLoad? : AsmLine → Option (String × Word)
  | .load (.symbol (.static unit index)) => some (unit, index)
  | _ => none

/-- The spelling of a static cell. -/
def cellText (cell : String × Word) : String :=
  (Symbol.static cell.1 cell.2).text

/-- Different cells have different names. -/
theorem cellText_injective : Function.Injective cellText := by
  rintro ⟨u, i⟩ ⟨u', i'⟩ h
  obtain ⟨rfl, rfl⟩ := Symbol.static_text_injective h
  rfl

/-- The name of a function or of a label of the source that a line loads. -/
def AsmLine.targetLoad? : AsmLine → Option String
  | .load (.symbol (.function name)) => some name
  | .load (.symbol (.scoped f l)) => some (Symbol.scoped f l).text
  | _ => none

/-- The code of an address loads no function and no label. -/
theorem targetLoad?_addressBlock {unit : Option String} {seg : Segment} {n : Word}
    {block : List AsmLine} (h : addressBlock unit seg n = .ok block) :
    block.filterMap AsmLine.targetLoad? = [] := by
  rcases addressBlock_cases h with rfl | ⟨base, r, rfl⟩ | ⟨u, -, rfl⟩ <;> rfl

/-- The code of a site loads the name that the site may go to, and no other. -/
theorem targetLoad?_code {site : Site} (hcode : site.HasCode) :
    site.code.filterMap AsmLine.targetLoad? = (target? site).toList := by
  obtain ⟨scope, command, comment⟩ := site
  cases command with
  | setStack base => rfl
  | perform i =>
      obtain ⟨block, hblock⟩ := hcode.block i rfl
      rw [Site.code_of_block hblock]
      cases i with
      | arithmetic op =>
          cases hblock
          cases op <;> rfl
      | push seg n =>
          obtain ⟨address, haddress, rfl⟩ := pushBlock_eq_ok hblock
          rw [List.filterMap_append, List.filterMap_append, targetLoad?_addressBlock haddress]
          rfl
      | pop seg n =>
          obtain ⟨address, haddress, rfl⟩ := popBlock_eq_ok hblock
          rw [List.filterMap_append, List.filterMap_append, List.filterMap_append,
            targetLoad?_addressBlock haddress]
          rfl
      | _ =>
          cases hblock
          rfl

/-- The code of an address loads a static cell exactly in the static segment. -/
theorem staticLoad?_addressBlock {unit : Option String} {seg : Segment} {n : Word}
    {block : List AsmLine} (h : addressBlock unit seg n = .ok block) :
    block.filterMap AsmLine.staticLoad? =
      if seg = .static then (unit.map fun u => (u, n)).toList else [] := by
  unfold addressBlock at h
  cases seg with
  | static =>
      cases unit with
      | none => cases h
      | some u =>
          cases h
          rfl
  | _ =>
      cases h
      rfl

/-- The code of a site loads the static cell that the site uses, and no other. -/
theorem staticLoad?_code {site : Site} (hcode : site.HasCode) :
    site.code.filterMap AsmLine.staticLoad? = (static? site).toList := by
  obtain ⟨scope, command, comment⟩ := site
  cases command with
  | setStack base => rfl
  | perform i =>
      obtain ⟨block, hblock⟩ := hcode.block i rfl
      rw [Site.code_of_block hblock]
      cases i with
      | arithmetic op =>
          cases hblock
          cases op <;> rfl
      | push seg n =>
          obtain ⟨address, haddress, rfl⟩ := pushBlock_eq_ok hblock
          rw [List.filterMap_append, List.filterMap_append, staticLoad?_addressBlock haddress]
          unfold static?
          cases seg <;> cases scope.unit <;> rfl
      | pop seg n =>
          obtain ⟨address, haddress, rfl⟩ := popBlock_eq_ok hblock
          rw [List.filterMap_append, List.filterMap_append, List.filterMap_append,
            staticLoad?_addressBlock haddress]
          unfold static?
          cases seg <;> cases scope.unit <;> rfl
      | _ =>
          cases hblock
          rfl

section injective

variable {α β : Type} [BEq α] [LawfulBEq α] [BEq β] [LawfulBEq β] {f : α → β}
  (hf : Function.Injective f)
include hf

/-- Renaming without clashes keeps what is a repetition. -/
theorem eraseDups_map (xs : List α) : (xs.map f).eraseDups = xs.eraseDups.map f := by
  induction h : xs.length using Nat.strongRecOn generalizing xs with
  | ind n ih =>
      cases xs with
      | nil => rfl
      | cons x xs =>
          have hfilter : (xs.map f).filter (fun b => !b == f x) =
              (xs.filter fun b => !b == x).map f := by
            rw [List.filter_map]
            congr 1
            apply List.filter_congr
            intro b _
            simp [hf.eq_iff]
          have hlt : (xs.filter fun b => !b == x).length < n := by
            have hle := List.length_filter_le (fun b => !b == x) xs
            rw [List.length_cons] at h
            omega
          rw [List.map_cons, List.eraseDups_cons, List.eraseDups_cons, hfilter, ih _ hlt _ rfl,
            List.map_cons]

/-- Renaming without clashes keeps what is found first. -/
theorem idxOf_map (x : α) (xs : List α) : (xs.map f).idxOf (f x) = xs.idxOf x := by
  induction xs with
  | nil => rfl
  | cons y xs ih =>
      have hbeq : (f y == f x) = (y == x) := by
        rw [Bool.eq_iff_iff, beq_iff_eq, beq_iff_eq, hf.eq_iff]
      rw [List.map_cons, List.idxOf_cons, List.idxOf_cons, ih, hbeq]

end injective

/-- The code of a site that declares a name starts with the definition of the name. -/
theorem code_of_declared {site : Site} {name : String} (h : declared? site = some name) :
    ∃ s rest, site.code = .define s :: rest ∧ s.text = name := by
  obtain ⟨scope, command, comment⟩ := site
  cases command with
  | setStack base => cases h
  | perform i =>
      cases i with
      | function f n =>
          cases h
          exact ⟨.function _, _, rfl, rfl⟩
      | label l =>
          cases h
          exact ⟨.scoped scope.function l, _, rfl, rfl⟩
      | _ => cases h

/-- A site defines the name that it declares. -/
theorem exists_define_of_declared {site : Site} {name : String} (h : declared? site = some name) :
    ∃ s, .define s ∈ site.code ∧ s.text = name := by
  obtain ⟨s, rest, hcode, htext⟩ := code_of_declared h
  rw [hcode]
  exact ⟨s, List.mem_cons_self, htext⟩

/-- A site that defines a name that holds a full stop declares it, since generated labels hold
none. -/
theorem declared_of_define {site : Site} {s : Symbol} (h : .define s ∈ site.code)
    (hstop : '.' ∈ s.text.toList) : declared? site = some s.text := by
  rw [← mem_definedSymbols] at h
  have hgenerated : ∀ r n, s ≠ .generated r n := by
    rintro r n rfl
    exact Symbol.stop_notMem_generated r n hstop
  obtain ⟨scope, command, comment⟩ := site
  cases command with
  | setStack base => cases h
  | perform i =>
      rw [definedSymbols_code rfl] at h
      cases i with
      | function f n =>
          simp only [ownSymbols, List.mem_cons, List.not_mem_nil, or_false] at h
          rcases h with rfl | rfl | rfl
          · rfl
          · exact absurd rfl (hgenerated _ _)
          · exact absurd rfl (hgenerated _ _)
      | label l =>
          cases List.mem_singleton.mp h
          rfl
      | arithmetic op =>
          cases op <;> simp [ownSymbols, shapeOf] at h <;> rcases h with rfl | rfl <;>
            exact absurd rfl (hgenerated _ _)
      | ifGoto l =>
          cases List.mem_singleton.mp h
          exact absurd rfl (hgenerated _ _)
      | call f n =>
          cases List.mem_singleton.mp h
          exact absurd rfl (hgenerated _ _)
      | _ => cases h

/-- A name is defined in a run if the code of a site defines it. -/
theorem mem_definitions_iff {options : Options} {units : List UnitCode} {name : String} :
    name ∈ definitions (runStatements options units) ↔
      ∃ site ∈ runSites options units, ∃ s, .define s ∈ site.code ∧ s.text = name := by
  rw [runStatements_eq, definitions_statements, List.mem_map]
  constructor
  · rintro ⟨s, hs, rfl⟩
    obtain ⟨site, hsite, hcode⟩ := List.mem_flatMap.mp (mem_definedSymbols.mp hs)
    exact ⟨site, hsite, s, hcode, rfl⟩
  · rintro ⟨site, hsite, s, hcode, rfl⟩
    exact ⟨s, mem_definedSymbols.mpr (List.mem_flatMap.mpr ⟨site, hsite, hcode⟩), rfl⟩

/-- A static cell is one of the unit that its site stands in. -/
theorem unit_of_static {site : Site} {cell : String × Word} (hcell : static? site = some cell) :
    site.scope.unit = some cell.1 := by
  unfold static? at hcell
  split at hcell
  · next hunit =>
      cases hcell
      exact hunit
  · next hunit =>
      cases hcell
      exact hunit
  · cases hcell

/-- A static cell that is spelled like no declared name is unknown to the first pass: generated
labels and predefined symbols hold no full stop. -/
theorem lookup_static_eq_none {options : Options} {units : List UnitCode} {cell : String × Word}
    (hclash : ∀ other ∈ runSites options units, declared? other ≠ some (cellText cell)) :
    (labelsOf (runStatements options units)).symbols.lookup (cellText cell) = none := by
  rw [lookup_labelsOf_eq_none_iff]
  refine ⟨?_, lookup_predefined_eq_none (.inl (Symbol.stop_mem_static _ _))⟩
  intro hmem
  obtain ⟨other, hother, s, hs, htext⟩ := mem_definitions_iff.mp hmem
  have hstop : '.' ∈ s.text.toList := by
    rw [htext]
    exact Symbol.stop_mem_static _ _
  have hdeclared := declared_of_define hs hstop
  rw [htext] at hdeclared
  exact hclash other hother hdeclared

section cells

variable {options : Options} {units : List UnitCode}
  (hreadable : ∀ u ∈ units, ∀ i ∈ u.code, Readable i) (hnames : WellNamed options units)
include hreadable hnames

/-- A name that control may go to is a label, and it is read as it was written. -/
theorem target_known {site : Site} (hsite : site ∈ runSites options units) {name : String}
    (hname : target? site = some name) :
    asRead name = name ∧ name ∈ definitions (runStatements options units) := by
  obtain ⟨other, hother, hdeclared⟩ := hnames.target site hsite name hname
  obtain ⟨s, hs, rfl⟩ := exists_define_of_declared hdeclared
  exact ⟨(faithful_of_mem hreadable hnames hother hs).asRead_eq,
    mem_definitions_iff.mpr ⟨other, hother, s, hs, rfl⟩⟩

/-- A static cell is no label, and it is read as it was written. -/
theorem static_unknown {site : Site} (hsite : site ∈ runSites options units) {cell : String × Word}
    (hcell : static? site = some cell) :
    (Symbol.static cell.1 cell.2).Faithful ∧
      (labelsOf (runStatements options units)).symbols.lookup (cellText cell) = none := by
  refine ⟨?_, lookup_static_eq_none (hnames.static site hsite cell hcell)⟩
  have hunit := unit_of_static hcell
  apply Symbol.faithful_static
  rcases site_cases hreadable hsite with ⟨base, hcommand⟩ | ⟨-, hcommand⟩ | ⟨i, hi⟩
  · rw [static?, hcommand] at hcell
    cases hcell
  · rw [static?, hcommand] at hcell
    cases hcell
  · obtain ⟨u, hu, hname⟩ := hi.unit
    rw [Option.some.inj (hunit.symm.trans hname)]
    exact (hnames.unit u hu).2

/-- A function or a label of the source that a line loads is no variable. -/
theorem filter_isVariable_target {site : Site} (hsite : site ∈ runSites options units) {l : AsmLine}
    (hl : l ∈ site.code) {name : String} (hname : l.targetLoad? = some name) :
    (some (asRead name)).filter (isVariable (labelsOf (runStatements options units)).symbols) =
      none := by
  have htarget : name ∈ (target? site).toList := by
    rw [← targetLoad?_code (hasCode_of_mem hreadable hsite)]
    exact List.mem_filterMap.mpr ⟨l, hl, hname⟩
  obtain ⟨hread, hmem⟩ := target_known hreadable hnames hsite (Option.mem_toList.mp htarget)
  apply filter_isVariable_of_known
  right
  rw [hread, ne_eq, lookup_labelsOf_eq_none_iff]
  exact fun h => h.1 hmem

/-- A static cell that a line loads is a variable. -/
theorem filter_isVariable_static {site : Site} (hsite : site ∈ runSites options units) {l : AsmLine}
    (hl : l ∈ site.code) {cell : String × Word} (hcell : l.staticLoad? = some cell) :
    (some (asRead (cellText cell))).filter
      (isVariable (labelsOf (runStatements options units)).symbols) =
      some (cellText cell) := by
  have hmem : cell ∈ (static? site).toList := by
    rw [← staticLoad?_code (hasCode_of_mem hreadable hsite)]
    exact List.mem_filterMap.mpr ⟨l, hl, hcell⟩
  obtain ⟨hfaithful, hlookup⟩ := static_unknown hreadable hnames hsite (Option.mem_toList.mp hmem)
  have hread : asRead (cellText cell) = cellText cell := hfaithful.asRead_eq
  have htrue :
      isVariable (labelsOf (runStatements options units)).symbols (cellText cell) = true := by
    rw [isVariable, cellText, hfaithful.numeral?_eq]
    exact Option.isNone_iff_eq_none.mpr hlookup
  rw [hread]
  exact if_pos htrue

/-- Of what a line loads, only a static cell is a variable. -/
theorem filter_isVariable_load {site : Site} (hsite : site ∈ runSites options units) {l : AsmLine}
    (hl : l ∈ site.code) :
    (l.statement?.bind Statement.operand?).filter
        (isVariable (labelsOf (runStatements options units)).symbols) =
      l.staticLoad?.map cellText := by
  cases l with
  | load o =>
      cases o with
      | number n =>
          apply filter_isVariable_of_known
          left
          rw [Operand.text, asRead_number, numeral?_text]
          exact Option.some_ne_none n
      | symbol s =>
          cases s with
          | cell c =>
              apply filter_isVariable_of_known
              right
              rw [Operand.text, (Symbol.faithful_cell c).asRead_eq, ne_eq,
                lookup_labelsOf_eq_none_iff]
              rintro ⟨-, hnone⟩
              rw [Symbol.text, c.lookup_predefined] at hnone
              cases hnone
          | generated r n =>
              apply filter_isVariable_of_known
              right
              rw [Operand.text, (Symbol.faithful_generated r n).asRead_eq, ne_eq,
                lookup_labelsOf_eq_none_iff]
              rintro ⟨hnot, -⟩
              exact hnot (mem_definitions_iff.mpr
                ⟨site, hsite, _, Site.define_of_load_generated hl, rfl⟩)
          | function f =>
              have hname : AsmLine.targetLoad? (.load (.symbol (.function f))) = some f := rfl
              exact filter_isVariable_target hreadable hnames hsite hl hname
          | static u i =>
              have hcell : AsmLine.staticLoad? (.load (.symbol (.static u i))) = some (u, i) := rfl
              have hvariable := filter_isVariable_static hreadable hnames hsite hl hcell
              simpa only [AsmLine.statement?, Operand.text, Option.bind_some, Statement.operand?,
                AsmLine.staticLoad?, Option.map_some, cellText] using hvariable
          | «scoped» f l =>
              have hname : AsmLine.targetLoad? (.load (.symbol (.scoped f l))) =
                  some (Symbol.scoped f l).text := rfl
              exact filter_isVariable_target hreadable hnames hsite hl hname
  | _ => rfl

/-- The variables of a run are its static cells. -/
theorem newVariables_run :
    newVariables (labelsOf (runStatements options units)).symbols (runStatements options units) =
      (statics (runSites options units)).map cellText := by
  have hcells : ((runStatements options units).filterMap Statement.operand?).filter
      (isVariable (labelsOf (runStatements options units)).symbols) =
      ((runSites options units).filterMap static?).map cellText := by
    rw [runStatements_eq, List.filterMap_filterMap, List.filter_filterMap]
    rw [← runStatements_eq]
    have hlines : ((runSites options units).flatMap Site.code).filterMap
        (fun l => (l.statement?.bind Statement.operand?).filter
          (isVariable (labelsOf (runStatements options units)).symbols)) =
        ((runSites options units).flatMap Site.code).filterMap fun l =>
          l.staticLoad?.map cellText := by
      apply List.filterMap_congr
      intro l hl
      obtain ⟨site, hsite, hl⟩ := List.mem_flatMap.mp hl
      exact filter_isVariable_load hreadable hnames hsite hl
    have hsites : ((runSites options units).flatMap Site.code).filterMap AsmLine.staticLoad? =
        (runSites options units).filterMap static? := by
      rw [List.filterMap_flatMap, List.filterMap_eq_flatMap_toList]
      apply List.flatMap_congr
      intro site hsite
      exact staticLoad?_code (hasCode_of_mem hreadable hsite)
    rw [hlines, ← List.map_filterMap, hsites]
  rw [newVariables, hcells, statics]
  exact eraseDups_map cellText_injective _

/-- **A static cell has the address that the machine gives it.** -/
theorem names_static {site : Site} (hsite : site ∈ runSites options units) {cell : String × Word}
    (hcell : static? site = some cell) :
    nameValue (runStatements options units) (cellText cell) =
      staticCell (runSites options units) cell.1 cell.2 := by
  obtain ⟨hfaithful, -⟩ := static_unknown hreadable hnames hsite hcell
  have hmem : cell ∈ statics (runSites options units) :=
    List.mem_eraseDups.mpr (List.mem_filterMap.mpr ⟨site, hsite, hcell⟩)
  have hvariable : cellText cell ∈
      newVariables (labelsOf (runStatements options units)).symbols
        (runStatements options units) := by
    rw [newVariables_run hreadable hnames]
    exact List.mem_map_of_mem hmem
  have hread : asRead (cellText cell) = cellText cell := hfaithful.asRead_eq
  rw [nameValue_of_variable hread hvariable, newVariables_run hreadable hnames,
    idxOf_map cellText_injective]
  rfl

end cells

end HackVM.Lowering
