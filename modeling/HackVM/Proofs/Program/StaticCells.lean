import HackVM.Proofs.Program.Layout

/-!
# Static cells of different units

A push or pop of a static cell loads a symbol that is made of the name of the unit and the index,
and the assembler gives it a cell of RAM. The name of a unit is free text and may hold digits and
full stops itself, so that cells are kept apart is a fact about spellings (`cellText_injective`) as
much as about the assembler.

A run need not be complete here: a name that control goes to and that nobody declares is a variable
like the static cells, and takes a cell between theirs. What is asked of the names is that those of
units hold no comment, and that no function and no label is spelled like a static cell.
-/

namespace HackVM.Lowering

open Text Hack Source Machine

/-! ## Positions of instructions -/

/-- The position of an instruction among the sites of a run, by its unit and its place there. -/
def positionOf (options : Options) (units : List UnitCode) (unit place : Nat) : Nat :=
  (bootstrapSites options).length + (((units.take unit).map fun u => u.code.length).sum + place)

/-- Every instruction has a site. -/
theorem length_instructionSites (s : Scope) (is : List Instruction) :
    (instructionSites s is).length = is.length := by
  induction is generalizing s with
  | nil => rfl
  | cons i is ih => rw [instructionSites, List.length_cons, List.length_cons, ih]

/-- The site of an instruction lies in the unit that its list is in. -/
theorem getElem?_instructionSites {s : Scope} {is : List Instruction} {b : Nat} {i : Instruction}
    (h : is[b]? = some i) :
    ∃ scope, scope.unit = s.unit ∧
      (instructionSites s is)[b]? = some ⟨scope, .perform i, some i.text⟩ := by
  induction is generalizing s b with
  | nil => cases h
  | cons head is ih =>
      cases b with
      | zero =>
          cases h
          exact ⟨s, rfl, rfl⟩
      | succ b =>
          obtain ⟨scope, hunit, hsite⟩ := @ih (s.after head) b h
          exact ⟨scope, hunit.trans (s.after_unit head), hsite⟩

/-- The site of an instruction is found by its unit and its place there. -/
theorem getElem?_unitSites {s : Scope} {units : List UnitCode} {a b : Nat} {u : UnitCode}
    {i : Instruction} (hu : units[a]? = some u) (hi : u.code[b]? = some i) :
    ∃ scope, scope.unit = some u.name ∧
      (unitSites s units)[((units.take a).map fun u => u.code.length).sum + b]? =
        some ⟨scope, .perform i, some i.text⟩ := by
  induction units generalizing s a with
  | nil => cases hu
  | cons head units ih =>
      rw [unitSites]
      cases a with
      | zero =>
          cases hu
          obtain ⟨scope, hunit, hsite⟩ := getElem?_instructionSites (s := s.inUnit u.name) hi
          refine ⟨scope, hunit, ?_⟩
          rw [List.take_zero, List.map_nil, List.sum_nil, Nat.zero_add]
          exact List.getElem?_append_left (List.getElem?_eq_some_iff.mp hsite).1 ▸ hsite
      | succ a =>
          obtain ⟨scope, hunit, hsite⟩ := @ih (unitEnd s head) a hu
          refine ⟨scope, hunit, ?_⟩
          rw [List.take_succ_cons, List.map_cons, List.sum_cons, Nat.add_assoc,
            ← length_instructionSites (s.inUnit head.name) head.code,
            List.getElem?_append_right (Nat.le_add_right _ _), Nat.add_sub_cancel_left]
          exact hsite

/-- **An instruction of a unit has its site at its position**, in the scope of the unit. -/
theorem getElem?_runSites (options : Options) {units : List UnitCode} {a b : Nat} {u : UnitCode}
    {i : Instruction} (hu : units[a]? = some u) (hi : u.code[b]? = some i) :
    ∃ scope, scope.unit = some u.name ∧
      (runSites options units)[positionOf options units a b]? =
        some ⟨scope, .perform i, some i.text⟩ := by
  obtain ⟨scope, hunit, hsite⟩ := getElem?_unitSites (s := bootstrapScope options) hu hi
  refine ⟨scope, hunit, ?_⟩
  rw [runSites, positionOf, List.getElem?_append_right (Nat.le_add_right _ _),
    Nat.add_sub_cancel_left]
  exact hsite

/-! ## Cells -/

section cells

variable {options : Options} {units : List UnitCode} {k : Nat} {site : Site} {cell : String × Word}
  (hk : (runSites options units)[k]? = some site) (hcell : static? site = some cell)
  (hcomment : NoComment cell.1.toList)
  (hclash : ∀ other ∈ runSites options units, declared? other ≠ some (cellText cell))
include hk hcell hcomment hclash

/-- A static cell that is spelled like no declared name is a variable. -/
theorem cellText_mem_newVariables (hcode : site.HasCode) :
    cellText cell ∈
      newVariables (labelsOf (runStatements options units)).symbols
        (runStatements options units) := by
  have hfaithful := Symbol.faithful_static hcomment cell.2
  -- the code of the site loads the cell
  have hload : cell ∈ site.code.filterMap AsmLine.staticLoad? := by
    rw [staticLoad?_code hcode, hcell]
    exact List.mem_singleton_self cell
  obtain ⟨l, hl, hstatic⟩ := List.mem_filterMap.mp hload
  have hoperand : l.statement?.bind Statement.operand? = some (cellText cell) := by
    unfold AsmLine.staticLoad? at hstatic
    split at hstatic
    · cases hstatic
      exact congrArg some hfaithful.asRead_eq
    · cases hstatic
  rw [newVariables, List.mem_eraseDups, List.mem_filter]
  constructor
  · rw [runStatements_eq, List.filterMap_filterMap]
    exact List.mem_filterMap.mpr ⟨l,
      List.mem_flatMap.mpr ⟨site, List.mem_of_getElem? hk, hl⟩, hoperand⟩
  · have hnumber : numeral? (cellText cell) = none := hfaithful.numeral?_eq
    rw [isVariable, hnumber, lookup_static_eq_none hclash]
    rfl

/-- The address of a static cell, as a number: cells are counted from the first one that is free. -/
theorem toNat_nameValue_cell (hcode : site.HasCode)
    (hplace : Placeable (runStatements options units)) :
    (nameValue (runStatements options units) (cellText cell)).toNat =
      firstVariable + (newVariables (labelsOf (runStatements options units)).symbols
        (runStatements options units)).idxOf (cellText cell) := by
  have hmem := cellText_mem_newVariables hk hcell hcomment hclash hcode
  have hread : asRead (cellText cell) = cellText cell :=
    (Symbol.faithful_static hcomment cell.2).asRead_eq
  have hidx := List.idxOf_lt_length_of_mem hmem
  have hvariables := length_newVariables_le (labelsOf (runStatements options units)).symbols
    (runStatements options units)
  have hloads := two_mul_loads_le options units
  have hextent := hplace.extent_le
  have hmax : Word.maxUnsigned = 65535 := rfl
  rw [nameValue_of_variable hread hmem, BitVec.toNat_ofNat]
  apply Nat.mod_eq_of_lt
  rw [firstVariable]
  omega

end cells

/-! ## Accesses -/

/-- The two ways to use a static cell. -/
inductive StaticUse where
  | push | pop
  deriving DecidableEq, Repr

namespace StaticUse

/-- The instruction that uses a cell. -/
def instruction (index : Word) : StaticUse → Instruction
  | .push => .push .static index
  | .pop => .pop .static index

/-- What a use of the cell at an address does to memory. -/
def effect (address : Word) (m : Memory) : StaticUse → Memory
  | .push => Machine.push (m.read address) m
  | .pop => popTo address m

end StaticUse

/-- The site at a position uses the cell at an address: its code starts by loading the address, and
it leads to the next site with the effect of that use on memory. -/
structure UsesCell (p : Program) (sites : List Site) (k : Nat) (use : StaticUse) (address : Word) :
    Prop where
  load : p.rom[addressOf sites k]? = some (.load address)
  leads : ∀ m, Leads p.rom m (addressOf sites k) (use.effect address m) (addressOf sites (k + 1))

/-- The code of a static access starts by loading the cell. -/
theorem StaticUse.code_eq {scope : Scope} {unit : String} (hunit : scope.unit = some unit)
    (use : StaticUse) (index : Word) (comment : Option String) :
    ∃ rest, Site.code ⟨scope, .perform (use.instruction index), comment⟩ =
      AsmLine.load (.symbol (.static unit index)) :: rest := by
  cases use with
  | push =>
      have hblock : scope.block (.push .static index) = pushBlock (some unit) .static index := by
        rw [← hunit]
        rfl
      exact ⟨_, Site.code_of_block hblock⟩
  | pop =>
      have hblock : scope.block (.pop .static index) = popBlock (some unit) .static index := by
        rw [← hunit]
        rfl
      exact ⟨_, Site.code_of_block hblock⟩

/-- A static access uses the cell that the assembler gives its name. -/
theorem usesCell_nameValue {options : Options} {units : List UnitCode}
    (hplace : Placeable (runStatements options units)) {k : Nat} {scope : Scope}
    {comment : Option String} {use : StaticUse} {unit : String} {index : Word}
    (hunit : scope.unit = some unit)
    (hk : (runSites options units)[k]? = some ⟨scope, .perform (use.instruction index), comment⟩)
    (hcode : Site.HasCode ⟨scope, .perform (use.instruction index), comment⟩) :
    UsesCell (programOf (runStatements options units)) (runSites options units) k use
      (nameValue (runStatements options units) (cellText (unit, index))) := by
  have hplaced :=
    placed_site_of_generated hplace hk rfl
      (by cases use <;> simp [StaticUse.instruction, ownSymbols])
  constructor
  · obtain ⟨rest, hlines⟩ := use.code_eq hunit index comment
    rw [hlines] at hplaced
    exact hplaced.1
  · intro m
    have hleads := leads_effect m hcode hplaced
    rw [← addressOf_succ hk] at hleads
    cases use with
    | push =>
        simp only [effect, StaticUse.instruction, hunit] at hleads
        exact hleads
    | pop =>
        simp only [effect, StaticUse.instruction, hunit] at hleads
        exact hleads

/-! ## Isolation -/

/-- The names of the cells that no variable is given. -/
def reservedNames : List String :=
  ["SP", "LCL", "ARG", "THIS", "THAT"] ++ (List.range 16).map fun n => "R" ++ Decimal.text n

/-- Reserved names have addresses below the variables. -/
theorem lookup_reserved {name : String} (h : name ∈ reservedNames) :
    ∃ address, predefined.lookup name = some address ∧ address.toNat < firstVariable := by
  have hall : reservedNames.all (fun name =>
      (predefined.lookup name).any fun address => address.toNat < firstVariable) = true := by
    decide +kernel
  have hname := List.all_eq_true.mp hall name h
  simpa [Option.any_eq_true] using hname

/-- An address that is given to variables. -/
structure Unreserved (p : Program) (address : Word) : Prop where
  firstVariable_le : 16 ≤ address.toNat
  ne_reserved : ∀ name ∈ reservedNames, p.symbol? name ≠ some address

/-- A cell among the variables is not reserved. -/
theorem unreserved_of_le {options : Options} {units : List UnitCode} {address : Word}
    (hplace : Placeable (runStatements options units)) (h : firstVariable ≤ address.toNat) :
    Unreserved (programOf (runStatements options units)) address := by
  refine ⟨h, ?_⟩
  intro name hname heq
  obtain ⟨reserved, hlookup, hlt⟩ := lookup_reserved hname
  have hsymbol : some reserved = some address := (hplace.lookup_predefined hlookup).symm.trans heq
  cases hsymbol
  exact Nat.not_le.mpr hlt h

/-- What the names of a run have to promise for its static cells. -/
structure KeepsStatics (options : Options) (units : List UnitCode) : Prop where
  /-- Units hold no comment. -/
  noComment : ∀ u ∈ units, NoComment u.name.toList
  /-- No static cell is spelled like a name that is declared. -/
  ne_declared : ∀ site ∈ runSites options units, ∀ cell ∈ static? site,
    ∀ other ∈ runSites options units, declared? other ≠ some (cellText cell)

/-- What a static access uses: the cell of a variable, by the place of its name among them. -/
theorem static_access {options : Options} {units : List UnitCode}
    (hreadable : ∀ u ∈ units, ∀ i ∈ u.code, Readable i) (hkeeps : KeepsStatics options units)
    (hplace : Placeable (runStatements options units)) {x y : Nat} {u : UnitCode} {use : StaticUse}
    {i : Word} (hu : units[x]? = some u) (hi : u.code[y]? = some (use.instruction i)) :
    ∃ address,
      UsesCell (programOf (runStatements options units)) (runSites options units)
        (positionOf options units x y)
        use address ∧
      cellText (u.name, i) ∈
        newVariables (labelsOf (runStatements options units)).symbols
          (runStatements options units) ∧
      address.toNat = firstVariable + (newVariables (labelsOf (runStatements options units)).symbols
        (runStatements options units)).idxOf (cellText (u.name, i)) := by
  obtain ⟨scope, hunit, hk⟩ := getElem?_runSites options hu hi
  have hsite := List.mem_of_getElem? hk
  have hcode := hasCode_of_mem hreadable hsite
  have hcell : static? ⟨scope, .perform (use.instruction i), some (use.instruction i).text⟩ =
      some (u.name, i) := by
    cases use <;> simp [static?, StaticUse.instruction, hunit]
  have hcomment := hkeeps.noComment u (List.mem_of_getElem? hu)
  have hclash := hkeeps.ne_declared _ hsite (u.name, i) hcell
  exact ⟨_, usesCell_nameValue hplace hunit hk hcode,
    cellText_mem_newVariables hk hcell hcomment hclash hcode,
    toNat_nameValue_cell hk hcell hcomment hclash hcode hplace⟩

/-- **Static cells are isolated by unit.** Let a run be read, written and assembled, its units being
named on one line and without a comment, its entry function on one line, and let no function and no
label be spelled like a static cell. Take any two static accesses. Each uses one cell of RAM, at an
address that is given to variables and is none of the cells that have a name of their own. The two
cells are the same exactly if the accesses stand in units of the same name and have the same
index. -/
theorem static_cells_isolated {options : Options} {units : List SourceUnit} {codes : List UnitCode}
    {a : Assembly} {p : Program} (hread : List.Forall₂ Reads units codes)
    (hunits : ∀ u ∈ units, '\n' ∉ u.name.toList ∧ NoComment u.name.toList)
    (hentry : '\n' ∉ options.entry.toList)
    (hclash : ∀ site ∈ runSites options codes, ∀ cell ∈ static? site,
      ∀ other ∈ runSites options codes, declared? other ≠ some (cellText cell))
    (hrun : (compile options units).result = .ok a) (hprogram : assemble a.text = .ok p)
    {x y j k : Nat} {u u' : UnitCode} {use use' : StaticUse} {i i' : Word}
    (hu : codes[x]? = some u) (hi : u.code[y]? = some (use.instruction i))
    (hu' : codes[j]? = some u') (hi' : u'.code[k]? = some (use'.instruction i')) :
    ∃ address address',
      UsesCell p (runSites options codes) (positionOf options codes x y) use address ∧
      UsesCell p (runSites options codes) (positionOf options codes j k) use' address' ∧
      (address = address' ↔ u.name = u'.name ∧ i = i') ∧
      Unreserved p address ∧ Unreserved p address' := by
  have hnames := namesOnLine_of_reads hread (fun u hu => (hunits u hu).1) hentry
  have hkeeps : KeepsStatics options codes :=
    ⟨forall_name_of_reads (P := fun name => NoComment name.toList) hread fun u hu =>
      (hunits u hu).2, hclash⟩
  obtain ⟨hplace, rfl⟩ := hnames.assembled hread hrun hprogram
  have hreadable := readable_of_reads hread
  obtain ⟨address, huses, hmem, hvalue⟩ := static_access hreadable hkeeps hplace hu hi
  obtain ⟨address', huses', -, hvalue'⟩ := static_access hreadable hkeeps hplace hu' hi'
  have hle : firstVariable ≤ address.toNat := by rw [hvalue]; exact Nat.le_add_right _ _
  have hle' : firstVariable ≤ address'.toNat := by rw [hvalue']; exact Nat.le_add_right _ _
  refine ⟨address, address', huses, huses', ?_, unreserved_of_le hplace hle,
    unreserved_of_le hplace hle'⟩
  constructor
  · intro heq
    rw [← heq, hvalue] at hvalue'
    have hidx := Nat.add_left_cancel hvalue'
    have htext : cellText (u.name, i) = cellText (u'.name, i') := (List.idxOf_inj hmem).mp hidx
    exact Prod.ext_iff.mp (cellText_injective htext)
  · rintro ⟨hname, rfl⟩
    apply BitVec.eq_of_toNat_eq
    rw [hvalue, hvalue', hname]

/-- Two units of one name share their cells, a unit whose name goes on like a cell of theirs does
not, and a call of a function that nobody declares stands between them. -/
theorem static_cells_isolated_alike :
    ∃ codes a p,
      List.Forall₂ Reads [.named "A" "push static 10\ncall A.1 0\n", .named "A.1" "pop static 0\n",
        .named "A" "pop static 10\n"] codes ∧
      (compile {} [.named "A" "push static 10\ncall A.1 0\n", .named "A.1" "pop static 0\n",
        .named "A" "pop static 10\n"]).result = .ok a ∧
      assemble a.text = .ok p ∧
      (∃ address address', UsesCell p (runSites {} codes) 2 .push address ∧
        UsesCell p (runSites {} codes) 4 .pop address' ∧ address ≠ address') ∧
      ∃ address, UsesCell p (runSites {} codes) 2 .push address ∧
        UsesCell p (runSites {} codes) 5 .pop address := by
  have hread : List.Forall₂ Reads
      [.named "A" "push static 10\ncall A.1 0\n", .named "A.1" "pop static 0\n",
        .named "A" "pop static 10\n"]
      [⟨"A", [.push .static 10, .call "A.1" 0]⟩, ⟨"A.1", [.pop .static 0]⟩,
        ⟨"A", [.pop .static 10]⟩] :=
    .cons ⟨rfl, by decide +kernel⟩
      (.cons ⟨rfl, by decide +kernel⟩ (.cons ⟨rfl, by decide +kernel⟩ .nil))
  have hnames : NamesOnLine {} _ := namesOnLine_of_reads hread (by decide) (by decide)
  obtain ⟨a, p, hrun, hprogram⟩ := hnames.exists_program hread (by decide) (by decide)
  have hpush : [Instruction.push .static 10, .call "A.1" 0][0]? =
      some (StaticUse.push.instruction 10) :=
    rfl
  have hother : [Instruction.pop .static 0][0]? = some (StaticUse.pop.instruction 0) := rfl
  have hpop : [Instruction.pop .static 10][0]? = some (StaticUse.pop.instruction 10) := rfl
  obtain ⟨address, address', huses, huses', hiff, -⟩ :=
    static_cells_isolated hread (by decide) (by decide)
    (by decide +kernel) hrun hprogram (x := 0) rfl hpush (j := 1) rfl hother
  obtain ⟨shared, shared', huse, huse', hshared, -⟩ :=
    static_cells_isolated hread (by decide) (by decide)
    (by decide +kernel) hrun hprogram (x := 0) rfl hpush (j := 2) rfl hpop
  refine ⟨_, a, p, hread, hrun, hprogram, ⟨address, address', huses, huses', ?_⟩, shared, huse, ?_⟩
  · intro heq
    exact absurd (hiff.mp heq).1 (by decide)
  · rw [hshared.mpr ⟨rfl, rfl⟩]
    exact huse'

end HackVM.Lowering
