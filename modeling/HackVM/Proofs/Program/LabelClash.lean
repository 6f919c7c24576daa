import HackVM.Proofs.Program.RunAssembly

/-!
# When labels clash

A run defines three kinds of labels: the names of its functions, the labels of the source inside
their functions, and generated labels. Which of them there are is a matter of the list of
instructions alone (`functionNames`, `scopedLabels`, `generatedLabels`); the counters and scopes of
the lowering give exactly these (`filter_isFunction`, `filter_isScoped`, `perm_generatedLabels`).

Main statement (`duplicate_label_iff`): assembly of a run fails exactly if a function is declared
twice, a function takes the name of a predefined symbol, a generated label or a label of the source,
or two labels of the source have one spelling (`LabelClash`). Generated labels never clash with each
other or with labels of the source, and a block refers to no generated label that it does not
define.
-/

namespace HackVM.Lowering

open Text Hack Source

/-! ## The labels of a list of instructions -/

/-- The instructions of a run in order; the bootstrap is a call. -/
def runInstructions (options : Options) (units : List UnitCode) : List Instruction :=
  (if options.bootstrap then [.call options.entry 0] else []) ++ units.flatMap UnitCode.code

/-- The names of the functions, in order. -/
def functionNames : List Instruction → List String
  | [] => []
  | .function name _ :: is => name :: functionNames is
  | _ :: is => functionNames is

/-- The labels of the source with the function that each stands in, which at first is the given
one. -/
def scopedLabels (function : String) : List Instruction → List String
  | [] => []
  | .label name :: is => (function ++ "." ++ name) :: scopedLabels function is
  | .function name _ :: is => scopedLabels name is
  | _ :: is => scopedLabels function is

/-- Every role of a generated label. -/
def LabelRole.all : List LabelRole :=
  [.holds, .compared, .ifFalse, .returnSite, .loopStart, .loopEnd]

/-- How many label numbers of a kind instructions take. -/
def issuedBy (is : List Instruction) (k : LabelKind) : Nat :=
  is.countP fun i => labelKind? i = some k

/-- One more instruction takes one number more of its kind. -/
theorem issuedBy_cons (i : Instruction) (is : List Instruction) (k : LabelKind) :
    issuedBy (i :: is) k = issuedBy is k + if labelKind? i = some k then 1 else 0 := by
  simp [issuedBy, List.countP_cons]

/-- How many label numbers instructions take in all. -/
def labelsTaken (is : List Instruction) : Nat :=
  is.countP fun i => (labelKind? i).isSome

/-- All label numbers are those of the four kinds. -/
theorem labelsTaken_eq (is : List Instruction) :
    labelsTaken is = issuedBy is .comparison + issuedBy is .ifFalse + issuedBy is .returnSite +
      issuedBy is .localsLoop := by
  induction is with
  | nil => rfl
  | cons i is ih =>
      rw [labelsTaken] at ih
      simp only [labelsTaken, List.countP_cons, ih, issuedBy_cons]
      cases labelKind? i with
      | none => simp
      | some k => cases k <;> simp <;> omega

/-- The generated labels of a list of instructions, by role. -/
def generatedLabels (is : List Instruction) : List String :=
  LabelRole.all.flatMap fun r =>
    (List.range (issuedBy is r.kind)).map fun n => r.stem ++ Decimal.text n

/-- The ways in which the labels of a list of instructions can clash. -/
def LabelClash (is : List Instruction) : Prop :=
  ¬ (functionNames is).Nodup ∨
  (∃ f ∈ functionNames is,
    f ∈ predefined.map Prod.fst ∨ f ∈ generatedLabels is ∨ f ∈ scopedLabels "" is) ∨
  ¬ (scopedLabels "" is).Nodup

instance (is : List Instruction) : Decidable (LabelClash is) :=
  inferInstanceAs (Decidable (_ ∨ _ ∨ _))

/-! ## The symbols that code defines -/

/-- The symbols that lines define, in order. -/
def definedSymbols (ls : List AsmLine) : List Symbol :=
  ls.filterMap fun
    | .define s => some s
    | _ => none

/-- The symbols that the code of an instruction defines. -/
def ownSymbols (s : Scope) : Instruction → List Symbol
  | .arithmetic op =>
    match shapeOf op with
    | .compare _ =>
      [.generated .holds s.labels.comparison, .generated .compared s.labels.comparison]
    | _ => []
  | .label name => [.scoped s.function name]
  | .ifGoto _ => [.generated .ifFalse s.labels.ifFalse]
  | .function name _ =>
    [.function name, .generated .loopStart s.labels.localsLoop,
      .generated .loopEnd s.labels.localsLoop]
  | .call .. => [.generated .returnSite s.labels.returnSite]
  | _ => []

/-- The symbols that the code of instructions defines, the first of which stands in the given
scope. -/
def symbolsFrom (s : Scope) : List Instruction → List Symbol
  | [] => []
  | i :: is => ownSymbols s i ++ symbolsFrom (s.after i) is

theorem definedSymbols_append (ls ms : List AsmLine) :
    definedSymbols (ls ++ ms) = definedSymbols ls ++ definedSymbols ms :=
  List.filterMap_append

/-- What the lines define is what the assembler sees defined. -/
theorem definitions_statements (ls : List AsmLine) :
    definitions (ls.filterMap AsmLine.statement?) = (definedSymbols ls).map Symbol.text := by
  rw [definitions, definedSymbols, List.filterMap_filterMap, List.map_filterMap]
  refine List.filterMap_congr fun l _ => ?_
  cases l <;> rfl

/-- The code of an address defines nothing. -/
theorem definedSymbols_addressBlock {unit : Option String} {seg : Segment} {n : Word}
    {block : List AsmLine} (h : addressBlock unit seg n = .ok block) :
    definedSymbols block = [] := by
  rcases addressBlock_cases h with rfl | ⟨base, r, rfl⟩ | ⟨u, -, rfl⟩ <;> rfl

/-- The code of an instruction defines the instruction's own symbols. -/
theorem definedSymbols_block {s : Scope} {i : Instruction} {block : List AsmLine}
    (h : s.block i = .ok block) : definedSymbols block = ownSymbols s i := by
  cases i with
  | arithmetic op =>
      cases h
      cases op <;> rfl
  | push seg n =>
      obtain ⟨address, haddress, rfl⟩ := pushBlock_eq_ok h
      rw [definedSymbols_append, definedSymbols_append, definedSymbols_addressBlock haddress]
      rfl
  | pop seg n =>
      obtain ⟨address, haddress, rfl⟩ := popBlock_eq_ok h
      rw [definedSymbols_append, definedSymbols_append, definedSymbols_append,
        definedSymbols_addressBlock haddress]
      rfl
  | _ =>
      cases h
      rfl

/-- An instruction without code would define nothing. -/
theorem ownSymbols_of_error {s : Scope} {i : Instruction} {e : Misuse} (h : s.block i = .error e) :
    ownSymbols s i = [] := by
  cases i with
  | push seg n => rfl
  | pop seg n => rfl
  | _ => cases h

/-- So does its code at a site, which is none if it is misused. -/
theorem definedSymbols_code {site : Site} {i : Instruction} (h : site.command = .perform i) :
    definedSymbols site.code = ownSymbols site.scope i := by
  have hcode : site.code = (site.scope.block i).toOption.getD [] := by rw [Site.code, h]
  rw [hcode]
  cases hblock : site.scope.block i with
  | error e => exact (ownSymbols_of_error hblock).symm
  | ok block => exact definedSymbols_block hblock

/-- The symbols of a list of instructions, along its sites. -/
theorem flatMap_instructionSites (s : Scope) (is : List Instruction) :
    (instructionSites s is).flatMap (fun site => definedSymbols site.code) = symbolsFrom s is := by
  induction is generalizing s with
  | nil => rfl
  | cons i is ih =>
    rw [instructionSites, List.flatMap_cons, definedSymbols_code rfl, ih, symbolsFrom]

/-- Symbols are collected along the instructions, with the scope behind the first ones. -/
theorem symbolsFrom_append (s : Scope) (is js : List Instruction) :
    symbolsFrom s (is ++ js) = symbolsFrom s is ++ symbolsFrom (is.foldl Scope.after s) js := by
  induction is generalizing s with
  | nil => rfl
  | cons i is ih => simp [symbolsFrom, ih]

/-- Scopes that differ in their unit only lead to scopes that differ in their unit only. -/
theorem Scope.inUnit_after (s : Scope) (name : String) (i : Instruction) :
    (s.inUnit name).after i = (s.after i).inUnit name := by
  unfold after number
  cases i <;> split <;> rfl

/-- Labels do not depend on the unit. -/
theorem symbolsFrom_inUnit (s : Scope) (name : String) (is : List Instruction) :
    symbolsFrom (s.inUnit name) is = symbolsFrom s is := by
  induction is generalizing s with
  | nil => rfl
  | cons i is ih =>
      rw [symbolsFrom, symbolsFrom, Scope.inUnit_after, ih]
      cases i <;> rfl

/-- The borders of units make no difference to the symbols. -/
theorem flatMap_unitSites (s : Scope) (units : List UnitCode) :
    (unitSites s units).flatMap (fun site => definedSymbols site.code) =
      symbolsFrom s (units.flatMap UnitCode.code) := by
  have hend : ∀ (s : Scope) (name : String) (is : List Instruction),
      is.foldl Scope.after (s.inUnit name) = (is.foldl Scope.after s).inUnit name := by
    intro s name is
    induction is generalizing s with
    | nil => rfl
    | cons i is ih => rw [List.foldl_cons, List.foldl_cons, Scope.inUnit_after, ih]
  induction units generalizing s with
  | nil => rfl
  | cons u units ih =>
      rw [unitSites, List.flatMap_append, flatMap_instructionSites, ih, List.flatMap_cons,
        symbolsFrom_append, symbolsFrom_inUnit, unitEnd, hend, symbolsFrom_inUnit]

/-- The symbols that the code of a run defines. -/
theorem flatMap_runSites (options : Options) (units : List UnitCode) :
    (runSites options units).flatMap (fun site => definedSymbols site.code) =
      symbolsFrom {} (runInstructions options units) := by
  rw [runSites, List.flatMap_append, flatMap_unitSites, runInstructions, symbolsFrom_append]
  unfold bootstrapSites bootstrapScope
  split_ifs
  · rfl
  · rfl

/-- The symbols that the lines of a run define. -/
theorem definedSymbols_runLines (options : Options) (units : List UnitCode) :
    definedSymbols (runLines options units) = symbolsFrom {} (runInstructions options units) := by
  have hlines : ∀ site : Site,
      definedSymbols (site.lines options.annotate) = definedSymbols site.code := by
    intro site
    rw [Site.lines, definedSymbols_append]
    cases options.annotate <;> cases site.comment <;> rfl
  rw [← flatMap_runSites, runLines, definedSymbols, List.filterMap_flatMap]
  exact congrArg (List.flatMap · _) (funext hlines)

/-- The labels that the statements of a run define. -/
theorem definitions_runStatements (options : Options) (units : List UnitCode) :
    definitions (runStatements options units) =
      (symbolsFrom {} (runInstructions options units)).map Symbol.text := by
  rw [← flatMap_runSites, runStatements, definitions, List.filterMap_flatMap, List.map_flatMap]
  exact congrArg (List.flatMap · _) (funext fun site => definitions_statements site.code)

/-! ## The three kinds of labels -/

/-- The symbol is the name of a function. -/
def Symbol.isFunction : Symbol → Bool
  | .function _ => true
  | _ => false

/-- The symbol is a label of the source. -/
def Symbol.isScoped : Symbol → Bool
  | .scoped _ _ => true
  | _ => false

/-- The symbol is a generated label. -/
def Symbol.isGenerated : Symbol → Bool
  | .generated _ _ => true
  | _ => false

/-- The symbol is a generated label in the given role. -/
def Symbol.isRole (r : LabelRole) : Symbol → Bool
  | .generated r' _ => r' = r
  | _ => false

/-- The name of a function is no label. -/
theorem Symbol.not_of_isFunction {x : Symbol} (h : x.isFunction = true) :
    x.isScoped = false ∧ ∀ r, x.isRole r = false :=
  match x, h with
  | .function _, _ => ⟨rfl, fun _ => rfl⟩

/-- The symbols of functions are the names that the instructions declare. -/
theorem filter_isFunction (s : Scope) (is : List Instruction) :
    ((symbolsFrom s is).filter Symbol.isFunction).map Symbol.text = functionNames is := by
  induction is generalizing s with
  | nil => rfl
  | cons i is ih =>
      rw [symbolsFrom, List.filter_append, List.map_append, ih]
      cases i with
      | arithmetic op => cases op <;> rfl
      | _ => rfl

/-- Only a function changes the function of the scope. -/
theorem Scope.function_after (s : Scope) (i : Instruction) :
    (s.after i).function = match i with
      | .function name _ => name
      | _ => s.function := by
  unfold after number
  cases i <;> split <;> rfl

/-- The symbols of labels are the labels of the source behind their functions. -/
theorem filter_isScoped (s : Scope) (is : List Instruction) :
    ((symbolsFrom s is).filter Symbol.isScoped).map Symbol.text = scopedLabels s.function is := by
  induction is generalizing s with
  | nil => rfl
  | cons i is ih =>
      rw [symbolsFrom, List.filter_append, List.map_append, ih, Scope.function_after]
      cases i with
      | arithmetic op => cases op <;> rfl
      | _ => rfl

/-- An instruction takes one number of its kind. -/
theorem Scope.issued_after (s : Scope) (i : Instruction) (k : LabelKind) :
    (s.after i).labels.issued k = s.labels.issued k + if labelKind? i = some k then 1 else 0 := by
  have henter : ∀ t : Scope, (t.enter i).labels = t.labels := by
    intro t
    cases i <;> rfl
  rw [after, henter, number]
  cases labelKind? i with
  | none => simp
  | some l => simp

/-- The code of an instruction defines each role of the kind of label it takes, once, under the next
number. -/
theorem filter_isRole_ownSymbols (s : Scope) (r : LabelRole) (i : Instruction) :
    (ownSymbols s i).filter (Symbol.isRole r) =
      if labelKind? i = some r.kind then [.generated r (s.labels.issued r.kind)] else [] := by
  cases i with
  | arithmetic op => cases op <;> cases r <;> rfl
  | _ => cases r <;> rfl

/-- The labels of a role are numbered in order, without a gap. -/
theorem filter_isRole (s : Scope) (r : LabelRole) (is : List Instruction) :
    (symbolsFrom s is).filter (Symbol.isRole r) =
      (List.range (issuedBy is r.kind)).map fun n =>
        .generated r (s.labels.issued r.kind + UInt32.ofNat n) := by
  induction is generalizing s with
  | nil => rfl
  | cons i is ih =>
      rw [symbolsFrom, List.filter_append, ih, filter_isRole_ownSymbols, issuedBy_cons,
        Scope.issued_after]
      split_ifs with hkind
      · rw [List.range_succ_eq_map, List.map_cons, List.map_map]
        refine congrArg₂ List.cons (by simp) (List.map_congr_left fun n _ => ?_)
        rw [Function.comp_apply, Nat.succ_eq_add_one, UInt32.ofNat_add,
          UInt32.add_comm (UInt32.ofNat n), ← UInt32.add_assoc]
        rfl
      · simp

/-- At the start no number was given out. -/
theorem LabelCounters.issued_start (k : LabelKind) : ({} : LabelCounters).issued k = 0 := by
  cases k <;> rfl

/-- They are numbered from 0 in a run. -/
theorem filter_isRole_start (r : LabelRole) (is : List Instruction) :
    (symbolsFrom {} is).filter (Symbol.isRole r) =
      (List.range (issuedBy is r.kind)).map fun n => .generated r (UInt32.ofNat n) := by
  simp only [filter_isRole, LabelCounters.issued_start, UInt32.zero_add]

/-- Nothing else is defined. -/
theorem kind_of_mem_symbolsFrom {s : Scope} {is : List Instruction} {x : Symbol}
    (hx : x ∈ symbolsFrom s is) :
    x.isFunction = true ∨ x.isScoped = true ∨ ∃ r, x.isRole r = true := by
  induction is generalizing s with
  | nil => cases hx
  | cons i is ih =>
      rcases List.mem_append.mp hx with hx | hx
      · cases i with
        | arithmetic op =>
            cases op <;> simp [ownSymbols, shapeOf] at hx <;> rcases hx with rfl | rfl <;>
              exact .inr (.inr ⟨_, decide_eq_true rfl⟩)
        | label name =>
            cases List.mem_singleton.mp hx
            exact .inr (.inl rfl)
        | ifGoto name =>
            cases List.mem_singleton.mp hx
            exact .inr (.inr ⟨.ifFalse, rfl⟩)
        | call name n =>
            cases List.mem_singleton.mp hx
            exact .inr (.inr ⟨.returnSite, rfl⟩)
        | function name n =>
            simp only [ownSymbols, List.mem_cons, List.not_mem_nil, or_false] at hx
            rcases hx with rfl | rfl | rfl
            · exact .inl rfl
            · exact .inr (.inr ⟨.loopStart, rfl⟩)
            · exact .inr (.inr ⟨.loopEnd, rfl⟩)
        | _ => cases hx
      · exact ih hx

/-! ## How many labels a run takes -/

/-- Code with a label in it has an operation. -/
theorem one_le_size_code {site : Site} {i : Instruction} (h : site.command = .perform i)
    {k : LabelKind} (hk : labelKind? i = some k) : 1 ≤ size site.code := by
  have hcode : site.code = (site.scope.block i).toOption.getD [] := by rw [Site.code, h]
  rw [hcode]
  cases i with
  | arithmetic op => cases op <;> exact Nat.le_of_ble_eq_true rfl
  | push | pop | label | goto | ret => cases hk
  | ifGoto | call | function => exact Nat.le_of_ble_eq_true rfl

/-- Instructions take no more numbers of a kind than their code has operations. -/
theorem issuedBy_le_instructionSites (s : Scope) (is : List Instruction) (k : LabelKind) :
    issuedBy is k ≤ ((instructionSites s is).map fun site => size site.code).sum := by
  induction is generalizing s with
  | nil => exact Nat.le_refl 0
  | cons i is ih =>
      have hrest := ih (s.after i)
      rw [issuedBy_cons, instructionSites, List.map_cons, List.sum_cons]
      split_ifs with hk
      · have hfirst := @one_le_size_code ⟨s, .perform i, some i.text⟩ i rfl k hk
        omega
      · omega

/-- Units take no more numbers of a kind than their code has operations. -/
theorem issuedBy_le_unitSites (s : Scope) (units : List UnitCode) (k : LabelKind) :
    issuedBy (units.flatMap UnitCode.code) k ≤
      ((unitSites s units).map fun site => size site.code).sum := by
  induction units generalizing s with
  | nil => exact Nat.le_refl 0
  | cons u units ih =>
      rw [List.flatMap_cons, issuedBy, List.countP_append, unitSites, List.map_append,
        List.sum_append]
      exact Nat.add_le_add (issuedBy_le_instructionSites _ _ k) (ih _)

/-- **A run takes no more numbers of a kind than it has operations.** -/
theorem issuedBy_le_runSize (options : Options) (units : List UnitCode) (k : LabelKind) :
    issuedBy (runInstructions options units) k ≤ runSize options units := by
  rw [runInstructions, runSize, runSites, issuedBy, List.countP_append, List.map_append,
    List.sum_append]
  refine Nat.add_le_add ?_ (issuedBy_le_unitSites _ units k)
  unfold bootstrapSites
  split_ifs
  · cases k <;> exact Nat.le_of_ble_eq_true rfl
  · exact Nat.le_refl 0

/-! ## Where the counters stand -/

/-- Instructions move each counter by how many numbers of its kind they take. -/
theorem issued_foldl_after (is : List Instruction) (s : Scope) (k : LabelKind) :
    (is.foldl Scope.after s).labels.issued k =
      s.labels.issued k + UInt32.ofNat (issuedBy is k) := by
  induction is generalizing s with
  | nil => exact (UInt32.add_zero _).symm
  | cons i is ih =>
      rw [List.foldl_cons, ih, Scope.issued_after, issuedBy_cons, UInt32.ofNat_add,
        UInt32.add_comm (UInt32.ofNat (issuedBy is k)), ← UInt32.add_assoc]
      split_ifs <;> rfl

/-- **Units take one label number of a kind for each instruction of that kind.** -/
theorem issued_foldl_unitEnd (units : List UnitCode) (s : Scope) (k : LabelKind) :
    (units.foldl unitEnd s).labels.issued k =
      s.labels.issued k + UInt32.ofNat (issuedBy (units.flatMap UnitCode.code) k) := by
  induction units generalizing s with
  | nil => exact (UInt32.add_zero _).symm
  | cons u units ih =>
      rw [List.foldl_cons, ih, unitEnd, issued_foldl_after, List.flatMap_cons, issuedBy, issuedBy,
        issuedBy, List.countP_append, UInt32.ofNat_add, ← UInt32.add_assoc]
      rfl

/-- **A run takes one label number of a kind for each of its instructions of that kind**, the call
of the bootstrap included. -/
theorem issued_runEnd (options : Options) (units : List UnitCode) (k : LabelKind) :
    (runEnd options units).labels.issued k =
      UInt32.ofNat (issuedBy (runInstructions options units) k) := by
  have hstart : (bootstrapScope options).labels.issued k =
      UInt32.ofNat (issuedBy (if options.bootstrap then [.call options.entry 0] else []) k) := by
    unfold bootstrapScope
    split_ifs
    · cases k <;> rfl
    · cases k <;> rfl
  rw [runEnd, issued_foldl_unitEnd, hstart, runInstructions, ← UInt32.ofNat_add, issuedBy, issuedBy,
    issuedBy, List.countP_append]

/-- The total is that of the four kinds. -/
theorem LabelCounters.total_eq (c : LabelCounters) :
    c.total = c.issued .comparison + c.issued .ifFalse + c.issued .returnSite +
      c.issued .localsLoop :=
  rfl

/-- **A run takes as many label numbers in all as its instructions do.** -/
theorem total_runEnd (options : Options) (units : List UnitCode) :
    (runEnd options units).labels.total =
      UInt32.ofNat (labelsTaken (runInstructions options units)) := by
  rw [LabelCounters.total_eq, issued_runEnd, issued_runEnd, issued_runEnd, issued_runEnd,
    labelsTaken_eq, UInt32.ofNat_add, UInt32.ofNat_add, UInt32.ofNat_add]

/-! ## Spelling -/

section spelling

-- instructions that take so few numbers that no counter starts again
variable {is : List Instruction} (hfew : ∀ k, issuedBy is k ≤ UInt32.size)

/-- A number that was not given out twice is spelled as itself. -/
theorem text_generated_ofNat {n : Nat} (hn : n < UInt32.size) (r : LabelRole) :
    (Symbol.generated r (UInt32.ofNat n)).text = r.stem ++ Decimal.text n := by
  rw [Symbol.text, UInt32.toNat_ofNat_of_lt' hn]

/-- The functions that are defined are those of the instructions. -/
theorem mem_functionNames {x : Symbol} (hx : x ∈ symbolsFrom {} is) (hkind : x.isFunction = true) :
    x.text ∈ functionNames is := by
  rw [← filter_isFunction {} is]
  exact List.mem_map_of_mem (List.mem_filter.mpr ⟨hx, hkind⟩)

/-- The labels of the source that are defined are those of the instructions. -/
theorem mem_scopedLabels {x : Symbol} (hx : x ∈ symbolsFrom {} is) (hkind : x.isScoped = true) :
    x.text ∈ scopedLabels "" is := by
  have hscoped := filter_isScoped {} is
  rw [← hscoped]
  exact List.mem_map_of_mem (List.mem_filter.mpr ⟨hx, hkind⟩)

include hfew in
/-- So no number that is given out is too large. -/
theorem lt_size_of_mem_range {k : LabelKind} {n : Nat} (hn : n ∈ List.range (issuedBy is k)) :
    n < UInt32.size :=
  Nat.lt_of_lt_of_le (List.mem_range.mp hn) (hfew k)

include hfew in
/-- The generated labels of a run are those of its instructions. -/
theorem mem_generatedLabels_iff {name : String} :
    name ∈ generatedLabels is ↔
      ∃ x ∈ symbolsFrom {} is, (∃ r, x.isRole r = true) ∧ x.text = name := by
  constructor
  · intro hname
    obtain ⟨r, -, hr⟩ := List.mem_flatMap.mp hname
    obtain ⟨n, hn, rfl⟩ := List.mem_map.mp hr
    have hmem : Symbol.generated r (UInt32.ofNat n) ∈
        (symbolsFrom {} is).filter (Symbol.isRole r) := by
      rw [filter_isRole_start]
      exact List.mem_map_of_mem hn
    obtain ⟨hx, hrole⟩ := List.mem_filter.mp hmem
    exact ⟨_, hx, ⟨r, hrole⟩, text_generated_ofNat (lt_size_of_mem_range hfew hn) r⟩
  · rintro ⟨x, hx, ⟨r, hr⟩, rfl⟩
    have hmem := List.mem_filter.mpr ⟨hx, hr⟩
    rw [filter_isRole_start] at hmem
    obtain ⟨n, hn, rfl⟩ := List.mem_map.mp hmem
    refine List.mem_flatMap.mpr ⟨r, by cases r <;> decide, ?_⟩
    exact List.mem_map.mpr ⟨n, hn, (text_generated_ofNat (lt_size_of_mem_range hfew hn) r).symm⟩

/-- Generated labels have their own spelling each, and none that a predefined symbol or a label of
the source can have. -/
theorem generated_spelling {x y : Symbol} {r : LabelRole} (hx : x.isRole r = true) :
    predefined.lookup x.text = none ∧ '.' ∉ x.text.toList ∧
      ∀ r', y.isRole r' = true → x.text = y.text → x = y := by
  cases x with
  | generated r₁ n =>
      refine ⟨lookup_predefined_eq_none (.inr (Symbol.underscore_mem_generated r₁ n)),
        Symbol.stop_notMem_generated r₁ n, ?_⟩
      intro r' hy htext
      cases y with
      | generated r₂ m =>
          obtain ⟨rfl, rfl⟩ := Symbol.generated_text_injective htext
          rfl
      | _ => cases hy
  | _ => cases hx

/-- Labels of the source hold a full stop. -/
theorem stop_mem_of_isScoped {x : Symbol} (hx : x.isScoped = true) : '.' ∈ x.text.toList :=
  match x, hx with
  | .scoped f l, _ => Symbol.stop_mem_scoped f l

/-- No generated label is listed twice. -/
theorem nodup_generatedLabels (is : List Instruction) : (generatedLabels is).Nodup := by
  rw [generatedLabels, List.nodup_flatMap]
  constructor
  · intro r _
    refine List.Nodup.map ?_ List.nodup_range
    intro n m h
    exact (LabelRole.numbered_injective h).2
  · have hdistinct : LabelRole.all.Nodup := by decide
    refine hdistinct.imp ?_
    intro r r' hne name hr hr'
    obtain ⟨n, -, rfl⟩ := List.mem_map.mp hr
    obtain ⟨m, -, h⟩ := List.mem_map.mp hr'
    exact hne (LabelRole.numbered_injective h).1.symm

include hfew in
/-- No generated label is one of the source. -/
theorem generatedLabels_disjoint_scopedLabels {name : String} (hgen : name ∈ generatedLabels is) :
    name ∉ scopedLabels "" is := by
  obtain ⟨x, -, ⟨r, hr⟩, rfl⟩ := (mem_generatedLabels_iff hfew).mp hgen
  have hscoped := filter_isScoped {} is
  rw [← hscoped, List.mem_map]
  rintro ⟨y, hy, htext⟩
  have hstop := stop_mem_of_isScoped (List.mem_filter.mp hy).2
  rw [htext] at hstop
  exact (generated_spelling (y := y) hr).2.1 hstop

/-- A symbol of one kind is defined as often as its spelling is among those of its kind. -/
theorem count_symbolsFrom {p : Symbol → Bool} {x : Symbol} (hx : p x = true)
    (hnodup : ((symbolsFrom {} is).filter p).Nodup) : (symbolsFrom {} is).count x ≤ 1 := by
  rw [← List.count_filter hx]
  exact List.nodup_iff_count_le_one.mp hnodup x

include hfew in
/-- No generated label is defined twice. -/
theorem count_generated_le_one {x : Symbol} {r : LabelRole} (hx : x.isRole r = true) :
    (symbolsFrom {} is).count x ≤ 1 := by
  refine count_symbolsFrom hx ?_
  rw [filter_isRole_start]
  refine List.nodup_range.map_on fun n hn m hm h => ?_
  have hnumber := congrArg UInt32.toNat (Symbol.generated.inj h).2
  rwa [UInt32.toNat_ofNat_of_lt' (lt_size_of_mem_range hfew hn),
    UInt32.toNat_ofNat_of_lt' (lt_size_of_mem_range hfew hm)] at hnumber

/-- A generated label has a role. -/
theorem exists_isRole {x : Symbol} (hx : x.isGenerated = true) : ∃ r, x.isRole r = true :=
  match x, hx with
  | .generated r _, _ => ⟨r, decide_eq_true rfl⟩

/-- What has a role is a generated label. -/
theorem isGenerated_of_isRole {x : Symbol} {r : LabelRole} (hx : x.isRole r = true) :
    x.isGenerated = true :=
  match x, hx with
  | .generated _ _, _ => rfl

include hfew in
/-- The generated labels that are defined are those of the instructions, each defined once. -/
theorem perm_generatedLabels :
    (((symbolsFrom {} is).filter Symbol.isGenerated).map Symbol.text).Perm
      (generatedLabels is) := by
  have hinj : ∀ x ∈ (symbolsFrom {} is).filter Symbol.isGenerated,
      ∀ y ∈ (symbolsFrom {} is).filter Symbol.isGenerated, x.text = y.text → x = y := by
    intro x hx y hy h
    obtain ⟨r, hr⟩ := exists_isRole (List.mem_filter.mp hx).2
    obtain ⟨r', hr'⟩ := exists_isRole (List.mem_filter.mp hy).2
    exact (generated_spelling hr).2.2 r' hr' h
  have hnodup : ((symbolsFrom {} is).filter Symbol.isGenerated).Nodup := by
    refine List.nodup_iff_count_le_one.mpr fun x => ?_
    by_cases hx : x.isGenerated = true
    · obtain ⟨r, hr⟩ := exists_isRole hx
      rw [List.count_filter hx]
      exact count_generated_le_one hfew hr
    · rw [List.count_eq_zero_of_not_mem fun hmem => hx (List.mem_filter.mp hmem).2]
      exact Nat.zero_le 1
  rw [List.perm_ext_iff_of_nodup (hnodup.map_on hinj) (nodup_generatedLabels is)]
  intro name
  rw [mem_generatedLabels_iff hfew, List.mem_map]
  constructor
  · rintro ⟨x, hx, rfl⟩
    obtain ⟨hx, hkind⟩ := List.mem_filter.mp hx
    exact ⟨x, hx, exists_isRole hkind, rfl⟩
  · rintro ⟨x, hx, ⟨r, hr⟩, rfl⟩
    exact ⟨x, List.mem_filter.mpr ⟨hx, isGenerated_of_isRole hr⟩, rfl⟩

variable (hclash : ¬ LabelClash is)
include hfew hclash

/-- Without a clash no symbol is defined twice. -/
theorem nodup_symbolsFrom : (symbolsFrom {} is).Nodup := by
  simp only [LabelClash, not_or, not_not] at hclash
  obtain ⟨hfunctions, -, hscoped⟩ := hclash
  have hscopes := filter_isScoped {} is
  rw [← filter_isFunction {} is] at hfunctions
  rw [← hscopes] at hscoped
  refine List.nodup_iff_count_le_one.mpr fun x => ?_
  by_cases hx : x ∈ symbolsFrom {} is
  · rcases kind_of_mem_symbolsFrom hx with hkind | hkind | ⟨r, hkind⟩
    · exact count_symbolsFrom hkind hfunctions.of_map
    · exact count_symbolsFrom hkind hscoped.of_map
    · exact count_generated_le_one hfew hkind
  · rw [List.count_eq_zero_of_not_mem hx]
    exact Nat.zero_le 1

/-- Without a clash no two symbols that are defined have one spelling. -/
theorem text_injective_on {x y : Symbol} (hx : x ∈ symbolsFrom {} is) (hy : y ∈ symbolsFrom {} is)
    (h : x.text = y.text) : x = y := by
  simp only [LabelClash, not_or, not_not, not_exists, not_and] at hclash
  obtain ⟨hfunctions, hother, hscoped⟩ := hclash
  have hscopes := filter_isScoped {} is
  -- a function has the spelling of no other kind of symbol
  have hfunction : ∀ {x y : Symbol}, x ∈ symbolsFrom {} is → y ∈ symbolsFrom {} is →
      x.isFunction = true → x.text = y.text → x = y := by
    intro x y hx hy hkind h
    obtain ⟨-, hgen, hsc⟩ := hother x.text (mem_functionNames hx hkind)
    rcases kind_of_mem_symbolsFrom hy with hy' | hy' | hy'
    · rw [← filter_isFunction {} is] at hfunctions
      exact List.inj_on_of_nodup_map hfunctions (List.mem_filter.mpr ⟨hx, hkind⟩)
        (List.mem_filter.mpr ⟨hy, hy'⟩) h
    · exact absurd (h ▸ mem_scopedLabels hy hy') hsc
    · exact absurd ((mem_generatedLabels_iff hfew).mpr ⟨y, hy, hy', h.symm⟩) hgen
  rcases kind_of_mem_symbolsFrom hx with hx' | hx' | ⟨r, hx'⟩
  · exact hfunction hx hy hx' h
  · rcases kind_of_mem_symbolsFrom hy with hy' | hy' | ⟨r, hy'⟩
    · exact (hfunction hy hx hy' h.symm).symm
    · rw [← hscopes] at hscoped
      exact List.inj_on_of_nodup_map hscoped (List.mem_filter.mpr ⟨hx, hx'⟩)
        (List.mem_filter.mpr ⟨hy, hy'⟩) h
    · exact absurd (h ▸ stop_mem_of_isScoped hx') (generated_spelling (y := x) hy').2.1
  · rcases kind_of_mem_symbolsFrom hy with hy' | hy' | ⟨r', hy'⟩
    · exact (hfunction hy hx hy' h.symm).symm
    · exact absurd (h ▸ stop_mem_of_isScoped hy') (generated_spelling (y := y) hx').2.1
    · exact (generated_spelling hx').2.2 r' hy' h

omit hfew in
/-- Without a clash no predefined symbol is defined. -/
theorem lookup_predefined_of_mem {x : Symbol} (hx : x ∈ symbolsFrom {} is) :
    predefined.lookup x.text = none := by
  simp only [LabelClash, not_or, not_not, not_exists, not_and] at hclash
  obtain ⟨-, hother, -⟩ := hclash
  rcases kind_of_mem_symbolsFrom hx with hkind | hkind | ⟨r, hkind⟩
  · exact lookup_eq_none_iff_notMem.mpr (hother x.text (mem_functionNames hx hkind)).1
  · exact lookup_predefined_eq_none (.inl (stop_mem_of_isScoped hkind))
  · exact (generated_spelling (y := x) hkind).1

end spelling

/-! ## Clashes and assembly -/

/-- Labels that can be placed do not clash. -/
theorem not_labelClash_of_nodup {is : List Instruction} (hfew : ∀ k, issuedBy is k ≤ UInt32.size)
    (hnodup : ((symbolsFrom {} is).map Symbol.text).Nodup)
    (hnew : ∀ x ∈ symbolsFrom {} is, predefined.lookup x.text = none) : ¬ LabelClash is := by
  have hinj : ∀ x ∈ symbolsFrom {} is, ∀ y ∈ symbolsFrom {} is, x.text = y.text → x = y :=
    fun x hx y hy h => List.inj_on_of_nodup_map hnodup hx hy h
  have hsub : ∀ p : Symbol → Bool, (((symbolsFrom {} is).filter p).map Symbol.text).Nodup :=
    fun p => hnodup.sublist (List.filter_sublist.map _)
  have hscopes := filter_isScoped {} is
  rintro (hfunctions | ⟨f, hf, hother⟩ | hscoped)
  · exact hfunctions (filter_isFunction {} is ▸ hsub _)
  · rw [← filter_isFunction {} is] at hf
    obtain ⟨x, hx, rfl⟩ := List.mem_map.mp hf
    obtain ⟨hx, hkind⟩ := List.mem_filter.mp hx
    rcases hother with hpre | hgen | hsc
    · exact lookup_eq_none_iff_notMem.mp (hnew x hx) hpre
    · obtain ⟨y, hy, ⟨r, hr⟩, htext⟩ := (mem_generatedLabels_iff hfew).mp hgen
      obtain rfl := hinj y hy x hx htext
      rw [(Symbol.not_of_isFunction hkind).2 r] at hr
      cases hr
    · rw [← hscopes] at hsc
      obtain ⟨y, hy, htext⟩ := List.mem_map.mp hsc
      obtain ⟨hy, hkind'⟩ := List.mem_filter.mp hy
      obtain rfl := hinj y hy x hx htext
      rw [(Symbol.not_of_isFunction hkind).1] at hkind'
      cases hkind'
  · exact hscoped (hscopes ▸ hsub _)

/-- A run whose operations a word can count takes few labels. -/
theorem issuedBy_le_of_runSize_le {options : Options} {units : List UnitCode}
    (hfit : runSize options units ≤ Word.maxUnsigned) (k : LabelKind) :
    issuedBy (runInstructions options units) k ≤ UInt32.size :=
  (issuedBy_le_runSize options units k).trans (hfit.trans (by decide))

/-- **The statements of a run can be placed exactly if its labels do not clash.** -/
theorem placeable_runStatements_iff {options : Options} {units : List UnitCode}
    (hfit : runSize options units ≤ Word.maxUnsigned) :
    Placeable (runStatements options units) ↔ ¬ LabelClash (runInstructions options units) := by
  have hdefs := definitions_runStatements options units
  have hfew := issuedBy_le_of_runSize_le hfit
  constructor
  · intro h
    refine not_labelClash_of_nodup hfew (hdefs ▸ h.nodup) fun x hx => ?_
    refine h.notPredefined x.text ?_
    rw [hdefs]
    exact List.mem_map_of_mem hx
  · intro h
    refine ⟨?_, ?_, ?_⟩
    · rw [hdefs]
      exact (nodup_symbolsFrom hfew h).map_on fun x hx y hy => text_injective_on hfew h hx hy
    · intro name hname
      rw [hdefs] at hname
      obtain ⟨x, hx, rfl⟩ := List.mem_map.mp hname
      exact lookup_predefined_of_mem h hx
    · rw [extent_runStatements]
      exact hfit

/-- The generated labels that lines refer to. -/
def generatedReferences (ls : List AsmLine) : List Symbol :=
  ls.filterMap fun
    | .load (.symbol (.generated r n)) => some (.generated r n)
    | _ => none

theorem generatedReferences_append (ls ms : List AsmLine) :
    generatedReferences (ls ++ ms) = generatedReferences ls ++ generatedReferences ms :=
  List.filterMap_append

/-- The code of an address uses no generated label. -/
theorem generatedReferences_addressBlock {unit : Option String} {seg : Segment} {n : Word}
    {block : List AsmLine} (h : addressBlock unit seg n = .ok block) :
    generatedReferences block = [] := by
  rcases addressBlock_cases h with rfl | ⟨base, r, rfl⟩ | ⟨u, -, rfl⟩ <;> rfl

/-- A block refers to no generated label that it does not define. -/
theorem generatedReferences_subset {s : Scope} {i : Instruction} {block : List AsmLine}
    (h : s.block i = .ok block) : generatedReferences block ⊆ definedSymbols block := by
  rw [definedSymbols_block h]
  cases i with
  | arithmetic op =>
      cases h
      cases op with
      | eq | gt | lt => exact List.Subset.refl _
      | _ => exact List.nil_subset _
  | push seg n =>
      obtain ⟨address, haddress, rfl⟩ := pushBlock_eq_ok h
      rw [generatedReferences_append, generatedReferences_append,
        generatedReferences_addressBlock haddress]
      exact List.nil_subset _
  | pop seg n =>
      obtain ⟨address, haddress, rfl⟩ := popBlock_eq_ok h
      rw [generatedReferences_append, generatedReferences_append, generatedReferences_append,
        generatedReferences_addressBlock haddress]
      exact List.nil_subset _
  | ifGoto name =>
      cases h
      exact List.Subset.refl _
  | call name n =>
      cases h
      exact List.Subset.refl _
  | function name n =>
      cases h
      intro x hx
      rcases List.mem_cons.mp hx with rfl | hx
      · simp [ownSymbols]
      · cases List.mem_singleton.mp hx
        simp [ownSymbols]
  | _ =>
      cases h
      exact List.nil_subset _

/-- A generated label is defined where it is used. -/
theorem Site.define_of_load_generated {site : Site} {r : LabelRole} {n : UInt32}
    (h : .load (.symbol (.generated r n)) ∈ site.code) : .define (.generated r n) ∈ site.code := by
  have hdefined : Symbol.generated r n ∈ definedSymbols site.code := by
    have hreference : Symbol.generated r n ∈ generatedReferences site.code :=
      List.mem_filterMap.mpr ⟨_, h, rfl⟩
    unfold code at hreference ⊢
    split at hreference
    · cases hreference
    · next i _ =>
        cases hblock : site.scope.block i with
        | error e =>
            rw [hblock] at hreference
            cases hreference
        | ok block =>
            rw [hblock] at hreference
            exact generatedReferences_subset hblock hreference
  obtain ⟨l, hl, hsome⟩ := List.mem_filterMap.mp hdefined
  cases l with
  | define s =>
      cases hsome
      exact hl
  | _ => cases hsome

/-- What a run whose units can be read promises about its names. -/
theorem namesOnLine_of_reads {options : Options} {units : List SourceUnit} {codes : List UnitCode}
    (hread : List.Forall₂ Reads units codes) (hunits : ∀ u ∈ units, '\n' ∉ u.name.toList)
    (hentry : '\n' ∉ options.entry.toList) : NamesOnLine options codes := by
  exact ⟨readable_of_reads hread,
    forall_name_of_reads (P := fun name => '\n' ∉ name.toList) hread hunits,
    fun _ => hentry⟩

/-- What a run is assembled to. -/
theorem NamesOnLine.assembled {options : Options} {units : List SourceUnit} {codes : List UnitCode}
    {a : Assembly} {p : Program} (hnames : NamesOnLine options codes)
    (hread : List.Forall₂ Reads units codes) (hrun : (compile options units).result = .ok a)
    (hprogram : assemble a.text = .ok p) :
    Placeable (runStatements options codes) ∧ p = programOf (runStatements options codes) := by
  obtain ⟨b, hb, htext⟩ := exists_text_of_reads options hread
  rw [hb] at hrun
  cases hrun
  rw [htext] at hprogram
  exact hnames.assemble_eq_ok_iff.mp hprogram

/-- A run without clashes of labels, and whose operations a word can count, is written and
assembled. -/
theorem NamesOnLine.exists_program {options : Options} {units : List SourceUnit}
    {codes : List UnitCode} (hnames : NamesOnLine options codes)
    (hread : List.Forall₂ Reads units codes) (hfit : runSize options codes ≤ Word.maxUnsigned)
    (hclash : ¬ LabelClash (runInstructions options codes)) :
    ∃ a p, (compile options units).result = .ok a ∧ assemble a.text = .ok p := by
  obtain ⟨a, hrun, htext⟩ := exists_text_of_reads options hread
  refine ⟨a, programOf (runStatements options codes), hrun, ?_⟩
  rw [htext, hnames.assemble_eq_ok_iff]
  exact ⟨(placeable_runStatements_iff hfit).mpr hclash, rfl⟩

/-- **When labels clash.** A run whose units can be read, and whose operations a word can count, is
written; the assembler refuses what was written exactly if labels clash, and takes it otherwise. Of
generated labels it defines exactly those that its instructions take, no two alike and none like a
label of the source, and every block defines the generated labels it refers to. -/
theorem duplicate_label_iff {options : Options} {units : List SourceUnit} {codes : List UnitCode}
    (hread : List.Forall₂ Reads units codes) (hunits : ∀ u ∈ units, '\n' ∉ u.name.toList)
    (hentry : '\n' ∉ options.entry.toList) (hfit : runSize options codes ≤ Word.maxUnsigned) :
    ∃ a, (compile options units).result = .ok a ∧
      ((∃ name, assemble a.text = .error (.duplicateLabel name)) ↔
        LabelClash (runInstructions options codes)) ∧
      ((∃ p, assemble a.text = .ok p) ↔ ¬ LabelClash (runInstructions options codes)) ∧
      (((definedSymbols (runLines options codes)).filter Symbol.isGenerated).map Symbol.text).Perm
        (generatedLabels (runInstructions options codes)) ∧
      (generatedLabels (runInstructions options codes)).Nodup ∧
      (∀ name ∈ generatedLabels (runInstructions options codes),
        name ∉ scopedLabels "" (runInstructions options codes)) ∧
      ∀ site ∈ runSites options codes, ∀ r n,
        .load (.symbol (.generated r n)) ∈ site.code → .define (.generated r n) ∈ site.code := by
  have hnames := namesOnLine_of_reads hread hunits hentry
  have hplace := placeable_runStatements_iff hfit
  refine ⟨_, compile_of_reads hread, ?_⟩
  rw [text_of_bytes rfl]
  have hok : (∃ p, assemble (render (runLines options codes)) = .ok p) ↔
      ¬ LabelClash (runInstructions options codes) := by
    rw [← hplace]
    constructor
    · rintro ⟨p, hp⟩
      exact (hnames.assemble_eq_ok_iff.mp hp).1
    · intro h
      exact ⟨_, hnames.assemble_eq_ok_iff.mpr ⟨h, rfl⟩⟩
  have hfew := issuedBy_le_of_runSize_le hfit
  refine ⟨?_, hok, ?_, nodup_generatedLabels _, fun _ => generatedLabels_disjoint_scopedLabels hfew,
    fun _ _ _ _ => Site.define_of_load_generated⟩
  · constructor
    · rintro ⟨name, hname⟩
      by_contra h
      obtain ⟨p, hp⟩ := hok.mpr h
      rw [hname] at hp
      cases hp
    · intro h
      cases hresult : assemble (render (runLines options codes)) with
      | ok p => exact absurd h (hok.mp ⟨p, hresult⟩)
      | error e =>
          obtain ⟨name, rfl⟩ := hnames.assemble_eq_error hfit hresult
          exact ⟨name, rfl⟩
  · rw [definedSymbols_runLines]
    exact perm_generatedLabels hfew

/-- A function that is named like a label of an earlier function cannot be assembled. -/
theorem duplicate_label_of_function_named_as_label :
    List.Forall₂ Reads [SourceUnit.named "A" "function a 0\nlabel b\neq\nfunction a.b 0\n"]
        [⟨"A", [.function "a" 0, .label "b", .arithmetic .eq, .function "a.b" 0]⟩] ∧
      ∃ a name,
        (compile {} [SourceUnit.named "A" "function a 0\nlabel b\neq\nfunction a.b 0\n"]).result =
          .ok a ∧
        assemble a.text = .error (.duplicateLabel name) := by
  have hread :
      List.Forall₂ Reads [SourceUnit.named "A" "function a 0\nlabel b\neq\nfunction a.b 0\n"]
        [⟨"A", [.function "a" 0, .label "b", .arithmetic .eq, .function "a.b" 0]⟩] :=
    .cons ⟨rfl, by decide +kernel⟩ .nil
  obtain ⟨a, hrun, hclash, -⟩ :=
    @duplicate_label_iff {} _ _ hread (by decide) (by decide) (by decide)
  obtain ⟨name, hname⟩ := hclash.mpr (.inr (.inl ⟨"a.b", by decide, .inr (.inr (by decide))⟩))
  exact ⟨hread, a, name, hrun, hname⟩

end HackVM.Lowering
