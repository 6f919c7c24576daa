import HackVM.Proofs.Machine.StackRegion
import HackVM.Proofs.Program.Layout

/-!
# Comparisons of signed words

A comparison subtracts its operands and goes by the sign of the difference, and the difference
wraps. Two words are equal if and only if their difference is zero, wrapped or not. But the sign of
a difference that has wrapped is the opposite of the true one, and then so is the answer of `gt` and
of `lt`.

Main statement (`comparison_right_iff`): behind the code of a comparison the two operands are
replaced by one word that is -1 or 0, and this is the answer for the operands as signed numbers if
and only if the operator is `eq` or the difference fits a word. Two operands on which `gt` is wrong
are in `gt_wrong_on_far_operands`.
-/

namespace HackVM.Machine

open Hack Lowering

/-! ## Differences that wrap -/

/-- The difference of the words as signed numbers fits a word. -/
def Near (x y : Word) : Prop :=
  -32768 ≤ x.toInt - y.toInt ∧ x.toInt - y.toInt ≤ 32767

instance (x y : Word) : Decidable (Near x y) :=
  inferInstanceAs (Decidable (_ ∧ _))

/-- A word as a signed number lies between -32768 and 32767. -/
theorem toInt_bounds (x : Word) : -32768 ≤ x.toInt ∧ x.toInt ≤ 32767 := by
  have hlow := BitVec.le_two_mul_toInt (x := x)
  have hhigh := BitVec.two_mul_toInt_lt (x := x)
  omega

/-- The difference of near words is that of the numbers. -/
theorem toInt_sub_of_near {x y : Word} (h : Near x y) : (x - y).toInt = x.toInt - y.toInt := by
  obtain ⟨hlow, hhigh⟩ := h
  apply BitVec.toInt_sub_of_not_ssubOverflow
  simp only [BitVec.ssubOverflow, ge_iff_le, Bool.or_eq_true, decide_eq_true_eq]
  omega

/-- A difference that does not fit comes out on the other side of zero. -/
theorem toInt_sub_of_not_near {x y : Word} (h : ¬ Near x y) :
    (y.toInt < x.toInt ∧ (x - y).toInt < 0) ∨ (x.toInt < y.toInt ∧ 0 < (x - y).toInt) := by
  have hx := toInt_bounds x
  have hy := toInt_bounds y
  unfold Near at h
  rw [BitVec.toInt_sub, Int.bmod_eq_emod]
  split <;> omega

/-! ## What a comparison asks -/

/-- The question that an operator asks about two numbers, if it is a comparison. -/
def question? : Operator → Option (Int → Int → Bool)
  | .eq => some fun x y => x = y
  | .gt => some fun x y => y < x
  | .lt => some fun x y => x < y
  | _ => none

/-- An operator that asks a question is written as a comparison. -/
theorem exists_jump {op : Operator} {asks : Int → Int → Bool} (h : question? op = some asks) :
    ∃ jump, shapeOf op = .compare jump := by
  cases op with
  | eq => exact ⟨.jeq, rfl⟩
  | gt => exact ⟨.jgt, rfl⟩
  | lt => exact ⟨.jlt, rfl⟩
  | _ => cases h

/-- **When the sign of the difference answers the question.** -/
theorem taken_sub_eq_iff {op : Operator} {jump : Jump} {asks : Int → Int → Bool}
    (hjump : shapeOf op = .compare jump) (hasks : question? op = some asks) (x y : Word) :
    jump.taken (x - y) = asks x.toInt y.toInt ↔ op = .eq ∨ Near x y := by
  by_cases hnear : Near x y
  · have hsub := toInt_sub_of_near hnear
    simp only [hnear, or_true, iff_true]
    cases op with
    | eq | gt | lt =>
        cases hjump
        cases hasks
        simp only [Jump.taken, hsub, decide_eq_decide]
        omega
    | _ => cases hasks
  · have hfar := toInt_sub_of_not_near hnear
    simp only [hnear, or_false]
    cases op with
    | eq | gt | lt =>
        cases hjump
        cases hasks
        simp only [Jump.taken, decide_eq_decide, reduceCtorEq, iff_false, iff_true]
        omega
    | _ => cases hasks

/-- An operation on two operands, none of which is `SP` itself, lowers `SP` and puts the result in
the place of the lower one. -/
theorem binary_eq {m : Memory} (hupper : get .sp m - 1 ≠ Cell.sp.address)
    (hlower : get .sp m - 2 ≠ Cell.sp.address) (f : Word → Word → Word) :
    binary f m = (set .sp (get .sp m - 1) m).write (get .sp m - 2)
      (f (m.read (get .sp m - 2)) (m.read (get .sp m - 1))) := by
  have hsecond : get .sp m - 1 - 1 = get .sp m - 2 := by bv_omega
  unfold binary pop
  simp only [get_set_self, hsecond, read_set_of_ne hupper.symm, read_set_of_ne hlower.symm]

end HackVM.Machine

namespace HackVM.Lowering

open Hack Source Machine

/-! ## Comparisons in a run -/

/-- A comparison in a run goes by whether its jump is taken on the difference. -/
theorem leads_comparison {options : Options} {units : List UnitCode}
    (hplace : Placeable (runStatements options units)) {k : Nat} {site : Site}
    (hk : (runSites options units)[k]? = some site) {op : Operator} {jump : Jump}
    (hcommand : site.command = .perform (.arithmetic op)) (hjump : shapeOf op = .compare jump)
    {m : Memory} (hupper : get .sp m - 1 ≠ Cell.sp.address)
    (hlower : get .sp m - 2 ≠ Cell.sp.address) :
    Leads (programOf (runStatements options units)).rom m (addressOf (runSites options units) k)
      ((set .sp (get .sp m - 1) m).write (get .sp m - 2)
        (truth (jump.taken (m.read (get .sp m - 2) - m.read (get .sp m - 1)))))
      (addressOf (runSites options units) (k + 1)) := by
  have hplaced := placed_site_of_generated hplace hk hcommand (by simp [ownSymbols, hjump])
  have hcode : site.code = compareBlock jump site.scope.labels.comparison := by
    rw [Site.code, hcommand]
    show operatorBlock op _ = _
    rw [operatorBlock, hjump]
  rw [addressOf_succ hk, ← binary_eq hupper hlower fun x y => truth (jump.taken (x - y))]
  rw [hcode] at hplaced ⊢
  exact leads_compareBlock m hplaced

/-- **What comparisons answer.** Let a run be read, written and assembled, its units and its entry
function being named on one line, and let one of its sites compare, from any RAM where `SP` itself
is not among the two operands. Then behind the code of the site, `SP` is lower by one, the lower
operand is replaced by -1 or 0 and nothing else has changed. The answer is right for the operands as
signed numbers if and only if the operator is `eq` or the difference fits a word; otherwise it is
the opposite. -/
theorem comparison_right_iff {options : Options} {units : List SourceUnit} {codes : List UnitCode}
    {a : Assembly} {p : Program} (hread : List.Forall₂ Reads units codes)
    (hunits : ∀ u ∈ units, '\n' ∉ u.name.toList) (hentry : '\n' ∉ options.entry.toList)
    (hrun : (compile options units).result = .ok a) (hprogram : assemble a.text = .ok p)
    {k : Nat} {site : Site} (hk : (runSites options codes)[k]? = some site)
    {op : Operator} {asks : Int → Int → Bool} (hcommand : site.command = .perform (.arithmetic op))
    (hasks : question? op = some asks) {m : Memory} (hupper : get .sp m - 1 ≠ Cell.sp.address)
    (hlower : get .sp m - 2 ≠ Cell.sp.address) :
    ∃ answer : Bool,
      Leads p.rom m (addressOf (runSites options codes) k)
        ((set .sp (get .sp m - 1) m).write (get .sp m - 2) (truth answer))
        (addressOf (runSites options codes) (k + 1)) ∧
      (answer = asks (m.read (get .sp m - 2)).toInt (m.read (get .sp m - 1)).toInt ↔
        op = .eq ∨ Near (m.read (get .sp m - 2)) (m.read (get .sp m - 1))) := by
  have hnames := namesOnLine_of_reads hread hunits hentry
  obtain ⟨hplace, rfl⟩ := hnames.assembled hread hrun hprogram
  obtain ⟨jump, hjump⟩ := exists_jump hasks
  exact ⟨_, leads_comparison hplace hk hcommand hjump hupper hlower,
    taken_sub_eq_iff hjump hasks _ _⟩

/-- A unit that compares 32767 with -1. -/
def farUnit : SourceUnit :=
  .named "T" "push constant 32767\npush constant 1\nneg\ngt\n"

/-- What the unit reads as. -/
def farCode : UnitCode :=
  ⟨"T", [.push .constant 32767, .push .constant 1, .arithmetic .neg, .arithmetic .gt]⟩

/-- The RAM in which a stack that starts at 256 holds two words. -/
def stacked (x y : Word) : Memory :=
  ((set .sp 258 .zero).write 256 x).write 257 y

/-- The two operands lie on top of the stack. -/
theorem operands_stacked (x y : Word) :
    get .sp (stacked x y) - 1 = 257 ∧ get .sp (stacked x y) - 2 = 256 := by
  have hsp : get .sp (stacked x y) = 258 := by
    unfold stacked
    rw [get_write (by decide), get_write (by decide), get_set_self]
  rw [hsp]
  exact ⟨rfl, rfl⟩

/-- They are the two words that were stacked. -/
theorem read_stacked (x y : Word) : (stacked x y).read 256 = x ∧ (stacked x y).read 257 = y := by
  unfold stacked
  simp only [Memory.read_write]
  exact ⟨rfl, rfl⟩

theorem reads_farUnit : List.Forall₂ Reads [farUnit] [farCode] :=
  .cons ⟨rfl, by decide +kernel⟩ .nil

theorem namesOnLine_farCode : NamesOnLine .withoutBootstrap [farCode] :=
  namesOnLine_of_reads reads_farUnit (by decide) (by decide)

/-- A difference of 32767 is the largest that fits: `gt` still finds that 32766 is above -1. -/
theorem comparison_right_at_the_edge :
    ∃ a p, (compile .withoutBootstrap [farUnit]).result = .ok a ∧ assemble a.text = .ok p ∧
      Leads p.rom (stacked 32766 (-1)) 18
        ((set .sp 257 (stacked 32766 (-1))).write 256 (-1)) 34 := by
  obtain ⟨a, p, hrun, hprogram⟩ :=
    namesOnLine_farCode.exists_program reads_farUnit (by decide) (by decide)
  obtain ⟨hupper, hlower⟩ := operands_stacked 32766 (-1)
  obtain ⟨hlow, hhigh⟩ := read_stacked 32766 (-1)
  obtain ⟨answer, hleads, hright⟩ :=
    comparison_right_iff (k := 3) (m := stacked 32766 (-1)) reads_farUnit (by decide) (by decide)
      hrun hprogram rfl rfl rfl (by rw [hupper]; decide) (by rw [hlower]; decide)
  rw [hupper, hlower, hlow, hhigh] at hright
  rw [hupper, hlower, hright.mpr (by decide)] at hleads
  exact ⟨a, p, hrun, hprogram, hleads⟩

/-- **A comparison that is wrong.** The unit can be read and its program is assembled, and on 32767
and -1 its `gt` answers 0. -/
theorem gt_wrong_on_far_operands :
    (-1 : Word).toInt < (32767 : Word).toInt ∧
    ∃ a p, (compile .withoutBootstrap [farUnit]).result = .ok a ∧ assemble a.text = .ok p ∧
      Leads p.rom (stacked 32767 (-1)) 18 ((set .sp 257 (stacked 32767 (-1))).write 256 0) 34 := by
  obtain ⟨a, p, hrun, hprogram⟩ :=
    namesOnLine_farCode.exists_program reads_farUnit (by decide) (by decide)
  obtain ⟨hplace, rfl⟩ := namesOnLine_farCode.assembled reads_farUnit hrun hprogram
  obtain ⟨hupper, hlower⟩ := operands_stacked 32767 (-1)
  obtain ⟨hlow, hhigh⟩ := read_stacked 32767 (-1)
  have hleads := leads_comparison (k := 3) (m := stacked 32767 (-1)) hplace rfl rfl rfl
    (by rw [hupper]; decide) (by rw [hlower]; decide)
  rw [hupper, hlower, hlow, hhigh] at hleads
  exact ⟨by decide, a, _, hrun, hprogram, hleads⟩

end HackVM.Lowering
