import HackVM.Text.Decimal

/-!
# Generated labels

Four constructs need labels that no source line wrote. Each kind is numbered on its own, from 0. The
numbers are kept in 32 bits: a run that takes more than `2 ^ 32` of one kind gets the first ones
again. A comparison and a locals loop take two labels with one number, so there are six *roles*,
each with its stem.
-/

namespace HackVM.Lowering

open Text

/-- The constructs that take a label number. -/
inductive LabelKind where
  | comparison
  | ifFalse
  | returnSite
  | localsLoop
  deriving DecidableEq, Repr

/-- How many numbers of each kind were given out, up to multiples of `2 ^ 32`. -/
structure LabelCounters where
  comparison : UInt32 := 0
  ifFalse : UInt32 := 0
  returnSite : UInt32 := 0
  localsLoop : UInt32 := 0
  deriving DecidableEq, Repr

namespace LabelCounters

/-- How many numbers of a kind were given out, which is also the next one. -/
def issued (c : LabelCounters) : LabelKind → UInt32
  | .comparison => c.comparison
  | .ifFalse => c.ifFalse
  | .returnSite => c.returnSite
  | .localsLoop => c.localsLoop

/-- Gives out one more number of a kind. Behind the last one comes 0. -/
def issue (c : LabelCounters) : LabelKind → LabelCounters
  | .comparison => { c with comparison := c.comparison + 1 }
  | .ifFalse => { c with ifFalse := c.ifFalse + 1 }
  | .returnSite => { c with returnSite := c.returnSite + 1 }
  | .localsLoop => { c with localsLoop := c.localsLoop + 1 }

/-- Giving out a number moves the counter of its kind and no other. -/
@[simp] theorem issued_issue (c : LabelCounters) (k l : LabelKind) :
    (c.issue k).issued l = c.issued l + if k = l then 1 else 0 := by
  cases k <;> cases l <;> simp [issue, issued]

/-- How many numbers were given out in all, up to multiples of `2 ^ 32`. -/
def total (c : LabelCounters) : UInt32 :=
  c.comparison + c.ifFalse + c.returnSite + c.localsLoop

/-- The counts as the journal shows them. -/
def text (c : LabelCounters) : String :=
  "comparison=" ++ Decimal.text c.comparison.toNat ++
    " if_false=" ++ Decimal.text c.ifFalse.toNat ++
    " return=" ++ Decimal.text c.returnSite.toNat ++
    " locals_loop=" ++ Decimal.text c.localsLoop.toNat

end LabelCounters

/-- What a generated label marks. -/
inductive LabelRole where
  /-- Where a comparison that holds goes on. -/
  | holds
  /-- The end of a comparison. -/
  | compared
  /-- Where a branch that is not taken goes on. -/
  | ifFalse
  /-- Where a call comes back to. -/
  | returnSite
  /-- The head of the loop that clears the locals. -/
  | loopStart
  /-- The end of that loop. -/
  | loopEnd
  deriving DecidableEq, Repr

namespace LabelRole

/-- Which counter numbers the label. -/
def kind : LabelRole → LabelKind
  | .holds | .compared => .comparison
  | .ifFalse => .ifFalse
  | .returnSite => .returnSite
  | .loopStart | .loopEnd => .localsLoop

/-- What stands before the number. -/
def stem : LabelRole → String
  | .holds => "TRUE_"
  | .compared => "END_"
  | .ifFalse => "IF_FALSE_"
  | .returnSite => "RETURN_"
  | .loopStart => "START_LOOP_"
  | .loopEnd => "END_LOOP_"

end LabelRole

end HackVM.Lowering
