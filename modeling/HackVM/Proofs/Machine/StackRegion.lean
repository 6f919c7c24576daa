import HackVM.Proofs.Machine.StackMachine

/-!
# The stack above the registers

The effects of the stack machine where the stack lies above the registers and below the end of RAM.
Then a push changes `SP` and the cell behind the top and nothing else, and the reads and writes that
an effect is made of can be told apart by their addresses.

* `Room n m`: the stack is above the registers, and `n` more words fit.
* `Above floor m m'`: the machine got from `m` to `m'` by work at and above an address, `SP` and
  `R13` aside. Operators, pushes and the locals of a function are work above the operands that they
  take (`above_operate`, `above_push`, `above_clearLocals`).
* `Entered` and `Left` say what a call and a return do to RAM (`entered_enterFrame`,
  `left_leaveFrame`).
-/

namespace HackVM.Machine

open Hack Lowering

/-! ## Addresses above the registers -/

/-- The address lies above the registers that the machine uses. -/
def Beyond (a : Word) : Prop :=
  Cell.r14.address.toNat < a.toNat

instance (a : Word) : Decidable (Beyond a) :=
  inferInstanceAs (Decidable (_ < _))

/-- No cell with a name lies above address 14. -/
theorem beyond_iff {a : Word} : Beyond a ↔ 14 < a.toNat :=
  Iff.rfl

/-- An address beyond the cells with a name is none of theirs. -/
theorem Beyond.ne {a : Word} (h : Beyond a) (c : Cell) : c.address ≠ a := by
  rintro rfl
  unfold Beyond at h
  cases c <;> exact absurd h (by decide)

/-- A write elsewhere leaves a cell with a name alone. -/
theorem get_write {c : Cell} {a : Word} (h : c.address ≠ a) (v : Word) (m : Memory) :
    get c (m.write a v) = get c m := by
  unfold get
  rw [Memory.read_write, if_neg h.symm]

/-- A cell with a name is set without a trace elsewhere. -/
theorem read_set_of_ne {c : Cell} {a : Word} (h : c.address ≠ a) (v : Word) (m : Memory) :
    (set c v m).read a = m.read a := by
  unfold set
  rw [Memory.read_write, if_neg h]

/-- Registers are not among the cells above them. -/
theorem Beyond.read_set {a : Word} (h : Beyond a) (c : Cell) (v : Word) (m : Memory) :
    (set c v m).read a = m.read a :=
  read_set_of_ne (h.ne c) v m

/-! ## Pushing and popping -/

/-- The stack lies above the registers, and `n` more words fit. -/
structure Room (n : Nat) (m : Memory) : Prop where
  low : Beyond (get .sp m)
  high : (get .sp m).toNat + n < 2 ^ 16

/-- A push where `SP` does not point at itself. -/
theorem push_eq {m : Memory} (h : Cell.sp.address ≠ get .sp m) (v : Word) :
    push v m = set .sp (get .sp m + 1) (m.write (get .sp m) v) := by
  unfold push
  simp only [get_write h]

/-- A pop of a word that is not `SP` itself. -/
theorem pop_eq {m : Memory} (h : Cell.sp.address ≠ get .sp m - 1) :
    pop m = (m.read (get .sp m - 1), set .sp (get .sp m - 1) m) := by
  unfold pop
  simp only [get_set_self, read_set_of_ne h]

/-- A push raises the stack by one. -/
theorem get_sp_push {m : Memory} (h : Beyond (get .sp m)) (v : Word) :
    get .sp (push v m) = get .sp m + 1 := by
  rw [push_eq (h.ne .sp), get_set_self]

/-- A push leaves all cells with a name alone but `SP`. -/
theorem get_push_of_ne {m : Memory} (h : Beyond (get .sp m)) {c : Cell} (hc : Cell.sp ≠ c)
    (v : Word) : get c (push v m) = get c m := by
  rw [push_eq (h.ne .sp), get_set_of_ne hc, get_write (h.ne c)]

/-- A push takes one cell of the room. -/
theorem Room.push {n : Nat} {m : Memory} (h : Room (n + 1) m) (v : Word) : Room n (push v m) := by
  obtain ⟨hlow, hhigh⟩ := h
  have hsp : (get .sp (Machine.push v m)).toNat = (get .sp m).toNat + 1 := by
    rw [get_sp_push hlow]
    bv_omega
  refine ⟨?_, ?_⟩
  · rw [beyond_iff] at hlow ⊢
    omega
  · omega

/-- Room for more is room for less. -/
theorem Room.mono {k n : Nat} {m : Memory} (h : Room n m) (hk : k ≤ n) : Room k m :=
  ⟨h.low, Nat.lt_of_le_of_lt (Nat.add_le_add_left hk _) h.high⟩

/-- Pushes words one after the other. -/
def pushAll (vs : List Word) (m : Memory) : Memory :=
  vs.foldl (fun m v => push v m) m

@[simp] theorem pushAll_nil (m : Memory) : pushAll [] m = m :=
  rfl

@[simp] theorem pushAll_cons (v : Word) (vs : List Word) (m : Memory) :
    pushAll (v :: vs) m = pushAll vs (push v m) :=
  rfl

/-- Clearing locals pushes that many zeros. -/
theorem pushZeros_eq_pushAll (n : Nat) (m : Memory) :
    pushZeros n m = pushAll (List.replicate n 0) m := by
  induction n generalizing m with
  | zero => rfl
  | succ n ih => rw [pushZeros, ih, List.replicate_succ, pushAll_cons]

/-- Pushes raise the stack by their number, without wrapping around. -/
theorem toNat_get_sp_pushAll {vs : List Word} {m : Memory} (h : Room vs.length m) :
    (get .sp (pushAll vs m)).toNat = (get .sp m).toNat + vs.length := by
  induction vs generalizing m with
  | nil => rfl
  | cons v vs ih =>
      have hhigh := h.high
      rw [List.length_cons] at hhigh ⊢
      rw [pushAll_cons, ih (h.push v), get_sp_push h.low]
      bv_omega

/-- The stack behind pushes, as a word. -/
theorem get_sp_pushAll {vs : List Word} {m : Memory} (h : Room vs.length m) :
    get .sp (pushAll vs m) = get .sp m + BitVec.ofNat 16 vs.length := by
  have hsum := toNat_get_sp_pushAll h
  have hhigh := h.high
  bv_omega

/-- Pushes leave alone what is below them. -/
theorem read_pushAll_of_lt {vs : List Word} {m : Memory} (h : Room vs.length m) {a : Word}
    (ha : a ≠ Cell.sp.address) (hlt : a.toNat < (get .sp m).toNat) :
    (pushAll vs m).read a = m.read a := by
  induction vs generalizing m with
  | nil => rfl
  | cons v vs ih =>
      have hhigh := h.high
      rw [List.length_cons] at hhigh
      have hnext : a.toNat < (get .sp (push v m)).toNat := by
        rw [get_sp_push h.low]
        bv_omega
      rw [pushAll_cons, ih (h.push v) hnext, push_eq (h.low.ne .sp), read_set_of_ne ha.symm,
        Memory.read_write, if_neg]
      rintro rfl
      exact absurd hlt (Nat.lt_irrefl _)

/-- Pushes leave all cells with a name alone but `SP`. -/
theorem get_pushAll {vs : List Word} {m : Memory} (h : Room vs.length m) {c : Cell} (hc : c ≠ .sp) :
    get c (pushAll vs m) = get c m := by
  have hlow := h.low
  rw [beyond_iff] at hlow
  unfold get
  apply read_pushAll_of_lt h
  · cases c <;> first | exact absurd rfl hc | decide
  · have hc14 : c.address.toNat ≤ 14 := by cases c <;> decide
    omega

/-- What was pushed stands in order behind the old top. -/
theorem read_pushAll {vs : List Word} {m : Memory} (h : Room vs.length m) {i : Nat} {v a : Word}
    (hv : vs[i]? = some v) (ha : a.toNat = (get .sp m).toNat + i) : (pushAll vs m).read a = v := by
  induction vs generalizing m i with
  | nil => cases hv
  | cons w vs ih =>
      have hlow := h.low
      have hhigh := h.high
      rw [beyond_iff] at hlow
      rw [List.length_cons] at hhigh
      have hsp : (get .sp (push w m)).toNat = (get .sp m).toNat + 1 := by
        rw [get_sp_push h.low]
        bv_omega
      cases i with
      | zero =>
          obtain rfl : w = v := Option.some.inj hv
          have hsame : get .sp m = a := BitVec.eq_of_toNat_eq (by omega)
          have hne : a ≠ Cell.sp.address := by
            rintro rfl
            exact absurd hsame.symm (h.low.ne .sp)
          rw [pushAll_cons, read_pushAll_of_lt (h.push w) hne (by omega), push_eq (h.low.ne .sp),
            read_set_of_ne hne.symm, Memory.read_write, if_pos hsame]
      | succ i =>
          rw [pushAll_cons]
          exact ih (h.push w) hv (by omega)

/-! ## Work above an address -/

/-- How many operands an operator takes. -/
def operands : Operator → Nat
  | .neg | .not => 1
  | _ => 2

/-- The machine got from one RAM to another by work at and above an address, `SP` and `R13` aside;
the stack still reaches up to that address. -/
structure Above (floor : Nat) (m m' : Memory) : Prop where
  kept : ∀ a, a ≠ Cell.sp.address → a ≠ Cell.r13.address → a.toNat < floor → m'.read a = m.read a
  top : floor ≤ (get .sp m').toNat

section above

variable {floor : Nat} {m : Memory} (hfloor : Cell.r14.address.toNat < floor)
include hfloor

/-- A push changes nothing below the floor. -/
theorem above_push (hsp : floor ≤ (get .sp m).toNat) (hroom : (get .sp m).toNat + 1 < 2 ^ 16)
    (v : Word) : Above floor m (push v m) := by
  have hlow : Beyond (get .sp m) := Nat.lt_of_lt_of_le hfloor hsp
  refine ⟨?_, ?_⟩
  · intro a ha _ hlt
    have hroom' : Room [v].length m := ⟨hlow, hroom⟩
    exact read_pushAll_of_lt hroom' ha (Nat.lt_of_lt_of_le hlt hsp)
  · rw [get_sp_push hlow]
    bv_omega

/-- Nor does clearing locals. -/
theorem above_clearLocals {n : Nat} (hsp : floor ≤ (get .sp m).toNat)
    (hroom : (get .sp m).toNat + n < 2 ^ 16) : Above floor m (clearLocals n m) := by
  have hlow : Beyond (get .sp m) := Nat.lt_of_lt_of_le hfloor hsp
  have hclear : ClearOfR13 n m := by
    intro i hi heq
    rw [beyond_iff] at hlow
    have haddress : Cell.r13.address = 13#16 := rfl
    rw [haddress] at heq
    bv_omega
  have hroom' : Room (List.replicate n (0 : Word)).length m := ⟨hlow, by simpa using hroom⟩
  have htop := toNat_get_sp_pushAll hroom'
  rw [clearLocals_eq hclear, pushZeros_eq_pushAll]
  split_ifs with hn
  · exact ⟨fun _ _ _ _ => rfl, hsp⟩
  · refine ⟨?_, ?_⟩
    · intro a ha ha13 hlt
      rw [read_set_of_ne ha13.symm]
      exact read_pushAll_of_lt hroom' ha (Nat.lt_of_lt_of_le hlt hsp)
    · rw [get_set_of_ne (by decide)]
      omega

/-- With something above the floor the topmost value lies beyond the cells with a name. -/
theorem beyond_pred (hsp : floor + 1 ≤ (get .sp m).toNat) : Beyond (get .sp m - 1) := by
  have h14 : Cell.r14.address.toNat = 14 := rfl
  rw [beyond_iff]
  bv_omega

/-- A pop of something above the floor changes nothing below it. -/
theorem above_pop (hsp : floor + 1 ≤ (get .sp m).toNat) : Above floor m (pop m).2 := by
  rw [pop_eq ((beyond_pred hfloor hsp).ne .sp)]
  refine ⟨?_, ?_⟩
  · intro a ha _ _
    exact read_set_of_ne ha.symm _ _
  · rw [get_set_self]
    bv_omega

/-- Nor does an operation on the topmost value. -/
theorem above_unary (hsp : floor + 1 ≤ (get .sp m).toNat) (f : Word → Word) :
    Above floor m (unary f m) := by
  have hbeyond := beyond_pred hfloor hsp
  unfold unary
  refine ⟨?_, ?_⟩
  · intro a _ _ hlt
    rw [Memory.read_write, if_neg]
    rintro rfl
    bv_omega
  · rw [get_write (hbeyond.ne .sp)]
    omega

/-- Nor does one on two values above the floor. -/
theorem above_binary (hsp : floor + 2 ≤ (get .sp m).toNat) (f : Word → Word → Word) :
    Above floor m (binary f m) := by
  have hpop := pop_eq ((beyond_pred hfloor (by omega : floor + 1 ≤ (get .sp m).toNat)).ne .sp)
  have h14 : Cell.r14.address.toNat = 14 := rfl
  have hbeyond : Beyond (get .sp m - 1 - 1) := by
    rw [beyond_iff]
    bv_omega
  unfold binary
  simp only [hpop, get_set_self]
  refine ⟨?_, ?_⟩
  · intro a ha _ hlt
    rw [Memory.read_write, if_neg, read_set_of_ne ha.symm]
    rintro rfl
    bv_omega
  · rw [get_write (hbeyond.ne .sp), get_set_self]
    bv_omega

/-- An operator works above the operands that it takes. -/
theorem above_operate (op : Operator) (hsp : floor + operands op ≤ (get .sp m).toNat) :
    Above floor m (operate op m) := by
  cases op with
  | neg => exact above_unary hfloor hsp _
  | not => exact above_unary hfloor hsp _
  | _ =>
      unfold operate
      exact above_binary hfloor hsp _

end above

/-- A pop into a cell, as three writes, if the popped word is neither `SP` nor the `R13` in which
the address waits. -/
theorem popTo_eq {a : Word} {m : Memory} (hsp : Cell.sp.address ≠ get .sp m - 1)
    (h13 : Cell.r13.address ≠ get .sp m - 1) :
    popTo a m = (set .sp (get .sp m - 1) (set .r13 a m)).write a (m.read (get .sp m - 1)) := by
  have hkept : get .sp (set .r13 a m) = get .sp m := get_set_of_ne (by decide) a m
  have hpop := @pop_eq (set .r13 a m) (by rwa [hkept])
  rw [hkept, read_set_of_ne h13] at hpop
  have hparked : get .r13 (set .sp (get .sp m - 1) (set .r13 a m)) = a := by simp [get_set]
  unfold popTo
  simp only [hpop, hparked]

/-! ## Frames -/

/-- The five words below a frame: an address to go back to, and the four bases of a RAM. -/
structure Saved (returnAddress : Word) (caller : Memory) (frame : Word) (m : Memory) : Prop where
  back : m.read (frame - 5) = returnAddress
  lcl : m.read (frame - 4) = get .lcl caller
  arg : m.read (frame - 3) = get .arg caller
  this : m.read (frame - 2) = get .this caller
  that : m.read (frame - 1) = get .that caller

/-- What a call does to RAM. -/
structure Entered (returnAddress args : Word) (m m' : Memory) : Prop where
  sp : get .sp m' = get .sp m + 5
  lcl : get .lcl m' = get .sp m + 5
  arg : get .arg m' = get .sp m - args
  saved : Saved returnAddress m (get .sp m + 5) m'
  kept : ∀ a, Beyond a → a.toNat < (get .sp m).toNat → m'.read a = m.read a

/-- What a return does to RAM. -/
structure Left (m m' : Memory) : Prop where
  sp : get .sp m' = get .arg m + 1
  result : m'.read (get .arg m) = m.read (get .sp m - 1)
  lcl : get .lcl m' = m.read (get .lcl m - 4)
  arg : get .arg m' = m.read (get .lcl m - 3)
  this : get .this m' = m.read (get .lcl m - 2)
  that : get .that m' = m.read (get .lcl m - 1)
  kept : ∀ a, Beyond a → a ≠ get .arg m → m'.read a = m.read a

/-- A call pushes five words, and then moves the two bases. -/
theorem enterFrame_eq {returnAddress args : Word} {m : Memory} (h : Room 5 m) :
    enterFrame returnAddress args m =
      set .arg (get .sp m - args) (set .lcl (get .sp m + 5)
        (pushAll [returnAddress, get .lcl m, get .arg m, get .this m, get .that m] m)) := by
  -- the bases are read while the pushes go on, but no push changes them
  have hkept : ∀ (c : Cell), c ≠ .sp → ∀ vs : List Word, vs.length ≤ 5 →
      get c (pushAll vs m) = get c m :=
    fun c hc vs hvs => get_pushAll (h.mono hvs) hc
  have hlcl : get .lcl (push returnAddress m) = get .lcl m :=
    hkept .lcl (by decide) [returnAddress] (Nat.le_of_ble_eq_true rfl)
  have harg : get .arg (push (get .lcl m) (push returnAddress m)) = get .arg m :=
    hkept .arg (by decide) [returnAddress, get .lcl m] (Nat.le_of_ble_eq_true rfl)
  have hthis : get .this (push (get .arg m) (push (get .lcl m) (push returnAddress m))) =
      get .this m :=
    hkept .this (by decide) [returnAddress, get .lcl m, get .arg m] (Nat.le_of_ble_eq_true rfl)
  have hthat : get .that
      (push (get .this m) (push (get .arg m) (push (get .lcl m) (push returnAddress m)))) =
      get .that m :=
    hkept .that (by decide) [returnAddress, get .lcl m, get .arg m, get .this m]
      (Nat.le_of_ble_eq_true rfl)
  have htop :
      get .sp (pushAll [returnAddress, get .lcl m, get .arg m, get .this m, get .that m] m) =
      get .sp m + 5 :=
    get_sp_pushAll h
  have hargs : get .sp m + 5 - args - frameWords = get .sp m - args := by
    unfold frameWords
    bv_omega
  simp only [pushAll_cons, pushAll_nil] at htop ⊢
  simp only [enterFrame, hlcl, harg, hthis, hthat, htop, hargs]

/-- **What a call does.** -/
theorem entered_enterFrame {returnAddress args : Word} {m : Memory} (h : Room 5 m) :
    Entered returnAddress args m (enterFrame returnAddress args m) := by
  have hlow := h.low
  have hhigh := h.high
  rw [beyond_iff] at hlow
  have hread : ∀ a, Beyond a → (enterFrame returnAddress args m).read a =
      (pushAll [returnAddress, get .lcl m, get .arg m, get .this m, get .that m] m).read a := by
    intro a ha
    rw [enterFrame_eq h, ha.read_set, ha.read_set]
  -- a saved word stands a number of cells below the frame, and so above the old top
  have hsaved : ∀ (i : Nat) (v depth : Word), depth.toNat = 5 - i →
      [returnAddress, get .lcl m, get .arg m, get .this m, get .that m][i]? = some v →
      (enterFrame returnAddress args m).read (get .sp m + 5 - depth) = v := by
    intro i v depth hdepth hv
    have hi : i < 5 := (List.getElem?_eq_some_iff.mp hv).1
    have haddress : (get .sp m + 5 - depth).toNat = (get .sp m).toNat + i := by bv_omega
    rw [hread _ (beyond_iff.mpr (by omega))]
    refine read_pushAll ?_ hv haddress
    exact h
  refine ⟨?_, ?_, ?_, ⟨?_, ?_, ?_, ?_, ?_⟩, ?_⟩
  · simp only [enterFrame_eq h, get_set, reduceCtorEq, if_false]
    exact get_sp_pushAll h
  · simp [enterFrame_eq h, get_set]
  · simp [enterFrame_eq h, get_set]
  · exact hsaved 0 _ 5 rfl rfl
  · exact hsaved 1 _ 4 rfl rfl
  · exact hsaved 2 _ 3 rfl rfl
  · exact hsaved 3 _ 2 rfl rfl
  · exact hsaved 4 _ 1 rfl rfl
  · intro a ha hlt
    rw [hread a ha]
    refine read_pushAll_of_lt ?_ (ha.ne .sp).symm hlt
    exact h

/-- The four bases come back from the words below the frame, since registers are not among these
words. -/
theorem restore_all {m : Memory} (h : 18 < (get .r13 m).toNat) :
    restore .lcl 4 (restore .arg 3 (restore .this 2 (restore .that 1 m))) =
      set .lcl (m.read (get .r13 m - 4)) (set .arg (m.read (get .r13 m - 3))
        (set .this (m.read (get .r13 m - 2)) (set .that (m.read (get .r13 m - 1)) m))) := by
  have hbeyond : ∀ depth : Word, depth.toNat ≤ 4 → Beyond (get .r13 m - depth) := by
    intro depth hdepth
    rw [beyond_iff]
    bv_omega
  have h2 := hbeyond 2 (by decide)
  have h3 := hbeyond 3 (by decide)
  have h4 := hbeyond 4 (by decide)
  simp only [restore, get_set, reduceCtorEq, if_false, h2.read_set, h3.read_set, h4.read_set]

/-- RAM when a return has put its result in place and not yet taken back the bases. -/
def withResult (m : Memory) : Memory :=
  set .sp (get .arg m + 1) ((set .sp (get .sp m - 1)
    (set .r14 (m.read (get .lcl m - frameWords)) (set .r13 (get .lcl m) m))).write (get .arg m)
      (m.read (get .sp m - 1)))

/-- Handing over the result leaves every cell with a name but `SP` as it is once `R13` and `R14` are
set. -/
theorem get_withResult {m : Memory} (harg : Beyond (get .arg m)) {c : Cell} (hsp : Cell.sp ≠ c) :
    get c (withResult m) =
      get c (set .r14 (m.read (get .lcl m - frameWords)) (set .r13 (get .lcl m) m)) := by
  unfold withResult
  rw [get_set_of_ne hsp, get_write (harg.ne c), get_set_of_ne hsp]

/-- Beyond the cells with a name, handing over the result changes one cell. -/
theorem read_withResult {m : Memory} {a : Word} (ha : Beyond a) (hne : a ≠ get .arg m) :
    (withResult m).read a = m.read a := by
  unfold withResult
  rw [ha.read_set, Memory.read_write, if_neg hne.symm, ha.read_set, ha.read_set, ha.read_set]

section leave

variable {m : Memory} (harg : Beyond (get .arg m))
  (hframe : (get .arg m).toNat + 5 ≤ (get .lcl m).toNat)
  (htop : (get .lcl m).toNat ≤ (get .sp m).toNat)
include harg hframe htop

/-- A return puts its result in place, and then takes back the bases. -/
theorem leaveFrame_eq :
    leaveFrame m = (m.read (get .lcl m - 5),
      set .lcl (m.read (get .lcl m - 4)) (set .arg (m.read (get .lcl m - 3))
        (set .this (m.read (get .lcl m - 2))
          (set .that (m.read (get .lcl m - 1)) (withResult m))))) := by
  have harg14 := beyond_iff.mp harg
  have hback : Beyond (get .lcl m - frameWords) := by
    unfold frameWords
    rw [beyond_iff]
    bv_omega
  have hlast : Beyond (get .sp m - 1) := by
    rw [beyond_iff]
    bv_omega
  have hread : (set .r13 (get .lcl m) m).read (get .lcl m - frameWords) =
      m.read (get .lcl m - frameWords) :=
    hback.read_set _ _ _
  have hsp : ∀ w, get .sp (set .r14 w (set .r13 (get .lcl m) m)) = get .sp m := by
    intro w
    simp [get_set]
  have hpop : ∀ w, pop (set .r14 w (set .r13 (get .lcl m) m)) =
      (m.read (get .sp m - 1), set .sp (get .sp m - 1) (set .r14 w (set .r13 (get .lcl m) m))) := by
    intro w
    rw [pop_eq (by rw [hsp]; exact hlast.ne .sp), hsp, hlast.read_set, hlast.read_set]
  have hresult : ∀ w, get .arg (set .sp (get .sp m - 1) (set .r14 w (set .r13 (get .lcl m) m))) =
      get .arg m := by
    intro w
    simp [get_set]
  have h13 : get .r13 (withResult m) = get .lcl m := by
    simp [get_withResult harg, get_set]
  have h14 : get .r14 (withResult m) = m.read (get .lcl m - 5) := by
    simp [get_withResult harg, get_set, frameWords]
  -- no base is read from the cell of the result, which is below all of them
  have hbase : ∀ depth : Word, depth.toNat ≤ 4 →
      (withResult m).read (get .lcl m - depth) = m.read (get .lcl m - depth) := by
    intro depth hdepth
    apply read_withResult
    · rw [beyond_iff]
      bv_omega
    · intro heq
      bv_omega
  have hrestore := @restore_all (withResult m) (by rw [h13]; omega)
  rw [h13, hbase 1 (by decide), hbase 2 (by decide), hbase 3 (by decide),
    hbase 4 (by decide)] at hrestore
  unfold leaveFrame
  simp only [hread, hpop, hresult]
  change
    (get .r14 (restore .lcl 4 (restore .arg 3 (restore .this 2 (restore .that 1 (withResult m))))),
    restore .lcl 4 (restore .arg 3 (restore .this 2 (restore .that 1 (withResult m))))) = _
  simp only [hrestore, get_set, reduceCtorEq, if_false, h14]

/-- **What a return does.** -/
theorem left_leaveFrame : (leaveFrame m).1 = m.read (get .lcl m - 5) ∧ Left m (leaveFrame m).2 := by
  rw [leaveFrame_eq harg hframe htop]
  refine ⟨rfl, ?_, ?_, ?_, ?_, ?_, ?_, ?_⟩
  · simp [get_set, withResult]
  · simp [harg.read_set, withResult]
  · simp [get_set]
  · simp [get_set]
  · simp [get_set]
  · simp [get_set]
  · intro a ha hne
    simp only [ha.read_set, read_withResult ha hne]

end leave

end HackVM.Machine
