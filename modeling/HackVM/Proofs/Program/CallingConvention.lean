import HackVM.Proofs.Machine.StackRegion
import HackVM.Proofs.Program.Simulation

/-!
# The calling convention

What a call may rely on when its callee returns. The run from a call on is followed through any
nesting of further calls and returns (`Inside`), with the list of the frames that are live on the
way, the innermost first. Each step has to keep to three rules (`Disciplined`): it takes no operand
from below the frame of its own function, it does not run off the end of RAM, and it stores nothing
in `SP`, `LCL`, `ARG` or in the words that a live frame has saved.

The words below each live frame then lead down to the frame of the caller and back to the call
(`Chain`). That is the invariant (`Live`), which every kind of command keeps (`Live.local`,
`Live.call`, `Live.leave`).

Main statement (`call_returns`): the matching return goes on right behind the call, with the four
bases as they were before it, and the callee's result in the place of the arguments.
-/

namespace HackVM.Machine

open Hack Lowering

/-! ## Discipline -/

/-- How many words a command takes from the stack of its own function: operands, or the arguments of
a call. -/
def taken : Command → Nat
  | .perform (.arithmetic op) => operands op
  | .perform (.pop ..) | .perform (.ifGoto _) => 1
  | .perform (.call _ args) => args.toNat
  | _ => 0

/-- How many words a command pushes. -/
def pushed : Command → Nat
  | .perform (.push ..) => 1
  | .perform (.function _ locals) => locals.toNat
  | .perform (.call ..) => 5
  | _ => 0

/-- The cell that a pop stores in. -/
def stored? (static : String → Word → Word) (site : Site) (m : Memory) : Option Word :=
  match site.command with
  | .perform (.pop segment index) =>
    some (segmentCell (static (site.scope.unit.getD "")) m index segment)
  | _ => none

/-- The cells that are not to be stored in while frames are live: three registers, and the five
words below each frame. -/
def Reserved (frames : List Word) (a : Word) : Prop :=
  a = Cell.sp.address ∨ a = Cell.lcl.address ∨ a = Cell.arg.address ∨
    ∃ frame ∈ frames, ∃ depth : Word, 1 ≤ depth.toNat ∧ depth.toNat ≤ 5 ∧ a = frame - depth

/-- The rules for a command that is carried out while frames are live. -/
structure Disciplined (sites : List Site) (frames : List Word) (site : Site) (m : Memory) :
    Prop where
  /-- What it takes lies at or above `LCL`. -/
  operands : 0 < taken site.command → (get .lcl m).toNat + taken site.command ≤ (get .sp m).toNat
  /-- What it pushes fits into RAM. -/
  room : (get .sp m).toNat + pushed site.command < 2 ^ 16
  /-- What it stores goes to no reserved cell. -/
  store : ∀ a ∈ stored? (staticCell sites) site m, ¬ Reserved frames a

/-- A command that takes nothing from the stack only has to fit. -/
theorem disciplined_of_taken_eq_zero {sites : List Site} {frames : List Word} {site : Site}
    {m : Memory} (htaken : taken site.command = 0)
    (hroom : (get .sp m).toNat + pushed site.command < 2 ^ 16) :
    Disciplined sites frames site m := by
  refine ⟨by omega, hroom, ?_⟩
  intro a ha
  obtain ⟨scope, command, comment⟩ := site
  cases command with
  | setStack base => cases ha
  | perform i =>
      cases i with
      | pop segment index => cases htaken
      | _ => cases ha

/-- The live frames behind a command, after which `LCL` is as given. -/
def framesAfter (command : Command) (lcl : Word) (frames : List Word) : List Word :=
  match command with
  | .perform (.call ..) => lcl :: frames
  | .perform .ret => frames.tail
  | _ => frames

/-- The states of a run between a call and the matching return, with the frames that are live
there. -/
inductive Inside (sites : List Site) (caller : State) : State → List Word → Prop
  | enter {s : State} (hstep : step sites caller = some s) : Inside sites caller s [get .lcl s.ram]
  | next {s s' : State} {site : Site} {frames : List Word} (hinside : Inside sites caller s frames)
      (hsite : sites[s.pc]? = some site) (hrules : Disciplined sites frames site s.ram)
      (hstep : step sites s = some s')
      (hlive : framesAfter site.command (get .lcl s'.ram) frames ≠ []) :
      Inside sites caller s' (framesAfter site.command (get .lcl s'.ram) frames)

/-! ## The chain of live frames -/

/-- The words below the live frames lead down to the frame of the call: each of them holds the frame
below it, where `ARG` was, and an address that is not the start. -/
inductive Chain (caller : Memory) (back args : Word) (m : Memory) : List Word → Word → Prop
  | outer (hsaved : Saved back caller (get .sp caller + 5) m) :
      Chain caller back args m [get .sp caller + 5] (get .sp caller - args)
  | inner {frame below arg : Word} {rest : List Word}
      (hrest : Chain caller back args m (below :: rest) (m.read (frame - 3)))
      (hlcl : m.read (frame - 4) = below) (hback : m.read (frame - 5) ≠ 0)
      (hlow : below.toNat ≤ arg.toNat) (hhigh : arg.toNat + 5 ≤ frame.toNat) :
      Chain caller back args m (frame :: below :: rest) arg

/-- The stack is well above the registers and the call fits into RAM. -/
structure InRegion (args : Word) (caller : Memory) : Prop where
  low : Cell.r14.address.toNat + args.toNat < (get .sp caller).toNat
  high : (get .sp caller).toNat + 5 < 2 ^ 16

section chain

variable {caller m m' : Memory} {back args arg : Word} {frames : List Word}

/-- The chain depends on the saved words only. -/
theorem Chain.congr (h : Chain caller back args m frames arg)
    (hsame : ∀ frame ∈ frames, ∀ depth : Word, 1 ≤ depth.toNat → depth.toNat ≤ 5 →
      m'.read (frame - depth) = m.read (frame - depth)) :
    Chain caller back args m' frames arg := by
  induction h with
  | outer hsaved =>
      have hframe := hsame _ List.mem_cons_self
      apply Chain.outer
      refine ⟨?_, ?_, ?_, ?_, ?_⟩
      · rw [hframe 5 (by decide) (by decide), hsaved.back]
      · rw [hframe 4 (by decide) (by decide), hsaved.lcl]
      · rw [hframe 3 (by decide) (by decide), hsaved.arg]
      · rw [hframe 2 (by decide) (by decide), hsaved.this]
      · rw [hframe 1 (by decide) (by decide), hsaved.that]
  | inner hrest hlcl hback hlow hhigh ih =>
      have hframe := hsame _ List.mem_cons_self
      have hbelow := ih fun f hf => hsame f (List.mem_cons_of_mem _ hf)
      rw [← hframe 3 (by decide) (by decide)] at hbelow
      rw [← hframe 4 (by decide) (by decide)] at hlcl
      rw [← hframe 5 (by decide) (by decide)] at hback
      exact Chain.inner hbelow hlcl hback hlow hhigh

/-- Live frames lie above the registers, the innermost at the top, and the result goes below it. -/
theorem Chain.bounds (h : Chain caller back args m frames arg) (hregion : InRegion args caller) :
    Beyond arg ∧ ∀ top ∈ frames.head?, arg.toNat + 5 ≤ top.toNat ∧
      ∀ frame ∈ frames, 19 < frame.toNat ∧ frame.toNat ≤ top.toNat := by
  have hlow := hregion.low
  have hhigh := hregion.high
  have h14 : Cell.r14.address.toNat = 14 := rfl
  induction h with
  | outer _ =>
      refine ⟨?_, ?_⟩
      · rw [beyond_iff]
        bv_omega
      · rintro top ⟨⟩
        refine ⟨by bv_omega, ?_⟩
        intro frame hframe
        cases List.mem_singleton.mp hframe
        bv_omega
  | inner _ _ _ hbelow habove ih =>
      obtain ⟨-, hrest⟩ := ih
      obtain ⟨-, hrest⟩ := hrest _ rfl
      have hfirst := hrest _ List.mem_cons_self
      refine ⟨?_, ?_⟩
      · rw [beyond_iff]
        omega
      · rintro top ⟨⟩
        refine ⟨habove, ?_⟩
        intro frame hframe
        rcases List.mem_cons.mp hframe with rfl | hframe
        · omega
        · have := hrest frame hframe
          omega

end chain

/-! ## What every command keeps -/

/-- **The invariant** between a call and the matching return: `LCL` is the innermost live frame, the
stack does not go below it, and the saved words lead down to the call. -/
structure Live (caller : Memory) (back args : Word) (frames : List Word) (m : Memory) : Prop where
  lcl : frames.head? = some (get .lcl m)
  top : (get .lcl m).toNat ≤ (get .sp m).toNat
  chain : Chain caller back args m frames (get .arg m)

section live

variable {caller m m' : Memory} {back args : Word} {frames : List Word}
  (hregion : InRegion args caller)

include hregion

/-- Where the registers and the live frames lie: beyond the cells with a name, and not above
`LCL`. -/
theorem Live.bounds (h : Live caller back args frames m) :
    Beyond (get .arg m) ∧ (get .arg m).toNat + 5 ≤ (get .lcl m).toNat ∧
      ∀ frame ∈ frames, 19 < frame.toNat ∧ frame.toNat ≤ (get .lcl m).toNat := by
  obtain ⟨harg, htop⟩ := h.chain.bounds hregion
  exact ⟨harg, htop _ h.lcl⟩

theorem Live.beyond_lcl (h : Live caller back args frames m) :
    Cell.r14.address.toNat < (get .lcl m).toNat := by
  obtain ⟨harg, hframe, -⟩ := h.bounds hregion
  rw [beyond_iff] at harg
  have h14 : Cell.r14.address.toNat = 14 := rfl
  omega

/-- A saved word lies above the registers and below its frame. -/
theorem Live.saved_bounds (h : Live caller back args frames m) {frame depth : Word}
    (hframe : frame ∈ frames) (hfive : depth.toNat ≤ 5) :
    Beyond (frame - depth) ∧ (1 ≤ depth.toNat → (frame - depth).toNat < frame.toNat) := by
  obtain ⟨-, -, hframes⟩ := h.bounds hregion
  have hbounds := hframes frame hframe
  refine ⟨?_, ?_⟩
  · rw [beyond_iff]
    bv_omega
  · intro hone
    bv_omega

/-- The invariant depends on the reserved cells, and on the stack for not going below the frame. -/
theorem Live.of_kept (h : Live caller back args frames m)
    (hkept : ∀ a, Reserved frames a → a ≠ Cell.sp.address → m'.read a = m.read a)
    (htop : (get .lcl m).toNat ≤ (get .sp m').toNat) : Live caller back args frames m' := by
  have hlcl : get .lcl m' = get .lcl m := hkept _ (.inr (.inl rfl)) (by decide)
  have harg : get .arg m' = get .arg m := hkept _ (.inr (.inr (.inl rfl))) (by decide)
  refine ⟨?_, ?_, ?_⟩
  · rw [hlcl]
    exact h.lcl
  · rw [hlcl]
    exact htop
  · rw [harg]
    apply h.chain.congr
    intro frame hframe depth hone hfive
    apply hkept
    · exact .inr (.inr (.inr ⟨frame, hframe, depth, hone, hfive, rfl⟩))
    · exact ((h.saved_bounds hregion hframe hfive).1.ne .sp).symm

/-- A reserved cell other than `SP` is not `R13`, and lies below the innermost frame. -/
theorem Live.reserved_bounds (h : Live caller back args frames m) {a : Word}
    (ha : Reserved frames a) (hsp : a ≠ Cell.sp.address) :
    a ≠ Cell.r13.address ∧ a.toNat < (get .lcl m).toNat := by
  have hlcl := h.beyond_lcl hregion
  have h14 : Cell.r14.address.toNat = 14 := rfl
  rcases ha with rfl | rfl | rfl | ⟨frame, hframe, depth, hone, hfive, rfl⟩
  · exact absurd rfl hsp
  · refine ⟨by decide, ?_⟩
    have h1 : Cell.lcl.address.toNat = 1 := rfl
    omega
  · refine ⟨by decide, ?_⟩
    have h2 : Cell.arg.address.toNat = 2 := rfl
    omega
  · obtain ⟨hbeyond, hbelow⟩ := h.saved_bounds hregion hframe hfive
    obtain ⟨-, -, hframes⟩ := h.bounds hregion
    have htop := (hframes frame hframe).2
    have hlt := hbelow hone
    exact ⟨(hbeyond.ne .r13).symm, by omega⟩

/-- Work above the innermost frame keeps the invariant. -/
theorem Live.of_above (h : Live caller back args frames m)
    (habove : Above (get .lcl m).toNat m m') : Live caller back args frames m' := by
  apply h.of_kept hregion
  · intro a ha hsp
    obtain ⟨h13, hlt⟩ := h.reserved_bounds hregion ha hsp
    exact habove.kept a hsp h13 hlt
  · exact habove.top

/-- A pop into a cell that is not reserved keeps the invariant. -/
theorem Live.popTo (h : Live caller back args frames m) {a : Word} (ha : ¬ Reserved frames a)
    (hsp : (get .lcl m).toNat + 1 ≤ (get .sp m).toNat) :
    Live caller back args frames (popTo a m) := by
  have hne : ∀ b, Reserved frames b → b ≠ a := by
    rintro b hb rfl
    exact ha hb
  have hbeyond := beyond_pred (h.beyond_lcl hregion) hsp
  rw [popTo_eq (hbeyond.ne .sp) (hbeyond.ne .r13)]
  apply h.of_kept hregion
  · intro b hb hbsp
    rw [Memory.read_write, if_neg (hne b hb).symm, read_set_of_ne hbsp.symm,
      read_set_of_ne (h.reserved_bounds hregion hb hbsp).1.symm]
  · rw [get_write (hne _ (.inl rfl)), get_set_self]
    bv_omega

/-- A command that neither calls nor returns keeps the invariant, but for the one that sets up the
stack. -/
theorem Live.local (h : Live caller back args frames m) {sites : List Site} {site : Site}
    (behind : Word) (hrules : Disciplined sites frames site m)
    (hstart : ∀ base, site.command ≠ .setStack base)
    (hcall : ∀ name n, site.command ≠ .perform (.call name n))
    (hret : site.command ≠ .perform .ret) :
    Live caller back args frames (effect (staticCell sites) behind site m).1 := by
  obtain ⟨hoperands, hroom, hstore⟩ := hrules
  have hfloor := h.beyond_lcl hregion
  obtain ⟨scope, command, comment⟩ := site
  cases command with
  | setStack base => exact absurd rfl (hstart base)
  | perform i =>
      cases i with
      | arithmetic op =>
          have htaken : 0 < operands op := by cases op <;> decide
          exact h.of_above hregion (above_operate hfloor op (hoperands htaken))
      | push segment index => exact h.of_above hregion (above_push hfloor h.top hroom _)
      | pop segment index => exact h.popTo hregion (hstore _ rfl) (hoperands Nat.one_pos)
      | label name => exact h
      | goto name => exact h
      | ifGoto name => exact h.of_above hregion (above_pop hfloor (hoperands Nat.one_pos))
      | function name n => exact h.of_above hregion (above_clearLocals hfloor h.top hroom)
      | call name n => exact absurd rfl (hcall name n)
      | ret => exact absurd rfl hret

/-- A further call puts its frame on top. -/
theorem Live.call (h : Live caller back args frames m) {behind n : Word} (hbehind : behind ≠ 0)
    (hargs : 0 < n.toNat → (get .lcl m).toNat + n.toNat ≤ (get .sp m).toNat)
    (hroom : (get .sp m).toNat + 5 < 2 ^ 16) :
    Live caller back args (get .lcl (enterFrame behind n m) :: frames) (enterFrame behind n m) := by
  have htop := h.top
  have hlow : Beyond (get .sp m) := Nat.lt_of_lt_of_le (h.beyond_lcl hregion) htop
  have hentered := @entered_enterFrame behind n m ⟨hlow, hroom⟩
  obtain ⟨below, rest, rfl⟩ : ∃ below rest, frames = below :: rest :=
    List.exists_cons_of_ne_nil fun hnil => by simpa [hnil] using h.lcl
  have hbelow : below = get .lcl m := Option.some.inj h.lcl
  -- the frames below are not touched
  have hrest : Chain caller back args (enterFrame behind n m) (below :: rest) (get .arg m) := by
    apply h.chain.congr
    intro frame hframe depth hone hfive
    obtain ⟨hbeyond, hlt⟩ := h.saved_bounds hregion hframe hfive
    obtain ⟨-, -, hframes⟩ := h.bounds hregion
    have hle := (hframes frame hframe).2
    have hlt' := hlt hone
    exact hentered.kept _ hbeyond (by omega)
  refine ⟨rfl, ?_, ?_⟩
  · rw [hentered.lcl, hentered.sp]
  · rw [hentered.lcl]
    apply Chain.inner
    · rw [hentered.saved.arg]
      exact hrest
    · rw [hentered.saved.lcl, hbelow]
    · rw [hentered.saved.back]
      exact hbehind
    · rw [hentered.arg, hbelow]
      bv_omega
    · rw [hentered.arg]
      bv_omega

/-- The return of a further call takes its frame off. -/
theorem Live.leave {frame below : Word} {rest : List Word}
    (h : Live caller back args (frame :: below :: rest) m) :
    Live caller back args (below :: rest) (leaveFrame m).2 ∧ (leaveFrame m).1 ≠ 0 := by
  obtain ⟨harg, hframe, -⟩ := h.bounds hregion
  obtain ⟨hback, hleft⟩ := left_leaveFrame harg hframe h.top
  have hsame : frame = get .lcl m := Option.some.inj h.lcl
  cases h.chain with
  | inner hrest hlcl hsaved hlow hhigh =>
      rw [hsame] at hrest hlcl hsaved hhigh
      refine ⟨⟨?_, ?_, ?_⟩, ?_⟩
      · rw [hleft.lcl, hlcl]
        rfl
      · rw [hleft.lcl, hlcl, hleft.sp]
        bv_omega
      · rw [hleft.arg]
        apply hrest.congr
        intro f hf depth hone hfive
        obtain ⟨hbeyond, hlt⟩ := h.saved_bounds hregion (List.mem_cons_of_mem _ hf) hfive
        obtain ⟨-, hrestBounds⟩ := hrest.bounds hregion
        have hle := ((hrestBounds _ rfl).2 f hf).2
        have hlt' := hlt hone
        apply hleft.kept _ hbeyond
        -- the result goes to a cell at or above the frame below
        intro heq
        rw [heq] at hlt'
        omega
      · rw [hback]
        exact hsaved

/-- The call itself puts the first frame on top. -/
theorem live_enterFrame :
    Live caller back args [get .lcl (enterFrame back args caller)]
      (enterFrame back args caller) := by
  have hlow := hregion.low
  have hentered :=
    @entered_enterFrame back args caller
      ⟨Nat.lt_of_le_of_lt (Nat.le_add_right _ _) hlow, hregion.high⟩
  refine ⟨rfl, ?_, ?_⟩
  · rw [hentered.lcl, hentered.sp]
  · rw [hentered.lcl, hentered.arg]
    exact Chain.outer hentered.saved

/-- What the matching return gives back: the bases of the caller, and on top of what is left of its
stack the word that was on top of the callee's. -/
structure Returned (args : Word) (caller callee m : Memory) : Prop where
  lcl : get .lcl m = get .lcl caller
  arg : get .arg m = get .arg caller
  this : get .this m = get .this caller
  that : get .that m = get .that caller
  sp : get .sp m = get .sp caller - args + 1
  result : m.read (get .sp caller - args) = callee.read (get .sp callee - 1)

/-- The return with no frame left but that of the call goes back to where the call said. -/
theorem Live.returned {frame : Word} (h : Live caller back args [frame] m) :
    (leaveFrame m).1 = back ∧ Returned args caller m (leaveFrame m).2 := by
  obtain ⟨hbeyond, hframe, -⟩ := h.bounds hregion
  obtain ⟨hback, hleft⟩ := left_leaveFrame hbeyond hframe h.top
  have hsame : frame = get .lcl m := Option.some.inj h.lcl
  obtain ⟨harg, hsaved⟩ : get .arg m = get .sp caller - args ∧ Saved back caller frame m := by
    have hchain := h.chain
    generalize get .arg m = arg at hchain
    cases hchain with
    | outer hsaved => exact ⟨rfl, hsaved⟩
  rw [hsame] at hsaved
  refine ⟨?_, ?_, ?_, ?_, ?_, ?_, ?_⟩
  · rw [hback, hsaved.back]
  · rw [hleft.lcl, hsaved.lcl]
  · rw [hleft.arg, hsaved.arg]
  · rw [hleft.this, hsaved.this]
  · rw [hleft.that, hsaved.that]
  · rw [hleft.sp, harg]
  · rw [← harg]
    exact hleft.result

end live

/-! ## Return addresses -/

/-- Later commands lie at later addresses. -/
theorem addressOf_mono (sites : List Site) : Monotone (addressOf sites) := by
  apply monotone_nat_of_le_succ
  intro k
  cases hsite : sites[k]? with
  | none => simp [addressOf, List.take_add_one, hsite]
  | some site =>
      rw [addressOf_succ hsite]
      exact Nat.le_add_right _ _

/-- The address behind a site with code is the address of the next position, and of none before. -/
theorem positionAt_behind {sites : List Site} {pc : Nat} {site : Site}
    (hsite : sites[pc]? = some site) (hcode : 0 < size site.code)
    (hfit : addressOf sites (pc + 1) < 2 ^ 16) :
    positionAt sites (BitVec.ofNat 16 (addressOf sites (pc + 1))) = some (pc + 1) := by
  have hpc : pc < sites.length := (List.getElem?_eq_some_iff.mp hsite).1
  have hvalue : (BitVec.ofNat 16 (addressOf sites (pc + 1))).toNat = addressOf sites (pc + 1) :=
    BitVec.toNat_ofNat _ _ ▸ Nat.mod_eq_of_lt hfit
  unfold positionAt
  rw [hvalue, List.find?_range_eq_some]
  refine ⟨by simp, by simpa using hpc, ?_⟩
  intro k hk
  have hle : addressOf sites k ≤ addressOf sites pc := addressOf_mono sites (Nat.le_of_lt_succ hk)
  have hsucc := addressOf_succ hsite
  simp only [Bool.not_eq_true', decide_eq_false_iff_not]
  omega

/-- A call has code. -/
theorem size_call_pos {site : Site} {name : String} {n : Word}
    (h : site.command = .perform (.call name n)) : 0 < size site.code := by
  unfold Site.code
  rw [h]
  exact Nat.lt_of_lt_of_le Nat.one_pos (Nat.le_of_ble_eq_true rfl)

/-- In a run that can be placed every address fits a word. -/
theorem addressOf_lt {options : Options} {units : List UnitCode}
    (hplace : Placeable (runStatements options units)) (k : Nat) :
    addressOf (runSites options units) k < 2 ^ 16 := by
  have hextent := hplace.extent_le
  rw [extent_runStatements] at hextent
  have hle : addressOf (runSites options units) k ≤ runSize options units := by
    unfold addressOf runSize
    conv_rhs =>
      rw [← List.take_append_drop k (runSites options units), List.map_append, List.sum_append]
    exact Nat.le_add_right _ _
  have hmax : Word.maxUnsigned = 65535 := rfl
  omega

/-! ## Runs -/

/-- What a step is made of. -/
theorem step_eq_some_iff {sites : List Site} {s s' : State} {site : Site}
    (hsite : sites[s.pc]? = some site) :
    step sites s = some s' ↔
      s'.ram =
        (effect (staticCell sites) (BitVec.ofNat 16 (addressOf sites (s.pc + 1))) site s.ram).1 ∧
      resolve sites s.pc
        (effect (staticCell sites) (BitVec.ofNat 16 (addressOf sites (s.pc + 1))) site s.ram).2 =
          some s'.pc := by
  unfold step
  rw [hsite]
  simp only [Option.map_eq_some_iff]
  constructor
  · rintro ⟨pc, hpc, rfl⟩
    exact ⟨rfl, hpc⟩
  · rintro ⟨hram, hpc⟩
    refine ⟨s'.pc, hpc, ?_⟩
    rw [← hram]

/-- The command at a position is not the one that sets up the stack. -/
def Past (sites : List Site) (pc : Nat) : Prop :=
  ∀ site, sites[pc]? = some site → ∀ base, site.command ≠ .setStack base

/-- Only the first command can set up the stack. -/
theorem past_succ (options : Options) (units : List UnitCode) (pc : Nat) :
    Past (runSites options units) (pc + 1) := by
  intro site hsite base
  have hunits : site ∈ unitSites (bootstrapScope options) units →
      site.command ≠ .setStack base := by
    intro hmem
    obtain ⟨-, i, hcommand, -⟩ :=
      @forall_unitSites (fun _ => True) (fun _ => True) (fun _ => True) units
        (fun _ _ _ _ => trivial) (fun _ _ _ _ => trivial) (fun _ _ => trivial)
        (fun _ _ _ _ => trivial) _ trivial site hmem
    rw [hcommand]
    exact Command.noConfusion
  unfold runSites bootstrapSites at hsite
  split_ifs at hsite
  · cases pc with
    | zero =>
        cases hsite
        exact Command.noConfusion
    | succ pc => exact hunits (List.mem_of_getElem? hsite)
  · exact hunits (List.mem_of_getElem? hsite)

section runs

variable {options : Options} {units : List UnitCode} {s s' : State} {site : Site}
  (hplace : Placeable (runStatements options units))

/-- A step leads past the setup of the stack, unless it returns to the very start. -/
theorem past_of_step (hsite : (runSites options units)[s.pc]? = some site)
    (hstep : step (runSites options units) s = some s')
    (hret : site.command = .perform .ret → (leaveFrame s.ram).1 ≠ 0) :
    Past (runSites options units) s'.pc := by
  obtain ⟨-, hresolve⟩ := (step_eq_some_iff hsite).mp hstep
  rcases control_cases (staticCell (runSites options units))
      (BitVec.ofNat 16 (addressOf (runSites options units) (s.pc + 1))) site s.ram with
    hnext | ⟨name, -, hgoto⟩ | ⟨hcommand, hback⟩
  · rw [hnext] at hresolve
    rw [← Option.some.inj hresolve]
    exact past_succ options units s.pc
  · rw [hgoto] at hresolve
    obtain ⟨other, hother, hdeclared⟩ := declared_of_locate hresolve
    intro found hfound base hbase
    rw [hother] at hfound
    cases hfound
    rw [declared?, hbase] at hdeclared
    cases hdeclared
  · rw [hback] at hresolve
    have haddress := addressOf_positionAt hresolve
    cases hpc : s'.pc with
    | zero =>
        -- only the start has the address 0 that leads to the first command
        rw [hpc] at haddress
        exact absurd (BitVec.eq_of_toNat_eq haddress.symm) (hret hcommand)
    | succ pc => exact past_succ options units pc

include hplace

/-- The address behind a call is not the start of the program. -/
theorem behind_ne_zero (hsite : (runSites options units)[s.pc]? = some site) {name : String}
    {n : Word} (hcommand : site.command = .perform (.call name n)) :
    BitVec.ofNat 16 (addressOf (runSites options units) (s.pc + 1)) ≠ 0 := by
  have hcode := size_call_pos hcommand
  have hsucc := addressOf_succ hsite
  have hlt := addressOf_lt hplace (s.pc + 1)
  intro hzero
  have hvalue := congrArg BitVec.toNat hzero
  rw [BitVec.toNat_ofNat, Nat.mod_eq_of_lt hlt] at hvalue
  have h0 : (0 : Word).toNat = 0 := rfl
  omega

variable {caller : Memory} {back args : Word} {frames : List Word} (hregion : InRegion args caller)
include hregion

/-- **A step inside a call** keeps the invariant. -/
theorem Live.step (h : Live caller back args frames s.ram)
    (hpast : Past (runSites options units) s.pc)
    (hsite : (runSites options units)[s.pc]? = some site)
    (hrules : Disciplined (runSites options units) frames site s.ram)
    (hstep : step (runSites options units) s = some s')
    (hlive : framesAfter site.command (get .lcl s'.ram) frames ≠ []) :
    Live caller back args (framesAfter site.command (get .lcl s'.ram) frames) s'.ram ∧
      Past (runSites options units) s'.pc := by
  obtain ⟨hram, -⟩ := (step_eq_some_iff hsite).mp hstep
  have hlocal : (∀ name n, site.command ≠ .perform (.call name n)) → site.command ≠ .perform .ret →
      framesAfter site.command (get .lcl s'.ram) frames = frames →
      Live caller back args (framesAfter site.command (get .lcl s'.ram) frames) s'.ram ∧
        Past (runSites options units) s'.pc := by
    intro hcall hret hframes
    rw [hframes, hram]
    exact ⟨h.local hregion _ hrules (hpast site hsite) hcall hret,
      past_of_step hsite hstep fun hcommand => absurd hcommand hret⟩
  obtain ⟨scope, command, comment⟩ := site
  cases command with
  | setStack base => exact absurd rfl (hpast _ hsite base)
  | perform i =>
      cases i with
      | call name n =>
          have hbehind := behind_ne_zero hplace hsite rfl
          refine ⟨?_, past_of_step hsite hstep fun hcommand => by cases hcommand⟩
          rw [hram]
          exact h.call hregion hbehind hrules.operands hrules.room
      | ret =>
          obtain ⟨frame, rest, rfl⟩ : ∃ frame rest, frames = frame :: rest :=
            List.exists_cons_of_ne_nil fun hnil => by simpa [hnil] using h.lcl
          obtain ⟨below, rest, rfl⟩ := List.exists_cons_of_ne_nil hlive
          obtain ⟨hleft, hback⟩ := h.leave hregion
          refine ⟨?_, past_of_step hsite hstep fun _ => hback⟩
          rw [hram]
          exact hleft
      | _ => exact hlocal (fun _ _ => by simp) (by simp) rfl

end runs

/-- **A run inside a call** keeps the invariant. -/
theorem Inside.live {options : Options} {units : List UnitCode} {caller s : State}
    {frames : List Word} (h : Inside (runSites options units) caller s frames)
    (hplace : Placeable (runStatements options units)) {site : Site} {name : String} {args : Word}
    (hsite : (runSites options units)[caller.pc]? = some site)
    (hcommand : site.command = .perform (.call name args)) (hregion : InRegion args caller.ram) :
    Live caller.ram (BitVec.ofNat 16 (addressOf (runSites options units) (caller.pc + 1))) args
      frames s.ram ∧
      Past (runSites options units) s.pc := by
  induction h with
  | enter hstep =>
      obtain ⟨hram, -⟩ := (step_eq_some_iff hsite).mp hstep
      refine ⟨?_, past_of_step hsite hstep fun hret => ?_⟩
      · rw [hram, effect, hcommand]
        exact live_enterFrame hregion
      · rw [hcommand] at hret
        cases hret
  | next _ hat hrules hstep hlive ih => exact ih.1.step hplace hregion ih.2 hat hrules hstep hlive

/-- The processor follows a run inside a call. -/
theorem Inside.leads {options : Options} {units : List UnitCode} {caller s : State}
    {frames : List Word} (h : Inside (runSites options units) caller s frames)
    (hreadable : ∀ u ∈ units, ∀ i ∈ u.code, Source.Readable i) (hnames : WellNamed options units)
    (hplace : Placeable (runStatements options units)) :
    Leads (programOf (runStatements options units)).rom caller.ram
      (addressOf (runSites options units) caller.pc) s.ram
        (addressOf (runSites options units) s.pc) := by
  induction h with
  | enter hstep => exact leads_step hreadable hnames hplace hstep
  | next _ _ _ hstep _ ih => exact ih.trans (leads_step hreadable hnames hplace hstep)

end HackVM.Machine

namespace HackVM.Lowering

open Hack Machine

/-- **The calling convention.** Let a run be read, written and assembled, its names being fit for
it, and take any call in it that is made with the stack above the registers. Follow the run from
there, through any nesting of calls and returns that keeps to the rules, to the return with no frame
left but that of the call. This return goes on right behind the call; `LCL`, `ARG`, `THIS` and
`THAT` are as they were before the call, the stack is shorter by the arguments and longer by one,
and that one word is the one that was on top of the callee's stack. The processor goes the same way,
from the code of the call to the code behind it. -/
theorem call_returns {options : Options} {units : List SourceUnit} {codes : List UnitCode}
    {a : Assembly} {p : Program} (hread : List.Forall₂ Reads units codes)
    (hnames : WellNamed options codes) (hrun : (compile options units).result = .ok a)
    (hprogram : assemble a.text = .ok p) {caller s : State} {site last : Site} {name : String}
    {args frame : Word} (hsite : (runSites options codes)[caller.pc]? = some site)
    (hcall : site.command = .perform (.call name args)) (hregion : InRegion args caller.ram)
    (hinside : Inside (runSites options codes) caller s [frame])
    (hlast : (runSites options codes)[s.pc]? = some last) (hret : last.command = .perform .ret) :
    ∃ s', step (runSites options codes) s = some s' ∧ s'.pc = caller.pc + 1 ∧
      Returned args caller.ram s.ram s'.ram ∧
      Leads p.rom caller.ram (addressOf (runSites options codes) caller.pc)
        s.ram (addressOf (runSites options codes) s.pc) ∧
      Leads p.rom s.ram (addressOf (runSites options codes) s.pc)
        s'.ram (addressOf (runSites options codes) (caller.pc + 1)) := by
  obtain ⟨hplace, rfl⟩ := assembled_of_reads hread hnames hrun hprogram
  have hreadable := readable_of_reads hread
  obtain ⟨hlive, -⟩ := hinside.live hplace hsite hcall hregion
  obtain ⟨hback, hreturned⟩ := hlive.returned hregion
  have hposition := positionAt_behind hsite (size_call_pos hcall) (addressOf_lt hplace _)
  have hstep : step (runSites options codes) s = some ⟨(leaveFrame s.ram).2, caller.pc + 1⟩ := by
    rw [step_eq_some_iff hlast]
    unfold effect
    rw [hret]
    refine ⟨rfl, ?_⟩
    rw [resolve, hback]
    exact hposition
  exact ⟨_, hstep, rfl, hreturned, hinside.leads hreadable hnames hplace,
    leads_step hreadable hnames hplace hstep⟩

/-- A call without arguments, and inside of it a call with one. -/
def nestedUnit : SourceUnit :=
  .named "A" ("call f 0\nfunction f 0\npush constant 7\ncall g 1\nreturn\n" ++
    "function g 0\npush argument 0\nreturn\n")

/-- What the unit reads as. -/
def nestedCall : List UnitCode :=
  [⟨"A", [.call "f" 0, .function "f" 0, .push .constant 7, .call "g" 1, .ret, .function "g" 0,
    .push .argument 0, .ret]⟩]

/-- Both calls come back to where they were made: the inner one right behind itself, so that the
outer one can be followed to its own return. -/
theorem call_returns_nested :
    ∃ a p s s',
      (compile .withoutBootstrap [nestedUnit]).result = .ok a ∧
      assemble a.text = .ok p ∧
      Inside (runSites .withoutBootstrap nestedCall) ⟨set .sp 256 .zero, 0⟩ s [261] ∧
      step (runSites .withoutBootstrap nestedCall) s = some s' ∧ s'.pc = 1 ∧
      Returned 0 (set .sp 256 .zero) s.ram s'.ram := by
  have hread : List.Forall₂ Reads [nestedUnit] nestedCall :=
    .cons ⟨rfl, by decide +kernel⟩ .nil
  have hnames : WellNamed .withoutBootstrap nestedCall :=
    ⟨by decide, by decide, by decide, by decide, by decide⟩
  obtain ⟨a, p, hrun, hprogram⟩ := exists_program_of_reads hread hnames (by decide) (by decide)
  have hsp : get .sp (set .sp 256 Memory.zero) = 256 := get_set_self _ _ _
  generalize set .sp 256 Memory.zero = m at hsp ⊢
  -- the outer call, and one word on the stack of its callee
  obtain ⟨b₁, m₁, hentered₁, hcall₁⟩ : ∃ b₁ m₁, Entered b₁ 0 m m₁ ∧
      step (runSites .withoutBootstrap nestedCall) ⟨m, 0⟩ = some ⟨m₁, 1⟩ :=
    ⟨_, _, entered_enterFrame ⟨by rw [hsp]; decide, by rw [hsp]; decide⟩, rfl⟩
  have hsp₁ : get .sp m₁ = 261 := by rw [hentered₁.sp, hsp]; rfl
  have hlcl₁ : get .lcl m₁ = 261 := by rw [hentered₁.lcl, hsp]; rfl
  have hbeyond₁ : Beyond (get .sp m₁) := by rw [hsp₁]; decide
  have hsp₂ : get .sp (push 7 m₁) = 262 := by rw [get_sp_push hbeyond₁, hsp₁]; rfl
  have hlcl₂ : get .lcl (push 7 m₁) = 261 := by rw [get_push_of_ne hbeyond₁ (by decide), hlcl₁]
  -- the inner call, and one word on the stack of its callee
  obtain ⟨b₃, m₃, hentered₃, hcall₃⟩ : ∃ b₃ m₃, Entered b₃ 1 (push 7 m₁) m₃ ∧
      step (runSites .withoutBootstrap nestedCall) ⟨push 7 m₁, 3⟩ = some ⟨m₃, 5⟩ :=
    ⟨_, _, entered_enterFrame ⟨by rw [hsp₂]; decide, by rw [hsp₂]; decide⟩, rfl⟩
  have hsp₃ : get .sp m₃ = 267 := by rw [hentered₃.sp, hsp₂]; rfl
  obtain ⟨m₄, hbody⟩ : ∃ m₄, ∀ caller frames, frames ≠ [] →
      Inside (runSites .withoutBootstrap nestedCall) caller ⟨m₃, 5⟩ frames →
      Inside (runSites .withoutBootstrap nestedCall) caller ⟨m₄, 7⟩ frames := by
    refine ⟨push (m₃.read (get .arg m₃ + 0)) m₃, ?_⟩
    intro caller frames hframes hinside
    have hroom : (get .sp m₃).toNat + 1 < 2 ^ 16 := by rw [hsp₃]; decide
    have hentry : Inside (runSites .withoutBootstrap nestedCall) caller ⟨m₃, 6⟩ frames :=
      hinside.next rfl (disciplined_of_taken_eq_zero rfl (Nat.lt_of_succ_lt hroom)) rfl hframes
    exact hentry.next rfl (disciplined_of_taken_eq_zero rfl hroom) rfl hframes
  have hinner := hbody _ _ (List.cons_ne_nil _ _) (Inside.enter hcall₃)
  obtain ⟨s₅, hreturn₅, hpc₅, -⟩ := call_returns hread hnames hrun hprogram rfl rfl
    (by constructor <;> rw [hsp₂] <;> decide) hinner rfl rfl
  have hroom₁ : (get .sp m₁).toNat + 1 < 2 ^ 16 := by rw [hsp₁]; decide
  have hentry : Inside (runSites .withoutBootstrap nestedCall) ⟨m, 0⟩ ⟨m₁, 2⟩ [get .lcl m₁] :=
    (Inside.enter hcall₁).next rfl (disciplined_of_taken_eq_zero rfl (Nat.lt_of_succ_lt hroom₁)) rfl
      (List.cons_ne_nil _ _)
  have htop : Inside (runSites .withoutBootstrap nestedCall) ⟨m, 0⟩ ⟨push 7 m₁, 3⟩ [get .lcl m₁] :=
    hentry.next rfl (disciplined_of_taken_eq_zero rfl hroom₁) rfl (List.cons_ne_nil _ _)
  have hdeep :
      Inside (runSites .withoutBootstrap nestedCall) ⟨m, 0⟩ ⟨m₃, 5⟩ [get .lcl m₃, get .lcl m₁] :=
    htop.next rfl ⟨fun _ => by rw [hsp₂, hlcl₂]; decide, by rw [hsp₂]; decide, by rintro a ⟨⟩⟩
      hcall₃ (List.cons_ne_nil _ _)
  have hback : Inside (runSites .withoutBootstrap nestedCall) ⟨m, 0⟩ s₅ [get .lcl m₁] :=
    (hbody _ _ (List.cons_ne_nil _ _) hdeep).next rfl
      (disciplined_of_taken_eq_zero rfl (BitVec.isLt _)) hreturn₅
      (List.cons_ne_nil _ _)
  have hlast : (runSites .withoutBootstrap nestedCall)[s₅.pc]? =
      (runSites .withoutBootstrap nestedCall)[4]? := by
    rw [hpc₅]
  obtain ⟨s', hstep, hpc, hreturned, -⟩ := call_returns hread hnames hrun hprogram rfl rfl
    (by constructor <;> rw [hsp] <;> decide) hback hlast rfl
  rw [hlcl₁] at hback
  exact ⟨a, p, s₅, s', hrun, hprogram, hback, hstep, hpc, hreturned⟩

end HackVM.Lowering
