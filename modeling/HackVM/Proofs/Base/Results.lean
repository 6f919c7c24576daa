import Mathlib.Data.List.Forall2

/-!
# Steps that may fail, and lists item by item

What the rest needs about results that may be errors, one after another and through a list, and
about lists that are related item by item. Nothing here is about programs.
-/

namespace HackVM

section results

variable {ε α β : Type}

/-- One step after another succeeds when both do. -/
theorem bind_eq_ok_iff {first : Except ε α} {next : α → Except ε β} {b : β} :
    first >>= next = .ok b ↔ ∃ a, first = .ok a ∧ next a = .ok b := by
  cases first with
  | error e => simp [bind, Except.bind]
  | ok a => simp [bind, Except.bind]

/-- One step after another fails when one of them does. -/
theorem bind_eq_error_iff {first : Except ε α} {next : α → Except ε β} {e : ε} :
    first >>= next = .error e ↔
      first = .error e ∨ ∃ a, first = .ok a ∧ next a = .error e := by
  cases first with
  | error e => simp [bind, Except.bind]
  | ok a => simp [bind, Except.bind]

/-- Changing a result does not change whether there is one. -/
theorem map_eq_ok_iff {x : Except ε α} {f : α → β} {b : β} :
    x.map f = .ok b ↔ ∃ a, x = .ok a ∧ f a = b := by
  cases x with
  | error e => simp [Except.map]
  | ok a => simp [Except.map]

/-- Changing a result leaves errors alone. -/
theorem map_eq_error_iff {x : Except ε α} {f : α → β} {e : ε} :
    x.map f = .error e ↔ x = .error e := by
  cases x with
  | error e => simp [Except.map]
  | ok a => simp [Except.map]

/-- Forgetting the error leaves results alone. -/
theorem toOption_eq_some_iff {x : Except ε α} {a : α} : x.toOption = some a ↔ x = .ok a := by
  cases x with
  | error e => simp [Except.toOption]
  | ok b => simp [Except.toOption]

variable {f : α → Except ε β}

/-- Working through a list succeeds when it succeeds on each item. -/
theorem mapM_eq_ok_iff {xs : List α} {ys : List β} :
    xs.mapM f = .ok ys ↔ List.Forall₂ (fun x y => f x = .ok y) xs ys := by
  induction xs generalizing ys with
  | nil => cases ys <;> simp [pure, Except.pure]
  | cons x xs ih =>
      rw [List.mapM_cons]
      cases hx : f x with
      | error e => cases ys <;> simp [bind, Except.bind, hx]
      | ok y =>
          cases hxs : xs.mapM f <;> cases ys <;>
            simp [bind, Except.bind, pure, Except.pure, hx, ← ih, hxs]

/-- Results can be changed one at a time or all at the end. -/
theorem map_mapM {γ : Type} (g : β → γ) (xs : List α) :
    (xs.mapM f).map (List.map g) = xs.mapM fun x => (f x).map g := by
  induction xs with
  | nil => rfl
  | cons x xs ih =>
      rw [List.mapM_cons, List.mapM_cons, ← ih]
      cases f x <;> cases xs.mapM f <;> rfl

/-- Working through a list fails with the error of the first item on which it fails. -/
theorem mapM_eq_error_iff {xs : List α} {e : ε} :
    xs.mapM f = .error e ↔ ∃ before x after, xs = before ++ x :: after ∧
      (∀ b ∈ before, ∃ y, f b = .ok y) ∧ f x = .error e := by
  induction xs with
  | nil => simp [pure, Except.pure]
  | cons x xs ih =>
      rw [List.mapM_cons]
      cases hx : f x with
      | error e' =>
          constructor
          · intro h
            exact ⟨[], x, xs, rfl, by simp, by rw [hx]; simpa [bind, Except.bind] using h⟩
          · rintro ⟨before, x', after, hsplit, hbefore, hx'⟩
            cases before with
            | nil =>
                obtain ⟨rfl, rfl⟩ := List.cons.inj hsplit
                rw [hx] at hx'
                cases hx'
                rfl
            | cons b before =>
                obtain ⟨rfl, -⟩ := List.cons.inj hsplit
                obtain ⟨y, hy⟩ := hbefore _ List.mem_cons_self
                rw [hx] at hy
                cases hy
      | ok y =>
          have hstep : (Except.ok y >>= fun y => xs.mapM f >>= fun ys => pure (y :: ys)) =
              Except.error e ↔ xs.mapM f = .error e := by
            cases xs.mapM f <;> simp [bind, Except.bind, pure, Except.pure]
          rw [hstep, ih]
          constructor
          · rintro ⟨before, x', after, rfl, hbefore, hx'⟩
            refine ⟨x :: before, x', after, rfl, ?_, hx'⟩
            intro b hb
            rcases List.mem_cons.mp hb with rfl | hb
            · exact ⟨y, hx⟩
            · exact hbefore b hb
          · rintro ⟨before, x', after, hsplit, hbefore, hx'⟩
            cases before with
            | nil =>
                obtain ⟨rfl, -⟩ := List.cons.inj hsplit
                rw [hx] at hx'
                cases hx'
            | cons b before =>
                obtain ⟨-, rfl⟩ := List.cons.inj hsplit
                exact ⟨before, x', after, rfl,
                  fun c hc => hbefore c (List.mem_cons_of_mem _ hc), hx'⟩

end results

/-- Lists that are related item by item end alike. -/
theorem forall₂_getLast? {α : Type} {R : α → α → Prop} {xs ys : List α}
    (h : List.Forall₂ R xs ys) : Option.Rel R xs.getLast? ys.getLast? := by
  induction h with
  | nil => exact .none
  | @cons x y xs ys hxy _ ih =>
      rw [List.getLast?_cons, List.getLast?_cons]
      generalize xs.getLast? = last at ih ⊢
      generalize ys.getLast? = last' at ih ⊢
      rcases ih with hlast | _
      · exact .some hlast
      · exact .some hxy

/-- What some items give, one thing each, and the others do not. -/
theorem forall₂_filter_flatMap {α β : Type} {R : α → β → Prop} {p : α → Prop} [DecidablePred p]
    {f : α → List β} {xs : List α} (hone : ∀ x ∈ xs, p x → ∃ y, f x = [y] ∧ R x y)
    (hnone : ∀ x ∈ xs, ¬p x → f x = []) : List.Forall₂ R (xs.filter p) (xs.flatMap f) := by
  induction xs with
  | nil => exact .nil
  | cons x xs ih =>
      have hrest := ih (fun y hy => hone y (List.mem_cons_of_mem _ hy))
        fun y hy => hnone y (List.mem_cons_of_mem _ hy)
      rw [List.flatMap_cons]
      by_cases hx : p x
      · obtain ⟨y, hy, hR⟩ := hone x List.mem_cons_self hx
        rw [List.filter_cons_of_pos (by simpa using hx), hy]
        exact .cons hR hrest
      · rw [List.filter_cons_of_neg (by simpa using hx), hnone x List.mem_cons_self hx]
        exact hrest

end HackVM
