import Mathlib.Tactic

/-!
# Computations that may fail

When a computation that goes through stages comes to a value: every stage has come to one. It fails
when a stage does and those before it have come to values.

Results:
* `map_eq_ok_iff`, `map_eq_error_iff`, `bind_eq_ok_iff`, `bind_eq_error_iff`: two stages.
* `mapM_eq_ok_iff`, `mapM_eq_error_iff`: the same stage for every element of a list.
* `Rel.bind`, `Rel.map`: two computations that fail alike or come to related values.
-/

namespace TxRelay.Except

variable {ε α β γ δ : Type}

theorem map_eq_ok_iff {f : α → β} {x : Except ε α} {b : β} :
    x.map f = .ok b ↔ ∃ a, x = .ok a ∧ f a = b := by
  cases x <;> simp [Except.map]

theorem map_eq_error_iff {f : α → β} {x : Except ε α} {e : ε} :
    x.map f = .error e ↔ x = .error e := by
  cases x <;> simp [Except.map]

theorem bind_eq_ok_iff {f : α → Except ε β} {x : Except ε α} {b : β} :
    x >>= f = .ok b ↔ ∃ a, x = .ok a ∧ f a = .ok b := by
  cases x <;> simp [bind, Except.bind]

theorem bind_eq_error_iff {f : α → Except ε β} {x : Except ε α} {e : ε} :
    x >>= f = .error e ↔ x = .error e ∨ ∃ a, x = .ok a ∧ f a = .error e := by
  cases x <;> simp [bind, Except.bind]

theorem mapM_eq_ok_iff {f : α → Except ε β} {as : List α} {bs : List β} :
    as.mapM f = .ok bs ↔ List.Forall₂ (fun a b => f a = .ok b) as bs := by
  induction as generalizing bs with
  | nil => simp [pure, Except.pure, eq_comm]
  | cons a as ih =>
    simp only [List.mapM_cons, bind_eq_ok_iff, ih, pure, Except.pure, Except.ok.injEq,
      List.forall₂_cons_left_iff]
    constructor
    · rintro ⟨b, head, rest, tail, rfl⟩
      exact ⟨b, rest, head, tail, rfl⟩
    · rintro ⟨b, rest, head, tail, rfl⟩
      exact ⟨b, head, rest, tail, rfl⟩

/-- The first element for which a stage fails. -/
theorem mapM_eq_error_iff {f : α → Except ε β} {as : List α} {e : ε} :
    as.mapM f = .error e ↔ ∃ before a after, as = before ++ a :: after ∧
      (∀ b ∈ before, ∃ v, f b = .ok v) ∧ f a = .error e := by
  induction as with
  | nil => simp [pure, Except.pure]
  | cons a as ih =>
    simp only [List.mapM_cons, bind_eq_error_iff, ih, pure, Except.pure, reduceCtorEq, and_false,
      exists_false, or_false]
    constructor
    · rintro (bad | ⟨v, good, before, b, after, rfl, first, bad⟩)
      · exact ⟨[], a, as, rfl, by simp, bad⟩
      · exact ⟨a :: before, b, after, rfl, by simpa using ⟨⟨v, good⟩, first⟩, bad⟩
    · rintro ⟨before, b, after, same, first, bad⟩
      cases before with
      | nil =>
        cases same
        exact .inl bad
      | cons c before =>
        cases same
        obtain ⟨v, good⟩ := first a List.mem_cons_self
        exact .inr ⟨v, good, before, b, after, rfl, fun d mem => first d (.tail _ mem), bad⟩

/-! ## Two computations -/

/-- The same error, or values that are related. -/
inductive Rel (R : α → β → Prop) : Except ε α → Except ε β → Prop
  | ok {a b} (related : R a b) : Rel R (.ok a) (.ok b)
  | error (e : ε) : Rel R (.error e) (.error e)

namespace Rel

variable {R : α → β → Prop} {S : γ → δ → Prop} {x : Except ε α} {y : Except ε β}

theorem refl {R : α → α → Prop} (h : ∀ a, R a a) (x : Except ε α) : Rel R x x := by
  cases x with
  | ok a => exact .ok (h a)
  | error e => exact .error e

theorem mono {S : α → β → Prop} (h : Rel R x y) (weaker : ∀ a b, R a b → S a b) : Rel S x y := by
  cases h with
  | ok related => exact .ok (weaker _ _ related)
  | error e => exact .error e

theorem bind {f : α → Except ε γ} {g : β → Except ε δ} (h : Rel R x y)
    (next : ∀ a b, R a b → Rel S (f a) (g b)) : Rel S (x >>= f) (y >>= g) := by
  cases h with
  | ok related => exact next _ _ related
  | error e => exact .error e

theorem map {f : α → γ} {g : β → δ} (h : Rel R x y) (next : ∀ a b, R a b → S (f a) (g b)) :
    Rel S (x.map f) (y.map g) := by
  cases h with
  | ok related => exact .ok (next _ _ related)
  | error e => exact .error e

end Rel

theorem rel_iff {R : α → β → Prop} {x : Except ε α} {y : Except ε β} : Rel R x y ↔
    (∃ a b, x = .ok a ∧ y = .ok b ∧ R a b) ∨ ∃ e, x = .error e ∧ y = .error e := by
  constructor
  · rintro (related | e)
    · exact .inl ⟨_, _, rfl, rfl, related⟩
    · exact .inr ⟨e, rfl, rfl⟩
  · rintro (⟨a, b, rfl, rfl, related⟩ | ⟨e, rfl, rfl⟩)
    · exact .ok related
    · exact .error e

end TxRelay.Except
