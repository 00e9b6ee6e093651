import Mathlib.Tactic.Common

/-!
# Steps that may fail, one after the other
-/

namespace HiToolchain

lemma bind_eq_ok {ε α β : Type} {x : Except ε α} {f : α → Except ε β} {b : β} :
    (x >>= f) = .ok b ↔ ∃ a, x = .ok a ∧ f a = .ok b := by
  cases x with
  | ok a =>
    constructor
    · intro h
      exact ⟨a, rfl, h⟩
    · rintro ⟨_, ⟨rfl⟩, h⟩
      exact h
  | error e =>
    constructor
    · intro h
      cases h
    · rintro ⟨_, h, -⟩
      cases h

lemma bind_eq_error {ε α β : Type} {x : Except ε α} {f : α → Except ε β} {e : ε} :
    (x >>= f) = .error e ↔ x = .error e ∨ ∃ a, x = .ok a ∧ f a = .error e := by
  cases x with
  | ok a =>
    constructor
    · intro h
      exact .inr ⟨a, rfl, h⟩
    · rintro (h | ⟨_, ⟨rfl⟩, h⟩)
      · cases h
      · exact h
  | error e' =>
    constructor
    · intro h
      cases h
      exact .inl rfl
    · rintro (h | ⟨_, h, -⟩)
      · cases h
        rfl
      · cases h

lemma ok_bind {ε α β : Type} (a : α) (f : α → Except ε β) : (Except.ok a >>= f) = f a := rfl

/-- Two steps that both succeed, with results related by `R`, or both fail, with faults related
by `E`. -/
inductive Matches {ε δ α β : Type} (E : ε → δ → Prop) (R : α → β → Prop) :
    Except ε α → Except δ β → Prop
  | ok {a : α} {b : β} (h : R a b) : Matches E R (.ok a) (.ok b)
  | error {e : ε} {f : δ} (h : E e f) : Matches E R (.error e) (.error f)

section

variable {ε δ α β : Type} {E : ε → δ → Prop} {R : α → β → Prop}
  {x : Except ε α} {y : Except δ β}

lemma Matches.of_ok {a : α} (h : Matches E R (.ok a) y) : ∃ b, y = .ok b ∧ R a b := by
  cases h with
  | ok hab => exact ⟨_, rfl, hab⟩

lemma Matches.of_error {e : ε} (h : Matches E R (.error e) y) : ∃ f, y = .error f ∧ E e f := by
  cases h with
  | error hef => exact ⟨_, rfl, hef⟩

lemma Matches.bind {α' β' : Type} {S : α' → β' → Prop} {f : α → Except ε α'} {g : β → Except δ β'}
    (h : Matches E R x y) (hnext : ∀ a b, R a b → Matches E S (f a) (g b)) :
    Matches E S (x >>= f) (y >>= g) := by
  cases h with
  | ok hab => exact hnext _ _ hab
  | error hef => exact .error hef

lemma Matches.imp {E' : ε → δ → Prop} {R' : α → β → Prop} (h : Matches E R x y)
    (hE : ∀ e f, E e f → E' e f) (hR : ∀ a b, R a b → R' a b) : Matches E' R' x y := by
  cases h with
  | ok hab => exact .ok (hR _ _ hab)
  | error hef => exact .error (hE _ _ hef)

lemma Matches.of_mapError {ε' δ' : Type} {E : ε' → δ' → Prop} {g : ε → ε'} {g' : δ → δ'}
    (h : Matches E R (x.mapError g) (y.mapError g')) :
    Matches (fun e f => E (g e) (g' f)) R x y := by
  cases x with
  | ok a =>
    cases y with
    | ok b =>
      cases h with
      | ok hab => exact .ok hab
    | error f => cases h
  | error e =>
    cases y with
    | ok b => cases h
    | error f =>
      cases h with
      | error hef => exact .error hef

lemma Matches.ite {p q : Prop} [Decidable p] [Decidable q] {x' : Except ε α} {y' : Except δ β}
    (hpq : p ↔ q) (h : Matches E R x y) (h' : Matches E R x' y') :
    Matches E R (if p then x else x') (if q then y else y') := by
  by_cases hp : p
  · rw [if_pos hp, if_pos (hpq.mp hp)]
    exact h
  · rw [if_neg hp, if_neg (mt hpq.mpr hp)]
    exact h'

lemma Matches.refl {E : ε → ε → Prop} (hE : ∀ e, E e e) (x : Except ε α) : Matches E Eq x x := by
  cases x with
  | ok a => exact .ok rfl
  | error e => exact .error (hE e)

/-- Steps that match up to `f` and `g` become equal when these are applied. -/
lemma Matches.map_eq {γ ρ : Type} {f : α → γ} {f' : β → γ} {g : ε → ρ} {g' : δ → ρ}
    (h : Matches (fun e e' => g e = g' e') (fun a b => f a = f' b) x y) :
    (x.map f).mapError g = (y.map f').mapError g' := by
  cases h with
  | ok hab => exact congrArg Except.ok hab
  | error hef => exact congrArg Except.error hef

end

end HiToolchain
