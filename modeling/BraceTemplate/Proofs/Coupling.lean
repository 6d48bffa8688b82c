import BraceTemplate.Proofs.Computation

/-!
Two computations side by side: from related states they both succeed or both fail, and end in
related states.
-/
namespace BraceTemplate

variable {ε σ τ α β γ δ : Type}

/-- Two runs end alike: in results and states with the postcondition, or in errors and states that
are related as failures have to be. -/
inductive EndAlike (F : ε → ε → σ → τ → Prop) (Q : α → β → σ → τ → Prop) :
    Except ε α × σ → Except ε β × τ → Prop where
  | ok {a : α} {b : β} {s : σ} {t : τ} (h : Q a b s t) : EndAlike F Q (.ok a, s) (.ok b, t)
  | error {e e' : ε} {s : σ} {t : τ} (h : F e e' s t) : EndAlike F Q (.error e, s) (.error e', t)

/-- From states with the precondition two computations end alike. -/
def Coupled (F : ε → ε → σ → τ → Prop) (P : σ → τ → Prop) (x : ExceptT ε (StateM σ) α)
    (y : ExceptT ε (StateM τ) β) (Q : α → β → σ → τ → Prop) : Prop :=
  ∀ s t, P s t → EndAlike F Q (outcome x s) (outcome y t)

/-- The two states are the given ones. -/
def At (s : σ) (t : τ) (s' : σ) (t' : τ) : Prop := s' = s ∧ t' = t

namespace Coupled

variable {F : ε → ε → σ → τ → Prop} {P : σ → τ → Prop} {Q : α → β → σ → τ → Prop}
  {R : γ → δ → σ → τ → Prop} {x : ExceptT ε (StateM σ) α} {y : ExceptT ε (StateM τ) β}

theorem pure {a : α} {b : β} (h : ∀ s t, P s t → Q a b s t) :
    Coupled F P (Pure.pure a) (Pure.pure b) Q := fun s t hs => .ok (h s t hs)

theorem throw {e e' : ε} (h : ∀ s t, P s t → F e e' s t) :
    Coupled F P (throw e : ExceptT ε (StateM σ) α) (throw e' : ExceptT ε (StateM τ) β) Q :=
  fun s t hs => .error (h s t hs)

theorem bind {f : α → ExceptT ε (StateM σ) γ} {g : β → ExceptT ε (StateM τ) δ}
    (h : Coupled F P x y Q) (hnext : ∀ a b, Coupled F (Q a b) (f a) (g b) R) :
    Coupled F P (x >>= f) (y >>= g) R := by
  intro s t hs
  have hfirst := h s t hs
  rw [outcome_bind, outcome_bind]
  generalize outcome x s = first at hfirst ⊢
  generalize outcome y t = first' at hfirst ⊢
  cases hfirst with
  | ok hq => exact hnext _ _ _ _ hq
  | error hf => exact .error hf

theorem imp {Q' : α → β → σ → τ → Prop} (h : Coupled F P x y Q)
    (hQ : ∀ a b s t, Q a b s t → Q' a b s t) : Coupled F P x y Q' := by
  intro s t hs
  have hends := h s t hs
  generalize outcome x s = first at hends ⊢
  generalize outcome y t = first' at hends ⊢
  cases hends with
  | ok hq => exact .ok (hQ _ _ _ _ hq)
  | error hf => exact .error hf

/-- Where the second computation succeeds the first one does. -/
theorem exists_ok (h : Coupled F P x y Q) {s : σ} {t t' : τ} {b : β} (hs : P s t)
    (hy : outcome y t = (.ok b, t')) : ∃ a s', outcome x s = (.ok a, s') ∧ Q a b s' t' := by
  have hends := h s t hs
  rw [hy] at hends
  generalize outcome x s = first at hends ⊢
  cases hends with
  | ok hq => exact ⟨_, _, rfl, hq⟩

/-- A computation ends like itself from the same state. -/
theorem refl {F : ε → ε → σ → σ → Prop} (hF : ∀ e s, F e e s s) (x : ExceptT ε (StateM σ) α) :
    Coupled F (· = ·) x x fun a b s t => a = b ∧ s = t := by
  rintro s _ rfl
  cases outcome x s with
  | mk r t =>
    cases r with
    | ok a => exact .ok ⟨rfl, rfl⟩
    | error e => exact .error (hF e t)

/-- What holds from every two states with the precondition. -/
theorem of_at (h : ∀ s t, P s t → Coupled F (At s t) x y Q) : Coupled F P x y Q :=
  fun s t hs => h s t hs s t ⟨rfl, rfl⟩

theorem bind_get {s : σ} {t : τ} {f : σ → ExceptT ε (StateM σ) γ} {g : τ → ExceptT ε (StateM τ) δ}
    (h : Coupled F (At s t) (f s) (g t) R) : Coupled F (At s t) (get >>= f) (get >>= g) R := by
  rintro _ _ ⟨rfl, rfl⟩
  rw [outcome_bind_ok outcome_get, outcome_bind_ok outcome_get]
  exact h _ _ ⟨rfl, rfl⟩

theorem modify_pure {f : σ → σ} {g : τ → τ} {a : α} {b : β}
    (h : ∀ s t, P s t → Q a b (f s) (g t)) :
    Coupled F P (do modify f; return a) (do modify g; return b) Q := by
  intro s t hs
  rw [outcome_bind_ok (outcome_modify f), outcome_bind_ok (outcome_modify g)]
  exact .ok (h s t hs)

theorem set_pure {s : σ} {t : τ} {a : α} {b : β} (h : Q a b s t) :
    Coupled F P (do set s; return a) (do set t; return b) Q := by
  intro s' t' _
  rw [outcome_bind_ok (outcome_set s), outcome_bind_ok (outcome_set t)]
  exact .ok h

theorem set {s : σ} {t : τ} {Q : PUnit → PUnit → σ → τ → Prop} (h : Q ⟨⟩ ⟨⟩ s t) :
    Coupled F P (set s) (set t) Q := fun _ _ _ => .ok h

theorem modify {f : σ → σ} {g : τ → τ} {Q : PUnit → PUnit → σ → τ → Prop}
    (h : ∀ s t, P s t → Q ⟨⟩ ⟨⟩ (f s) (g t)) : Coupled F P (modify f) (modify g) Q :=
  fun s t hs => .ok (h s t hs)

end Coupled

end BraceTemplate
