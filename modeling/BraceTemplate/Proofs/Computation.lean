import BraceTemplate.Markup.Nodes

/-!
Computations that may fail and keep their state when they do, run one step at a time; and what holds
behind those that succeed.
-/
namespace BraceTemplate

theorem bind_eq_ok {ε α β : Type} {x : Except ε α} {f : α → Except ε β} {b : β} :
    (x >>= f) = .ok b ↔ ∃ a, x = .ok a ∧ f a = .ok b := by
  cases x with
  | error e => simp [bind, Except.bind]
  | ok a => simp [bind, Except.bind]

/-- A check that a result passes is passed by what it holds. -/
theorem exists_ok_of_any {ε α : Type} {r : Except ε α} {check : α → Bool}
    (h : r.toOption.any check = true) : ∃ a, r = .ok a ∧ check a = true := by
  cases r with
  | error e => cases h
  | ok a => exact ⟨a, rfl, h⟩

theorem exists_ok_of_map {ε α β : Type} {r : Except ε α} {f : α → β} {b : β}
    (h : r.map f = .ok b) : ∃ a, r = .ok a ∧ f a = b := by
  cases r with
  | error e => cases h
  | ok a => exact ⟨a, rfl, Except.ok.inj h⟩

section Run

variable {ε σ α β : Type} {s : σ}

/-- The outcome and the state that a computation ends with. -/
def outcome (act : ExceptT ε (StateM σ) α) (s : σ) : Except ε α × σ := act.run.run s

@[simp] theorem outcome_pure (a : α) :
    outcome (pure a : ExceptT ε (StateM σ) α) s = (.ok a, s) := rfl

@[simp] theorem outcome_throw (e : ε) :
    outcome (throw e : ExceptT ε (StateM σ) α) s = (.error e, s) := rfl

@[simp] theorem outcome_get : outcome (get : ExceptT ε (StateM σ) σ) s = (.ok s, s) := rfl

@[simp] theorem outcome_set (t : σ) :
    outcome (set t : ExceptT ε (StateM σ) PUnit) s = (.ok ⟨⟩, t) := rfl

@[simp] theorem outcome_modify (f : σ → σ) :
    outcome (modify f : ExceptT ε (StateM σ) PUnit) s = (.ok ⟨⟩, f s) := rfl

@[simp] theorem outcome_lift (r : Except ε α) :
    outcome (liftExcept r : ExceptT ε (StateM σ) α) s = (r, s) := by
  cases r <;> rfl

/-- What follows runs in the state behind what came before, unless that failed. -/
def continued (next : α → ExceptT ε (StateM σ) β) : Except ε α × σ → Except ε β × σ
  | (.ok a, s) => outcome (next a) s
  | (.error e, s) => (.error e, s)

theorem outcome_bind (act : ExceptT ε (StateM σ) α) (next : α → ExceptT ε (StateM σ) β) :
    outcome (act >>= next) s = continued next (outcome act s) := by
  simp only [outcome, ExceptT.run_bind, StateT.run_bind]
  cases act.run.run s with
  | mk r t => cases r <;> rfl

theorem outcome_bind_ok {act : ExceptT ε (StateM σ) α} {a : α} {t : σ}
    (h : outcome act s = (.ok a, t)) (next : α → ExceptT ε (StateM σ) β) :
    outcome (act >>= next) s = outcome (next a) t := by
  rw [outcome_bind, h, continued]

theorem outcome_bind_error {act : ExceptT ε (StateM σ) α} {e : ε} {t : σ}
    (h : outcome act s = (.error e, t)) (next : α → ExceptT ε (StateM σ) β) :
    outcome (act >>= next) s = (.error e, t) := by
  rw [outcome_bind, h, continued]

/-- What succeeds has succeeded in its first part. -/
theorem outcome_bind_eq_ok {act : ExceptT ε (StateM σ) α} {next : α → ExceptT ε (StateM σ) β}
    {b : β} {t : σ} (h : outcome (act >>= next) s = (.ok b, t)) :
    ∃ a u, outcome act s = (.ok a, u) ∧ outcome (next a) u = (.ok b, t) := by
  rw [outcome_bind] at h
  cases hact : outcome act s with
  | mk r u =>
    rw [hact] at h
    cases r with
    | error e => cases h
    | ok a => exact ⟨a, u, rfl, h⟩

theorem outcome_map (f : α → β) (act : ExceptT ε (StateM σ) α) :
    outcome (f <$> act) s = ((outcome act s).1.map f, (outcome act s).2) := by
  rw [map_eq_pure_bind, outcome_bind]
  rcases outcome act s with ⟨e | a, t⟩ <;> rfl

/-- What follows a computation matters only where that succeeds. -/
theorem outcome_bind_congr {act : ExceptT ε (StateM σ) α} {f g : α → ExceptT ε (StateM σ) β}
    (h : ∀ a t, outcome act s = (.ok a, t) → outcome (f a) t = outcome (g a) t) :
    outcome (act >>= f) s = outcome (act >>= g) s := by
  rw [outcome_bind, outcome_bind]
  cases hact : outcome act s with
  | mk r t =>
    cases r with
    | error e => rfl
    | ok a => exact h a t hact

end Run

namespace Markup

variable {σ α β : Type} {P : σ → Prop} {Q : α → σ → Prop} {R : β → σ → Prop}

theorem outcome_located (p : Position) (act : Process σ α) (s : σ) :
    outcome (located p act) s = ((outcome act s).1.mapError (·.locate p), (outcome act s).2) := by
  unfold outcome located ExceptT.run StateT.run
  simp only [tryCatch, tryCatchThe, MonadExceptOf.tryCatch, ExceptT.tryCatch, ExceptT.mk, bind,
    StateT.bind]
  cases act s with
  | mk r t => cases r <;> rfl

/-- A position changes nothing about success. -/
theorem outcome_located_ok {act : Process σ α} {p : Position} {s t : σ} {a : α} :
    outcome (located p act) s = (.ok a, t) ↔ outcome act s = (.ok a, t) := by
  rw [outcome_located]
  cases outcome act s with
  | mk r t' =>
    cases r with
    | error e =>
      constructor
      · intro h
        cases h
      · intro h
        cases h
    | ok b => exact Iff.rfl

/-- If the computation succeeds from a state with the precondition, its result and the state behind
it have the postcondition. -/
def Ensures (P : σ → Prop) (act : Process σ α) (Q : α → σ → Prop) : Prop :=
  ∀ s, P s → ∀ a t, outcome act s = (.ok a, t) → Q a t

namespace Ensures

theorem pure {a : α} (h : ∀ s, P s → Q a s) : Ensures P (pure a) Q := by
  intro s hs a' s' hrun
  cases hrun
  exact h s hs

theorem throw {e : Error} : Ensures P (throw e) Q := by
  intro s hs a s' hrun
  cases hrun

theorem imp {act : Process σ α} {R : α → σ → Prop} (h : Ensures P act Q)
    (hQ : ∀ a s, Q a s → R a s) : Ensures P act R := by
  intro s hs a t hrun
  exact hQ a t (h s hs a t hrun)

theorem bind {act : Process σ α} {next : α → Process σ β} (h : Ensures P act Q)
    (hnext : ∀ a, Ensures (Q a) (next a) R) : Ensures P (act >>= next) R := by
  intro s hs b t hrun
  rw [outcome_bind] at hrun
  cases hact : outcome act s with
  | mk r s₁ =>
    rw [hact] at hrun
    cases r with
    | error e => cases hrun
    | ok a => exact hnext a s₁ (h s hs a s₁ hact) b t hrun

/-- What a computation does is of no matter where any result of it will do. -/
theorem after {act : Process σ α} {next : α → Process σ β}
    (h : ∀ a, Ensures (fun _ => True) (next a) R) : Ensures P (act >>= next) R :=
  bind (fun _ _ _ _ _ => trivial) h

theorem bind_get {s : σ} {next : σ → Process σ β} (h : Ensures (· = s) (next s) R) :
    Ensures (· = s) (get >>= next) R := by
  rintro _ rfl b t hrun
  rw [outcome_bind_ok outcome_get] at hrun
  exact h _ rfl b t hrun

theorem bind_set {t : σ} {next : PUnit → Process σ β} (h : Ensures (· = t) (next ⟨⟩) R) :
    Ensures P (set t >>= next) R := by
  intro s _ b t' hrun
  rw [outcome_bind_ok (outcome_set t)] at hrun
  exact h t rfl b t' hrun

theorem bind_modify {s : σ} {f : σ → σ} {next : PUnit → Process σ β}
    (h : Ensures (· = f s) (next ⟨⟩) R) : Ensures (· = s) (modify f >>= next) R := by
  rintro _ rfl b t hrun
  rw [outcome_bind_ok (outcome_modify f)] at hrun
  exact h _ rfl b t hrun

theorem modify {f : σ → σ} {Q : PUnit → σ → Prop} (h : ∀ s, P s → Q ⟨⟩ (f s)) :
    Ensures P (modify f) Q := by
  intro s hs a s' hrun
  cases hrun
  exact h s hs

/-- A lifted outcome leaves the state alone. -/
theorem lift {r : Except Error α} (h : ∀ a, r = .ok a → ∀ s, P s → Q a s) :
    Ensures P (liftExcept r) Q := by
  intro s hs a t hrun
  rw [outcome_lift] at hrun
  obtain ⟨hr, rfl⟩ := Prod.mk.inj hrun
  exact h a hr s hs

theorem bind_lift {r : Except Error α} {next : α → Process σ β}
    (h : ∀ a, r = .ok a → Ensures P (next a) R) : Ensures P (liftExcept r >>= next) R :=
  bind (Q := fun a s => r = .ok a ∧ P s) (lift fun _ hr _ hs => ⟨hr, hs⟩) fun a s hs =>
    h a hs.1 s hs.2

theorem located {p : Position} {act : Process σ α} (h : Ensures P act Q) :
    Ensures P (located p act) Q := by
  intro s hs a t hrun
  exact h s hs a t (outcome_located_ok.mp hrun)

end Ensures

end Markup
end BraceTemplate
