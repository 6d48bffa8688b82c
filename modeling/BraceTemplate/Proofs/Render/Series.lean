import BraceTemplate.Proofs.Render.Assignment

/-!
A body that is run for the elements of a list one after the other. Each pass starts with an
assignment to single names, which succeeds whatever the passes before it left behind.
-/
namespace BraceTemplate

theorem Context.Settled.writeAll {c : Context} (hc : c.Settled) (ws : List (String × Value)) :
    (c.writeAll ws).Settled := by
  induction ws generalizing c with
  | nil => exact hc
  | cons w ws ih => exact ih (hc.write w)

namespace Render

variable {env : RenderEnv} {s : RenderState}

theorem OnlyWrites.settled {α : Type} {m : Render α} (h : OnlyWrites m) (hs : s.context.Settled) :
    (outcome m s).2.context.Settled := by
  obtain ⟨ws, hws⟩ := h s
  exact hws ▸ hs.writeAll ws

/-- Assigning to a single name succeeds. The name reads the value from there on, and no other name
changes. -/
theorem exists_assign_simple (env : RenderEnv) (hs : s.context.Settled) (mode : Mode)
    (name : String) (v : Value) :
    ∃ after, outcome (assign env (.simple mode name) v) s = (.ok (), after) ∧
      after.context.Settled ∧ reading env (.simple mode name) after = .ok v ∧
      ∀ other, other ≠ name →
        reading env (.simple mode other) after = reading env (.simple mode other) s := by
  have hwrite : ∃ after, outcome (write mode name [] v) s = (.ok (), after) := by
    have hfault (old : Value) : (Value.setPath [] old v).fault = none := rfl
    rcases shared_or_local mode s.frame with hmode | ⟨rfl, locals, hlocals⟩
    · rw [outcome_write hmode]
      dsimp only
      rw [hfault]
      exact ⟨_, rfl⟩
    · rw [outcome_write_local hlocals]
      dsimp only
      rw [hfault]
      exact ⟨_, rfl⟩
  obtain ⟨after, hafter⟩ := hwrite
  rw [← outcome_assign_literal env] at hafter
  obtain ⟨old, hassigned⟩ := exists_assigned hs hafter
  have hown : (scope env after).root? mode name = some v := hassigned.own
  have hsettled := (OnlyWrites.assign env (.literal mode name []) v).settled hs
  rw [hafter] at hsettled
  have hreads : reading env (.literal mode name []) after = .ok v := reading_root hown
  refine ⟨after, hafter, hsettled, hreads, ?_⟩
  intro other hother
  have hother : reading env (.literal mode other []) after =
      reading env (.literal mode other []) s := reading_congr (hassigned.names mode other hother)
  exact hother

/-- The passes of a body for the elements of a list in order, with the texts one behind the other.
Each starts in the state that the one before it left. -/
inductive Series {α : Type} (begins : α → RenderState → RenderState → Prop) (body : Render String) :
    List α → RenderState → String → RenderState → Prop
  | none (s : RenderState) : Series begins body [] s "" s
  | pass {a : α} {as : List α} {s begun between after : RenderState} {text rest : String} :
    begins a s begun → outcome body begun = (.ok text, between) →
    Series begins body as between rest after →
    Series begins body (a :: as) s (text ++ rest) after

/-- Where every pass can start, a body that is run for the elements of a list passes through them in
order, up to the first pass that fails. -/
theorem joined_series {α : Type} {begins : α → RenderState → RenderState → Prop}
    {start : α → Render Unit} {body : Render String} {piece : α → Render String}
    (hpiece : ∀ a, piece a = start a >>= fun _ => body) (hbody : OnlyWrites body)
    (hstart : ∀ a (s : RenderState), s.context.Settled → ∃ begun, begins a s begun ∧
      outcome (start a) s = (.ok (), begun) ∧ begun.context.Settled)
    (as : List α) (hs : s.context.Settled) :
    ∃ k text before, Series begins body (as.take k) s text before ∧
      (k = as.length ∧ outcome (joined piece as) s = (.ok text, before) ∨
        ∃ a, as[k]? = some a ∧ ∃ begun e after, begins a before begun ∧
          outcome body begun = (.error e, after) ∧
          outcome (joined piece as) s = (.error e, after)) := by
  induction as generalizing s with
  | nil => exact ⟨0, "", s, .none s, .inl ⟨rfl, rfl⟩⟩
  | cons a as ih =>
    obtain ⟨begun, hbegins, hstarted, hbegun⟩ := hstart a s hs
    have hfirst : outcome (piece a) s = outcome body begun := by
      rw [hpiece, outcome_bind_ok hstarted]
    have hsettled := hbody.settled hbegun
    rw [joined]
    rcases hpass : outcome body begun with ⟨e | text, between⟩
    · rw [hpass] at hfirst
      refine ⟨0, "", s, .none s, .inr ⟨a, rfl, begun, e, between, hbegins, hpass, ?_⟩⟩
      exact outcome_bind_error hfirst _
    · rw [hpass] at hfirst hsettled
      obtain ⟨k, rest, before, hpasses, hend⟩ := ih hsettled
      refine ⟨k + 1, text ++ rest, before, .pass hbegins hpass hpasses, ?_⟩
      rcases hend with ⟨rfl, hloop⟩ | ⟨a', ha', begun', e, after, hbegins', hfails, hloop⟩
      · refine .inl ⟨rfl, ?_⟩
        rw [outcome_bind_ok hfirst, outcome_bind_ok hloop, outcome_pure]
      · refine .inr ⟨a', ha', begun', e, after, hbegins', hfails, ?_⟩
        rw [outcome_bind_ok hfirst, outcome_bind_error hloop]

end Render
end BraceTemplate
