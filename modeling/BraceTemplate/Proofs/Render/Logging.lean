import BraceTemplate.Proofs.Computation
import BraceTemplate.Proofs.Render.Evaluation

/-! Evaluation only logs: its outcome does not depend on the log, which it only adds to. -/
namespace BraceTemplate

/-- The computation has one outcome and adds the same warnings to every log. -/
def Logs {α : Type} (act : Logged α) : Prop :=
  ∃ r new, ∀ log, outcome act log = (r, log ++ new)

namespace Logs

variable {α β : Type}

theorem pure {a : α} : Logs (pure a) := ⟨.ok a, [], by simp⟩

theorem throw {e : Error} : Logs (throw e : Logged α) := ⟨.error e, [], by simp⟩

theorem lift {r : Except Error α} : Logs (liftExcept r) := ⟨r, [], by simp⟩

theorem warn {w : Warning} : Logs (warn w) := ⟨.ok (), [w], fun _ => rfl⟩

theorem bind {act : Logged α} {next : α → Logged β} (h : Logs act) (hnext : ∀ a, Logs (next a)) :
    Logs (act >>= next) := by
  obtain ⟨r, new, hact⟩ := h
  cases r with
  | error e =>
    refine ⟨.error e, new, fun log => ?_⟩
    rw [outcome_bind_error (hact log)]
  | ok a =>
    obtain ⟨r', new', hrest⟩ := hnext a
    refine ⟨r', new ++ new', fun log => ?_⟩
    rw [outcome_bind_ok (hact log), hrest, List.append_assoc]

/-- Every step of evaluation only logs. -/
theorem steps (s : Scope) : EvalRelation s s fun m _ => Logs m where
  root _ _ := rfl
  pure _ := .pure
  failing _ := .lift
  bind := .bind
  apply name v := by
    unfold FilterTable.apply
    split
    · exact .lift
    · split
      · exact .throw
      · exact .bind .warn fun _ => .pure

end Logs

theorem Expr.eval_logs (s : Scope) (e : Expr) : Logs (e.eval s) := (Logs.steps s).eval e

theorem Var.resolve_logs (s : Scope) (v : Var) : Logs (v.resolve s) := (Logs.steps s).resolve v

theorem Path.names_logs (s : Scope) (p : Path) : Logs (p.names s) := (Logs.steps s).names p

end BraceTemplate
