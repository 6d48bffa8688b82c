import BraceTemplate.Engine
import BraceTemplate.Proofs.Render.Logging
import BraceTemplate.Proofs.Render.Writes
import BraceTemplate.Proofs.Value.Refusal

/-!
Assignments that fail change nothing, neither what is shared nor the variables of a block, although
these are written in place.
-/
namespace BraceTemplate
namespace Render

variable {env : RenderEnv} {s : RenderState} {e : Error}

/-- The value that a write below a root name starts from. -/
def startOf (s : RenderState) (mode : Mode) (name : String) : Value :=
  match mode, s.frame.locals with
  | .block, some locals => (Dict.find? locals name).getD .null
  | _, _ => (Dict.find? s.context.activeLayer name).getD .null

/-- Why a target cannot be assigned to: one of its keys has no value, or something on the way
refuses a key. -/
def Refuses (env : RenderEnv) (s : RenderState) (target : Path) (e : Error) : Prop :=
  match (outcome (target.names (scope env s)) s.warnings).1 with
  | .error cause => cause = e
  | .ok [] => False
  | .ok (name :: keys) => ∃ f, .execution f = e ∧ (startOf s target.mode name).Obstructed keys f

theorem startOf_shared {mode : Mode} (h : mode = .shared ∨ s.frame.locals = none) (name : String) :
    startOf s mode name = (Dict.find? s.context.activeLayer name).getD .null := by
  unfold startOf
  rcases h with rfl | h
  · rfl
  · rw [h]
    cases mode <;> rfl

theorem startOf_local {locals : Layer} (h : s.frame.locals = some locals) (name : String) :
    startOf s .block name = (Dict.find? locals name).getD .null := by
  unfold startOf
  rw [h]

/-- A write that fails has changed nothing: a name that it would have bound in the frame was bound
before, or there was nothing in the way. -/
theorem write_fails (s : RenderState) (mode : Mode) (name : String) (keys : List String)
    (value : Value) :
    let fault := (Value.setPath keys (startOf s mode name) value).fault
    (∀ f, fault = some f → outcome (write mode name keys value) s = (.error (.execution f), s)) ∧
      (fault = none → (outcome (write mode name keys value) s).1 = .ok ()) := by
  rcases shared_or_local mode s.frame with hmode | ⟨rfl, locals, hlocals⟩
  · rw [startOf_shared hmode, outcome_write hmode]
    dsimp only
    cases (Value.setPath keys _ value).fault with
    | none => exact ⟨nofun, fun _ => rfl⟩
    | some f => exact ⟨fun f' hf => by cases hf; rfl, nofun⟩
  · rw [startOf_local hlocals, outcome_write_local hlocals]
    dsimp only
    cases hfault : (Value.setPath keys ((Dict.find? locals name).getD .null) value).fault with
    | none => exact ⟨nofun, fun _ => rfl⟩
    | some f =>
      refine ⟨fun f' hf => ?_, nofun⟩
      cases hf
      have hslot := Value.slot_setPath_of_fault hfault
      cases hfind : Dict.find? locals name with
      | none =>
        rw [hfind, Option.getD_none, Value.fault_setPath_null] at hfault
        cases hfault
      | some old =>
        rw [hfind, Option.getD_some] at hslot
        rw [Option.getD_some, hslot, Dict.insert_of_find? hfind, ← hlocals]
        rfl

/-- An assignment fails exactly where a key of its target cannot be evaluated or something on the
way refuses a key, for that reason, and then all is as it was before, but for what evaluating the
keys has logged. -/
theorem failed_assign_keeps (env : RenderEnv) (s : RenderState) (target : Path) (value : Value)
    (e : Error) :
    ((outcome (assign env target value) s).1 = .error e ↔ Refuses env s target e) ∧
    ((outcome (assign env target value) s).1 = .error e → ∃ logged,
      (outcome (assign env target value) s).2 = { s with warnings := s.warnings ++ logged }) := by
  obtain ⟨names, new, hnames⟩ := Path.names_logs (scope env s) target
  let s₁ : RenderState := { s with warnings := s.warnings ++ new }
  have hkeys : outcome (logged (target.names (scope env s))) s = (names, s₁) := by
    rw [outcome_logged, hnames]
  unfold assign Refuses
  rw [outcome_bind_ok outcome_get, hnames]
  cases names with
  | error cause =>
    rw [outcome_bind_error hkeys]
    exact ⟨by simp, fun _ => ⟨new, rfl⟩⟩
  | ok names =>
    rw [outcome_bind_ok hkeys]
    cases names with
    | nil => exact ⟨iff_of_false nofun id, nofun⟩
    | cons name keys =>
      dsimp only
      obtain ⟨hfails, hsucceeds⟩ := write_fails s₁ target.mode name keys value
      have hstart : startOf s target.mode name = startOf s₁ target.mode name := rfl
      simp only [hstart, ← Value.fault_setPath_eq_some_iff keys _ value]
      cases hfault : (Value.setPath keys (startOf s₁ target.mode name) value).fault with
      | none =>
        rw [hsucceeds hfault]
        exact ⟨by simp, nofun⟩
      | some f =>
        rw [hfails f hfault]
        exact ⟨by simp, fun _ => ⟨new, rfl⟩⟩

/-- A scalar stands in the way inside of a row that a block has. -/
theorem failed_assign_keeps_row :
    let env := (Engine.ofConfig Text.WordCase.speller .standard).env Files.Tree.empty.read
    let rows : Value := .list [.dict [("b", .int 1)]]
    let s : RenderState := ⟨.flat [("rows", .null)] [], .ofBlock [("rows", rows)], [], none, []⟩
    let target : Path := ⟨.block, [.key "rows", .index (.literal (.int 0)), .key "b", .key "c"]⟩
    let e : Error := .execution (.scalarInTheWay "c" "1")
    (outcome (assign env target (.int 2)) s).1 = .error e ∧ Refuses env s target e ∧
      ∃ logged, (outcome (assign env target (.int 2)) s).2 =
        { s with warnings := s.warnings ++ logged } := by
  intro env rows s target e
  have hfails : (outcome (assign env target (.int 2)) s).1 = .error e := rfl
  obtain ⟨hrefuses, hkeeps⟩ := failed_assign_keeps env s target (.int 2) e
  exact ⟨hfails, hrefuses.mp hfails, hkeeps hfails⟩

end Render
end BraceTemplate
