import BraceTemplate.Proofs.Render.ActiveLayer
import BraceTemplate.Proofs.Value.Access

/-!
An assignment changes the path it names. Paths that part from it read as before, but for the one case
in which a block starts a variable of its own below a shared name: it hides what is shared there.
-/
namespace BraceTemplate

/-- The path of literal keys below a root name. -/
def Path.literal (mode : Mode) (name : String) (keys : List String) : Path :=
  ⟨mode, .key name :: keys.map .key⟩

section Literal

variable (s : Scope) (mode : Mode) (name : String) (keys : List String)

theorem names_literal : (Path.literal mode name keys).names s = pure (name :: keys) := by
  have hkeys : (keys.map Segment.key).mapM (Segment.name s) = pure keys := by
    induction keys with
    | nil => rfl
    | cons key keys ih =>
      rw [List.map_cons, List.mapM_cons, Segment.name, pure_bind, ih, pure_bind]
  unfold Path.names Path.literal
  rw [List.mapM_cons, Segment.name, pure_bind, hkeys, pure_bind]

theorem readBelow_literal (v : Value) :
    readBelow s (keys.map .key) v = pure ((v.lookupAll? keys).getD .null) := by
  induction keys generalizing v with
  | nil =>
    rw [List.map_nil, readBelow]
    rfl
  | cons key keys ih =>
    rw [List.map_cons, readBelow, Segment.name, pure_bind, Value.lookupAll?]
    cases v.lookup? key with
    | none => rfl
    | some w => exact ih w

theorem read_literal : (Path.literal mode name keys).read s =
    pure (((s.root? mode name).bind fun v => v.lookupAll? keys).getD .null) := by
  unfold Path.literal
  rw [Path.read, Segment.name, pure_bind]
  cases s.root? mode name with
  | none => rfl
  | some v => exact readBelow_literal s keys v

end Literal

/-- The variables of a block that a mode looks at before the shared ones. -/
def Frame.visible (f : Frame) : Mode → Layer
  | .block => f.locals.getD []
  | .shared => []

theorem Frame.visible_block {f : Frame} {locals : Layer} (h : f.locals = some locals) :
    f.visible .block = locals := by
  unfold visible
  rw [h, Option.getD_some]

namespace Render

variable {env : RenderEnv} {s s' : RenderState} {mode : Mode} {name : String}
  {keys : List String} {value : Value}

/-- What a variable without filters reads. -/
def reading (env : RenderEnv) (p : Path) (s : RenderState) : Except Error Value :=
  (outcome (resolve env ⟨p, []⟩) s).1

/-- A block sees a name as a shared one only, and is about to start a variable of its own there. -/
def Hides (s : RenderState) (mode : Mode) (name : String) : Prop :=
  mode = .block ∧ s.frame.locals ≠ none ∧ Dict.find? (s.frame.visible .block) name = none ∧
    Dict.find? s.context.activeLayer name ≠ none

theorem scope_root? (env : RenderEnv) (s : RenderState) (mode : Mode) (name : String) :
    (scope env s).root? mode name =
      (Dict.find? (s.frame.visible mode) name).or (Dict.find? s.context.activeLayer name) := by
  unfold scope Scope.root? Frame.visible
  cases mode with
  | shared => rfl
  | block => cases s.frame.locals <;> rfl

theorem reading_literal (env : RenderEnv) (s : RenderState) (mode : Mode) (name : String)
    (keys : List String) : reading env (.literal mode name keys) s =
      .ok ((((scope env s).root? mode name).bind fun v => v.lookupAll? keys).getD .null) := by
  unfold reading resolve
  rw [outcome_bind_ok outcome_get, outcome_logged, Var.resolve, read_literal]
  rfl

/-- Where a path starts from the same value as before, it reads the same. -/
theorem reading_congr (h : (scope env s').root? mode name = (scope env s).root? mode name) :
    reading env (.literal mode name keys) s' = reading env (.literal mode name keys) s := by
  rw [reading_literal, reading_literal, h]

theorem reading_root {root : Value} (h : (scope env s).root? mode name = some root) :
    reading env (.literal mode name keys) s = .ok ((root.lookupAll? keys).getD .null) := by
  rw [reading_literal, h, Option.bind_some]

/-- An assignment to a path of literal keys is a write below its root name. -/
theorem outcome_assign_literal (env : RenderEnv) (s : RenderState) (mode : Mode) (name : String)
    (keys : List String) (value : Value) : outcome (assign env (.literal mode name keys) value) s =
      outcome (write mode name keys value) s := by
  unfold assign
  rw [outcome_bind_ok outcome_get, names_literal]
  exact outcome_bind_ok rfl _

/-- What an assignment that succeeds makes of the root names: its own one has what the write below it
left of the value that it started from, in the modes that see the write; all else is in place. -/
structure Assigned (env : RenderEnv) (s s' : RenderState) (mode : Mode) (name : String)
    (keys : List String) (value : Value) (old : Option Value) : Prop where
  fault : (Value.setPath keys (old.getD .null) value).fault = none
  start : ¬ Hides s mode name → old = (scope env s).root? mode name
  start_hidden : Hides s mode name → old = none
  own : (scope env s').root? mode name = some (Value.setPath keys (old.getD .null) value).slot
  names : ∀ mode' name', name' ≠ name →
    (scope env s').root? mode' name' = (scope env s).root? mode' name'
  modes : ∀ mode', (scope env s').root? mode' name = (scope env s).root? mode' name ∨
    (scope env s').root? mode' name = (scope env s').root? mode name ∧
      (scope env s).root? mode' name = (scope env s).root? mode name ∧
      (Hides s mode name → mode' = .block)

/-- A shared name is bound in the active layer. -/
theorem assigned_shared (hc : s.context.Settled) (hmode : mode = .shared ∨ s.frame.locals = none)
    (h : outcome (write mode name keys value) s = (.ok (), s')) :
    Assigned env s s' mode name keys value (Dict.find? s.context.activeLayer name) := by
  obtain ⟨hfault, hframe, hlayer⟩ :
      let w := Value.setPath keys ((Dict.find? s.context.activeLayer name).getD .null) value
      w.fault = none ∧ s'.frame = s.frame ∧
        s'.context.activeLayer = Dict.insert s.context.activeLayer name w.slot := by
    rw [outcome_write hmode] at h
    dsimp only at h ⊢
    split at h
    · cases h
    · rename_i hfault
      cases h
      exact ⟨hfault, rfl, Context.activeLayer_write hc _⟩
  have hvisible : s.frame.visible mode = [] := by
    rcases hmode with rfl | hlocals
    · rfl
    · cases mode <;> simp [Frame.visible, hlocals]
  have hshown : ¬ Hides s mode name := by
    rintro ⟨rfl, hlocals, -⟩
    exact absurd hmode (by simp [hlocals])
  constructor
  · exact hfault
  · intro _
    rw [scope_root?, hvisible, Dict.find?_nil, Option.none_or]
  · exact fun hhides => absurd hhides hshown
  · rw [scope_root?, hframe, hlayer, hvisible, Dict.find?_nil, Option.none_or,
      Dict.find?_insert_self]
  · intro mode' name' hname
    rw [scope_root?, scope_root?, hframe, hlayer, Dict.find?_insert_of_ne _ _ hname]
  · intro mode'
    cases hown : Dict.find? (s.frame.visible mode') name with
    | some v =>
      left
      rw [scope_root?, scope_root?, hframe, hown, Option.some_or, Option.some_or]
    | none =>
      right
      refine ⟨?_, ?_, fun hhides => absurd hhides hshown⟩
      · rw [scope_root?, scope_root?, hframe, hown, hvisible, Dict.find?_nil]
      · rw [scope_root?, scope_root?, hown, hvisible, Dict.find?_nil]

/-- A variable of a block is bound there, and shared names keep their values. -/
theorem assigned_local {locals : Layer} (hlocals : s.frame.locals = some locals)
    (h : outcome (write .block name keys value) s = (.ok (), s')) :
    Assigned env s s' .block name keys value (Dict.find? locals name) := by
  obtain ⟨hfault, hcontext, hlocals'⟩ :
      let w := Value.setPath keys ((Dict.find? locals name).getD .null) value
      w.fault = none ∧ s'.context = s.context ∧
        s'.frame.locals = some (Dict.insert locals name w.slot) := by
    rw [outcome_write_local hlocals] at h
    dsimp only at h ⊢
    cases hfault : (Value.setPath keys ((Dict.find? locals name).getD .null) value).fault with
    | some f =>
      rw [hfault] at h
      cases h
    | none =>
      rw [hfault] at h
      cases h
      exact ⟨rfl, rfl, rfl⟩
  have hvisible := Frame.visible_block hlocals
  have hvisible' := Frame.visible_block hlocals'
  constructor
  · exact hfault
  · intro hshown
    rw [scope_root?, hvisible]
    cases hlocal : Dict.find? locals name with
    | some v => rfl
    | none =>
      cases hshared : Dict.find? s.context.activeLayer name with
      | none => rfl
      | some v =>
        refine absurd ⟨rfl, ?_, ?_, ?_⟩ hshown
        · simp [hlocals]
        · rw [hvisible, hlocal]
        · simp [hshared]
  · rintro ⟨-, -, hlocal, -⟩
    rwa [hvisible] at hlocal
  · rw [scope_root?, hvisible', Dict.find?_insert_self, Option.some_or]
  · intro mode' name' hname
    rw [scope_root?, scope_root?, hcontext]
    cases mode' with
    | shared => rfl
    | block => rw [hvisible, hvisible', Dict.find?_insert_of_ne _ _ hname]
  · intro mode'
    cases mode' with
    | shared =>
      left
      rw [scope_root?, scope_root?, hcontext]
      rfl
    | block => exact .inr ⟨rfl, rfl, fun _ => rfl⟩

theorem exists_assigned (hc : s.context.Settled)
    (h : outcome (assign env (.literal mode name keys) value) s = (.ok (), s')) :
    ∃ old, Assigned env s s' mode name keys value old := by
  rw [outcome_assign_literal] at h
  rcases shared_or_local mode s.frame with hmode | ⟨rfl, locals, hlocals⟩
  · exact ⟨_, assigned_shared hc hmode h⟩
  · exact ⟨_, assigned_local hlocals h⟩

/-- Behind an assignment that succeeds its path reads the value. The paths under other root names
read what they did, and so do those that part from it below its root name. Only where a block starts
a variable of its own below a name that is shared so far, the paths of the block that part from it
read nothing any more. -/
theorem assign_changes_path (hc : s.context.Settled)
    (h : outcome (assign env (.literal mode name keys) value) s = (.ok (), s')) :
    reading env (.literal mode name keys) s' = .ok value ∧
      ∀ (mode' : Mode) (others : List String),
        (∀ name', name' ≠ name → reading env (.literal mode' name' others) s' =
          reading env (.literal mode' name' others) s) ∧
        (Value.Parts (((scope env s).root? mode name).getD .null) keys others →
          ¬ (mode' = .block ∧ Hides s mode name) →
          reading env (.literal mode' name others) s' =
            reading env (.literal mode' name others) s) ∧
        (Value.Parts .null keys others → mode' = .block → Hides s mode name →
          reading env (.literal mode' name others) s' = .ok .null) := by
  obtain ⟨old, hassigned⟩ := exists_assigned hc h
  refine ⟨?_, fun mode' others => ⟨fun name' hname => ?_, fun hparts hshown => ?_,
    fun hparts hmode' hhides => ?_⟩⟩
  · rw [reading_root hassigned.own, Value.lookupAll?_setPath hassigned.fault]
    rfl
  · exact reading_congr (hassigned.names mode' name' hname)
  · rcases hassigned.modes mode' with hsame | ⟨hafter, hbefore, hblock⟩
    · exact reading_congr hsame
    · have hstart := hassigned.start fun hhides => hshown ⟨hblock hhides, hhides⟩
      rw [← hstart] at hparts
      rw [reading_root (hafter.trans hassigned.own),
        Value.lookupAll?_setPath_getD hparts hassigned.fault, reading_literal, hbefore, hstart]
  · obtain rfl : mode' = mode := hmode'.trans hhides.1.symm
    obtain rfl := hassigned.start_hidden hhides
    have habsent : Value.Parts ((none : Option Value).getD .null) keys others := hparts
    rw [reading_root hassigned.own, Value.lookupAll?_setPath_getD habsent hassigned.fault]
    rfl

/-- A shared mapping, seen from a frame. -/
def mappingIn (frame : Frame) (fields : List (String × Value)) : RenderState :=
  ⟨.flat [("a", .dict fields)] [], frame, [], none, []⟩

theorem parts_keys (fields : List (String × Value)) : Value.Parts (.dict fields) ["b"] ["c"] := by
  refine .here ?_ [] []
  intro (h : "b" = "c")
  exact absurd h (by decide)

theorem assign_changes_path_beside :
    let env := (Engine.ofConfig Text.WordCase.speller .standard).env Files.Tree.empty.read
    let s := mappingIn .ofUnit [("c", .int 5)]
    let s' := mappingIn .ofUnit [("c", .int 5), ("b", .int 1)]
    s.context.Settled ∧
      outcome (assign env (.literal .shared "a" ["b"]) (.int 1)) s = (.ok (), s') ∧
      reading env (.literal .shared "a" ["b"]) s' = .ok (.int 1) ∧
      reading env (.literal .shared "a" ["c"]) s' = .ok (.int 5) := by
  intro env s s'
  have hc : s.context.Settled := .flat _ _
  have h : outcome (assign env (.literal .shared "a" ["b"]) (.int 1)) s = (.ok (), s') := rfl
  obtain ⟨hown, hothers⟩ := assign_changes_path hc h
  refine ⟨hc, h, hown, ?_⟩
  rw [(hothers .shared ["c"]).2.1 (parts_keys _) (by simp)]
  rfl

/-- In a block without variables of its own, a write at one key of a shared mapping takes the other
key of that mapping out of its sight. -/
theorem assign_hides_shared :
    let env := (Engine.ofConfig Text.WordCase.speller .standard).env Files.Tree.empty.read
    let s := mappingIn (.ofBlock []) [("c", .int 5)]
    let s' := mappingIn (.ofBlock [("a", .dict [("b", .int 1)])]) [("c", .int 5)]
    s.context.Settled ∧
      outcome (assign env (.literal .block "a" ["b"]) (.int 1)) s = (.ok (), s') ∧
      Value.Parts (((scope env s).root? .block "a").getD .null) ["b"] ["c"] ∧
      reading env (.literal .block "a" ["c"]) s = .ok (.int 5) ∧
      reading env (.literal .block "a" ["c"]) s' = .ok .null :=
  ⟨.flat _ _, rfl, parts_keys _, rfl, rfl⟩

end Render
end BraceTemplate
