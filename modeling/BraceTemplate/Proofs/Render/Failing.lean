import BraceTemplate.Proofs.Render.Asking
import BraceTemplate.Proofs.Render.Evaluation

/-!
What computations fail with: from the errors of filters, of loaders and of loops that are too deep
to be counted to all that rendering fails with.
-/
namespace BraceTemplate

section Computations

variable {σ α β : Type} {E : Error → Prop} {P : σ → Prop}

/-- From states with a property a computation fails with such errors only, and it ends in such a
state also when it fails. -/
def FailsOnly (E : Error → Prop) (P : σ → Prop) (m : ExceptT Error (StateM σ) α) : Prop :=
  ∀ s, P s → (∀ e, (outcome m s).1 = .error e → E e) ∧ P (outcome m s).2

namespace FailsOnly

theorem pure (a : α) : FailsOnly E P (pure a) := fun _ hs => ⟨nofun, hs⟩

theorem throw {e : Error} (h : E e) : FailsOnly E P (throw e : ExceptT Error (StateM σ) α) := by
  intro s hs
  refine ⟨fun e' he => ?_, hs⟩
  obtain rfl : e = e' := Except.error.inj he
  exact h

theorem lift {r : Except Error α} (h : ∀ e, r = .error e → E e) : FailsOnly E P (liftExcept r) := by
  intro s hs
  rw [outcome_lift]
  exact ⟨h, hs⟩

theorem modify {f : σ → σ} (h : ∀ s, P s → P (f s)) : FailsOnly E P (modify f) :=
  fun s hs => ⟨nofun, h s hs⟩

/-- What follows a computation may count on what results of it there are. -/
theorem bind_of {m : ExceptT Error (StateM σ) α} {next : α → ExceptT Error (StateM σ) β}
    (h : FailsOnly E P m)
    (hnext : ∀ s, P s → ∀ a, (outcome m s).1 = .ok a → FailsOnly E P (next a)) :
    FailsOnly E P (m >>= next) := by
  intro s hs
  obtain ⟨hfail, hstate⟩ := h s hs
  have hnext := hnext s hs
  rw [outcome_bind]
  cases hrun : outcome m s with
  | mk r t =>
    rw [hrun] at hfail hstate hnext
    cases r with
    | error e =>
      refine ⟨fun e' herror => ?_, hstate⟩
      obtain rfl : e = e' := Except.error.inj herror
      exact hfail e rfl
    | ok a => exact hnext a rfl t hstate

theorem bind {m : ExceptT Error (StateM σ) α} {next : α → ExceptT Error (StateM σ) β}
    (h : FailsOnly E P m) (hnext : ∀ a, FailsOnly E P (next a)) : FailsOnly E P (m >>= next) :=
  bind_of h fun _ _ a _ => hnext a

/-- What follows a look at the state may count on its property. -/
theorem bind_get {next : σ → ExceptT Error (StateM σ) β}
    (h : ∀ s, P s → FailsOnly E P (next s)) : FailsOnly E P (get >>= next) := by
  intro s hs
  rw [outcome_bind_ok outcome_get]
  exact h s hs s hs

theorem set {t : σ} (h : P t) : FailsOnly E P (set t : ExceptT Error (StateM σ) PUnit) :=
  fun _ _ => ⟨nofun, h⟩

end FailsOnly

end Computations

namespace Dict

variable {α : Type}

theorem mem_insert {d : Dict α} {key : String} {value : α} {e : String × α}
    (h : e ∈ insert d key value) : e = (key, value) ∨ e ∈ d := by
  induction d with
  | nil => exact .inl (List.mem_singleton.mp h)
  | cons first d ih =>
    rw [insert] at h
    split at h
    · rcases List.mem_cons.mp h with rfl | h
      · exact .inl (by simp [*])
      · exact .inr (List.mem_cons_of_mem _ h)
    · rcases List.mem_cons.mp h with rfl | h
      · exact .inr List.mem_cons_self
      · exact (ih h).imp_right (List.mem_cons_of_mem _)

theorem mem_insertAll {d : Dict α} {entries : List (String × α)} {e : String × α}
    (h : e ∈ insertAll d entries) : e ∈ entries ∨ e ∈ d := by
  induction entries generalizing d with
  | nil => exact .inr h
  | cons first entries ih =>
    have hrest : e ∈ insertAll (insert d first.1 first.2) entries := h
    rcases ih hrest with hmem | hmem
    · exact .inl (List.mem_cons_of_mem _ hmem)
    · rcases mem_insert hmem with rfl | hold
      · exact .inl List.mem_cons_self
      · exact .inr hold

end Dict

/-- The body of a block is made of instructions of its template. -/
theorem Template.mem_of_definition {t : Template} {entry : String × Block}
    (h : entry ∈ t.definitions) {i : Instruction} (hi : i ∈ entry.2.instructions) :
    i ∈ t.instructions.toList := by
  obtain ⟨body, -, rfl⟩ := List.mem_map.mp h
  rw [Block.instructions, List.extract_eq_take_drop] at hi
  exact List.mem_of_mem_drop (List.mem_of_mem_take hi)

variable {E : Error → Prop}

/-- Filters that fail with such errors only. -/
def FilterTable.FailsOnly (E : Error → Prop) (t : FilterTable) : Prop :=
  ∀ name filter, t.find? name = some filter → ∀ v e, filter v = .error e → E e

/-- Every step of evaluation fails with such errors only, if the filters do. -/
theorem FilterTable.FailsOnly.steps {s : Scope} (h : s.filters.FailsOnly E)
    (hfault : ∀ f, E (.execution f)) :
    EvalRelation s s fun m _ => BraceTemplate.FailsOnly E (fun _ => True) m where
  root _ _ := rfl
  pure := .pure
  failing r := by
    refine .lift fun e he => ?_
    cases r with
    | error f =>
      rw [← Except.error.inj he]
      exact hfault f
    | ok a => cases he
  bind := .bind
  apply name v := by
    unfold FilterTable.apply
    split
    · rename_i filter hfind
      exact .lift (h name filter hfind v)
    · split
      · exact .throw (hfault _)
      · exact .bind (.modify fun _ _ => trivial) fun _ => .pure _

namespace Render

/-- The loader of a state, if there is one, gives good answers only. -/
def Provided (env : RenderEnv) (good : Except Error Template → Prop) (s : RenderState) : Prop :=
  ∀ l, s.loader = some l → l.Answering env.view env.registry good

theorem Provided.load {env : RenderEnv} {good : Except Error Template → Prop} {s : RenderState}
    (hs : Provided env good s) (href : String) :
    ((outcome (load env href) s).1 = .error (.execution (.noLoader href)) ∨
      good (outcome (load env href) s).1) ∧ Provided env good (outcome (load env href) s).2 := by
  rw [outcome_load]
  cases hloader : s.loader with
  | none => exact ⟨.inl rfl, hs⟩
  | some l =>
    obtain ⟨hanswer, hafter⟩ := (hs l hloader).load href
    refine ⟨.inr hanswer, fun l' hl' => ?_⟩
    rw [← Option.some.inj hl']
    exact hafter

theorem load_blocks (env : RenderEnv) (href : String) (s : RenderState) :
    (outcome (load env href) s).2.blocks = s.blocks := by
  rw [outcome_load]
  cases s.loader <;> rfl

/-- What loaders may answer: errors of a class, and templates of certain instructions. -/
def Supply (ok : Instruction → Prop) (E : Error → Prop) : Except Error Template → Prop
  | .error e => E e
  | .ok t => ∀ i ∈ t.instructions.toList, ok i

/-- Known blocks are made of certain instructions, and so is what is loaded, if includes are among
them. -/
structure Supplied (env : RenderEnv) (ok : Instruction → Prop) (E : Error → Prop)
    (s : RenderState) : Prop where
  blocks : ∀ entry ∈ s.blocks, ∀ i ∈ entry.2.instructions, ok i
  loader : ∀ parts, ok (.include parts) → Provided env (Supply ok E) s

/-- A property of states that has nothing to do with what is bound, counted or logged. -/
def Lasting (P : RenderState → Prop) : Prop := ∀ s context frame warnings, P s →
  P { s with context := context, frame := frame, warnings := warnings }

/-- Assumptions on what rendering certain instructions fails with. -/
structure Failing (env : RenderEnv) (ok : Instruction → Prop) (E : Error → Prop)
    (P : RenderState → Prop) : Prop where
  fault : ∀ f, E (.execution f)
  filters : env.filters.FailsOnly E
  counted : ∀ loop, ok (.beginFor loop) → loop.depth < Frame.capacity ∨ E .crashed
  lasting : Lasting P

namespace Failing

variable {env : RenderEnv} {ok : Instruction → Prop} {P : RenderState → Prop}
  (h : Failing env ok E P)
include h

theorem logged {α : Type} {act : Logged α} (hact : FailsOnly E (fun _ => True) act) :
    FailsOnly E P (logged act) := by
  intro s hs
  rw [outcome_logged]
  exact ⟨(hact s.warnings trivial).1, h.lasting s s.context s.frame _ hs⟩

theorem faultIfAny (f : Option RenderFault) : FailsOnly E P (faultIfAny f) := by
  cases f with
  | none => exact .pure ()
  | some f => exact .throw (h.fault f)

theorem write (mode : Mode) (name : String) (keys : List String) (value : Value) :
    FailsOnly E P (write mode name keys value) := by
  refine .bind_get fun s hs => ?_
  split
  · exact .bind (.set (h.lasting s s.context _ s.warnings hs)) fun _ => h.faultIfAny _
  · exact .bind (h.faultIfAny _) fun _ => .set (h.lasting s _ s.frame s.warnings hs)

/-- Every step of evaluation fails with such errors only. -/
theorem evaluates (s : RenderState) : EvalRelation (scope env s) (scope env s) fun m _ =>
    FailsOnly E (fun _ => True) m :=
  FilterTable.FailsOnly.steps h.filters h.fault

/-- A counter is missing only where a loop is too deep. -/
theorem setCounter {depth : Nat} (hdepth : depth < Frame.capacity ∨ E .crashed) (count : Nat) :
    FailsOnly E P (setCounter depth count) := by
  intro s hs
  rw [outcome_setCounter]
  split
  · exact ⟨nofun, h.lasting s s.context _ s.warnings hs⟩
  · rename_i hdeep
    exact FailsOnly.throw (hdepth.resolve_left hdeep) s hs

/-- Every step of rendering such instructions fails with such errors only. -/
theorem steps : StepRelation env env ok fun m _ => FailsOnly E P m where
  pure := .pure
  fault f := .throw (h.fault f)
  bind := .bind
  eval e := .bind_get fun s _ => h.logged ((h.evaluates s).eval e)
  resolve v := .bind_get fun s _ => h.logged ((h.evaluates s).resolve v)
  assign _ _ target _ value := by
    refine .bind_get fun s _ => .bind (h.logged ((h.evaluates s).names target)) fun names => ?_
    cases names with
    | nil => exact .pure ()
    | cons name keys => exact h.write target.mode name keys value
  setCounter loop hloop := h.setCounter (h.counted loop hloop)
  counterAt _ := .bind_get fun _ _ => .pure _

end Failing

namespace Supplied

variable {env : RenderEnv} {ok : Instruction → Prop}

theorem lasting : Lasting (Supplied env ok E) := fun _ _ _ _ hs => ⟨hs.blocks, hs.loader⟩

/-- What is loaded is made of such instructions. -/
theorem loaded {s : RenderState} (hs : Supplied env ok E s) {parts : List IncludePart}
    (hparts : ok (.include parts)) {href : String} {t : Template}
    (ht : (outcome (load env href) s).1 = .ok t) : ∀ i ∈ t.instructions.toList, ok i := by
  obtain ⟨hanswer, -⟩ := (hs.loader parts hparts).load href
  rw [ht] at hanswer
  rcases hanswer with hnone | hsupply
  · cases hnone
  · exact hsupply

/-- What a target of such instructions makes known is made of such instructions. -/
theorem hoist {target : Target} (htarget : ∀ i ∈ Tree.flatten target.tree, ok i) :
    FailsOnly E (Supplied env ok E) target.hoist := by
  cases target with
  | block b => exact .pure ()
  | unit t =>
    rw [Target.tree, t.denotes_tree.instructions] at htarget
    refine .modify fun s hs => ⟨fun entry hentry => ?_, hs.loader⟩
    rcases Dict.mem_insertAll hentry with hnew | hold
    · exact fun i hi => htarget i (Template.mem_of_definition hnew hi)
    · exact hs.blocks entry hold

end Supplied

namespace Failing

variable {env : RenderEnv} {ok : Instruction → Prop} (h : Failing env ok E (Supplied env ok E))
include h

theorem load {parts : List IncludePart} (hparts : ok (.include parts)) (href : String) :
    FailsOnly E (Supplied env ok E) (load env href) := by
  intro s hs
  obtain ⟨hanswer, -⟩ := (hs.loader parts hparts).load href
  refine ⟨fun e he => ?_, ?_, fun parts hparts => ((hs.loader parts hparts).load href).2⟩
  · rw [he] at hanswer
    rcases hanswer with hnone | hsupply
    · rw [Except.error.inj hnone]
      exact h.fault _
    · exact hsupply
  · rw [load_blocks]
    exact hs.blocks

/-- What invokes and what includes fails with such errors only, if so does what is entered. -/
theorem enters {enter : Call → Render String}
    (henter : ∀ target, (∀ i ∈ Tree.flatten target.tree, ok i) → ∀ frame tooDeep,
      FailsOnly E (Supplied env ok E) (enter ⟨target, frame, tooDeep⟩)) :
    EntersAlike env env ok (fun m _ => FailsOnly E (Supplied env ok E) m) enter enter where
  invoke name args _ := by
    rw [Leaf.render, blockCall_bind, blockNamed, bind_assoc]
    refine .bind_get fun s hs => ?_
    rw [pure_bind]
    cases hfind : Dict.find? s.blocks name with
    | none => exact .throw (h.fault _)
    | some block =>
      have hblock := hs.blocks _ (Dict.mem_of_find? hfind)
      rw [← block.flatten_tree] at hblock
      exact .bind (h.steps.evalArgs args) fun _ => henter (.block block) hblock _ _
  includes parts hparts := by
    simp only [Leaf.render, includeCall, bind_assoc]
    refine .bind (h.steps.includePath parts) fun href => ?_
    split
    · have hwarn : FailsOnly E (Supplied env ok E) (Render.logged (warn .emptyInclude)) :=
        h.logged (.modify fun _ _ => trivial)
      simp only [bind_assoc, pure_bind]
      exact .bind hwarn fun _ => .pure ""
    · simp only [bind_assoc, pure_bind]
      refine .bind_of (h.load hparts href) fun s hs t ht => henter (.unit t) ?_ _ _
      rw [Target.tree, t.denotes_tree.instructions]
      exact hs.loaded hparts ht

/-- However deep units and blocks of such instructions are nested, what is entered fails with such
errors only. -/
theorem call (room : Nat) {target : Target} (htarget : ∀ i ∈ Tree.flatten target.tree, ok i)
    (frame : Frame) (tooDeep : RenderFault) :
    FailsOnly E (Supplied env ok E) (Call.render env room ⟨target, frame, tooDeep⟩) := by
  induction room generalizing target frame tooDeep with
  | zero => exact .throw (h.fault tooDeep)
  | succ room ih =>
    have henters := h.enters fun target htarget frame tooDeep => ih htarget frame tooDeep
    have hrun := FailsOnly.bind (Supplied.hoist htarget) fun _ =>
      h.steps.tree henters target.tree htarget
    intro s hs
    obtain ⟨hfails, hstate⟩ := hrun { s with frame := frame } ⟨hs.blocks, hs.loader⟩
    exact ⟨hfails, hstate.blocks, hstate.loader⟩

/-- A template of such instructions is rendered with such errors only. -/
theorem template {t : Template} (ht : ∀ i ∈ t.instructions.toList, ok i) :
    FailsOnly E (Supplied env ok E) (template env t) := by
  rw [template_eq, render_eq_call env t (.includeTooDeep 0 "")]
  refine h.call _ ?_ _ _
  rw [Target.tree, t.denotes_tree.instructions]
  exact ht

end Failing

end Render

end BraceTemplate
