import BraceTemplate.Proofs.Context.Layers

/-!
Runs of operations on a stack of layers: what is done between a push and its pop leaves the layers
below as they were, as long as no global binding is made.
-/
namespace BraceTemplate
namespace Context

/-- What may be done to a stack of layers. Editing is any other change of the active layer in
place. -/
inductive Op where
  | push
  | pop
  | assign (name : String) (value : Value) (global : Bool)
  | append (name : String) (value : Value)
  | clear (name : String)
  | edit (f : Layer → Layer)

namespace Op

/-- Neither pushing nor popping. -/
def Plain : Op → Prop
  | push | pop => False
  | _ => True

/-- Changing nothing but bindings of the active layer. -/
def Local : Op → Prop
  | push | pop => False
  | assign _ _ global => global = false
  | _ => True

end Op

def apply (c : Context) : Op → Context
  | .push => c.push
  | .pop => c.pop
  | .assign name value global => c.assign name value global
  | .append name value => c.append name value
  | .clear name => c.clear name
  | .edit f => c.modifyActive f

def run (c : Context) (ops : List Op) : Context := ops.foldl apply c

/-- Operations lead to this stack from a new one. -/
def Reachable (c : Context) : Prop := ∃ ops, empty.run ops = c

/-- Each push has its pop behind it and each pop its push before it, with operations of one kind
around them. -/
inductive WellNested (ok : Op → Prop) : List Op → Prop where
  | nil : WellNested ok []
  | step {op : Op} {ops : List Op} (h : ok op) (hops : WellNested ok ops) :
    WellNested ok (op :: ops)
  | pair {inner ops : List Op} (hinner : WellNested ok inner) (hops : WellNested ok ops) :
    WellNested ok (.push :: (inner ++ .pop :: ops))

variable {c : Context} {op : Op} {ops : List Op}

@[simp] theorem run_nil (c : Context) : c.run [] = c := rfl

@[simp] theorem run_cons (c : Context) (op : Op) (ops : List Op) :
    c.run (op :: ops) = (c.apply op).run ops := rfl

theorem run_append (c : Context) (ops more : List Op) :
    c.run (ops ++ more) = (c.run ops).run more := List.foldl_append

theorem assignAll_eq_run (c : Context) (values : List (String × Value)) (global : Bool) :
    c.assignAll values global = c.run (values.map fun e => .assign e.1 e.2 global) := by
  rw [run, List.foldl_map]
  rfl

theorem clearAll_eq_run (c : Context) (names : List String) :
    c.clearAll names = c.run (names.map .clear) := by
  rw [run, List.foldl_map]
  rfl

/-- What changes the active layer only is an edit of it. -/
theorem Op.Local.exists_edit (h : op.Local) : ∃ f, ∀ c : Context, c.apply op = c.modifyActive f := by
  cases op with
  | push => cases h
  | pop => cases h
  | assign name value global =>
    obtain rfl : global = false := h
    exact ⟨fun layer => Dict.insert layer name value, fun c => rfl⟩
  | append name value =>
    exact ⟨fun layer => Dict.insert layer name (appended (Dict.find? layer name) value),
      fun c => rfl⟩
  | clear name => exact ⟨fun layer => Dict.erase layer name, fun c => rfl⟩
  | edit f => exact ⟨f, fun c => rfl⟩

theorem Op.Plain.local_or_global (h : op.Plain) :
    op.Local ∨ ∃ name value, op = .assign name value true := by
  cases op with
  | push => cases h
  | pop => cases h
  | assign name value global =>
    cases global with
    | false => exact .inl rfl
    | true => exact .inr ⟨name, value, rfl⟩
  | append name value => exact .inl trivial
  | clear name => exact .inl trivial
  | edit f => exact .inl trivial

namespace Settled

theorem push (h : c.Settled) : c.push.Settled := by
  cases h with
  | flat detached globals =>
    by_cases hd : detached = []
    · rw [hd, push_flat_nil]
      exact .stacked _ _ _
    · rw [push_flat hd]
      exact .stacked _ _ _
  | stacked below top globals =>
    rw [push_stacked]
    exact .stacked _ _ _

theorem pop (h : c.Settled) : c.pop.Settled := by
  obtain ⟨detached, globals, rfl⟩ | ⟨top, globals, rfl⟩ | ⟨below, layer, top, globals, rfl⟩ :=
    h.shapes
  · exact .flat _ _
  · exact .stacked [] [] globals
  · rw [pop_stacked_concat]
    exact .stacked _ _ _

theorem modifyActive (h : c.Settled) (f : Layer → Layer) : (c.modifyActive f).Settled := by
  cases h with
  | flat detached globals => exact .flat _ _
  | stacked below top globals =>
    rw [modifyActive_stacked]
    exact .stacked _ _ _

theorem assign (h : c.Settled) (name : String) (value : Value) :
    (c.assign name value true).Settled := by
  cases h with
  | flat detached globals => exact .flat _ _
  | stacked below top globals =>
    rw [assign_stacked]
    exact .stacked _ _ _

theorem apply (h : c.Settled) (op : Op) : (c.apply op).Settled := by
  have hplain : ∀ {op : Op}, op.Plain → (c.apply op).Settled := by
    intro op hop
    rcases hop.local_or_global with hlocal | ⟨name, value, rfl⟩
    · obtain ⟨f, hf⟩ := hlocal.exists_edit
      rw [hf]
      exact h.modifyActive f
    · exact h.assign name value
  cases op with
  | push => exact h.push
  | pop => exact h.pop
  | _ => exact hplain trivial

theorem run (h : c.Settled) (ops : List Op) : (c.run ops).Settled := by
  induction ops generalizing c with
  | nil => exact h
  | cons op ops ih => exact ih (h.apply op)

end Settled

theorem Reachable.run (h : c.Reachable) (ops : List Op) : (c.run ops).Reachable := by
  obtain ⟨before, rfl⟩ := h
  exact ⟨before ++ ops, run_append _ _ _⟩

/-- In every reachable stack nothing is detached while there are layers, and the last one is
active. -/
theorem Reachable.settled (h : c.Reachable) : c.Settled := by
  obtain ⟨ops, rfl⟩ := h
  exact Settled.run (.flat [] []) ops

namespace WellNested

/-- Well-nested local operations leave all layers below the active one alone. -/
theorem run_stacked (h : WellNested Op.Local ops) (below : List Layer) (top : Layer)
    (globals : List String) :
    ∃ top', (stacked below top globals).run ops = stacked below top' globals := by
  induction h generalizing below top with
  | nil => exact ⟨top, rfl⟩
  | step hop _ ih =>
    obtain ⟨f, hf⟩ := hop.exists_edit
    rw [run_cons, hf, modifyActive_stacked]
    exact ih below (f top)
  | pair _ _ ihinner ih =>
    obtain ⟨layer, hinner⟩ :=
      ihinner (below ++ [top]) (stacked below top globals).inherited
    rw [run_cons, apply, push_stacked, run_append, hinner, run_cons, apply, pop_stacked_concat]
    exact ih below top

/-- Well-nested local operations between a push and a pop change nothing, but that detached bindings
have become a layer. -/
theorem pop_run_push (h : WellNested Op.Local ops) (hc : c.Settled) :
    (c.push.run ops).pop =
      if c.layers = [] then stacked [] c.activeLayer c.globals else c := by
  cases hc with
  | flat detached globals =>
    rw [layers_flat, if_pos rfl, activeLayer_flat, globals_flat]
    by_cases hd : detached = []
    · obtain ⟨top, hrun⟩ := h.run_stacked [] [] globals
      rw [hd, push_flat_nil, hrun, pop_stacked_nil]
    · obtain ⟨top, hrun⟩ := h.run_stacked [detached] (flat detached globals).inherited globals
      rw [push_flat hd, hrun]
      exact @pop_stacked_concat [] top globals detached
  | stacked below top globals =>
    obtain ⟨layer, hrun⟩ :=
      h.run_stacked (below ++ [top]) (stacked below top globals).inherited globals
    rw [push_stacked, hrun, pop_stacked_concat, if_neg (by simp)]

end WellNested

/-- In every reachable stack nothing is detached while there are layers, and the last one is active.
From there a push, well-nested local operations and a pop bring back the active layer with its
bindings in their order, leave every layer as it was and make no name global or local. -/
theorem push_isolates (hc : c.Reachable) :
    (c.layers ≠ [] → c.detached = [] ∧ c.active + 1 = c.layers.length) ∧
    ∀ ops, WellNested Op.Local ops →
      let after := (c.push.run ops).pop
      after.activeLayer = c.activeLayer ∧
      (∀ (i : Nat) (layer : Layer), c.layers[i]? = some layer → after.layers[i]? = some layer) ∧
      ∀ name, after.isGlobal name = c.isGlobal name := by
  refine ⟨?_, fun ops hops => ?_⟩
  · cases hc.settled with
    | flat detached globals =>
      intro h
      exact absurd rfl h
    | stacked below top globals =>
      intro _
      exact ⟨rfl, by simp [stacked]⟩
  · intro after
    have hafter : after = _ := hops.pop_run_push hc.settled
    by_cases h : c.layers = []
    · rw [if_pos h] at hafter
      rw [hafter, h]
      exact ⟨activeLayer_stacked, by simp, fun name => rfl⟩
    · rw [if_neg h] at hafter
      rw [hafter]
      exact ⟨rfl, fun i layer hi => hi, fun name => rfl⟩

/-- A first push on bindings of which one is global, with another push inside. -/
theorem push_isolates_nested :
    let c := empty.run [.assign "site" (.str "docs") true, .assign "page" (.int 1) false]
    let ops : List Op := [.assign "page" (.int 2) false, .push, .append "site" (.str "x"), .pop,
      .clear "site"]
    c.Reachable ∧ WellNested Op.Local ops ∧
      (c.push.run ops).pop.activeLayer = [("site", .str "docs"), ("page", .int 1)] := by
  intro c ops
  have hc : c.Reachable := ⟨_, rfl⟩
  have hops : WellNested Op.Local ops :=
    .step rfl (.pair (.step trivial .nil) (.step trivial .nil))
  exact ⟨hc, hops, ((push_isolates hc).2 ops hops).1.trans rfl⟩

end Context
end BraceTemplate
