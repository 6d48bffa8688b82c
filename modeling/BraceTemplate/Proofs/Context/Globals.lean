import BraceTemplate.Proofs.Context.Isolation

/-!
Global bindings: they survive pushing and popping, but for the pop that empties the only layer there
is. That pop matches a first push on a stack on which nothing was bound.
-/
namespace BraceTemplate
namespace Context

/-- All layers and the bindings in use agree on what a name is bound to, or that it is not bound. -/
structure Agrees (c : Context) (name : String) (value? : Option Value) : Prop where
  layers : ∀ layer ∈ c.layers, Dict.find? layer name = value?
  active : Dict.find? c.activeLayer name = value?

/-- The operation neither assigns to a name, nor appends to it, nor clears it. -/
def Op.Leaves (name : String) : Op → Prop
  | push | pop => True
  | assign other _ _ | append other _ | clear other => other ≠ name
  | edit f => ∀ layer, Dict.find? (f layer) name = Dict.find? layer name

/-- Every pop matches an earlier push. -/
def Matched (ops : List Op) : Prop :=
  ∀ before rest, ops = before ++ .pop :: rest →
    ∃ outer inner, before = outer ++ .push :: inner ∧ WellNested Op.Plain inner

/-- A pop behind the operations would match the first push, at which nothing was bound. -/
def ClosesFirst (ops : List Op) : Prop :=
  ∃ outer inner, ops = outer ++ .push :: inner ∧ .push ∉ outer ∧
    (empty.run outer).activeLayer = [] ∧ WellNested Op.Plain inner

variable {c : Context} {op : Op} {ops : List Op} {name : String} {value? : Option Value}

theorem isGlobal_assign (c : Context) (name other : String) (value : Value) :
    (c.assign name value true).isGlobal other = (c.isGlobal other || other == name) := by
  rw [isGlobal, globals_assign, contains_declared, isGlobal]

/-- Global names stay global. -/
theorem isGlobal_apply (h : c.isGlobal name = true) (op : Op) :
    (c.apply op).isGlobal name = true := by
  cases op with
  | push => rwa [apply, isGlobal, globals_push]
  | pop => rwa [apply, isGlobal, globals_pop]
  | assign other value global =>
    cases global with
    | false => rwa [apply, assign_local, isGlobal, globals_modifyActive]
    | true => rw [apply, isGlobal_assign, h, Bool.true_or]
  | append other value => rwa [apply, append, isGlobal, globals_modifyActive]
  | clear other => rwa [apply, clear, isGlobal, globals_modifyActive]
  | edit f => rwa [apply, isGlobal, globals_modifyActive]

theorem isGlobal_run (h : c.isGlobal name = true) (ops : List Op) :
    (c.run ops).isGlobal name = true := by
  induction ops generalizing c with
  | nil => exact h
  | cons op ops ih => exact ih (isGlobal_apply h op)

/-! Agreement. -/

theorem agrees_flat {detached : Layer} {globals : List String} :
    (flat detached globals).Agrees name value? ↔ Dict.find? detached name = value? :=
  ⟨fun h => h.active, fun h => ⟨by simp, h⟩⟩

theorem agrees_stacked {below : List Layer} {top : Layer} {globals : List String} :
    (stacked below top globals).Agrees name value? ↔
      (∀ layer ∈ below, Dict.find? layer name = value?) ∧ Dict.find? top name = value? := by
  constructor
  · intro h
    exact ⟨fun layer hlayer => h.layers layer (by simp [hlayer]), by simpa using h.active⟩
  · rintro ⟨hbelow, htop⟩
    refine ⟨fun layer hlayer => ?_, by simpa using htop⟩
    rcases List.mem_append.mp hlayer with hlayer | hlayer
    · exact hbelow layer hlayer
    · rwa [List.mem_singleton.mp hlayer]

/-- A global binding reaches every layer. -/
theorem agrees_assign (hc : c.Settled) (name : String) (value : Value) :
    (c.assign name value true).Agrees name (some value) := by
  cases hc with
  | flat detached globals =>
    rw [assign_flat, agrees_flat]
    exact Dict.find?_insert_self detached name value
  | stacked below top globals =>
    rw [assign_stacked, agrees_stacked]
    refine ⟨fun layer hlayer => ?_, Dict.find?_insert_self top name value⟩
    obtain ⟨layer, -, rfl⟩ := List.mem_map.mp hlayer
    exact Dict.find?_insert_self layer name value

namespace Agrees

theorem modifyActive (h : c.Agrees name value?) (hc : c.Settled) {f : Layer → Layer}
    (hf : ∀ layer, Dict.find? (f layer) name = Dict.find? layer name) :
    (c.modifyActive f).Agrees name value? := by
  cases hc with
  | flat detached globals =>
    rw [agrees_flat] at h
    rw [modifyActive_flat, agrees_flat, hf, h]
  | stacked below top globals =>
    rw [agrees_stacked] at h
    rw [modifyActive_stacked, agrees_stacked]
    exact ⟨h.1, (hf top).trans h.2⟩

theorem assign_of_ne (h : c.Agrees name value?) (hc : c.Settled) {other : String}
    (hne : other ≠ name) (value : Value) : (c.assign other value true).Agrees name value? := by
  have hinsert : ∀ layer : Layer,
      Dict.find? (Dict.insert layer other value) name = Dict.find? layer name :=
    fun layer => Dict.find?_insert_of_ne layer value hne.symm
  cases hc with
  | flat detached globals =>
    rw [agrees_flat] at h
    rw [assign_flat, agrees_flat, hinsert, h]
  | stacked below top globals =>
    rw [agrees_stacked] at h
    rw [assign_stacked, agrees_stacked]
    refine ⟨fun layer hlayer => ?_, (hinsert top).trans h.2⟩
    obtain ⟨layer, hmem, rfl⟩ := List.mem_map.mp hlayer
    exact (hinsert layer).trans (h.1 layer hmem)

/-- A pushed layer takes over what the active one binds a global name to. -/
theorem push (h : c.Agrees name value?) (hc : c.Settled) (hglobal : c.isGlobal name = true) :
    c.push.Agrees name value? := by
  have hinherited : Dict.find? c.inherited name = value? := by
    rw [find?_inherited, if_pos hglobal, h.active]
  cases hc with
  | flat detached globals =>
    rw [agrees_flat] at h
    by_cases hd : detached = []
    · rw [hd, push_flat_nil, agrees_stacked]
      exact ⟨by simp, hd ▸ h⟩
    · rw [push_flat hd, agrees_stacked]
      exact ⟨by simpa using h, hinherited⟩
  | stacked below top globals =>
    rw [agrees_stacked] at h
    rw [push_stacked, agrees_stacked]
    refine ⟨fun layer hlayer => ?_, hinherited⟩
    rcases List.mem_append.mp hlayer with hlayer | hlayer
    · exact h.1 layer hlayer
    · rw [List.mem_singleton.mp hlayer]
      exact h.2

theorem pop (h : c.Agrees name value?) (hc : c.Settled) (hdepth : c.depth ≠ 1) :
    c.pop.Agrees name value? := by
  obtain ⟨detached, globals, rfl⟩ | ⟨top, globals, rfl⟩ | ⟨below, layer, top, globals, rfl⟩ :=
    hc.shapes
  · exact h
  · exact absurd depth_stacked hdepth
  · rw [agrees_stacked] at h
    rw [pop_stacked_concat, agrees_stacked]
    exact ⟨fun layer hlayer => h.1 layer (List.mem_append_left _ hlayer), h.1 layer (by simp)⟩

/-- An operation that leaves a global name alone keeps what all layers bind it to, unless it empties
the only one. -/
theorem apply (h : c.Agrees name value?) (hc : c.Settled) (hglobal : c.isGlobal name = true)
    (hop : op.Leaves name) (hlast : op = .pop → c.depth ≠ 1) :
    (c.apply op).Agrees name value? := by
  cases op with
  | push => exact h.push hc hglobal
  | pop => exact h.pop hc (hlast rfl)
  | assign other value global =>
    cases global with
    | false =>
      exact h.modifyActive hc fun layer => Dict.find?_insert_of_ne layer value (Ne.symm hop)
    | true => exact h.assign_of_ne hc hop value
  | append other value =>
    exact h.modifyActive hc fun layer => Dict.find?_insert_of_ne layer _ (Ne.symm hop)
  | clear other => exact h.modifyActive hc fun layer => Dict.find?_erase_of_ne layer (Ne.symm hop)
  | edit f => exact h.modifyActive hc hop

/-- A run in which no pop empties the only layer. -/
theorem run (h : c.Agrees name value?) (hc : c.Settled) (hglobal : c.isGlobal name = true)
    (hops : ∀ op ∈ ops, op.Leaves name)
    (hlast : ∀ inner rest, ops = inner ++ .pop :: rest → (c.run inner).depth ≠ 1) :
    (c.run ops).Agrees name value? := by
  induction ops generalizing c with
  | nil => exact h
  | cons op ops ih =>
    rw [List.forall_mem_cons] at hops
    have hfirst : op = .pop → c.depth ≠ 1 := by
      rintro rfl
      exact hlast [] ops rfl
    refine ih (h.apply hc hglobal hops.1 hfirst) (hc.apply op) (isGlobal_apply hglobal op) hops.2 ?_
    rintro inner rest rfl
    exact hlast (op :: inner) rest rfl

end Agrees

/-- Emptying the only layer unbinds every name. -/
theorem agrees_none_pop (hc : c.Settled) (hdepth : c.depth = 1) (name : String) :
    c.pop.Agrees name none := by
  cases hc with
  | flat detached globals => cases hdepth
  | stacked below top globals =>
    obtain rfl : below = [] := by simpa using hdepth
    rw [pop_stacked_nil, agrees_stacked]
    exact ⟨by simp, rfl⟩

/-- What is bound nowhere stays so. -/
theorem Agrees.run_none (h : c.Agrees name none) (hc : c.Settled)
    (hglobal : c.isGlobal name = true) (hops : ∀ op ∈ ops, op.Leaves name) :
    (c.run ops).Agrees name none := by
  induction ops generalizing c with
  | nil => exact h
  | cons op ops ih =>
    rw [List.forall_mem_cons] at hops
    refine ih ?_ (hc.apply op) (isGlobal_apply hglobal op) hops.2
    by_cases hlast : op = .pop ∧ c.depth = 1
    · rw [hlast.1]
      exact agrees_none_pop hc hlast.2 name
    · exact h.apply hc hglobal hops.1 fun hpop hdepth => hlast ⟨hpop, hdepth⟩

theorem Agrees.get {value : Value} (h : c.Agrees name (some value)) (hvalue : value ≠ .null) :
    c.get name = value := by
  unfold Context.get
  rw [h.active]
  cases value with
  | null => exact absurd rfl hvalue
  | _ => rfl

theorem Agrees.get_none (h : c.Agrees name none) : c.get name = .str "" := by
  unfold Context.get
  rw [h.active]

/-! How many layers there are. -/

theorem depth_apply (h : op.Plain) (hc : c.Settled) : (c.apply op).depth = c.depth := by
  rcases h.local_or_global with hlocal | ⟨other, value, rfl⟩
  · obtain ⟨f, hf⟩ := hlocal.exists_edit
    rw [hf]
    cases hc with
    | flat detached globals => rfl
    | stacked below top globals => simp
  · cases hc with
    | flat detached globals => rfl
    | stacked below top globals => simp [apply]

theorem depth_push (hc : c.Settled) :
    c.push.depth = if c.layers = [] ∧ c.activeLayer ≠ [] then 2 else c.depth + 1 := by
  cases hc with
  | flat detached globals =>
    by_cases hd : detached = []
    · simp [hd, push_flat_nil]
    · simp [hd, push_flat]
  | stacked below top globals => simp

theorem depth_push_pos (hc : c.Settled) : 0 < c.push.depth := by
  rw [depth_push hc]
  split <;> omega

theorem depth_pop (hc : c.Settled) : c.pop.depth = if c.depth = 1 then 1 else c.depth - 1 := by
  obtain ⟨detached, globals, rfl⟩ | ⟨top, globals, rfl⟩ | ⟨below, layer, top, globals, rfl⟩ :=
    hc.shapes
  · rfl
  · rfl
  · simp

theorem WellNested.depth_run (h : WellNested Op.Plain ops) (hc : c.Settled) (hd : 0 < c.depth) :
    (c.run ops).depth = c.depth := by
  induction h generalizing c with
  | nil => rfl
  | step hop _ ih =>
    have hdepth := depth_apply hop hc
    rw [run_cons, ih (hc.apply _) (by omega), hdepth]
  | @pair inner ops _ _ ihinner ih =>
    have hlayers : c.layers ≠ [] := fun hnil => by simp [depth, hnil] at hd
    have hpush : c.push.depth = c.depth + 1 := by simp [depth_push hc, hlayers]
    have hinner := ihinner hc.push (by omega)
    have hpop : (c.push.run inner).pop.depth = c.depth := by
      rw [depth_pop (hc.push.run inner), if_neg (by omega)]
      omega
    rw [run_cons, apply, run_append, run_cons, apply, ih (hc.push.run inner).pop (by omega), hpop]

/-- Without a push there are no layers. -/
theorem run_flat (h : .push ∉ ops) (detached : Layer) (globals : List String) :
    ∃ detached' globals', (flat detached globals).run ops = flat detached' globals' := by
  induction ops generalizing detached globals with
  | nil => exact ⟨detached, globals, rfl⟩
  | cons op ops ih =>
    rw [List.mem_cons, not_or] at h
    have happly : ∃ detached' globals',
        (flat detached globals).apply op = flat detached' globals' := by
      cases op with
      | push => exact absurd rfl h.1
      | assign other value global => cases global <;> exact ⟨_, _, rfl⟩
      | _ => exact ⟨_, _, rfl⟩
    obtain ⟨detached', globals', hop⟩ := happly
    rw [run_cons, hop]
    exact ih h.2 detached' globals'

/-- Layers never become none again. -/
theorem depth_run_pos (hc : c.Settled) (hd : 0 < c.depth) (ops : List Op) :
    0 < (c.run ops).depth := by
  induction ops generalizing c with
  | nil => exact hd
  | cons op ops ih =>
    refine ih (hc.apply op) ?_
    cases op with
    | push => exact depth_push_pos hc
    | pop =>
      rw [apply, depth_pop hc]
      split <;> omega
    | assign | append | clear | edit => rwa [depth_apply (by trivial) hc]

/-- Where there are no layers, nothing has been pushed. -/
theorem not_mem_push (h : (empty.run ops).depth = 0) : .push ∉ ops := by
  intro hmem
  obtain ⟨before, rest, rfl⟩ := List.append_of_mem hmem
  have hbefore : (empty.run before).Settled := Settled.run (.flat [] []) before
  have hpos := depth_run_pos hbefore.push (depth_push_pos hbefore) rest
  rw [run_append, run_cons, apply] at h
  omega

/-- The layer of a first push on nothing is the only one while that push is open. -/
theorem ClosesFirst.depth_run (h : ClosesFirst ops) : (empty.run ops).depth = 1 := by
  obtain ⟨outer, inner, rfl, hfirst, hbare, hinner⟩ := h
  obtain ⟨detached, globals, houter⟩ := run_flat hfirst [] []
  have houter : empty.run outer = flat detached globals := houter
  rw [houter, activeLayer_flat] at hbare
  have hpush : (empty.run (outer ++ [.push])) = stacked [] [] globals := by
    rw [run_append, houter, hbare]
    exact push_flat_nil
  rw [show outer ++ .push :: inner = outer ++ [.push] ++ inner by simp, run_append, hpush,
    hinner.depth_run (.stacked _ _ _) (by simp)]
  rfl

/-- A single layer in front of a matched pop is that of a first push on nothing. -/
theorem closesFirst_of_depth {outer inner : List Op} (hinner : WellNested Op.Plain inner)
    (h : (empty.run (outer ++ .push :: inner)).depth = 1) :
    ClosesFirst (outer ++ .push :: inner) := by
  have hsettled : (empty.run outer).Settled := Settled.run (.flat [] []) outer
  rw [run_append, run_cons, apply, hinner.depth_run hsettled.push (depth_push_pos hsettled),
    depth_push hsettled] at h
  split at h
  · cases h
  · rename_i hbound
    have hdepth : (empty.run outer).depth = 0 := by omega
    have hlayers : (empty.run outer).layers = [] := List.length_eq_zero_iff.mp hdepth
    exact ⟨outer, inner, rfl, not_mem_push hdepth, by simpa [hlayers] using hbound, hinner⟩

/-- In a well-nested run every pop matches an earlier push. -/
theorem WellNested.matched (h : WellNested Op.Plain ops) : Matched ops := by
  induction h with
  | nil =>
    intro before rest heq
    simp at heq
  | @step op ops hop _ ih =>
    intro before rest heq
    cases before with
    | nil =>
      obtain rfl : op = .pop := (List.cons_eq_cons.mp heq).1
      cases hop
    | cons first before =>
      rw [List.cons_append, List.cons_eq_cons] at heq
      obtain ⟨rfl, heq⟩ := heq
      obtain ⟨outer, inner, rfl, hinner⟩ := ih before rest heq
      exact ⟨op :: outer, inner, rfl, hinner⟩
  | @pair within ops hwithin _ ihwithin ih =>
    intro before rest heq
    cases before with
    | nil => cases (List.cons_eq_cons.mp heq).1
    | cons first before =>
      rw [List.cons_append, List.cons_eq_cons] at heq
      obtain ⟨rfl, heq⟩ := heq
      rcases List.append_eq_append_iff.mp heq with ⟨more, rfl, hmore⟩ | ⟨more, rfl, hmore⟩
      · cases more with
        | nil => exact ⟨[], within, by simp, hwithin⟩
        | cons op more =>
          rw [List.cons_append, List.cons_eq_cons] at hmore
          obtain ⟨rfl, hmore⟩ := hmore
          obtain ⟨outer, inner, rfl, hinner⟩ := ih more rest hmore
          exact ⟨.push :: (within ++ .pop :: outer), inner, by simp, hinner⟩
      · cases more with
        | nil => exact ⟨[], before, by simp, by simpa using hwithin⟩
        | cons op more =>
          rw [List.cons_append, List.cons_eq_cons] at hmore
          obtain ⟨rfl, hmore⟩ := hmore
          obtain ⟨outer, inner, rfl, hinner⟩ := ihwithin before more rfl
          exact ⟨.push :: outer, inner, rfl, hinner⟩

/-- A global binding survives whatever leaves its name alone, as long as each pop matches an earlier
push, up to the pop that matches the first push of the run if nothing was bound at that push: it
empties the only layer, and the name is unbound from there on. -/
theorem global_survives {before after : List Op} {g : String} {v : Value} (hv : v ≠ .null)
    (hmatched : Matched (before ++ .assign g v true :: after))
    (hafter : ∀ op ∈ after, op.Leaves g) :
    let assigned := before ++ [.assign g v true]
    let emptied := ∃ inner rest, after = inner ++ .pop :: rest ∧ ClosesFirst (assigned ++ inner)
    (¬emptied → (empty.run (assigned ++ after)).get g = v) ∧
      (emptied → (empty.run (assigned ++ after)).get g = .str "") := by
  intro assigned emptied
  have hops : before ++ .assign g v true :: after = assigned ++ after := by simp [assigned]
  rw [hops] at hmatched
  have hassigned : empty.run assigned = (empty.run before).assign g v true := by
    rw [run_append]
    rfl
  have hbefore : (empty.run before).Settled := Settled.run (.flat [] []) before
  have hsettled : (empty.run assigned).Settled := Settled.run (.flat [] []) assigned
  have hagrees : (empty.run assigned).Agrees g (some v) := by
    rw [hassigned]
    exact agrees_assign hbefore g v
  have hglobal : (empty.run assigned).isGlobal g = true := by
    rw [hassigned, isGlobal_assign]
    simp
  rw [run_append]
  constructor
  · intro hkept
    refine (hagrees.run hsettled hglobal hafter fun inner rest heq hdepth => hkept ?_).get hv
    obtain ⟨outer, within, hsplit, hwithin⟩ :=
      hmatched (assigned ++ inner) rest (by simp [heq])
    refine ⟨inner, rest, heq, ?_⟩
    rw [← run_append, hsplit] at hdepth
    rw [hsplit]
    exact closesFirst_of_depth hwithin hdepth
  · rintro ⟨inner, rest, rfl, hfirst⟩
    rw [List.forall_mem_append, List.forall_mem_cons] at hafter
    have hinner := hsettled.run inner
    have hdepth : ((empty.run assigned).run inner).depth = 1 := by
      rw [← run_append]
      exact hfirst.depth_run
    rw [run_append, run_cons]
    exact ((agrees_none_pop hinner hdepth g).run_none hinner.pop
      (isGlobal_apply (isGlobal_run hglobal inner) .pop) hafter.2.2).get_none

/-- A binding made behind the first push on a stack on which something is bound. -/
theorem global_survives_nested :
    let before : List Op := [.assign "page" (.str "intro") false, .push]
    let after : List Op := [.push, .append "page" (.int 2), .pop, .pop]
    Matched (before ++ .assign "site" (.int 1) true :: after) ∧
      (∀ op ∈ after, op.Leaves "site") ∧
      (empty.run (before ++ [.assign "site" (.int 1) true] ++ after)).get "site" = .int 1 := by
  intro before after
  have hmatched : Matched (before ++ .assign "site" (.int 1) true :: after) :=
    WellNested.matched
      (.step trivial (.pair (.step trivial (.pair (.step trivial .nil) .nil)) .nil))
  have hafter : ∀ op ∈ after, op.Leaves "site" := by simp [after, Op.Leaves]
  have hvalue : Value.int 1 ≠ .null := nofun
  refine ⟨hmatched, hafter, (global_survives hvalue hmatched hafter).1 ?_⟩
  rintro ⟨inner, rest, heq, hfirst⟩
  have hdepth := hfirst.depth_run
  -- the two pops of the run find three layers and two
  obtain rfl | rfl : inner = [.push, .append "page" (.int 2)] ∨
      inner = [.push, .append "page" (.int 2), .pop] := by
    rcases inner with _ | ⟨_, _ | ⟨_, _ | ⟨_, _ | ⟨_, inner⟩⟩⟩⟩ <;>
      simp_all [after]
  · exact absurd hdepth (by decide)
  · exact absurd hdepth (by decide)

/-- A first push on a new stack makes the only layer, and its pop takes the global binding along. -/
theorem global_emptied : ¬∀ (before after : List Op) (g : String) (v : Value), v ≠ .null →
    Matched (before ++ .assign g v true :: after) → (∀ op ∈ after, op.Leaves g) →
    (empty.run (before ++ .assign g v true :: after)).get g = v := by
  intro h
  have hmatched : Matched [.push, .assign "g" (.int 1) true, .pop] :=
    WellNested.matched (.pair (.step trivial .nil) .nil)
  have hget : Value.str "" = .int 1 :=
    h [.push] [.pop] "g" (.int 1) nofun hmatched (by simp [Op.Leaves])
  cases hget

end Context
end BraceTemplate
