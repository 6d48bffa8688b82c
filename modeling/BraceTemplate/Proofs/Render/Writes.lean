import BraceTemplate.Proofs.Context.Globals
import BraceTemplate.Proofs.Loading.Sessions
import BraceTemplate.Proofs.Render.Parametric

/-!
Rendering changes the context by writes to single names alone, of which those to global names reach
every layer. What such writes leave in place holds behind every rendering.
-/
namespace BraceTemplate

namespace Context

/-- Writes a value to a name; a global one is written in every layer. -/
def write (c : Context) (w : String × Value) : Context := c.assign w.1 w.2 (c.isGlobal w.1)

def writeAll (c : Context) (ws : List (String × Value)) : Context := ws.foldl write c

/-- What stays in place: the layers and which one is active, the global names, the keys of every
layer in their order, and in the layers behind the active one all but global names. -/
structure Retains (c c' : Context) : Prop where
  depth : c'.depth = c.depth
  active : c'.active = c.active
  globals : c'.globals = c.globals
  layers : ∀ (i : Nat) (layer : Layer), c.layers[i]? = some layer →
    ∃ layer', c'.layers[i]? = some layer' ∧ Dict.keys layer <+: Dict.keys layer' ∧
      (i ≠ c.active → ∀ name, c.isGlobal name = false →
        Dict.find? layer' name = Dict.find? layer name)
  detached : Dict.keys c.detached <+: Dict.keys c'.detached ∧
    (c.layers ≠ [] → c'.detached = c.detached)

variable {c c' c'' : Context}

@[simp] theorem writeAll_nil (c : Context) : c.writeAll [] = c := rfl

theorem writeAll_append (c : Context) (ws more : List (String × Value)) :
    c.writeAll (ws ++ more) = (c.writeAll ws).writeAll more := List.foldl_append

/-- Writes are operations on the context. -/
theorem exists_run_eq_writeAll (c : Context) (ws : List (String × Value)) :
    ∃ ops, c.run ops = c.writeAll ws := by
  induction ws generalizing c with
  | nil => exact ⟨[], rfl⟩
  | cons w ws ih =>
    obtain ⟨ops, hops⟩ := ih (c.write w)
    exact ⟨.assign w.1 w.2 (c.isGlobal w.1) :: ops, hops⟩

theorem Reachable.writeAll (h : c.Reachable) (ws : List (String × Value)) :
    (c.writeAll ws).Reachable := by
  obtain ⟨ops, hops⟩ := exists_run_eq_writeAll c ws
  exact hops ▸ h.run ops

/-- A write to a global name changes each layer, and one to another name the active layer. -/
theorem getElem?_layers_write (c : Context) (w : String × Value) (i : Nat) :
    (c.write w).layers[i]? = c.layers[i]?.map fun layer =>
      if c.isGlobal w.1 = true ∨ i = c.active then Dict.insert layer w.1 w.2 else layer := by
  cases hglobal : c.isGlobal w.1 with
  | false =>
    rw [write, hglobal, assign_local, layers_modifyActive, List.getElem?_modify]
    simp [eq_comm]
  | true =>
    rw [write, hglobal, assign, layers_modifyActive, List.getElem?_modify]
    by_cases hi : c.active = i
    · simp [hi, Function.comp_def]
    · simp [hi]

theorem detached_write (c : Context) (w : String × Value) :
    (c.write w).detached =
      if c.layers = [] then Dict.insert c.detached w.1 w.2 else c.detached := by
  rw [write, assign, detached_modifyActive]
  cases c.isGlobal w.1 <;> simp

namespace Retains

theorem refl (c : Context) : c.Retains c where
  depth := rfl
  active := rfl
  globals := rfl
  layers _ layer h := ⟨layer, h, List.prefix_rfl, fun _ _ _ => rfl⟩
  detached := ⟨List.prefix_rfl, fun _ => rfl⟩

theorem trans (h : c.Retains c') (h' : c'.Retains c'') : c.Retains c'' where
  depth := h'.depth.trans h.depth
  active := h'.active.trans h.active
  globals := h'.globals.trans h.globals
  layers i layer hi := by
    obtain ⟨layer', hi', hkeys, hhidden⟩ := h.layers i layer hi
    obtain ⟨layer'', hi'', hkeys', hhidden'⟩ := h'.layers i layer' hi'
    refine ⟨layer'', hi'', hkeys.trans hkeys', fun hactive name hname => ?_⟩
    have hname' : c'.isGlobal name = false := by rwa [isGlobal, h.globals]
    rw [hhidden' (by rwa [h.active]) name hname', hhidden hactive name hname]
  detached := by
    refine ⟨h.detached.1.trans h'.detached.1, fun hlayers => ?_⟩
    have hlayers' : c'.layers ≠ [] := by
      have hdepth : c'.layers.length = c.layers.length := h.depth
      rw [← List.length_pos_iff] at hlayers ⊢
      omega
    rw [h'.detached.2 hlayers', h.detached.2 hlayers]

/-- A write leaves all this in place. -/
theorem write (c : Context) (w : String × Value) : c.Retains (c.write w) where
  depth := by
    have hlength : (c.write w).layers.length = c.layers.length := by
      rw [Context.write, assign, layers_modifyActive, List.length_modify]
      cases c.isGlobal w.1 <;> simp
    exact hlength
  active := by
    rw [Context.write, assign, active_modifyActive]
    cases c.isGlobal w.1 <;> rfl
  globals := by
    cases hglobal : c.isGlobal w.1 with
    | false => rw [Context.write, hglobal, assign_local, globals_modifyActive]
    | true =>
      rw [Context.write, hglobal, globals_assign]
      exact if_pos hglobal
  layers i layer hi := by
    rw [getElem?_layers_write, hi, Option.map_some]
    refine ⟨_, rfl, ?_, fun hactive name hname => ?_⟩
    · split
      · exact Dict.keys_prefix_insert layer w.1 w.2
      · exact List.prefix_rfl
    · split
      · rename_i hwritten
        have hne : name ≠ w.1 := by
          rintro rfl
          simp [hactive, hname] at hwritten
        exact Dict.find?_insert_of_ne layer w.2 hne
      · rfl
  detached := by
    rw [detached_write]
    split
    · rename_i hlayers
      exact ⟨Dict.keys_prefix_insert _ _ _, fun h => absurd hlayers h⟩
    · exact ⟨List.prefix_rfl, fun _ => rfl⟩

theorem writeAll (c : Context) (ws : List (String × Value)) : c.Retains (c.writeAll ws) := by
  induction ws generalizing c with
  | nil => exact refl c
  | cons w ws ih => exact (write c w).trans (ih (c.write w))

end Retains

end Context

namespace Render

/-- The computation changes the context by writes alone, also where it fails. -/
def OnlyWrites {α : Type} (m : Render α) : Prop :=
  ∀ s, ∃ ws, (outcome m s).2.context = s.context.writeAll ws

/-- A write to a shared name changes the context, unless it fails. -/
theorem outcome_write {mode : Mode} {s : RenderState}
    (h : mode = .shared ∨ s.frame.locals = none) (name : String) (keys : List String)
    (value : Value) : outcome (write mode name keys value) s =
      let w := Value.setPath keys ((Dict.find? s.context.activeLayer name).getD .null) value
      match w.fault with
      | some f => (.error (.execution f), s)
      | none => (.ok ⟨⟩, { s with context := s.context.write (name, w.slot) }) := by
  have hshared : outcome (write mode name keys value) s =
      outcome (do
        let w := Value.setPath keys ((Dict.find? s.context.activeLayer name).getD .null) value
        faultIfAny w.fault
        set { s with context := s.context.write (name, w.slot) }) s := by
    unfold write
    rw [outcome_bind_ok outcome_get]
    rcases h with rfl | h
    · rfl
    · rw [h]
      cases mode <;> rfl
  rw [hshared]
  dsimp only
  cases (Value.setPath keys _ value).fault <;> rfl

namespace OnlyWrites

variable {α β : Type}

theorem of_context {m : Render α} (h : ∀ s, (outcome m s).2.context = s.context) : OnlyWrites m :=
  fun s => ⟨[], h s⟩

theorem pure (a : α) : OnlyWrites (pure a) := of_context fun _ => rfl

theorem throw (e : Error) : OnlyWrites (throw e : Render α) := of_context fun _ => rfl

theorem get : OnlyWrites get := of_context fun _ => rfl

theorem logged (act : Logged α) : OnlyWrites (logged act) := of_context fun _ => rfl

/-- What comes behind a computation and only writes changes the context from there on. -/
theorem behind (m : Render α) {next : α → Render β} (hnext : ∀ a, OnlyWrites (next a))
    (s : RenderState) :
    ∃ ws, (outcome (m >>= next) s).2.context = (outcome m s).2.context.writeAll ws := by
  rw [outcome_bind]
  rcases outcome m s with ⟨e | a, s'⟩
  · exact ⟨[], rfl⟩
  · exact hnext a s'

theorem bind {m : Render α} {next : α → Render β} (h : OnlyWrites m)
    (hnext : ∀ a, OnlyWrites (next a)) : OnlyWrites (m >>= next) := by
  intro s
  obtain ⟨ws, hws⟩ := h s
  obtain ⟨more, hmore⟩ := behind m hnext s
  exact ⟨ws ++ more, by rw [hmore, hws, Context.writeAll_append]⟩

theorem bind_get {next : RenderState → Render β}
    (h : ∀ s, ∃ ws, (outcome (next s) s).2.context = s.context.writeAll ws) :
    OnlyWrites (MonadState.get >>= next) := by
  intro s
  rw [outcome_bind_ok outcome_get]
  exact h s

theorem write (mode : Mode) (name : String) (keys : List String) (value : Value) :
    OnlyWrites (write mode name keys value) := by
  intro s
  rcases shared_or_local mode s.frame with h | ⟨rfl, locals, hlocals⟩
  · rw [outcome_write h]
    dsimp only
    cases (Value.setPath keys _ value).fault with
    | some f => exact ⟨[], rfl⟩
    | none => exact ⟨[(name, _)], rfl⟩
  · rw [outcome_write_local hlocals]
    exact ⟨[], rfl⟩

theorem assign (env : RenderEnv) (target : Path) (value : Value) :
    OnlyWrites (assign env target value) := by
  refine .bind .get fun s => .bind (.logged _) fun names => ?_
  cases names with
  | nil => exact .pure ()
  | cons name keys => exact .write target.mode name keys value

theorem load (env : RenderEnv) (href : String) : OnlyWrites (load env href) := by
  refine of_context fun s => ?_
  rw [outcome_load]
  cases s.loader <;> rfl

theorem setCounter (depth count : Nat) : OnlyWrites (setCounter depth count) := by
  refine of_context fun s => ?_
  rw [outcome_setCounter]
  split <;> rfl

theorem inFrame (frame : Frame) {m : Render α} (h : OnlyWrites m) :
    OnlyWrites (inFrame frame m) :=
  fun s => h { s with frame := frame }

/-- No step of rendering changes the context but by writes. -/
theorem steps (env : RenderEnv) :
    CallRelation env env (fun _ => True) fun m _ => OnlyWrites m where
  pure := .pure
  fault _ := .throw _
  bind := .bind
  eval _ := .bind .get fun _ => .logged _
  resolve _ := .bind .get fun _ => .logged _
  assign _ _ target _ value := .assign env target value
  setCounter loop _ := .setCounter loop.depth
  counterAt _ := .bind .get fun _ => .pure _
  blockNamed _ := .bind .get fun _ => .pure _
  load := .load env
  warn := .logged _
  hoist _ := of_context fun _ => rfl
  inFrame frame _ _ h := .inFrame frame h

theorem template (env : RenderEnv) (t : Template) : OnlyWrites (template env t) :=
  (steps env).template (fun _ => trivial) rfl t

end OnlyWrites

/-! Running by indices changes the context by writes alone too, wherever it starts and ends. -/

namespace OnlyWrites

variable {env : RenderEnv}

section Ranges

variable {t : Template} {run : RunRange} (hrun : ∀ index stop, OnlyWrites (run index stop))
include hrun

theorem branches (fuel : Nat) (taken : Bool) (index : Nat) :
    OnlyWrites (branches env t run fuel taken index) := by
  induction fuel generalizing taken index with
  | zero => exact .pure _
  | succ fuel ih =>
    have hchosen : ∀ hit : Bool, OnlyWrites (if hit then (do
        let text ← run (index + 1) (t.link index).next
        let rest ← Render.branches env t run fuel true (t.link index).next
        return (text ++ rest.1, rest.2))
      else Render.branches env t run fuel taken (t.link index).next) := by
      intro hit
      split
      · exact .bind (hrun _ _) fun _ => .bind (ih _ _) fun _ => .pure _
      · exact ih _ _
    rw [Render.branches]
    split
    · exact .pure _
    · exact .pure _
    · split
      · exact .bind (.pure _) hchosen
      · split
        · exact .bind ((steps env).eval _) fun _ => .bind (.pure _) hchosen
        · exact .bind ((steps env).eval _) fun _ => .bind (.pure _) hchosen
        · exact .bind (.pure _) hchosen

theorem loopBody (index : Nat) : OnlyWrites (loopBody t run index) := by
  unfold Render.loopBody
  dsimp only
  split
  · exact .bind (hrun _ _) fun _ => .bind (hrun _ _) fun _ => .pure _
  · exact hrun _ _

theorem forEach (index : Nat) (loop : Loop) : OnlyWrites (forEach env t run index loop) := by
  have hvisits : ∀ count entries,
      OnlyWrites (visit env loop (Render.loopBody t run index) count entries) := by
    intro count entries
    induction entries generalizing count with
    | nil => exact .pure _
    | cons entry entries ih =>
      have hbody := OnlyWrites.loopBody hrun (t := t) index
      refine .bind ((steps env).setCounter loop trivial _) fun _ => ?_
      cases loop.key with
      | none =>
        exact .bind (.assign env _ _) fun _ => .bind hbody fun _ => .bind (ih _) fun _ => .pure _
      | some path =>
        exact .bind (.assign env path _) fun _ => .bind (.assign env _ _) fun _ =>
          .bind hbody fun _ => .bind (ih _) fun _ => .pure _
  refine .bind ((steps env).eval _) fun collection =>
    .bind ((steps env).setCounter loop trivial 0) fun _ => .bind (hvisits _ _) fun visited =>
    .bind ((steps env).setCounter loop trivial _) fun _ => ?_
  split
  · exact .bind (hrun _ _) fun _ => .pure _
  · exact .pure _

theorem counting (index : Nat) (c : Counting) : OnlyWrites (counting env t run index c) := by
  have hcounts : ∀ step stop fuel i, OnlyWrites (countUp step stop (fun i => do
      Render.assign env c.counter (.int i)
      run (index + 1) (t.link index).next) fuel i) := by
    intro step stop fuel
    induction fuel with
    | zero => exact fun _ => .pure _
    | succ fuel ih =>
      intro i
      rw [countUp]
      split
      · exact .pure _
      · refine .bind (.bind (.assign env _ _) fun _ => hrun _ _) fun text => ?_
        split
        · exact .bind (ih _) fun _ => .pure _
        · exact .pure _
  refine .bind ((steps env).bound _) fun start => .bind ((steps env).bound _) fun step =>
    .bind ((steps env).bound _) fun stop => ?_
  split
  · exact .throw _
  · exact hcounts step stop _ start

theorem instruction {enter : Call → Render String} (henter : ∀ call, OnlyWrites (enter call))
    (index : Nat) (i : Instruction) : OnlyWrites (instruction env enter t run index i) := by
  unfold Render.instruction
  dsimp only
  cases i with
  | emit v => exact .bind ((steps env).resolve v) fun _ => .pure _
  | beginIf c => exact branches hrun _ _ _
  | beginFor loop => exact .bind (forEach hrun index loop) fun _ => .pure _
  | beginEmpty depth inLoop =>
    refine .bind .get fun _ => ?_
    split
    · exact .bind (hrun _ _) fun _ => .pure _
    · exact .pure _
  | assign target e =>
    exact .bind ((steps env).eval e) fun _ => .bind (.assign env target _) fun _ => .pure _
  | invoke name args =>
    refine .bind (.bind .get fun s => ?_) fun call => .bind (henter call) fun _ => .pure _
    split
    · exact .throw _
    · exact .bind ((steps env).evalArgs args) fun _ => .pure _
  | beginRange c => exact .bind (counting hrun index c) fun _ => .pure _
  | «include» parts =>
    refine .bind (.bind ((steps env).includePath parts) fun href => ?_) fun call? => ?_
    · split
      · exact .bind (.logged _) fun _ => .pure _
      · exact .bind (.load env href) fun _ => .pure _
    · cases call? with
      | none => exact .pure _
      | some call => exact .bind (henter call) fun _ => .pure _
  | _ => exact .pure _

end Ranges

/-- Any stretch of instructions only writes. -/
theorem range {enter : Call → Render String} (henter : ∀ call, OnlyWrites (enter call))
    (t : Template) (fuel index stop : Nat) : OnlyWrites (range env enter t fuel index stop) := by
  induction fuel generalizing index stop with
  | zero => exact .pure _
  | succ fuel ih =>
    rw [Render.range]
    split
    · exact .pure _
    · split
      · exact .pure _
      · exact .bind (instruction ih henter index _) fun _ => .bind (ih _ _) fun _ => .pure _

theorem enter (env : RenderEnv) (room : Nat) (call : Call) : OnlyWrites (enter env room call) := by
  induction room generalizing call with
  | zero => exact .throw _
  | succ room ih =>
    refine .inFrame _ (.bind ?_ fun _ => range ih _ _ _ _)
    cases call.target with
    | block b => exact .pure _
    | unit t => exact (steps env).hoist t

end OnlyWrites

/-- Whether it succeeds or fails, rendering leaves the layers and the global names in place, removes
no binding and moves none, and changes nothing but global names behind the active layer. -/
theorem context_retained (env : RenderEnv) (t : Template) (s : RenderState) :
    s.context.Retains (outcome (template env t) s).2.context := by
  obtain ⟨ws, hws⟩ := OnlyWrites.template env t s
  rw [hws]
  exact Context.Retains.writeAll s.context ws

end Render

/-! Hosts. -/

namespace Engine

variable {e : Engine} {view : Files.View}

theorem render_writes (e : Engine) (view : Files.View) (t : Template) :
    ∃ ws, (e.render view t).engine.context = e.context.writeAll ws :=
  Render.OnlyWrites.template (e.env view) t ⟨e.context, .ofUnit, [], e.loader, []⟩

theorem renderString_writes (e : Engine) (view : Files.View) (source : String) :
    ∃ ws, (e.renderString view source).engine.context = e.context.writeAll ws := by
  cases hcompile : e.compile source none with
  | error error => exact ⟨[], by rw [renderString_error hcompile]; rfl⟩
  | ok t =>
    rw [renderString_ok hcompile]
    exact e.render_writes view t

theorem renderFile_writes (e : Engine) (view : Files.View) (name : String) :
    ∃ ws, (e.renderFile view name).engine.context = e.context.writeAll ws := by
  cases hloader : e.loader with
  | none =>
    refine ⟨[], ?_⟩
    simp only [renderFile, hloader]
    rfl
  | some l =>
    cases hload : (l.load view e.registry name).1 with
    | error error => exact ⟨[], by rw [renderFile_error hloader hload]; rfl⟩
    | ok t =>
      rw [renderFile_ok hloader hload]
      exact render_writes _ view t

end Engine

namespace Session

open Context

/-- What an action does to the context, operations can do. -/
theorem step_context (s : Session) (a : Action) :
    ∃ ops, (s.step a).session.engine.context = s.engine.context.run ops := by
  have hwrites : ∀ {c : Context}, (∃ ws, c = s.engine.context.writeAll ws) →
      ∃ ops, c = s.engine.context.run ops := by
    rintro c ⟨ws, rfl⟩
    obtain ⟨ops, hops⟩ := exists_run_eq_writeAll s.engine.context ws
    exact ⟨ops, hops.symm⟩
  cases a with
  | assign name value global => exact ⟨[.assign name value global], rfl⟩
  | assignAll values global => exact ⟨_, assignAll_eq_run _ values global⟩
  | append name value => exact ⟨[.append name value], rfl⟩
  | clear name => exact ⟨[.clear name], rfl⟩
  | clearAll names => exact ⟨_, clearAll_eq_run _ names⟩
  | push => exact ⟨[.push], rfl⟩
  | pop => exact ⟨[.pop], rfl⟩
  | compile id source dir =>
    refine ⟨[], ?_⟩
    unfold step
    dsimp only
    cases s.engine.compile source dir <;> rfl
  | render id =>
    unfold step
    dsimp only
    cases Dict.find? s.compiled id with
    | none => exact ⟨[], rfl⟩
    | some t => exact hwrites (s.engine.render_writes s.tree.read t)
  | renderString source => exact hwrites (s.engine.renderString_writes s.tree.read source)
  | renderFile name => exact hwrites (s.engine.renderFile_writes s.tree.read name)
  | _ => exact ⟨[], rfl⟩

/-- Whatever a session does, operations alone could have led to its context. -/
theorem context_reachable (speller : Text.Speller) (config : Config) (tree : Files.Tree)
    (as : List Action) :
    ((Session.ofConfig speller config tree).reached as).engine.context.Reachable := by
  have hreached : ∀ (as : List Action) (s : Session), s.engine.context.Reachable →
      (s.reached as).engine.context.Reachable := by
    intro as
    induction as with
    | nil => exact fun s h => h
    | cons a as ih =>
      intro s h
      obtain ⟨ops, hops⟩ := s.step_context a
      exact ih (s.step a).session (hops ▸ h.run ops)
  exact hreached as _ ⟨[], rfl⟩

end Session

end BraceTemplate
