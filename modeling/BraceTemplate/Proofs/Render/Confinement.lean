import Mathlib.Logic.Relation
import BraceTemplate.Proofs.Compile.Modes
import BraceTemplate.Proofs.Render.Logging
import BraceTemplate.Proofs.Render.Parametric

/-!
Confinement: what is rendered inside of a block touches the variables and counters of that block
only, and sees nothing of its caller but the active layer.
-/
namespace BraceTemplate
namespace Render

/-- States that look the same from inside of a block. -/
structure Alike (blocks : Dict Block) (s₁ s₂ : RenderState) : Prop where
  layer : s₁.context.activeLayer = s₂.context.activeLayer
  frame : s₁.frame = s₂.frame
  inBlock : s₁.frame.locals.isSome
  left : s₁.blocks = blocks
  right : s₂.blocks = blocks

/-- From states that look the same two computations end alike, change nothing but the frame, in
which a block stays open, and log the same. -/
def Confined {α : Type} (blocks : Dict Block) (m₁ m₂ : Render α) : Prop :=
  ∀ s₁ s₂, Alike blocks s₁ s₂ → ∃ r frame new, frame.locals.isSome ∧
    outcome m₁ s₁ = (r, { s₁ with frame := frame, warnings := s₁.warnings ++ new }) ∧
    outcome m₂ s₂ = (r, { s₂ with frame := frame, warnings := s₂.warnings ++ new })

/-- As before from any two frames, and without a change to them. -/
def Sealed {α : Type} (blocks : Dict Block) (m₁ m₂ : Render α) : Prop :=
  ∀ s₁ s₂, s₁.context.activeLayer = s₂.context.activeLayer → s₁.blocks = blocks →
    s₂.blocks = blocks → ∃ r new,
      outcome m₁ s₁ = (r, { s₁ with warnings := s₁.warnings ++ new }) ∧
      outcome m₂ s₂ = (r, { s₂ with warnings := s₂.warnings ++ new })

variable {α β : Type} {blocks : Dict Block}

namespace Confined

theorem pure {a : α} : Confined blocks (pure a) (pure a) := by
  intro s₁ s₂ h
  exact ⟨.ok a, s₁.frame, [], h.inBlock, by simp, by simp [h.frame]⟩

theorem throw {e : Error} : Confined blocks (throw e : Render α) (throw e) := by
  intro s₁ s₂ h
  exact ⟨.error e, s₁.frame, [], h.inBlock, by simp, by simp [h.frame]⟩

theorem throw_bind {e : Error} {next₁ next₂ : α → Render β} :
    Confined blocks (MonadExcept.throw e >>= next₁) (MonadExcept.throw e >>= next₂) := by
  intro s₁ s₂ h
  have hfail : ∀ (next : α → Render β) s, outcome (MonadExcept.throw e >>= next) s =
      (.error e, s) := fun next s => outcome_bind_error (outcome_throw e) next
  exact ⟨.error e, s₁.frame, [], h.inBlock, by rw [hfail, List.append_nil],
    by rw [hfail, h.frame, List.append_nil]⟩

theorem bind {m₁ m₂ : Render α} {next₁ next₂ : α → Render β} (h : Confined blocks m₁ m₂)
    (hnext : ∀ a, Confined blocks (next₁ a) (next₂ a)) :
    Confined blocks (m₁ >>= next₁) (m₂ >>= next₂) := by
  intro s₁ s₂ hs
  obtain ⟨r, frame, new, hf, h₁, h₂⟩ := h s₁ s₂ hs
  cases r with
  | error e => exact ⟨.error e, frame, new, hf, outcome_bind_error h₁ _, outcome_bind_error h₂ _⟩
  | ok a =>
    obtain ⟨r', frame', new', hf', h₁', h₂'⟩ := hnext a
      { s₁ with frame := frame, warnings := s₁.warnings ++ new }
      { s₂ with frame := frame, warnings := s₂.warnings ++ new }
      ⟨hs.layer, rfl, hf, hs.left, hs.right⟩
    refine ⟨r', frame', new ++ new', hf', ?_, ?_⟩
    · rw [outcome_bind_ok h₁, h₁', List.append_assoc]
    · rw [outcome_bind_ok h₂, h₂', List.append_assoc]

theorem bind_get {next₁ next₂ : RenderState → Render β}
    (h : ∀ s₁ s₂, Alike blocks s₁ s₂ → Confined blocks (next₁ s₁) (next₂ s₂)) :
    Confined blocks (get >>= next₁) (get >>= next₂) := by
  intro s₁ s₂ hs
  rw [outcome_bind_ok outcome_get, outcome_bind_ok outcome_get]
  exact h s₁ s₂ hs s₁ s₂ hs

theorem of_sealed {m₁ m₂ : Render α} (h : Sealed blocks m₁ m₂) : Confined blocks m₁ m₂ := by
  intro s₁ s₂ hs
  obtain ⟨r, new, h₁, h₂⟩ := h s₁ s₂ hs.layer hs.left hs.right
  refine ⟨r, s₁.frame, new, hs.inBlock, h₁, ?_⟩
  rw [hs.frame]
  exact h₂

end Confined

theorem Sealed.throw {e : Error} : Sealed blocks (throw e : Render α) (throw e) := by
  intro s₁ s₂ _ _ _
  exact ⟨.error e, [], by simp, by simp⟩

/-- What only logs is sealed. -/
theorem Sealed.logged {act : Logged α} (h : Logs act) :
    Sealed blocks (logged act) (logged act) := by
  obtain ⟨r, new, hact⟩ := h
  intro s₁ s₂ _ _ _
  exact ⟨r, new, by rw [outcome_logged, hact], by rw [outcome_logged, hact]⟩

/-- A block in a frame of its own is sealed. -/
theorem Sealed.inFrame {frame : Frame} (hf : frame.locals.isSome) {m₁ m₂ : Render α}
    (h : Confined blocks m₁ m₂) : Sealed blocks (inFrame frame m₁) (inFrame frame m₂) := by
  intro s₁ s₂ hlayer hleft hright
  obtain ⟨r, frame', new, -, h₁, h₂⟩ := h { s₁ with frame := frame } { s₂ with frame := frame }
    ⟨hlayer, rfl, hf, hleft, hright⟩
  refine ⟨r, new, ?_, ?_⟩
  · rw [outcome_inFrame, h₁]
  · rw [outcome_inFrame, h₂]

/-- Environments that render alike where nothing is included. -/
structure Similar (env₁ env₂ : RenderEnv) : Prop where
  filters : env₁.filters = env₂.filters
  strict : env₁.strict = env₂.strict
  maxDepth : env₁.maxDepth = env₂.maxDepth

variable {env₁ env₂ : RenderEnv}

theorem scope_eq (he : Similar env₁ env₂) {s₁ s₂ : RenderState} (hs : Alike blocks s₁ s₂) :
    scope env₁ s₁ = scope env₂ s₂ := by
  rw [scope, scope, hs.layer, hs.frame, he.filters, he.strict]

namespace Confined

theorem eval (he : Similar env₁ env₂) (e : Expr) :
    Confined blocks (eval env₁ e) (eval env₂ e) := by
  refine .bind_get fun s₁ s₂ hs => ?_
  rw [scope_eq he hs]
  exact .of_sealed (.logged (e.eval_logs _))

theorem resolve (he : Similar env₁ env₂) (v : Var) :
    Confined blocks (resolve env₁ v) (resolve env₂ v) := by
  refine .bind_get fun s₁ s₂ hs => ?_
  rw [scope_eq he hs]
  exact .of_sealed (.logged (v.resolve_logs _))

theorem setCounter (depth count : Nat) :
    Confined blocks (setCounter depth count) (setCounter depth count) := by
  intro s₁ s₂ hs
  by_cases hdepth : depth < Frame.capacity
  · refine ⟨.ok ⟨⟩, s₁.frame.withCounter depth count, [], hs.inBlock, ?_, ?_⟩
    · rw [outcome_setCounter, if_pos hdepth, List.append_nil]
    · rw [outcome_setCounter, if_pos hdepth, List.append_nil, hs.frame]
  · refine ⟨.error .crashed, s₁.frame, [], hs.inBlock, ?_, ?_⟩
    · rw [outcome_setCounter, if_neg hdepth, List.append_nil]
    · rw [outcome_setCounter, if_neg hdepth, List.append_nil, hs.frame]

/-- A write among the variables of a block changes only these. -/
theorem write (name : String) (keys : List String) (value : Value) :
    Confined blocks (write .block name keys value) (write .block name keys value) := by
  intro s₁ s₂ hs
  obtain ⟨locals, hl⟩ := Option.isSome_iff_exists.mp hs.inBlock
  let w := Value.setPath keys ((Dict.find? locals name).getD .null) value
  have hfault : (outcome (faultIfAny w.fault) s₁).1 = (outcome (faultIfAny w.fault) s₂).1 := by
    cases w.fault <;> rfl
  refine ⟨(outcome (faultIfAny w.fault) s₁).1,
    { s₁.frame with locals := some (Dict.insert locals name w.slot) }, [], rfl, ?_, ?_⟩
  · rw [outcome_write_local hl, List.append_nil]
  · rw [outcome_write_local (hs.frame ▸ hl), hfault, hs.frame, List.append_nil]

theorem assign (he : Similar env₁ env₂) {target : Path} (ht : target.mode = .block)
    (value : Value) : Confined blocks (assign env₁ target value) (assign env₂ target value) := by
  refine .bind_get fun s₁ s₂ hs => ?_
  rw [scope_eq he hs, ht]
  refine .bind (.of_sealed (.logged (target.names_logs _))) fun names => ?_
  cases names with
  | nil => exact .pure
  | cons name keys => exact .write name keys value

end Confined

end Render

/-- An instruction that writes variables of a block only, includes nothing, and invokes only certain
blocks. -/
structure Instruction.Tame (names : String → Prop) (i : Instruction) : Prop where
  writes : i.Writes .block
  includes : ∀ parts, i ≠ .include parts
  invokes : ∀ name args, i = .invoke name args → names name

open Render

/-- How blocks of certain names are entered is confined. -/
def Entering (blocks : Dict Block) (names : String → Prop) (env₁ env₂ : RenderEnv)
    (enter₁ enter₂ : Call → Render String) : Prop :=
  ∀ name block values, names name → Dict.find? blocks name = some block →
    Confined blocks
      (enter₁ ⟨.block block, .ofBlock (bindParams block.body.params values),
        .blockTooDeep env₁.maxDepth name⟩)
      (enter₂ ⟨.block block, .ofBlock (bindParams block.body.params values),
        .blockTooDeep env₂.maxDepth name⟩)

section Trees

variable {blocks : Dict Block} {names : String → Prop} {env₁ env₂ : RenderEnv}
  {enter₁ enter₂ : Call → Render String}

/-- Every step of rendering tame instructions is confined. -/
theorem Render.Confined.steps (he : Similar env₁ env₂) :
    StepRelation env₁ env₂ (Instruction.Tame names) (Confined blocks) where
  pure _ := .pure
  fault _ := .throw
  bind := .bind
  eval := .eval he
  resolve := .resolve he
  assign _ h target ht := .assign he (h.writes target ht)
  setCounter loop _ := .setCounter loop.depth
  counterAt depth := .bind_get fun s₁ s₂ hs => by
    rw [hs.frame]
    exact .pure

theorem invoke_confined (he : Similar env₁ env₂)
    (henter : Entering blocks names env₁ env₂ enter₁ enter₂) {name : String} (hname : names name)
    (args : List Expr) :
    Confined blocks (blockCall env₁ name args >>= enter₁)
      (blockCall env₂ name args >>= enter₂) := by
  have hsteps : StepRelation env₁ env₂ (Instruction.Tame names) (Confined blocks) :=
    Confined.steps he
  unfold blockCall
  rw [bind_assoc, bind_assoc]
  refine .bind_get fun s₁ s₂ hs => ?_
  rw [hs.left, hs.right]
  cases hfind : Dict.find? blocks name with
  | none => exact .throw_bind
  | some block =>
    rw [bind_assoc, bind_assoc]
    refine .bind (hsteps.evalArgs args) fun values => ?_
    rw [pure_bind, pure_bind]
    exact henter name block values hname hfind

/-- A tree of tame instructions is confined. -/
theorem Tree.render_confined (he : Similar env₁ env₂)
    (henter : Entering blocks names env₁ env₂ enter₁ enter₂) (items : Tree)
    (h : ∀ i ∈ Tree.flatten items, i.Tame names) :
    Confined blocks (Tree.render env₁ enter₁ items) (Tree.render env₂ enter₂ items) := by
  have hentersAlike : EntersAlike env₁ env₂ (Instruction.Tame names) (Confined blocks)
      enter₁ enter₂ := {
    invoke := fun name args htame => invoke_confined he henter (htame.invokes name args rfl) args
    includes := fun parts htame => absurd rfl (htame.includes parts) }
  exact (Confined.steps he).tree hentersAlike items h

/-- Blocks of these names are tame: they invoke only such blocks again. -/
def Tame (blocks : Dict Block) (names : String → Prop) : Prop :=
  ∀ name block, names name → Dict.find? blocks name = some block →
    ∀ i ∈ Tree.flatten block.tree, i.Tame names

/-- Entering a tame block is sealed, however deep the blocks invoke each other. -/
theorem enter_sealed (he : Similar env₁ env₂) (htame : Tame blocks names) (room : Nat)
    {name : String} {block : Block} (hname : names name)
    (hfind : Dict.find? blocks name = some block) (locals : Layer) :
    Sealed blocks
      (Call.render env₁ room
        ⟨.block block, .ofBlock locals, .blockTooDeep env₁.maxDepth name⟩)
      (Call.render env₂ room
        ⟨.block block, .ofBlock locals, .blockTooDeep env₂.maxDepth name⟩) := by
  induction room generalizing name block locals with
  | zero =>
    rw [he.maxDepth]
    exact .throw
  | succ room ih =>
    have henter : Entering blocks names env₁ env₂ (Call.render env₁ room)
        (Call.render env₂ room) := fun name block values hname hfind =>
      .of_sealed (ih hname hfind _)
    have hbody := Tree.render_confined he henter block.tree (htame name block hname hfind)
    exact .inFrame rfl (.bind .pure fun _ => hbody)

end Trees

/-- The body of a block holds an invocation of another one. -/
def Invokes (blocks : Dict Block) (name other : String) : Prop :=
  ∃ block, Dict.find? blocks name = some block ∧ ∃ args, .invoke other args ∈ block.instructions

/-- Neither the block of a name nor any block that it leads to includes a template. -/
def SelfContained (blocks : Dict Block) (name : String) : Prop :=
  ∀ other, Relation.ReflTransGen (Invokes blocks) name other →
    ∀ block, Dict.find? blocks other = some block → ∀ parts, .include parts ∉ block.instructions

/-- The blocks of a table come from sources that were compiled with the directives only. -/
def Compiled (blocks : Dict Block) : Prop :=
  ∀ entry ∈ blocks, ∃ source dir, compile .builtin source dir = .ok entry.2.template

/-! Bodies of compiled blocks. -/

/-- The body of a compiled block writes variables of the block only. -/
theorem Block.writes (b : Block) (h : Moded b.template.instructions.toList) :
    ∀ i ∈ b.instructions, i.Writes .block := by
  intro i hi p hp
  obtain ⟨⟨name, body⟩, hmem, hbody⟩ := List.mem_map.mp b.defined
  obtain ⟨items, hdenotes⟩ := b.template.denotes
  have hfind := (Dict.find?_eq_some_iff hdenotes.keys_nodup).mpr hmem
  obtain ⟨j, hj, hstart, hstop⟩ := (b.template.find?_blocks_iff name body).mp hfind
  rw [show body = b.body from hbody] at hj hstart hstop
  obtain ⟨⟨-, ⟨e, he, hend⟩, -⟩, -⟩ :
      b.template.Spans j (b.template.link j).next (· = .endBlock) ∧
        (b.template.link j).clause = none := b.template.leads hj
  subst hend
  rw [Block.instructions, List.extract_eq_take_drop] at hi
  obtain ⟨k, hk⟩ := List.mem_iff_getElem?.mp hi
  rw [List.getElem?_take, Option.ite_none_right_eq_some] at hk
  obtain ⟨hlt, hk⟩ := hk
  rw [List.getElem?_drop, Array.getElem?_toList] at hk
  have hinside : b.template.InBlock (b.body.start + k) :=
    ⟨j, name, _, hj, he, by omega, by omega⟩
  exact (Template.mode_of_moded h hk (i.targets_subset hp)).1 hinside

theorem tame_of_selfContained {blocks : Dict Block} {name : String} (hblocks : Compiled blocks)
    (hname : SelfContained blocks name) :
    Tame blocks (Relation.ReflTransGen (Invokes blocks) name) := by
  intro other block hreach hfind i hi
  rw [block.flatten_tree] at hi
  refine ⟨?_, ?_, ?_⟩
  · obtain ⟨source, dir, hcompile⟩ := hblocks _ (Dict.mem_of_find? hfind)
    exact block.writes (compile_moded hcompile) i hi
  · rintro parts rfl
    exact hname other hreach block hfind parts hi
  · rintro next args rfl
    exact hreach.tail ⟨block, hfind, args, hi⟩

/-- Evaluating arguments only logs. -/
theorem Render.outcome_evalArgs (env : RenderEnv) (args : List Expr) (s : RenderState) :
    ∃ r new, outcome (evalArgs env args) s = (r, { s with warnings := s.warnings ++ new }) := by
  unfold evalArgs
  induction args generalizing s with
  | nil => exact ⟨.ok [], [], by rw [List.mapM_nil, outcome_pure, List.append_nil]⟩
  | cons e es ih =>
    obtain ⟨r, new, he⟩ := e.eval_logs (scope env s)
    have heval : outcome (eval env e) s = (r, { s with warnings := s.warnings ++ new }) := by
      unfold eval
      rw [outcome_bind_ok outcome_get, outcome_logged, he]
    rw [List.mapM_cons]
    cases r with
    | error f => exact ⟨.error f, new, outcome_bind_error heval _⟩
    | ok v =>
      obtain ⟨r', new', hes⟩ := ih { s with warnings := s.warnings ++ new }
      rw [outcome_bind_ok heval]
      cases r' with
      | error f => exact ⟨.error f, new ++ new', by
          rw [outcome_bind_error hes, List.append_assoc]⟩
      | ok vs => exact ⟨.ok (v :: vs), new ++ new', by
          rw [outcome_bind_ok hes, outcome_pure, List.append_assoc]⟩

namespace Render

variable {env : RenderEnv} {name : String} {args : List Expr} {s : RenderState}

theorem outcome_blockCall_error {e : Error} {s' : RenderState} {block : Block}
    (h : Dict.find? s.blocks name = some block)
    (hargs : outcome (evalArgs env args) s = (.error e, s')) :
    outcome (blockCall env name args) s = (.error e, s') := by
  unfold blockCall
  rw [outcome_bind_ok outcome_get, h]
  exact outcome_bind_error hargs _

theorem outcome_blockCall_ok {values : List Value} {s' : RenderState} {block : Block}
    (h : Dict.find? s.blocks name = some block)
    (hargs : outcome (evalArgs env args) s = (.ok values, s')) :
    outcome (blockCall env name args) s = (.ok ⟨.block block,
      .ofBlock (bindParams block.body.params values), .blockTooDeep env.maxDepth name⟩, s') := by
  unfold blockCall
  rw [outcome_bind_ok outcome_get, h]
  exact outcome_bind_ok hargs _

/-- The invocation of a block in a unit, given how many blocks may still be nested. -/
def invocation (env : RenderEnv) (room : Nat) (t : Template) (run : RunRange) (i : Nat)
    (name : String) (args : List Expr) : Render (String × Nat) :=
  instruction env (enter env room) t run i (.invoke name args)

theorem outcome_invocation_error {room i : Nat} {t : Template} {run : RunRange} {e : Error}
    {s' : RenderState} (h : outcome (blockCall env name args) s = (.error e, s')) :
    outcome (invocation env room t run i name args) s = (.error e, s') :=
  outcome_bind_error h _

theorem outcome_invocation {room i : Nat} {t : Template} {run : RunRange} {call : Call}
    {s' : RenderState} (h : outcome (blockCall env name args) s = (.ok call, s')) :
    outcome (invocation env room t run i name args) s =
      ((outcome (call.render env room) s').1.map fun text => (text, i + 1),
        (outcome (call.render env room) s').2) := by
  have hrun : outcome (invocation env room t run i name args) s =
      outcome (enter env room call >>= fun text => pure (text, i + 1)) s' := outcome_bind_ok h _
  rw [hrun, enter_eq, outcome_bind]
  cases outcome (call.render env room) s' with
  | mk r s'' => cases r <;> rfl

/-- Invoking a self-contained block of compiled sources leaves all but the log as it was, also when
it fails. For equal argument values, what it gives and logs depends only on the active layer, the
blocks, the filters, the settings and the room that is left. -/
theorem invocation_confined {blocks : Dict Block} {name : String} {block : Block}
    (hblocks : Compiled blocks) (hfind : Dict.find? blocks name = some block)
    (hname : SelfContained blocks name) :
    (∀ env room t run i args s, s.blocks = blocks →
      ∃ log, (outcome (invocation env room t run i name args) s).2 = { s with warnings := log }) ∧
    ∀ env₁ env₂ room t₁ t₂ run₁ run₂ i₁ i₂ args₁ args₂ values s₁ s₂ s₁' s₂', Similar env₁ env₂ →
      s₁.context.activeLayer = s₂.context.activeLayer → s₁.blocks = blocks → s₂.blocks = blocks →
      outcome (evalArgs env₁ args₁) s₁ = (.ok values, s₁') →
      outcome (evalArgs env₂ args₂) s₂ = (.ok values, s₂') →
      ∃ (r : Except Error String) (new : List Warning),
        outcome (invocation env₁ room t₁ run₁ i₁ name args₁) s₁ =
          (r.map fun text => (text, i₁ + 1), { s₁' with warnings := s₁'.warnings ++ new }) ∧
        outcome (invocation env₂ room t₂ run₂ i₂ name args₂) s₂ =
          (r.map fun text => (text, i₂ + 1), { s₂' with warnings := s₂'.warnings ++ new }) := by
  have htame := tame_of_selfContained hblocks hname
  constructor
  · rintro env room t run i args s rfl
    obtain ⟨r, new, hargs⟩ := outcome_evalArgs env args s
    cases r with
    | error e =>
      exact ⟨_, by rw [outcome_invocation_error (outcome_blockCall_error hfind hargs)]⟩
    | ok values =>
      have hsimilar : Similar env env := ⟨rfl, rfl, rfl⟩
      have hsealed := enter_sealed hsimilar htame room .refl hfind
        (bindParams block.body.params values)
      obtain ⟨r', new', hrun, -⟩ := hsealed { s with warnings := s.warnings ++ new }
        { s with warnings := s.warnings ++ new } rfl rfl rfl
      exact ⟨_, by rw [outcome_invocation (outcome_blockCall_ok hfind hargs), hrun]⟩
  · rintro env₁ env₂ room t₁ t₂ run₁ run₂ i₁ i₂ args₁ args₂ values s₁ s₂ s₁' s₂' he hlayer hleft
      hright hargs₁ hargs₂
    obtain ⟨r₁, new₁, hlog₁⟩ := outcome_evalArgs env₁ args₁ s₁
    obtain ⟨r₂, new₂, hlog₂⟩ := outcome_evalArgs env₂ args₂ s₂
    -- evaluating the arguments left the layer and the blocks alone
    have hs₁ : s₁' = { s₁ with warnings := s₁.warnings ++ new₁ } :=
      congrArg Prod.snd (hargs₁.symm.trans hlog₁)
    have hs₂ : s₂' = { s₂ with warnings := s₂.warnings ++ new₂ } :=
      congrArg Prod.snd (hargs₂.symm.trans hlog₂)
    have hlayer' : s₁'.context.activeLayer = s₂'.context.activeLayer := by
      rw [hs₁, hs₂]
      exact hlayer
    have hsealed := enter_sealed he htame room .refl hfind (bindParams block.body.params values)
    obtain ⟨r, new, hrun₁, hrun₂⟩ := hsealed s₁' s₂' hlayer' (by rw [hs₁, hleft])
      (by rw [hs₂, hright])
    refine ⟨r, new, ?_, ?_⟩
    · rw [outcome_invocation (outcome_blockCall_ok (hleft ▸ hfind) hargs₁), hrun₁]
    · rw [outcome_invocation (outcome_blockCall_ok (hright ▸ hfind) hargs₂), hrun₂]

/-- A block that writes its own parameter. -/
def shadowing : String :=
  "\x7bdefine_block b $x\x7d\x7bset $x = 1\x7d\x7b$x\x7d\x7b/define_block\x7d"

set_option maxRecDepth 4000 in
theorem invocation_confined_shadowing : ∃ t b, compile .builtin shadowing none = .ok t ∧
    Dict.find? t.definitions "b" = some b ∧
    ∀ env room t' run i args s, s.blocks = t.definitions →
      ∃ log,
        (outcome (invocation env room t' run i "b" args) s).2 = { s with warnings := log } := by
  have hcheck : (compile .builtin shadowing none).toOption.any (fun t =>
      decide (t.blocks = [("b", ⟨["x"], 1, 3⟩)]) && (t.instructions.toList.extract 1 3).all fun
        | .invoke .. | .include _ => false
        | _ => true) = true := by decide +kernel
  obtain ⟨t, ht, hcheck⟩ := exists_ok_of_any hcheck
  simp only [Bool.and_eq_true, decide_eq_true_eq, List.all_eq_true] at hcheck
  obtain ⟨hblocks, hcalls⟩ := hcheck
  have hfound : Dict.find? t.blocks "b" = some ⟨["x"], 1, 3⟩ := by
    rw [hblocks]
    rfl
  obtain ⟨b, hb, htemplate, hbody⟩ := Template.find?_definitions hfound
  have hinstructions : b.instructions = t.instructions.toList.extract 1 3 := by
    rw [Block.instructions, htemplate, hbody]
  have hcompiled : Compiled t.definitions := by
    intro entry hentry
    obtain ⟨e, -, rfl⟩ := List.mem_map.mp hentry
    exact ⟨_, none, ht⟩
  have hself : SelfContained t.definitions "b" := by
    have honly : ∀ other, Relation.ReflTransGen (Invokes t.definitions) "b" other →
        other = "b" := by
      intro other hreach
      induction hreach with
      | refl => rfl
      | tail _ hstep ih =>
        subst ih
        obtain ⟨block, hfind, args, hmem⟩ := hstep
        obtain rfl := Option.some.inj (hb.symm.trans hfind)
        rw [hinstructions] at hmem
        exact absurd (hcalls _ hmem) (by simp)
    intro other hreach block hfind parts hmem
    obtain rfl := honly other hreach
    obtain rfl := Option.some.inj (hb.symm.trans hfind)
    rw [hinstructions] at hmem
    exact absurd (hcalls _ hmem) (by simp)
  exact ⟨t, b, ht, hb, (invocation_confined hcompiled hb hself).1⟩

end Render
end BraceTemplate
