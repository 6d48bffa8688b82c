import BraceTemplate.Proofs.Compile.Changes
import BraceTemplate.Proofs.Compile.Nesting
import BraceTemplate.Proofs.Markup.Extraction

/-!
Tags of a source: which of its outermost nodes open or close a name. Whatever the handlers of a host
return, compilation keeps the names that the tags so far have left open.
-/
namespace BraceTemplate

namespace Markup

variable {σ α β : Type}

/-- A computation that succeeds from every state or from none, always with the same result, and
leaves the state as it is. -/
def Stateless (act : Process σ α) : Prop :=
  (∃ a, ∀ s, outcome act s = (.ok a, s)) ∨ Ensures (fun _ => True) act fun _ _ => False

namespace Stateless

theorem pure (a : α) : Stateless (pure a : Process σ α) := .inl ⟨a, fun _ => rfl⟩

theorem throw (e : Error) : Stateless (throw e : Process σ α) := .inr .throw

theorem lift (r : Except Error α) : Stateless (liftExcept r : Process σ α) := by
  cases r with
  | error e => exact .throw e
  | ok a => exact .pure a

theorem bind {act : Process σ α} {next : α → Process σ β} (h : Stateless act)
    (hnext : ∀ a, Stateless (next a)) : Stateless (act >>= next) := by
  rcases h with ⟨a, ha⟩ | h
  · rcases hnext a with ⟨b, hb⟩ | hfails
    · exact .inl ⟨b, fun s => (outcome_bind_ok (ha s) next).trans (hb s)⟩
    · right
      intro s hs b t hrun
      rw [outcome_bind_ok (ha s)] at hrun
      exact hfails s hs b t hrun
  · exact .inr (h.bind fun _ _ hf => hf.elim)

theorem located {act : Process σ α} (p : Position) (h : Stateless act) :
    Stateless (located p act) := by
  rcases h with ⟨a, ha⟩ | h
  · exact .inl ⟨a, fun s => outcome_located_ok.mpr (ha s)⟩
  · exact .inr h.located

/-- What one state gives, every state gives. -/
theorem outcome_eq {act : Process σ α} (h : Stateless act) {s t : σ} {a : α}
    (hrun : outcome act s = (.ok a, t)) (s' : σ) : outcome act s' = (.ok a, s') := by
  rcases h with ⟨b, hb⟩ | h
  · obtain ⟨hab, -⟩ := Prod.mk.inj ((hb s).symm.trans hrun)
    rw [hb, hab]
  · exact (h s trivial a t hrun).elim

end Stateless

end Markup

namespace Draft

open Markup

/-! Inner nodes. -/

/-- A single instruction that is not a literal; it cannot stand inside of a node. -/
def Blocking (is : List Instruction) : Prop := ∃ i, is = [i] ∧ ∀ text, i ≠ .literal text

theorem literalText_blocking {is : List Instruction} (h : Blocking is) (node : List Char) :
    literalText node is = .error (.notNestable (.ofList node)) := by
  obtain ⟨i, rfl, hi⟩ := h
  cases i with
  | literal text => exact absurd rfl (hi text)
  | _ => rfl

variable {ctx : CompileContext}

/-- Whether a path is given to include at all does not depend on the mode. -/
theorem includePath_cases (dir : Option (List Char)) (args : List Char) :
    (∀ mode, Arguments.includePath mode dir args = .ok none) ∨
      ∀ mode parts?, Arguments.includePath mode dir args = .ok parts? →
        ∃ parts, parts? = some parts := by
  unfold Arguments.includePath
  by_cases hpath : (args.filter fun c => !Delimiter.isQuote c) = []
  · left
    intro mode
    simp only [hpath, ↓reduceIte]
    rfl
  · right
    intro mode parts? h
    simp only [hpath, ↓reduceIte] at h
    obtain ⟨parts, -, h⟩ := bind_eq_ok.mp h
    cases h
    exact ⟨_, rfl⟩

/-- A directive without a closing node gives the same wherever it stands inside of a node, or what
cannot stand there. -/
theorem openDirective_inner {directive : Directive} (h : directive.hasClose = false)
    (args : List Char) : Stateless (openDirective ctx directive args) ∨
      Ensures (fun _ => True) (openDirective ctx directive args) fun is _ => Blocking is := by
  cases directive with
  | cond | loop | empty | defineBlock | range => cases h
  | elseCond =>
    refine .inr (.after fun d => .after fun _ => .after fun c => .pure fun _ _ => ?_)
    exact ⟨_, rfl, nofun⟩
  | otherwise =>
    refine .inr (.after fun d => .after fun _ => .pure fun _ _ => ?_)
    exact ⟨_, rfl, nofun⟩
  | set =>
    refine .inr (.after fun d => .after fun a => .pure fun _ _ => ?_)
    exact ⟨_, rfl, nofun⟩
  | block =>
    refine .inr (.after fun d => .after fun a => .pure fun _ _ => ?_)
    exact ⟨_, rfl, nofun⟩
  | «include» =>
    rcases includePath_cases ctx.dir args with hnone | hsome
    · left
      left
      refine ⟨[], fun s => ?_⟩
      unfold openDirective
      rw [outcome_bind_ok outcome_get]
      dsimp only
      rw [hnone]
      rfl
    · right
      refine .after fun d => bind_parsed fun parts? hparts => .pure fun _ _ => ?_
      obtain ⟨parts, rfl⟩ := hsome _ _ hparts
      exact ⟨_, rfl, nofun⟩

theorem openNode_inner (ctx : CompileContext) (node : List Char) :
    Stateless (openNode ctx node true) ∨
      Ensures (fun _ => True) (openNode ctx node true) fun is _ => Blocking is := by
  unfold openNode
  cases Arguments.name? node with
  | none => exact .inl (.throw _)
  | some name =>
    dsimp only
    cases ctx.registry.find? (.ofList name.1) with
    | none => exact .inl (.throw _)
    | some handler =>
      dsimp only
      cases hclose : handler.hasClose with
      | true => exact .inl (.throw _)
      | false =>
        simp only [Bool.and_false, Bool.false_eq_true, ↓reduceIte, bind_pure]
        cases handler with
        | directive directive => exact openDirective_inner hclose _
        | external e => exact .inl (.lift _)

theorem namedNode_stateless (node : List Char) : Stateless (namedNode ctx node true) := by
  have htext (is : List Instruction) : Stateless (do
      return (← parsed (literalText node is)).toList : Step (List Char)) :=
    .bind (.lift _) fun _ => .pure _
  unfold namedNode
  simp only [↓reduceIte]
  split
  · exact .bind (.throw _) htext
  · rcases openNode_inner ctx node with h | h
    · exact h.bind htext
    · right
      refine h.bind fun is s his text t hrun => ?_
      rw [literalText_blocking his] at hrun
      cases hrun

/-- What a node gives inside of another one does not depend on where it stands. -/
theorem node_stateless (content : List Char) : Stateless (node ctx content true) := by
  unfold node
  split
  · exact .pure []
  · exact .pure _
  · exact namedNode_stateless _

mutual

theorem answer_stateless : (part : Part) → Stateless (part.answer (handler ctx) true)
  | .char c => .pure [c]
  | .node start parts =>
    (contents_stateless parts).bind fun content => .located start (node_stateless content)

/-- The content of a node does not depend on where the node stands, and making it leaves the draft
as it is. -/
theorem contents_stateless : (parts : List Part) → Stateless (contents (handler ctx) parts)
  | [] => .pure []
  | part :: parts =>
    (answer_stateless part).bind fun _ => (contents_stateless parts).bind fun _ => .pure _

end

/-! Open names. -/

/-- The fault of a closing node that does not close the innermost open name. -/
def mismatch (name : String) : Option String → BalanceFault
  | some top => .closesOther name top
  | none => .closesNothing name

/-- The tag that a node is, if it is one: a slash closes a name, and a name whose handler has a
closing node is opened. -/
def tag? (r : Registry) : (node : List Char) → Option Tag
  | '/' :: name => some (.closes (.ofList (Text.trim name)))
  | node => do
    let (name, _) ← Arguments.name? node
    let handler ← r.find? (.ofList name)
    if handler.hasClose then some (.opens (.ofList name)) else none

variable {d d' : Draft}

theorem opened_addText (d : Draft) (text : String) : (d.addText text).opened = d.opened := by
  unfold addText
  split <;> rfl

theorem opened_add (d : Draft) (i : Instruction) : (d.add i).opened = d.opened := by
  cases i with
  | literal text => exact opened_addText d text
  | _ => rfl

theorem opened_addAll (d : Draft) (is : List Instruction) :
    (is.foldl add d).opened = d.opened := by
  induction is generalizing d with
  | nil => rfl
  | cons i is ih => rw [List.foldl_cons, ih, opened_add]

/-- A directive itself opens no name. -/
theorem openDirective_opened (directive : Directive) (args : List Char) :
    Ensures (· = d) (openDirective ctx directive args) fun _ d' => d'.opened = d.opened := by
  have hpure (is : List Instruction) : Ensures (· = d) (pure is : Step (List Instruction))
      fun _ d' => d'.opened = d.opened := .pure fun _ h => congrArg opened h
  refine .bind_get ?_
  cases directive with
  | cond => exact bind_condition fun c _ => hpure _
  | elseCond =>
    refine .bind insideIf_ensures fun _ => ?_
    rintro _ ⟨rfl, -⟩
    exact bind_condition (fun c _ => hpure _) _ rfl
  | otherwise => exact .bind insideIf_ensures fun _ => .pure fun _ h => congrArg opened h.1
  | loop =>
    refine .bind (Q := fun _ d' => d'.opened = d.opened) ?_ fun _ => .pure fun _ h => h
    exact .bind_get (bind_parsed fun loop _ => .bind_set (.pure fun _ h => by rw [h]))
  | empty => exact hpure _
  | set => exact bind_parsed fun _ _ => hpure _
  | defineBlock =>
    refine .bind (Q := fun _ d' => d'.opened = d.opened) ?_ fun _ => .pure fun _ h => h
    refine .bind_get ?_
    split
    · exact .throw
    · exact bind_parsed fun _ _ => .bind_set (.pure fun _ h => by rw [h])
  | block => exact bind_parsed fun _ _ => hpure _
  | range => exact bind_parsed fun _ _ => hpure _
  | «include» => exact bind_parsed fun _ _ => hpure _

theorem closeDirective_opened (name : String) (directive : Directive) :
    Ensures (· = d) (closeDirective name directive) fun _ d' => d'.opened = d.opened := by
  have hpure (is : List Instruction) : Ensures (· = d) (pure is : Step (List Instruction))
      fun _ d' => d'.opened = d.opened := .pure fun _ h => congrArg opened h
  cases directive with
  | cond | empty | range => exact hpure _
  | loop | defineBlock => exact .bind_modify (.pure fun _ h => by rw [h])
  | elseCond | otherwise | set | block | «include» => exact .throw

theorem opened_awaiting (d : Draft) (handler : NodeHandler) (name : String) :
    (d.awaiting handler name).opened =
      if handler.hasClose then name :: d.opened else d.opened := by
  unfold awaiting
  split <;> rfl

theorem openNode_opened (node : List Char) : Ensures (· = d) (openNode ctx node false) fun _ d' =>
    ∃ name args handler, Arguments.name? node = some (name, args) ∧
      ctx.registry.find? (.ofList name) = some handler ∧
      d'.opened = if handler.hasClose then .ofList name :: d.opened else d.opened := by
  refine openNode_ensures fun name args handler hname hfind _ => ?_
  refine .imp (Q := fun _ d' => d'.opened = d.opened) ?_ fun _ d' h =>
    ⟨name, args, handler, hname, hfind, by rw [opened_awaiting, h]⟩
  cases handler with
  | directive directive => exact openDirective_opened _ _
  | external e => exact .lift fun _ _ _ h => congrArg opened h

theorem closeNode_opened (name : String) : Ensures (· = d) (closeNode ctx name) fun _ d' =>
    d.opened = name :: d'.opened := by
  have hmarked : ∀ {rest : List String} {d' : Draft}, d.opened = name :: rest → d'.opened = rest →
      d.opened = name ::
        (if name = "for" then { d' with closedInnerLoop := true } else d').opened := by
    intro rest d' hopened h
    rw [hopened, ← h]
    split <;> rfl
  refine closeNode_ensures (fun directive rest _ hopened => ?_) fun _ closing rest _ hopened => ?_
  · exact .imp (closeDirective_opened name directive) fun _ _ h => hmarked hopened h
  · exact .lift fun _ _ _ h => hmarked hopened (congrArg opened h)

theorem tag?_closes (r : Registry) (name : List Char) :
    tag? r ('/' :: name) = some (.closes (.ofList (Text.trim name))) := rfl

theorem tag?_of_name? {r : Registry} {node name args : List Char} {handler : NodeHandler}
    (hname : Arguments.name? node = some (name, args))
    (hfind : r.find? (.ofList name) = some handler) :
    tag? r node = if handler.hasClose then some (.opens (.ofList name)) else none := by
  unfold tag?
  split
  · cases hname
  · rw [hname, Option.bind_eq_bind, Option.bind_some]
    dsimp only
    rw [hfind]
    rfl

theorem exists_of_tag?_closes {r : Registry} {node : List Char} {name : String}
    (h : tag? r node = some (.closes name)) :
    ∃ text, node = '/' :: text ∧ name = .ofList (Text.trim text) := by
  unfold tag? at h
  split at h
  · cases h
    exact ⟨_, rfl, rfl⟩
  · obtain ⟨_, -, h⟩ := Option.bind_eq_some_iff.mp h
    obtain ⟨_, -, h⟩ := Option.bind_eq_some_iff.mp h
    split at h
    · cases h
    · cases h

/-- A name that closing nodes may close. -/
def Closable (r : Registry) (name : String) : Prop :=
  ∃ handler, r.find? name = some handler ∧ handler.hasClose = true

theorem closable_of_tag?_opens {r : Registry} {node : List Char} {name : String}
    (h : tag? r node = some (.opens name)) : Closable r name := by
  unfold tag? at h
  split at h
  · cases h
  · obtain ⟨_, -, h⟩ := Option.bind_eq_some_iff.mp h
    obtain ⟨handler, hfind, h⟩ := Option.bind_eq_some_iff.mp h
    split at h
    · rename_i hclose
      cases h
      exact ⟨handler, hfind, hclose⟩
    · cases h

theorem namedNode_opened (node : List Char) :
    Ensures (· = d) (namedNode ctx node false) fun answer d' =>
      answer = [] ∧ Tag.run d.opened (tag? ctx.registry node).toList = some d'.opened := by
  have hadd (is : List Instruction) : Ensures
      (fun d' => Tag.run d.opened (tag? ctx.registry node).toList = some d'.opened) (do
        modify fun d => is.foldl add d
        return [] : Step (List Char)) fun answer d' =>
          answer = [] ∧ Tag.run d.opened (tag? ctx.registry node).toList = some d'.opened := by
    refine .bind (Q := fun _ d' => Tag.run d.opened (tag? ctx.registry node).toList =
      some d'.opened) (.modify fun d' h => ?_) fun _ => .pure fun _ h => ⟨rfl, h⟩
    rw [opened_addAll, h]
  unfold namedNode
  simp only [Bool.false_eq_true, ↓reduceIte]
  split
  · refine .bind (closeNode_opened _) fun is d' h => hadd is d' ?_
    rw [tag?_closes, Option.toList_some, Tag.run_one, h, Tag.push_closes]
  · refine .bind (openNode_opened node) fun is d' h => hadd is d' ?_
    obtain ⟨name, args, handler, hname, hfind, hopened⟩ := h
    rw [tag?_of_name? hname hfind, hopened]
    split
    · exact Tag.run_one _ _
    · rfl

/-- Behind an outermost node those names are open that its tag leaves. -/
theorem node_opened (content : List Char) :
    Ensures (· = d) (node ctx content false) fun answer d' => answer = [] ∧
      Tag.run d.opened (tag? ctx.registry (Text.trim content)).toList = some d'.opened := by
  unfold node
  split
  · rename_i hnode
    refine .pure ?_
    rintro _ rfl
    rw [hnode]
    exact ⟨rfl, rfl⟩
  · rename_i rest hnode
    unfold variableNode
    simp only [Bool.false_eq_true, ↓reduceIte]
    refine .bind_get (bind_parsed fun v _ => .bind_modify (.pure ?_))
    rintro _ rfl
    rw [hnode]
    exact ⟨rfl, rfl⟩
  · exact namedNode_opened _

/-- A closing node that does not match fails for that reason. -/
theorem popOpened_mismatch {name : String} (h : d.opened.head? ≠ some name) :
    ∃ t, outcome (popOpened name) d =
      (.error (.unbalanced (mismatch name d.opened.head?) none), t) := by
  unfold popOpened
  rw [outcome_bind_ok outcome_get]
  cases hopened : d.opened with
  | nil => exact ⟨d, rfl⟩
  | cons top rest =>
    have htop : top ≠ name := by
      rintro rfl
      rw [hopened] at h
      exact h rfl
    dsimp only
    rw [outcome_bind_ok (outcome_set _), if_neg htop]
    exact ⟨_, rfl⟩

theorem node_mismatch {content : List Char} {name : String}
    (htag : tag? ctx.registry (Text.trim content) = some (.closes name))
    (h : d.opened.head? ≠ some name) : ∃ t, outcome (node ctx content false) d =
      (.error (.unbalanced (mismatch name d.opened.head?) none), t) := by
  obtain ⟨text, hnode, rfl⟩ := exists_of_tag?_closes htag
  obtain ⟨t, hpop⟩ := popOpened_mismatch h
  refine ⟨t, ?_⟩
  unfold node
  rw [hnode]
  exact outcome_bind_error (outcome_bind_error hpop _) _

theorem closeDirective_total {directive : Directive} (h : directive.hasClose = true)
    (name : String) (d : Draft) :
    ∃ is d', outcome (closeDirective name directive) d = (.ok is, d') := by
  cases directive with
  | cond | loop | empty | defineBlock | range => exact ⟨_, _, rfl⟩
  | elseCond | otherwise | set | block | «include» => cases h

/-- While all open names can be closed, a closing node fails because it does not match, or because
its own handler does; that there is no such handler does not come up. -/
theorem closeNode_fault (hopened : ∀ name ∈ d.opened, Closable ctx.registry name) {name : String}
    {e : Error} {d' : Draft} (h : outcome (closeNode ctx name) d = (.error e, d')) :
    (∃ f, e = .unbalanced f none) ∨ ∃ opening,
      ctx.registry.find? name = some (.external ⟨opening, some (.error e)⟩) := by
  unfold closeNode at h
  by_cases hhead : d.opened.head? = some name
  · obtain ⟨rest, hrest⟩ := List.head?_eq_some_iff.mp hhead
    obtain ⟨handler, hfind, hclose⟩ := hopened name (by rw [hrest]; exact List.mem_cons_self)
    have hmark (is : List Instruction) (d₁ : Draft) : outcome (do
        if name = "for" then modify fun d => { d with closedInnerLoop := true }
        return is : Step (List Instruction)) d₁ ≠ (.error e, d') := by
      split <;> nofun
    rw [outcome_bind_ok (outcome_popOpened hrest), hfind] at h
    match handler, hclose with
    | .directive directive, hclose =>
      obtain ⟨is, d₁, hrun⟩ := closeDirective_total hclose name { d with opened := rest }
      dsimp only at h
      rw [outcome_bind_ok hrun] at h
      exact absurd h (hmark is d₁)
    | .external ⟨opening, some (.ok is)⟩, _ =>
      dsimp only at h
      rw [outcome_bind_ok (outcome_lift _)] at h
      exact absurd h (hmark is _)
    | .external ⟨opening, some (.error e')⟩, _ =>
      dsimp only at h
      rw [outcome_bind_error (outcome_lift _)] at h
      cases h
      exact .inr ⟨opening, hfind⟩
  · obtain ⟨t, hpop⟩ := popOpened_mismatch hhead
    rw [outcome_bind_error hpop] at h
    cases h
    exact .inl ⟨_, rfl⟩

theorem node_closing_fault (hopened : ∀ name ∈ d.opened, Closable ctx.registry name)
    {content : List Char} {name : String}
    (htag : tag? ctx.registry (Text.trim content) = some (.closes name)) {e : Error}
    (h : outcome (node ctx content false) d = (.error e, d')) :
    (∃ f, e = .unbalanced f none) ∨ ∃ opening,
      ctx.registry.find? name = some (.external ⟨opening, some (.error e)⟩) := by
  obtain ⟨text, hnode, rfl⟩ := exists_of_tag?_closes htag
  unfold node at h
  rw [hnode] at h
  change outcome (closeNode ctx _ >>= _) d = _ at h
  cases hclose : outcome (closeNode ctx (.ofList (Text.trim text))) d with
  | mk result d₁ =>
  cases result with
  | ok is =>
    rw [outcome_bind_ok hclose] at h
    cases h
  | error e' =>
    rw [outcome_bind_error hclose] at h
    cases h
    exact closeNode_fault hopened hclose

end Draft

end BraceTemplate
