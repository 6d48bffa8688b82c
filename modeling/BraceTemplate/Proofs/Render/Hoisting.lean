import Mathlib.Data.List.Perm.Basic
import BraceTemplate.Engine
import BraceTemplate.Proofs.Render.Views

/-!
Blocks are hoisted: a unit makes its blocks known before it runs, and passes over their definitions.
So a definition may stand between any two constructs of its unit.
-/
namespace BraceTemplate

/-! Tables with distinct names. -/

namespace Dict

variable {α β : Type}

theorem keys_map (f : α → β) (d : Dict α) : keys (d.map fun e => (e.1, f e.2)) = keys d := by
  unfold keys
  rw [List.map_map]
  rfl

theorem find?_map (f : α → β) (d : Dict α) (key : String) :
    find? (d.map fun e => (e.1, f e.2)) key = (find? d key).map f := by
  induction d with
  | nil => rfl
  | cons e d ih =>
    by_cases h : e.1 = key
    · simp [find?, h]
    · simp [find?, h, ih]

theorem find?_eq_none {d : Dict α} {key : String} (h : key ∉ keys d) : find? d key = none := by
  cases hfind : find? d key with
  | none => rfl
  | some value => exact absurd (List.mem_map_of_mem (mem_of_find? hfind)) h

/-- The order of entries with distinct keys is of no matter. -/
theorem find?_perm {d d' : Dict α} (hd : (keys d).Nodup) (h : d.Perm d') (key : String) :
    find? d key = find? d' key := by
  have hd' : (keys d').Nodup := (h.map Prod.fst).nodup_iff.mp hd
  apply Option.ext
  intro value
  rw [find?_eq_some_iff hd, find?_eq_some_iff hd', h.mem_iff]

/-- Entries with distinct keys come before what was there. -/
theorem find?_insertAll {entries : Dict α} (h : (keys entries).Nodup) (d : Dict α)
    (key : String) : find? (insertAll d entries) key = (find? entries key).or (find? d key) := by
  induction entries generalizing d with
  | nil => rfl
  | cons e entries ih =>
    obtain ⟨hnew, hentries⟩ := List.nodup_cons.mp h
    have hcons : insertAll d (e :: entries) = insertAll (insert d e.1 e.2) entries := rfl
    rw [hcons, ih hentries, find?]
    by_cases hkey : e.1 = key
    · subst hkey
      rw [find?_eq_none hnew, find?_insert_self, if_pos rfl]
      rfl
    · rw [find?_insert_of_ne d e.2 (Ne.symm hkey), if_neg hkey]

end Dict

/-! What a tree defines. -/

/-- A block wherever it stands: its parameters and its body. -/
abbrev Block.Shape := List String × Tree

def Block.shape (b : Block) : Block.Shape := (b.body.params, b.tree)

mutual

def Item.definitions : Item → Dict Block.Shape
  | .leaf _ => []
  | .cond _ body others => Tree.definitions body ++ others.definitions
  | .loop _ body | .empty _ body | .range _ body => Tree.definitions body
  | .loopElse _ before _ clause after =>
    Tree.definitions before ++ (Tree.definitions clause ++ Tree.definitions after)
  | .block name params body => (name, params, body) :: Tree.definitions body

/-- The blocks that a tree defines. -/
def Tree.definitions : Tree → Dict Block.Shape
  | [] => []
  | item :: items => item.definitions ++ Tree.definitions items

def Branches.definitions : Branches → Dict Block.Shape
  | .done => []
  | .otherwise body => Tree.definitions body
  | .elseIf _ body others => Tree.definitions body ++ others.definitions

end

theorem Tree.definitions_eq_flatMap (items : Tree) :
    Tree.definitions items = items.flatMap Item.definitions := by
  induction items with
  | nil => rfl
  | cons item items ih => rw [Tree.definitions, List.flatMap_cons, ih]

namespace Template

/-- The shape of a block with a body of certain instructions. -/
def shapeOf (t : Template) (b : BlockDef) : Block.Shape :=
  (b.params, Tree.ofInstructions (t.instructions.toList.extract b.start b.stop))

/-- The blocks of code by their shapes. -/
def shapes (t : Template) (d : Dict BlockDef) : Dict Block.Shape :=
  d.map fun e => (e.1, t.shapeOf e.2)

variable {t : Template}

theorem shapes_append (d d' : Dict BlockDef) : t.shapes (d ++ d') = t.shapes d ++ t.shapes d' :=
  List.map_append

/-- The body of a block is what stands between its markers. -/
theorem shapeOf_layout {i : Nat} {body : Tree} {rest : Code} (params : List String)
    (h : t.Holds i (Tree.layout i body ++ rest)) :
    t.shapeOf ⟨params, i, i + Tree.size body⟩ = (params, body) := by
  have hbody := h.left.extract
  rw [Tree.length_layout, Tree.layout_instructions] at hbody
  rw [shapeOf, hbody, Tree.ofInstructions_eq rfl]

/-- A section that is no block defines what its body does. -/
theorem shapes_section {i : Nat} {opener closer : Instruction} {link : Link} {body : Tree}
    (hopen : opener.blockName? = none) (hclose : closer.blockName? = none)
    (hbody : t.shapes (Code.blocks (i + 1) (Tree.layout (i + 1) body)) = Tree.definitions body) :
    t.shapes (Code.blocks i ((opener, link) :: (Tree.layout (i + 1) body ++ [closer.plain]))) =
      Tree.definitions body := by
  rw [Code.blocks_cons hopen, Code.blocks_append, Instruction.plain, Code.blocks_cons hclose,
    Code.blocks, List.append_nil, hbody]

end Template

open Template

mutual

theorem Item.shapes {t : Template} {i : Nat} : (item : Item) → t.Holds i (item.layout i) →
    t.shapes (Code.blocks i (item.layout i)) = item.definitions
  | .leaf l, _ => by
    rw [Item.layout, Instruction.plain, Code.blocks_cons (Linker.blockName?_leaf l)]
    rfl
  | .cond c body others, h => by
    rw [Item.layout] at h ⊢
    have hbody := Tree.shapes body h.tail.left
    have hothers := others.shapes (h.tail.right (by rw [Tree.length_layout]))
    rw [Code.blocks_cons rfl, Code.blocks_append, shapes_append, Tree.length_layout, hbody,
      hothers, Item.definitions]
  | .loop loop body, h => by
    rw [Item.layout] at h ⊢
    exact shapes_section rfl rfl (Tree.shapes body h.tail.left)
  | .loopElse loop before depth clause after, h => by
    rw [Item.layout] at h ⊢
    have hbefore := Tree.shapes before h.tail.left
    have hmid := h.tail.right (by rw [Tree.length_layout])
    have hclause := Tree.shapes clause hmid.tail.left
    have hend := hmid.tail.right (by rw [Tree.length_layout])
    have hafter := Tree.shapes after hend.tail.left
    rw [Code.blocks_cons rfl, Code.blocks_append, Tree.length_layout, Code.blocks_cons rfl,
      Code.blocks_append, Tree.length_layout, Instruction.plain, Code.blocks_cons rfl,
      Code.blocks_append, Instruction.plain, Code.blocks_cons rfl, Code.blocks, List.append_nil,
      shapes_append, shapes_append, hbefore, hclause, hafter, Item.definitions]
  | .empty depth body, h => by
    rw [Item.layout] at h ⊢
    exact shapes_section rfl rfl (Tree.shapes body h.tail.left)
  | .block name params body, h => by
    rw [Item.layout] at h ⊢
    have hbody := Tree.shapes body h.tail.left
    have hshape := shapeOf_layout params h.tail
    rw [Code.blocks, Code.blocks_append, Instruction.plain, Code.blocks_cons rfl, Code.blocks,
      List.append_nil, Template.shapes, List.map_cons, hshape, ← Template.shapes, hbody,
      Item.definitions]
  | .range c body, h => by
    rw [Item.layout] at h ⊢
    exact shapes_section rfl rfl (Tree.shapes body h.tail.left)

/-- The blocks of a layout are those of its tree. -/
theorem Tree.shapes {t : Template} {i : Nat} : (items : Tree) →
    t.Holds i (Tree.layout i items) →
    t.shapes (Code.blocks i (Tree.layout i items)) = Tree.definitions items
  | [], _ => rfl
  | item :: items, h => by
    rw [Tree.layout] at h ⊢
    have hitem := item.shapes h.left
    have hitems := Tree.shapes items (h.right (by rw [Item.length_layout]))
    rw [Code.blocks_append, shapes_append, Item.length_layout, hitem, hitems, Tree.definitions]

theorem Branches.shapes {t : Template} {i : Nat} : (others : Branches) →
    t.Holds i (others.layout i) → t.shapes (Code.blocks i (others.layout i)) = others.definitions
  | .done, _ => rfl
  | .otherwise body, h => by
    rw [Branches.layout] at h ⊢
    exact shapes_section rfl rfl (Tree.shapes body h.tail.left)
  | .elseIf c body others, h => by
    rw [Branches.layout] at h ⊢
    have hbody := Tree.shapes body h.tail.left
    have hothers := others.shapes (h.tail.right (by rw [Tree.length_layout]))
    rw [Code.blocks_cons rfl, Code.blocks_append, shapes_append, Tree.length_layout, hbody,
      hothers, Branches.definitions]

end

/-- What a template knows by name is what its tree defines. -/
theorem Template.definitions_shape (t : Template) :
    t.definitions.map (fun e => (e.1, e.2.shape)) = Tree.definitions t.tree := by
  have hdenotes := t.denotes_tree
  have hmap : t.definitions.map (fun e => (e.1, e.2.shape)) =
      (t.blocks.attach.map Subtype.val).map fun e => (e.1, t.shapeOf e.2) := by
    rw [Template.definitions, List.map_map, List.map_map]
    rfl
  rw [hmap, List.attach_map_subtype_val, hdenotes.blocks]
  exact Tree.shapes t.tree hdenotes.holds

theorem Template.definitions_nodup (t : Template) : (Dict.keys (Tree.definitions t.tree)).Nodup := by
  have hkeys : Dict.keys (Tree.definitions t.tree) = Dict.keys t.blocks := by
    rw [← Tree.shapes t.tree t.denotes_tree.holds, ← t.denotes_tree.blocks, Template.shapes,
      Dict.keys_map]
  rw [hkeys]
  exact t.denotes_tree.keys_nodup

namespace Render

/-! Tables that know the same blocks, wherever these stand. -/

/-- The same names are known, each for a block of the same shape. -/
def SameBlocks (d₁ d₂ : Dict Block) : Prop :=
  ∀ name, (Dict.find? d₁ name).map Block.shape = (Dict.find? d₂ name).map Block.shape

/-- Two templates that define the same make the same known, in whichever order. -/
theorem SameBlocks.hoisted {d₁ d₂ : Dict Block} {t₁ t₂ : Template} (h : SameBlocks d₁ d₂)
    (ht : (Tree.definitions t₁.tree).Perm (Tree.definitions t₂.tree)) :
    SameBlocks (Dict.insertAll d₁ t₁.definitions) (Dict.insertAll d₂ t₂.definitions) := by
  have hfind (t : Template) (d : Dict Block) (name : String) :
      (Dict.find? (Dict.insertAll d t.definitions) name).map Block.shape =
        (Dict.find? (Tree.definitions t.tree) name).or ((Dict.find? d name).map Block.shape) := by
    have hnodup : (Dict.keys t.definitions).Nodup := by
      rw [← Dict.keys_map Block.shape, t.definitions_shape]
      exact t.definitions_nodup
    rw [Dict.find?_insertAll hnodup, ← t.definitions_shape, Dict.find?_map, Option.map_or]
  intro name
  rw [hfind, hfind, h name, Dict.find?_perm t₁.definitions_nodup ht]

/-- States that differ in where the known blocks stand at most. -/
structure SameButBlocks (s₁ s₂ : RenderState) : Prop where
  context : s₁.context = s₂.context
  frame : s₁.frame = s₂.frame
  blocks : SameBlocks s₁.blocks s₂.blocks
  loader : s₁.loader = s₂.loader
  warnings : s₁.warnings = s₂.warnings

namespace SameButBlocks

theorem view : View SameButBlocks where
  layer h := congrArg Context.activeLayer h.context
  frame h := h.frame
  loader h := h.loader
  warnings h := h.warnings
  withFrame h _ := ⟨h.context, rfl, h.blocks, h.loader, h.warnings⟩
  withLoader h _ := ⟨h.context, h.frame, h.blocks, rfl, h.warnings⟩
  withWarnings h _ := ⟨h.context, h.frame, h.blocks, h.loader, rfl⟩
  written h w := ⟨congrArg (·.write w) h.context, h.frame, h.blocks, h.loader, h.warnings⟩

theorem hoist {t₁ t₂ : Template}
    (h : (Tree.definitions t₁.tree).Perm (Tree.definitions t₂.tree)) :
    Related SameButBlocks (hoist t₁) (hoist t₂) := Related.modify fun _ _ hs =>
  ⟨hs.context, hs.frame, hs.blocks.hoisted h, hs.loader, hs.warnings⟩

variable {env : RenderEnv} {enter₁ enter₂ : Call → Render String}

/-- A block is called by its name, for whichever block of its shape that stands. -/
theorem invoke (name : String) (args : List Expr)
    (hcall : ∀ b₁ b₂ : Block, b₁.shape = b₂.shape → ∀ frame tooDeep,
      Related SameButBlocks (enter₁ ⟨.block b₁, frame, tooDeep⟩)
        (enter₂ ⟨.block b₂, frame, tooDeep⟩)) :
    Related SameButBlocks ((Leaf.invoke name args).render env enter₁)
      ((Leaf.invoke name args).render env enter₂) := by
  rw [Leaf.render, Leaf.render, blockCall_bind, blockCall_bind]
  simp only [blockNamed, bind_assoc, pure_bind]
  refine .bind_get fun s₁ s₂ hs => ?_
  have hname := hs.blocks name
  cases h₁ : Dict.find? s₁.blocks name with
  | none =>
    rw [h₁, Option.map_none, eq_comm, Option.map_eq_none_iff] at hname
    rw [hname]
    exact .throw _
  | some b₁ =>
    rw [h₁, Option.map_some, eq_comm, Option.map_eq_some_iff] at hname
    obtain ⟨b₂, h₂, hshape⟩ := hname
    have hparams : b₂.body.params = b₁.body.params := congrArg Prod.fst hshape
    rw [h₂]
    dsimp only
    rw [hparams]
    exact .bind ((Related.steps view env).evalArgs args) fun _ => hcall b₁ b₂ hshape.symm _ _

/-- Calls of what renders alike are alike, however deep they go. -/
theorem call (room : Nat) {target₁ target₂ : Target}
    (hhoist : Related SameButBlocks target₁.hoist target₂.hoist)
    (htree : ∀ enter, Tree.render env enter target₁.tree = Tree.render env enter target₂.tree)
    (frame : Frame) (tooDeep : RenderFault) :
    Related SameButBlocks (Call.render env room ⟨target₁, frame, tooDeep⟩)
      (Call.render env room ⟨target₂, frame, tooDeep⟩) := by
  induction room generalizing target₁ target₂ frame tooDeep with
  | zero => exact .throw _
  | succ room ih =>
    have hsteps := Related.steps view env
    have henter : EntersAlike env env (fun _ => True) (Related SameButBlocks)
        (Call.render env room) (Call.render env room) :=
      { invoke := fun name args _ => by
          apply invoke
          intro b₁ b₂ hshape frame tooDeep
          have htree : b₁.tree = b₂.tree := congrArg Prod.snd hshape
          exact ih (.pure ()) (fun enter => by rw [Target.tree, Target.tree, htree]) frame tooDeep
        includes := fun parts _ => by
          apply hsteps.includes (Related.load view env) (Related.logged view _)
          intro t href
          have hunit : Related SameButBlocks (Target.unit t).hoist (Target.unit t).hoist :=
            hoist (.refl _)
          exact ih hunit (fun _ => rfl) _ _ }
    unfold Call.render
    apply Related.inFrame view
    refine .bind hhoist fun _ => ?_
    dsimp only
    rw [htree]
    exact hsteps.tree henter _ fun _ _ => trivial

/-- Units that define the same and show the same are rendered alike. -/
theorem template {t₁ t₂ : Template}
    (hblocks : (Tree.definitions t₁.tree).Perm (Tree.definitions t₂.tree))
    (htree : ∀ enter, Tree.render env enter t₁.tree = Tree.render env enter t₂.tree) :
    Related SameButBlocks (template env t₁) (template env t₂) := by
  have hunit : Related SameButBlocks (Target.unit t₁).hoist (Target.unit t₂).hoist := hoist hblocks
  rw [template_eq, template_eq, render_eq_call env t₁ (.includeTooDeep 0 ""),
    render_eq_call env t₂ (.includeTooDeep 0 "")]
  exact call _ hunit htree .ofUnit _

end SameButBlocks

end Render

/-! Moving a definition. -/

/-- Instructions that make up whole constructs. -/
def BalancedRow (is : List Instruction) : Prop := ∃ items, Tree.flatten items = is

/-- A part that is moved to another place leaves the same in another order. -/
theorem perm_of_moved {α : Type} {before after before' after' : List α}
    (h : before ++ after = before' ++ after') (moved : List α) :
    (before ++ moved ++ after).Perm (before' ++ moved ++ after') := by
  have hfront (front back : List α) : (front ++ moved ++ back).Perm (moved ++ (front ++ back)) := by
    rw [← List.append_assoc]
    exact List.perm_append_comm.append_right back
  calc
    (before ++ moved ++ after).Perm (moved ++ (before ++ after)) := hfront before after
    _ = moved ++ (before' ++ after') := by rw [h]
    List.Perm _ (before' ++ moved ++ after') := (hfront before' after').symm

namespace Tree

theorem flatten_eq_flatMap (items : Tree) : flatten items = items.flatMap Item.flatten := by
  induction items with
  | nil => rfl
  | cons item items ih => rw [flatten, List.flatMap_cons, ih]

theorem shallow_iff {items : Tree} : Shallow items ↔ ∀ item ∈ items, item.Shallow := by
  induction items with
  | nil => simp [Shallow]
  | cons item items ih => simp [Shallow, ih]

/-- A definition shows nothing where it stands. -/
theorem render_past_block (env : RenderEnv) (enter : Render.Call → Render String) (name : String)
    (params : List String) (body before after : Tree) :
    render env enter (before ++ [.block name params body] ++ after) =
      render env enter (before ++ after) := by
  induction before with
  | nil =>
    rw [List.nil_append, List.nil_append, List.singleton_append, render, Item.render]
    exact Render.nothing_before _
  | cons item items ih =>
    rw [List.cons_append, List.cons_append, List.cons_append, render, render, ih]

end Tree

/-- The constructs of a unit are accepted in any other order as well. -/
theorem Template.exists_of_perm {t : Template} {items : Tree} (h : t.tree.Perm items) :
    ∃ t', ofInstructions (Tree.flatten items) t.dir = .ok t' ∧ t'.tree = items := by
  have hdenotes := t.denotes_tree
  have hshallow : Tree.Shallow items := by
    rw [Tree.shallow_iff]
    intro item hitem
    exact Tree.shallow_iff.mp hdenotes.shallow item (h.mem_iff.mpr hitem)
  have hnames : (blockNames (Tree.flatten items)).Nodup := by
    have ht := hdenotes.names
    rw [← hdenotes.instructions, Tree.flatten_eq_flatMap] at ht
    rw [Tree.flatten_eq_flatMap]
    exact ((h.flatMap_right Item.flatten).filterMap _).nodup_iff.mp ht
  obtain ⟨t', ht'⟩ := (ofInstructions_ok_iff _ t.dir).mpr ⟨items, rfl, hshallow, hnames⟩
  obtain ⟨hinstructions, -⟩ := ofInstructions_eq_ok_iff.mp ht'
  exact ⟨t', ht', Tree.ofInstructions_eq hinstructions.symm⟩

namespace Engine

/-- What an engine makes of units that define the same and show the same is the same. -/
theorem render_alike (e : Engine) (view : Files.View) {t₁ t₂ : Template}
    (hblocks : (Tree.definitions t₁.tree).Perm (Tree.definitions t₂.tree))
    (htree : ∀ enter, Tree.render (e.env view) enter t₁.tree =
      Tree.render (e.env view) enter t₂.tree) : e.render view t₁ = e.render view t₂ := by
  let start : RenderState := ⟨e.context, .ofUnit, [], e.loader, []⟩
  have hrender (t : Template) : e.render view t =
      ⟨(outcome (Render.template (e.env view) t) start).1,
        { e with
          context := (outcome (Render.template (e.env view) t) start).2.context,
          loader := (outcome (Render.template (e.env view) t) start).2.loader },
        (outcome (Render.template (e.env view) t) start).2.warnings⟩ := rfl
  have hstart : Render.SameButBlocks start start := ⟨rfl, rfl, fun _ => rfl, rfl, rfl⟩
  obtain ⟨hresult, hstate⟩ := Render.SameButBlocks.template hblocks htree start start hstart
  rw [hrender, hrender, hresult, hstate.context, hstate.loader, hstate.warnings]

/-- A definition may stand between any two constructs of its unit: wherever it is moved to there, the
unit is accepted as before, and every engine renders it to the same text or failure, with the same
warnings, and is left with the same context. -/
theorem render_hoisted_block {before after before' after' body : List Instruction}
    {name : String} {params : List String} {dir : Option String} {t : Template}
    (hbefore : BalancedRow before) (hafter : BalancedRow after) (hbefore' : BalancedRow before')
    (hafter' : BalancedRow after') (hbody : BalancedRow body)
    (hsame : before ++ after = before' ++ after')
    (h : Template.ofInstructions
      (before ++ (.beginBlock name params :: (body ++ [.endBlock])) ++ after) dir = .ok t) :
    ∃ t', Template.ofInstructions
        (before' ++ (.beginBlock name params :: (body ++ [.endBlock])) ++ after') dir = .ok t' ∧
      ∀ (e : Engine) (view : Files.View), e.render view t' = e.render view t := by
  obtain ⟨front, rfl⟩ := hbefore
  obtain ⟨back, rfl⟩ := hafter
  obtain ⟨front', rfl⟩ := hbefore'
  obtain ⟨back', rfl⟩ := hafter'
  obtain ⟨inner, rfl⟩ := hbody
  let block := Item.block name params inner
  have hflatten (front back : Tree) : Tree.flatten (front ++ [block] ++ back) =
      Tree.flatten front ++ (.beginBlock name params :: (Tree.flatten inner ++ [.endBlock])) ++
        Tree.flatten back := by
    rw [Tree.flatten_append, Tree.flatten_append, Tree.flatten, Tree.flatten, List.append_nil]
    rfl
  have hitems : front ++ back = front' ++ back' := by
    apply Tree.flatten_injective
    rw [Tree.flatten_append, Tree.flatten_append, hsame]
  obtain ⟨hinstructions, rfl⟩ := Template.ofInstructions_eq_ok_iff.mp h
  have htree : t.tree = front ++ [block] ++ back :=
    Tree.ofInstructions_eq ((hflatten front back).trans hinstructions.symm)
  have hperm : t.tree.Perm (front' ++ [block] ++ back') := by
    rw [htree]
    exact perm_of_moved hitems [block]
  obtain ⟨t', ht', htree'⟩ := Template.exists_of_perm hperm
  rw [hflatten] at ht'
  refine ⟨t', ht', fun e view => e.render_alike view ?_ fun enter => ?_⟩
  · rw [htree', Tree.definitions_eq_flatMap, Tree.definitions_eq_flatMap]
    exact hperm.symm.flatMap_right _
  · rw [htree, htree', Tree.render_past_block, Tree.render_past_block, hitems]

/-- A block is known before its definition and behind it, so that the definition may come last. -/
theorem render_hoisted_block_last : ∃ t t',
    Template.ofInstructions ([] ++ (.beginBlock "greet" [] :: ([.literal "Hi"] ++ [.endBlock])) ++
      [.invoke "greet" [], .literal "!"]) none = .ok t ∧
    Template.ofInstructions ([.invoke "greet" [], .literal "!"] ++
      (.beginBlock "greet" [] :: ([.literal "Hi"] ++ [.endBlock])) ++ []) none = .ok t' ∧
    ∀ (e : Engine) (view : Files.View), e.render view t' = e.render view t := by
  have hnone : BalancedRow [] := ⟨[], rfl⟩
  have hbody : BalancedRow [.literal "Hi"] := ⟨[.leaf (.literal "Hi")], rfl⟩
  have hrest : BalancedRow [.invoke "greet" [], .literal "!"] :=
    ⟨[.leaf (.invoke "greet" []), .leaf (.literal "!")], rfl⟩
  obtain ⟨t, ht⟩ := (Template.ofInstructions_ok_iff ([] ++ (.beginBlock "greet" [] ::
      ([.literal "Hi"] ++ [.endBlock])) ++ [.invoke "greet" [], .literal "!"]) none).mpr
    ⟨[.block "greet" [] [.leaf (.literal "Hi")], .leaf (.invoke "greet" []), .leaf (.literal "!")],
      rfl, by simp [Tree.Shallow, Item.Shallow, Tree.flatten, Item.flatten, Leaf.instruction],
      by decide⟩
  obtain ⟨t', ht', hrender⟩ := render_hoisted_block hnone hrest hrest hnone hbody rfl ht
  exact ⟨t, t', ht, ht', hrender⟩

end Engine

end BraceTemplate
