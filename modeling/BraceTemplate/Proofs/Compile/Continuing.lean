import BraceTemplate.Proofs.Compile.Changes
import BraceTemplate.Proofs.Markup.Seams
import BraceTemplate.Proofs.Program.Joining

/-!
Compilation behind a row of instructions: it goes on as from the start. Where all names are closed
nothing of a draft but its instructions reaches what is compiled next.
-/
namespace BraceTemplate.Draft
open Markup

variable {base : List Instruction} {d d' : Draft} {ctx : CompileContext}

/-! Adding to a row. -/

theorem addText_eq (d : Draft) (text : String) :
    d.addText text = { d with emitted := (d.addText text).emitted } := by
  unfold addText
  split <;> rfl

theorem instructions_addText (d : Draft) (text : String) :
    (d.addText text).instructions = joinRows d.instructions [.literal text] := by
  obtain ⟨emitted, opened, loopDepth, mode, closed⟩ := d
  cases emitted with
  | nil => rfl
  | cons i is =>
    by_cases hi : ∃ x, i = .literal x
    · obtain ⟨x, rfl⟩ := hi
      simp [addText, instructions, joinRows]
    · have hne : ∀ x, i ≠ .literal x := fun x hx => hi ⟨x, hx⟩
      cases i <;> simp_all [addText, instructions, joinRows]

theorem instructions_add (d : Draft) (i : Instruction) :
    (d.add i).instructions = joinRows d.instructions [i] := by
  cases i with
  | literal text => exact instructions_addText d text
  | _ => exact List.reverse_cons.trans (joinRows_cons_of_ne (by simp) d.instructions []).symm

/-- A draft goes on behind a row of instructions as another one does from the start. Whether a loop
has been closed matters inside of a loop only. -/
structure Continues (base : List Instruction) (d d' : Draft) : Prop where
  instructions : d.instructions = joinRows base d'.instructions
  opened : d.opened = d'.opened
  loopDepth : d.loopDepth = d'.loopDepth
  mode : d.mode = d'.mode
  closedInnerLoop : "for" ∈ d'.opened → d.closedInnerLoop = d'.closedInnerLoop

namespace Continues

theorem add (h : Continues base d d') (i : Instruction) : Continues base (d.add i) (d'.add i) := by
  have hfields (d : Draft) : d.add i = { d with emitted := (d.add i).emitted } := by
    cases i with
    | literal text => exact d.addText_eq text
    | _ => rfl
  have hrow : (d.add i).instructions = joinRows base (d'.add i).instructions := by
    rw [instructions_add, instructions_add, h.instructions, joinRows_assoc]
  rw [hfields d, hfields d'] at hrow ⊢
  exact ⟨hrow, h.opened, h.loopDepth, h.mode, h.closedInnerLoop⟩

theorem addAll (h : Continues base d d') (is : List Instruction) :
    Continues base (is.foldl Draft.add d) (is.foldl Draft.add d') := by
  induction is generalizing d d' with
  | nil => exact h
  | cons i is ih => exact ih (h.add i)

theorem emptySection (h : Continues base d d') : d.emptySection = d'.emptySection := by
  have hinner : (d.opened.head? = some "for" ∧ d.closedInnerLoop = false) ↔
      (d'.opened.head? = some "for" ∧ d'.closedInnerLoop = false) := by
    rw [h.opened]
    refine and_congr_right fun hhead => ?_
    rw [h.closedInnerLoop (List.mem_of_head? hhead)]
  unfold Draft.emptySection
  simp only [hinner, h.loopDepth]

end Continues

/-! Steps on both drafts. -/

section Steps

variable {α β : Type} {Q : α → β → Draft → Draft → Prop}

/-- Two steps from the given drafts end alike. -/
abbrev Tandem (base : List Instruction) (d d' : Draft) (x : Step α) (y : Step β)
    (Q : α → β → Draft → Draft → Prop) : Prop :=
  Coupled (Misplaced (Continues base)) (At d d') x y Q

/-- The same result, with drafts that go on alike. -/
def Alike (base : List Instruction) (a b : α) (d d' : Draft) : Prop := a = b ∧ Continues base d d'

theorem throw_tandem (hd : Continues base d d') (e : Error) :
    Tandem base d d' (throw e : Step α) (throw e : Step β) Q := by
  refine .throw ?_
  rintro _ _ ⟨rfl, rfl⟩
  exact ⟨rfl, hd⟩

theorem pure_tandem {a : α} {b : β} (h : Q a b d d') :
    Tandem base d d' (pure a : Step α) (pure b : Step β) Q := by
  refine .pure ?_
  rintro _ _ ⟨rfl, rfl⟩
  exact h

/-- A lifted outcome is the same on both drafts. -/
theorem bind_lift_tandem {γ : Type} (hd : Continues base d d') {r : Except Error γ}
    {f : γ → Step α} {g : γ → Step β} (h : ∀ c, Tandem base d d' (f c) (g c) Q) :
    Tandem base d d' (liftExcept r >>= f) (liftExcept r >>= g) Q := by
  cases r with
  | error e => exact throw_tandem hd e
  | ok c => exact h c

theorem lift_tandem (hd : Continues base d d') (r : Except Error α) :
    Tandem base d d' (liftExcept r) (liftExcept r) (Alike base) := by
  cases r with
  | error e => exact throw_tandem hd e
  | ok a => exact pure_tandem ⟨rfl, hd⟩

theorem bind_condition_tandem (hd : Continues base d d') (name : String) (args : List Char)
    {f : Expr → Step α} {g : Expr → Step β} (h : ∀ c, Tandem base d d' (f c) (g c) Q) :
    Tandem base d d' (condition name args >>= f) (condition name args >>= g) Q := by
  unfold condition
  split
  · exact throw_tandem hd _
  · rw [bind_assoc, bind_assoc]
    refine .bind_get ?_
    rw [hd.mode]
    exact bind_lift_tandem hd h

theorem bind_insideIf_tandem (hd : Continues base d d') (name : String)
    {f : Unit → Step α} {g : Unit → Step β} (h : Tandem base d d' (f ()) (g ()) Q) :
    Tandem base d d' (insideIf name >>= f) (insideIf name >>= g) Q := by
  unfold insideIf
  rw [bind_assoc, bind_assoc]
  refine .bind_get ?_
  rw [hd.opened]
  split
  · exact h
  · exact throw_tandem hd _

theorem openLoop_tandem (hd : Continues base d d') (args : List Char) :
    Tandem base d d' (openLoop args) (openLoop args) fun a b s t =>
      Alike base a b s t ∧ s.closedInnerLoop = t.closedInnerLoop := by
  refine .bind_get ?_
  rw [hd.mode, hd.loopDepth]
  exact bind_lift_tandem hd fun loop =>
    .set_pure ⟨⟨rfl, hd.instructions, hd.opened, rfl, rfl, fun _ => rfl⟩, rfl⟩

theorem openBlock_tandem (hd : Continues base d d') (args : List Char) :
    Tandem base d d' (openBlock args) (openBlock args) (Alike base) := by
  refine .bind_get ?_
  rw [hd.opened]
  split
  · exact throw_tandem hd _
  · exact bind_lift_tandem hd fun head =>
      .set_pure ⟨rfl, hd.instructions, rfl, hd.loopDepth, rfl, hd.closedInnerLoop⟩

theorem openDirective_tandem (hd : Continues base d d') (directive : Directive) (args : List Char) :
    Tandem base d d' (openDirective ctx directive args) (openDirective ctx directive args)
      fun a b s t => Alike base a b s t ∧
        (directive = .loop → s.closedInnerLoop = t.closedInnerLoop) := by
  have hsame (is : List Instruction) {loops : Prop} (hloops : ¬loops) :
      Tandem base d d' (pure is : Step (List Instruction)) (pure is) fun a b s t =>
        Alike base a b s t ∧ (loops → s.closedInnerLoop = t.closedInnerLoop) :=
    pure_tandem ⟨⟨rfl, hd⟩, fun h => absurd h hloops⟩
  refine .bind_get ?_
  cases directive with
  | cond => exact bind_condition_tandem hd "if" args fun c => hsame _ nofun
  | elseCond =>
    exact bind_insideIf_tandem hd "elseif"
      (bind_condition_tandem hd "elseif" args fun c => hsame _ nofun)
  | otherwise => exact bind_insideIf_tandem hd "else" (hsame _ nofun)
  | loop =>
    refine .bind (openLoop_tandem hd args) fun i j => .pure ?_
    rintro s t ⟨⟨rfl, hst⟩, hclosed⟩
    exact ⟨⟨rfl, hst⟩, fun _ => hclosed⟩
  | empty =>
    dsimp only
    rw [hd.emptySection]
    exact hsame _ nofun
  | defineBlock =>
    refine .bind (openBlock_tandem hd args) fun i j => .pure ?_
    rintro s t ⟨rfl, hst⟩
    exact ⟨⟨rfl, hst⟩, nofun⟩
  | set | block | range | «include» =>
    dsimp only
    rw [hd.mode]
    exact bind_lift_tandem hd fun a => hsame _ nofun

/-- A node that is awaited leaves its name. The name of a loop is left where both drafts know alike
whether a loop has been closed. -/
theorem await_coupled (base : List Instruction) {name : String} {loops : Prop}
    (hloop : name = "for" → loops) (closes : Bool) (a b : List Instruction) :
    Coupled (Misplaced (Continues base))
      (fun s t => Alike base a b s t ∧ (loops → s.closedInnerLoop = t.closedInnerLoop)) (do
        if closes then modify fun d => { d with opened := name :: d.opened }
        return a : Step (List Instruction)) (do
        if closes then modify fun d => { d with opened := name :: d.opened }
        return b) (Alike base) := by
  split
  · refine .modify_pure ?_
    rintro s t ⟨⟨rfl, hst⟩, hclosed⟩
    refine ⟨rfl, hst.instructions, congrArg (name :: ·) hst.opened, hst.loopDepth, hst.mode, ?_⟩
    intro hfor
    rcases List.mem_cons.mp hfor with hfor | hfor
    · exact hclosed (hloop hfor.symm)
    · exact hst.closedInnerLoop hfor
  · exact .pure fun _ _ h => h.1

theorem openNode_tandem (hr : ctx.registry.Grown) (hd : Continues base d d') (node : List Char)
    (inner : Bool) :
    Tandem base d d' (openNode ctx node inner) (openNode ctx node inner) (Alike base) := by
  unfold openNode
  split
  · exact throw_tandem hd _
  · rename_i name args hname
    dsimp only
    split
    · exact throw_tandem hd _
    · rename_i handler hfind
      have hloop : String.ofList name = "for" → handler = .directive .loop := by
        intro hfor
        have hdirective : ctx.registry.find? "for" = some (.directive .loop) :=
          hr.find?_directive.mpr (by decide)
        rw [hfor, hdirective] at hfind
        exact (Option.some.inj hfind).symm
      split
      · exact throw_tandem hd _
      · have hawait := await_coupled base hloop handler.hasClose
        cases handler with
        | directive directive =>
          refine .bind ((openDirective_tandem hd directive (Text.trim args)).imp ?_) hawait
          exact fun _ _ _ _ h => ⟨h.1, fun hl => h.2 (by simpa using hl)⟩
        | external e =>
          exact .bind ((lift_tandem hd _).imp fun _ _ _ _ h => ⟨h, nofun⟩) hawait

theorem popOpened_tandem (hd : Continues base d d') (name : String) :
    Tandem base d d' (popOpened name) (popOpened name) fun _ _ => Continues base := by
  refine .bind_get ?_
  rw [hd.opened]
  split
  · exact throw_tandem hd _
  · rename_i top rest hopened
    have hrest : Continues base { d with opened := rest } { d' with opened := rest } :=
      ⟨hd.instructions, rfl, hd.loopDepth, hd.mode, fun hfor =>
        hd.closedInnerLoop (hopened ▸ List.mem_cons_of_mem top hfor)⟩
    refine .bind (Q := fun _ _ => At { d with opened := rest } { d' with opened := rest })
      (.set ⟨rfl, rfl⟩) fun _ _ => ?_
    split
    · exact pure_tandem hrest
    · exact throw_tandem hrest _

theorem closeDirective_tandem (hd : Continues base d d') (name : String) (directive : Directive) :
    Tandem base d d' (closeDirective name directive) (closeDirective name directive)
      (Alike base) := by
  have hone (is : List Instruction) : Tandem base d d' (pure is : Step (List Instruction))
      (pure is) (Alike base) := pure_tandem ⟨rfl, hd⟩
  cases directive with
  | cond | empty | range => exact hone _
  | loop =>
    refine .modify_pure ?_
    rintro _ _ ⟨rfl, rfl⟩
    exact ⟨rfl, hd.instructions, hd.opened, congrArg (· - 1) hd.loopDepth, hd.mode,
      hd.closedInnerLoop⟩
  | defineBlock =>
    refine .modify_pure ?_
    rintro _ _ ⟨rfl, rfl⟩
    exact ⟨rfl, hd.instructions, hd.opened, hd.loopDepth, rfl, hd.closedInnerLoop⟩
  | elseCond | otherwise | set | block | «include» => exact throw_tandem hd _

/-- Behind a loop it is known of both drafts that one has been closed. -/
theorem markClosed_coupled (base : List Instruction) (name : String) (a b : List Instruction) :
    Coupled (Misplaced (Continues base)) (Alike base a b) (do
        if name = "for" then modify fun d => { d with closedInnerLoop := true }
        return a : Step (List Instruction)) (do
        if name = "for" then modify fun d => { d with closedInnerLoop := true }
        return b) (Alike base) := by
  split
  · refine .modify_pure ?_
    rintro s t ⟨rfl, hst⟩
    exact ⟨rfl, hst.instructions, hst.opened, hst.loopDepth, hst.mode, fun _ => rfl⟩
  · exact .pure fun _ _ h => h

theorem closeNode_tandem (hd : Continues base d d') (name : String) :
    Tandem base d d' (closeNode ctx name) (closeNode ctx name) (Alike base) := by
  refine .bind (popOpened_tandem hd name) fun _ _ => .of_at fun s t hst => ?_
  have hmark := markClosed_coupled base name
  have hunknown : Tandem base s t
      (throw (.unknownNode (name ++ "_close") none) : Step (List Instruction))
      (throw (.unknownNode (name ++ "_close") none)) (Alike base) := throw_tandem hst _
  cases hfind : ctx.registry.find? name with
  | none => exact .bind hunknown hmark
  | some handler =>
    match handler with
    | .directive directive => exact .bind (closeDirective_tandem hst name directive) hmark
    | .external ⟨_, some closing⟩ => exact .bind (lift_tandem hst closing) hmark
    | .external ⟨_, none⟩ => exact .bind hunknown hmark

theorem namedNode_tandem (hr : ctx.registry.Grown) (hd : Continues base d d') (node : List Char)
    (inner : Bool) :
    Tandem base d d' (namedNode ctx node inner) (namedNode ctx node inner) (Alike base) := by
  unfold namedNode
  cases inner with
  | true =>
    have htext (a b : List Instruction) : Coupled (Misplaced (Continues base)) (Alike base a b)
        (do return (← parsed (literalText node a)).toList : Step (List Char))
        (do return (← parsed (literalText node b)).toList) (Alike base) := by
      refine .of_at ?_
      rintro s t ⟨rfl, hst⟩
      exact bind_lift_tandem hst fun text => pure_tandem ⟨rfl, hst⟩
    simp only [↓reduceIte]
    split
    · exact throw_tandem hd _
    · exact .bind (openNode_tandem hr hd _ true) htext
  | false =>
    have hadd (a b : List Instruction) : Coupled (Misplaced (Continues base)) (Alike base a b) (do
          modify fun d => a.foldl add d
          return [] : Step (List Char)) (do
          modify fun d => b.foldl add d
          return []) (Alike base) := by
      refine .modify_pure ?_
      rintro s t ⟨rfl, hst⟩
      exact ⟨rfl, hst.addAll a⟩
    simp only [Bool.false_eq_true, ↓reduceIte]
    split
    · exact .bind (closeNode_tandem hd _) hadd
    · exact .bind (openNode_tandem hr hd _ false) hadd

theorem variableNode_tandem (hd : Continues base d d') (content node : List Char) (inner : Bool) :
    Tandem base d d' (variableNode content node inner) (variableNode content node inner)
      (Alike base) := by
  unfold variableNode
  split
  · exact pure_tandem ⟨rfl, hd⟩
  · refine .bind_get ?_
    rw [hd.mode]
    refine bind_lift_tandem hd fun v => .modify_pure ?_
    rintro _ _ ⟨rfl, rfl⟩
    exact ⟨rfl, hd.add (.emit v)⟩

/-- Compiling goes on alike behind a row of instructions. -/
theorem handler_alike (hr : ctx.registry.Grown) (base : List Instruction) :
    (handler ctx).Alike (Continues base) (handler ctx) where
  text cs := .modify fun d d' hd => hd.add (.literal (.ofList cs))
  node content inner := .of_at fun d d' hd => by
    change Tandem base d d' (node ctx content inner) (node ctx content inner) (Alike base)
    unfold node
    split
    · exact pure_tandem ⟨rfl, hd⟩
    · exact variableNode_tandem hd _ _ _
    · exact namedNode_tandem hr hd _ _

end Steps

/-! Drafts at their end. -/

/-- The depth and the mode come from the names that are open. -/
structure Told (d : Draft) : Prop where
  depth : d.loopDepth = d.opened.count "for"
  mode : d.mode = .block → "define_block" ∈ d.opened

namespace Told

theorem start : Told start := ⟨rfl, nofun⟩

theorem opens {name : String} (hd : d.Told) (hfor : name ≠ "for") :
    Told { d with opened := name :: d.opened } :=
  ⟨by rw [hd.depth, List.count_cons_of_ne hfor], fun h => List.mem_cons_of_mem _ (hd.mode h)⟩

theorem closes {name : String} {rest : List String} (hd : d.Told) (ho : d.opened = name :: rest)
    (hfor : name ≠ "for") (hblock : name ≠ "define_block") : Told { d with opened := rest } := by
  refine ⟨by rw [hd.depth, ho, List.count_cons_of_ne hfor], fun h => ?_⟩
  have hmem := hd.mode h
  rw [ho] at hmem
  exact (List.mem_cons.mp hmem).resolve_left (Ne.symm hblock)

/-- The name of a host's handler is not that of a directive. -/
theorem hosted_ne {r : Registry} (hr : r.Grown) {name other : String} {e : External}
    (hfind : r.find? name = some (.external e)) (directive : Directive)
    (hother : (other, directive) ∈ Directive.all) : name ≠ other := by
  rintro rfl
  rw [hr.find?_directive.mpr hother] at hfind
  cases hfind

theorem changes {r : Registry} (hr : r.Grown) {is : List Instruction} (hd : d.Told)
    (h : d.Changes r is d') : d'.Told := by
  cases h with
  | leaves => exact hd
  | openHosted _ hfind => exact hd.opens (hosted_ne hr hfind .loop (by decide))
  | closeHosted _ hfind ho =>
    exact hd.closes ho (hosted_ne hr hfind .loop (by decide))
      (hosted_ne hr hfind .defineBlock (by decide))
  | branch => exact hd
  | openPlain hi =>
    refine hd.opens ?_
    rcases hi with ⟨c, rfl⟩ | ⟨c, rfl⟩ <;> simp [Instruction.name]
  | openEmpty => exact hd.opens (by decide)
  | openLoop =>
    refine ⟨?_, fun h => List.mem_cons_of_mem _ (hd.mode h)⟩
    rw [List.count_cons_self, hd.depth]
  | openBlock =>
    refine ⟨?_, fun _ => List.mem_cons_self⟩
    rw [List.count_cons_of_ne (by decide), hd.depth]
  | closePlain hi ho =>
    refine hd.closes ho ?_ ?_ <;> rcases hi with rfl | rfl | rfl <;> decide
  | closeLoop ho =>
    refine ⟨?_, fun h => ?_⟩
    · rw [hd.depth, ho, List.count_cons_self]
      rfl
    · have hmem := hd.mode h
      rw [ho] at hmem
      exact (List.mem_cons.mp hmem).resolve_left (by decide)
  | closeBlock ho =>
    refine ⟨?_, nofun⟩
    rw [hd.depth, ho, List.count_cons_of_ne (by decide)]

theorem addAll (hd : d.Told) (is : List Instruction) : (is.foldl add d).Told := by
  have hadd (d : Draft) (i : Instruction) : d.Told → (d.add i).Told := by
    cases i with
    | literal text =>
      rw [add, addText_eq]
      exact fun hd => ⟨hd.depth, hd.mode⟩
    | _ => exact fun hd => ⟨hd.depth, hd.mode⟩
  induction is generalizing d with
  | nil => exact hd
  | cons i is ih => exact ih (hadd d i hd)

theorem openNode (hr : ctx.registry.Grown) (hd : d.Told) (node : List Char) (inner : Bool) :
    Ensures (· = d) (openNode ctx node inner) fun _ d' => d'.Told ∧ (inner = true → d' = d) := by
  refine openNode_ensures fun name args handler _ hfind hinner => ?_
  have hopened : ∀ is d', d.Opened ctx.registry handler (.ofList name) is d' →
      (d'.awaiting handler (.ofList name)).Told ∧
        (inner = true → d'.awaiting handler (.ofList name) = d) := by
    rintro is d' ⟨hchanges, hsame⟩
    refine ⟨hd.changes hr hchanges, fun h => ?_⟩
    have hclose := hinner h
    rw [awaiting, hclose, hsame hclose]
    rfl
  cases handler with
  | directive directive =>
    exact .imp (openDirective_changes (hr.find?_directive.mp hfind) _) hopened
  | external e =>
    refine .lift fun is _ => ?_
    rintro _ rfl
    -- what the handler returns does not matter to the names that are open
    refine hopened [] _ ⟨?_, fun _ => rfl⟩
    unfold awaiting
    split
    · exact .openHosted leaves_nil hfind
    · exact .leaves leaves_nil

theorem closeNode (hr : ctx.registry.Grown) (hd : d.Told) (name : String) :
    Ensures (· = d) (closeNode ctx name) fun _ => Told := by
  refine closeNode_ensures (fun directive rest hfind hopened => ?_)
    fun opening closing rest hfind hopened => ?_
  · exact .imp (closeDirective_changes (hr.find?_directive.mp hfind) hopened)
      fun _ _ h => hd.changes hr h
  · refine .lift fun is _ => ?_
    rintro _ rfl
    have hfor : name ≠ "for" := hosted_ne hr hfind .loop (by decide)
    rw [if_neg hfor]
    exact hd.closes hopened hfor (hosted_ne hr hfind .defineBlock (by decide))

theorem handler_keeps (hr : ctx.registry.Grown) : (handler ctx).Keeps Told where
  text cs := .modify fun d hd => hd.addAll [.literal (.ofList cs)]
  node content inner := by
    intro d hd answer d' hrun
    have hnode := node_ensures (Q := fun _ => Told) (fun node inner => hd.openNode hr node inner)
      (hd.closeNode hr) (fun _ _ _ => hd) content inner d rfl answer d' hrun
    rcases hnode with rfl | ⟨is, d₁, hd₁, rfl⟩
    · exact hd
    · exact hd₁.addAll is

end Told

/-- Where no name is open a draft is as at the start, but for its instructions. -/
theorem Told.continues_start (hd : d.Told) (hopened : d.opened = []) :
    Continues d.instructions d .start := by
  refine ⟨(joinRows_nil _).symm, hopened, ?_, ?_, fun hfor => nomatch hfor⟩
  · rw [hd.depth, hopened]
    rfl
  · cases hmode : d.mode with
    | shared => rfl
    | block =>
      have hmem := hd.mode hmode
      rw [hopened] at hmem
      cases hmem

end BraceTemplate.Draft
