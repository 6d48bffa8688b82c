import Mathlib
import BraceTemplate.Proofs.Source.Inner
import BraceTemplate.Proofs.Source.Nodes
import BraceTemplate.Proofs.Source.Room

/-!
Variables as arguments of directives. A node that is printed by itself when it stands in the text is
the same variable in the arguments of a directive, provided that the braces in its content are
paired: the end of the variable is found by counting braces, also where these are quoted.
-/
namespace BraceTemplate

namespace Draft
open Markup

variable {ctx : CompileContext} {v content : List Char}

/-- The content of the node that is written in this way, if it is one node up to its end. -/
def nodeContent? (ctx : CompileContext) (v : List Char) : Option (List Char) :=
  match readContent (Position.start.after '\x7b') (v ++ ['\x7d']) with
  | .closed parts _ [] => content? ctx parts
  | _ => none

theorem nodeContent?_eq_some (h : nodeContent? ctx v = some content) : ∃ parts next,
    readContent (Position.start.after '\x7b') (v ++ ['\x7d']) = .closed parts next [] ∧
      Spells v parts ∧ content? ctx parts = some content := by
  unfold nodeContent? at h
  split at h
  · rename_i parts next hread
    obtain ⟨w, hw, hspells⟩ := exists_spells hread
    obtain rfl : v = w := List.append_cancel_right hw
    exact ⟨parts, next, hread, hspells, h⟩
  · cases h

/-- A node with a dollar sign at its start has it at the start of its content. -/
theorem head?_content {parts : List Part} (hspells : Spells v parts) (hhead : v.head? = some '$')
    (hcontent : content? ctx parts = some content) : content.head? = some '$' := by
  cases hspells with
  | nil => cases hhead
  | escaped | comment | node => simp [Source.node] at hhead
  | char =>
    obtain ⟨others, -, rfl⟩ := content?_char hcontent
    exact hhead

theorem trim_dollar (hhead : content.head? = some '$') :
    ∃ rest, Text.trim content = '$' :: rest :=
  List.head?_eq_some_iff.mp (Source.head?_trim_dollar hhead)

/-- Inside of another node a variable stands for itself. -/
theorem outcome_inner (hhead : content.head? = some '$') (d : Draft) :
    outcome (node ctx content true) d = (.ok (Source.node content), d) := by
  obtain ⟨rest, hrest⟩ := trim_dollar hhead
  unfold node
  rw [hrest]
  rfl

/-- In the text a variable is printed if it can be read. -/
theorem outcome_outer (hhead : content.head? = some '$') {d d' : Draft} {answer : List Char}
    (hrun : outcome (node ctx content false) d = (.ok answer, d')) :
    ∃ e, Var.parse d.mode content = .ok e ∧ answer = [] ∧ d' = d.add (.emit e) := by
  obtain ⟨rest, hrest⟩ := trim_dollar hhead
  have hbare : Parse.bare (Text.trim content) = Parse.bare content := by
    rw [Parse.bare, (Text.solid_trim content).trim_eq, Parse.bare]
  unfold node at hrun
  rw [hrest] at hrun hbare
  change outcome (variableNode content ('$' :: rest) false) d = _ at hrun
  rw [variableNode, if_neg (by decide), outcome_bind_ok outcome_get] at hrun
  have hparse : Var.parse d.mode ('$' :: rest) = Var.parse d.mode content :=
    Source.variableOf_bare hbare maxExprNesting
  rw [hparse] at hrun
  cases hvar : Var.parse d.mode content with
  | error f =>
    rw [hvar] at hrun
    cases hrun
  | ok e =>
    rw [hvar] at hrun
    cases hrun
    exact ⟨e, rfl, rfl, rfl⟩

/-- A source that is one node of a variable and compiles to printing it has read that variable. -/
theorem parse_of_compile {r : Registry} {dir : Option String} {e : Var} {t : Template}
    (hhead : v.head? = some '$') (hcontent : nodeContent? ⟨r, dir.map slashed⟩ v = some content)
    (hcompile : compile r (.ofList (Source.node v)) dir = .ok t)
    (hemit : t.instructions.toList = [.emit e]) : Var.parse .shared content = .ok e := by
  obtain ⟨parts, next, hread, hspells, hcontent⟩ := nodeContent?_eq_some hcontent
  have hbody : Markup.read (Source.node v) = .node [] .start parts (.text []) := by
    obtain ⟨name, rfl⟩ := List.head?_eq_some_iff.mp hhead
    rw [Markup.read, Source.node, readBody_cons, List.cons_append, List.head?_cons]
    have hopening : Markup.head '\x7b' (some '$') = .opening := by decide
    rw [List.cons_append] at hread
    rw [hopening]
    dsimp only
    rw [hread]
    dsimp only
    rw [readBody_nil]
  obtain ⟨draft, hwalk, -, hlink⟩ := compile_eq_ok_iff.mp hcompile
  rw [String.toList_ofList, walk_eq, hbody] at hwalk
  simp only [Body.handOver, Handler.run, Part.answer, pure_bind, bind_assoc] at hwalk
  rw [outcome_bind_ok (outcome_contents hcontent .start)] at hwalk
  obtain ⟨answer, d, hnode, hwalk⟩ := outcome_bind_eq_ok hwalk
  obtain ⟨e', hparse, rfl, rfl⟩ :=
    outcome_outer (head?_content hspells hhead hcontent) (outcome_located_ok.mp hnode)
  cases hwalk
  rw [(Template.ofInstructions_eq_ok_iff.mp hlink).1] at hemit
  cases hemit
  exact hparse

end Draft

namespace Source

variable {mode : Mode} {content : List Char} {v : Var}

/-! A variable between braces. -/

/-- The braces take one level of nesting. -/
theorem reads_braced (source : String)
    (hv : Parse.variableOf mode (maxExprNesting - 1) content = .ok v) :
    Reads mode source (.constant [.var content] (maxExprNesting - 1) (.var v)) :=
  .var fun hroom => variableOf_mono hroom hv

theorem parse_braced (hpaired : Delimiter.Paired content)
    (hv : Parse.variableOf mode (maxExprNesting - 1) content = .ok v) :
    Expr.parse mode (node content) = .ok (.var v) := by
  have htext : Lexes (.ofList (node content)) (node content ++ []) [.var content] :=
    lexes_braced hpaired .empty
  rw [List.append_nil] at htext
  exact (reads_braced _ hv).complete htext (Nat.lt_succ_self (maxExprNesting - 1))

/-- Operands side by side, of which one is a variable between braces. -/
theorem parseArguments_braced (hpaired : Delimiter.Paired content)
    (hv : Parse.variableOf mode (maxExprNesting - 1) content = .ok v) {before after : List Term}
    (hbefore : ∀ e ∈ before, e.depth < maxExprNesting)
    (hafter : ∀ e ∈ after, e.depth < maxExprNesting) {text : List Char}
    (htext : ' ' :: text = (before.flatMap fun e => ' ' :: e.print 6) ++
      ' ' :: (node content ++ after.flatMap fun e => ' ' :: e.print 6)) :
    Expr.parseArguments mode text = .ok (exprs mode before ++ .var v :: exprs mode after) := by
  have hlexes (source : String) : Lexes source text (before.flatMap (Term.tokens 6) ++
      .var content :: after.flatMap (Term.tokens 6)) := by
    have hbehind : Lexes source _ _ := (lexes_operands after .nil .empty).2
    have hall := (lexes_operands before (.cons (.inl rfl)) (lexes_braced hpaired hbehind).blank).2
    simp only [List.append_nil] at hall
    refine .of_blank ?_
    rw [htext]
    exact hall
  let braced : Written := .constant [.var content] (maxExprNesting - 1) (.var v)
  have hreads : ∀ w ∈ before.map (Term.written mode) ++ braced :: after.map (Term.written mode),
      Reads mode (.ofList text) w ∧ w.depth 6 < maxExprNesting := by
    rw [List.forall_mem_append, List.forall_mem_cons]
    exact ⟨reads_operands mode _ hbefore,
      ⟨reads_braced _ hv, Nat.lt_succ_self (maxExprNesting - 1)⟩, reads_operands mode _ hafter⟩
  have htokens : Lexes (.ofList text) text ((before.map (Term.written mode) ++
      braced :: after.map (Term.written mode)).flatMap (Written.tokens · 6)) := by
    rw [List.flatMap_append, List.flatMap_cons, flatMap_written, flatMap_written]
    exact hlexes _
  rw [parseArguments_eq hreads htokens, List.map_append, List.map_cons, List.map_map, List.map_map,
    exprs_eq_map, exprs_eq_map]
  rfl

/-! Directives that use a variable. -/

/-- How a directive uses an expression: as the value that it assigns, as its condition, as the
collection of a loop, as one of the arguments of a block, or as the path of an include. -/
inductive Usage where
  | value (target : Dotted)
  | condition
  | collection (key : Option Name) (value : Name)
  | argument (block : Name) (before after : List Term)
  | path

namespace Usage

def name : Usage → String
  | value _ => "set"
  | condition => "if"
  | collection _ _ => "for"
  | argument _ _ _ => "block"
  | path => "include"

def directive : Usage → Directive
  | value _ => .set
  | condition => .cond
  | collection _ _ => .loop
  | argument _ _ _ => .block
  | path => .include

/-- The arguments in front of the expression. -/
def front : Usage → List Char
  | value target => target.print ++ [' ', '=', ' ']
  | collection key item => printKey key ++ '$' :: (item.chars ++ [' ', 'i', 'n', ' '])
  | argument block before _ => block.chars ++ ((before.flatMap fun e => ' ' :: e.print 6) ++ [' '])
  | condition | path => []

/-- The arguments behind the expression. -/
def back : Usage → List Char
  | argument _ _ after => after.flatMap fun e => ' ' :: e.print 6
  | _ => []

def args (u : Usage) (text : List Char) : List Char := u.front ++ (text ++ u.back)

/-- The nodes of the directive, with nothing between them if there are two. -/
def source (u : Usage) (text : List Char) : List Char :=
  node (Source.directive u.name (u.args text)) ++
    if u.directive.hasClose then node ('/' :: u.name.toList) else []

/-- The instruction of the directive that uses a variable. -/
def opener (v : Var) : Usage → Instruction
  | value target => .assign (target.path .shared) (.var v)
  | condition => .beginIf (.var v)
  | collection key item =>
    .beginFor ⟨key.map fun k => .simple .shared k.text, .simple .shared item.text, .var v, 1⟩
  | argument block before after =>
    .invoke block.text (exprs .shared before ++ .var v :: exprs .shared after)
  | path => .include [.var v]

/-- The instruction of its closing node, if it has one. -/
def closer : Usage → Option Instruction
  | condition => some .endIf
  | collection _ _ => some .endFor
  | _ => none

def instructions (v : Var) (u : Usage) : List Instruction := u.opener v :: u.closer.toList

/-- What the directive asks of the content of the variable's node, and of its other arguments: a
collection stands on one line, the quotes of a path are taken away, and operands nest less deep than
the limit. -/
def Admits (content : List Char) : Usage → Prop
  | collection _ _ => '\n' ∉ content
  | argument _ before after =>
    (∀ e ∈ before, e.depth < maxExprNesting) ∧ ∀ e ∈ after, e.depth < maxExprNesting
  | path => ∀ c ∈ content, Delimiter.isQuote c = false
  | _ => True

variable (u : Usage)

theorem mem_all : (u.name, u.directive) ∈ Directive.all := by
  cases u <;> simp [name, directive, Directive.all]

theorem hasClose_eq : u.directive.hasClose = u.closer.isSome := by cases u <;> rfl

theorem emitted_add (d : Draft) (v : Var) :
    (d.add (u.opener v)).emitted = u.opener v :: d.emitted ∧
      (d.add (u.opener v)).opened = d.opened := by
  cases u <;> exact ⟨rfl, rfl⟩

theorem outcome_closing {i : Instruction} (hcloser : u.closer = some i) (d : Draft) :
    ∃ d', outcome (Draft.closeDirective u.name u.directive) d = (.ok [i], d') ∧
      let closed := if u.name = "for" then { d' with closedInnerLoop := true } else d'
      (closed.add i).emitted = i :: d.emitted ∧ (closed.add i).opened = d.opened := by
  cases u <;> cases hcloser <;> exact ⟨_, rfl, rfl, rfl⟩

theorem inert_front : Inert u.front := by
  cases u with
  | value target =>
    have hequals : Inert [' ', '=', ' '] := .of_check (by decide)
    exact target.inert.append hequals
  | collection key item => exact inert_loop key item .nil
  | argument block before after =>
    have hbefore : Inert (before.flatMap fun e => ' ' :: e.print 6) :=
      .flatMap fun e _ => .cons (by decide) (e.inert 6)
    have hblank : Inert [' '] := .of_check (by decide)
    exact (Inert.name block).append (hbefore.append hblank)
  | condition => exact .nil
  | path => exact .nil

theorem inert_back : Inert u.back := by
  unfold back
  split
  · exact .flatMap fun e _ => .cons (by decide) (e.inert 6)
  · exact .nil

/-- The text of the expression is solid, and so are the arguments with it. -/
theorem solid_args {text : List Char} (hsolid : Text.Solid text) (hne : text ≠ []) :
    Text.Solid (u.args text) ∧ u.args text ≠ [] := by
  refine ⟨?_, by simp [args, hne]⟩
  cases u with
  | value target =>
    have haround := target.solid.around hsolid (List.cons_ne_nil _ _) hne [' ', '=', ' ']
    simpa [args, front, back] using haround
  | condition | path => simpa [args, front, back] using hsolid
  | collection key item =>
    have hloop := solid_loop key item hsolid hne
    simpa [args, front, back] using hloop
  | argument block before after =>
    have hback : Text.Solid (text ++ after.flatMap fun e => [' '] ++ e.print 6) :=
      hsolid.joined [' '] hne fun e _ => ⟨e.solid 6, e.print_ne_nil 6⟩
    have haround := block.solid.around hback block.ne_nil (by simp [hne])
      ((before.flatMap fun e => ' ' :: e.print 6) ++ [' '])
    simpa [args, front, back] using haround

section Reading

variable {ctx : CompileContext} {u} (hhead : content.head? = some '$')
  (hpaired : Delimiter.Paired content)
  (hv : Parse.variableOf .shared (maxExprNesting - 1) content = .ok v) (hadmits : u.Admits content)
include hhead hpaired hv hadmits

/-- With the node of the variable in its arguments, the directive receives the variable. -/
theorem outcome_opening :
    ∃ d, outcome (Draft.openDirective ctx u.directive (u.args (node content))) .start =
      (.ok [u.opener v], d) ∧ d.emitted = [] ∧ d.opened = [] := by
  have hsolid : Text.Solid (node content) := solid_enclosed (by decide) (by decide) content
  have hne : node content ≠ [] := List.cons_ne_nil _ _
  have hparse : Expr.parse .shared (node content) = .ok (.var v) := parse_braced hpaired hv
  cases u with
  | value target =>
    have hargs : (value target).args (node content) =
        target.print ++ ' ' :: '=' :: ' ' :: node content := by simp [args, front, back]
    rw [hargs]
    exact ⟨_, Draft.outcome_set target hsolid hparse, rfl, rfl⟩
  | condition =>
    have hargs : condition.args (node content) = node content := by simp [args, front, back]
    rw [hargs]
    exact ⟨_, Draft.outcome_if hne hparse, rfl, rfl⟩
  | collection key item =>
    have hargs : (collection key item).args (node content) = printKey key ++ '$' ::
        (item.chars ++ ' ' :: 'i' :: 'n' :: ' ' :: node content) := by simp [args, front, back]
    have hline : '\n' ∉ content := hadmits
    have hbreak : '\n' ∉ node content := by simpa [node] using hline
    rw [hargs]
    exact ⟨_, Draft.outcome_for key item hsolid hne hbreak hparse, rfl, rfl⟩
  | argument block before after =>
    obtain ⟨text, htext⟩ : ∃ text, (before.flatMap fun e => ' ' :: e.print 6) ++
        ' ' :: (node content ++ after.flatMap fun e => ' ' :: e.print 6) = ' ' :: text := by
      cases before with
      | nil => exact ⟨_, rfl⟩
      | cons e before => exact ⟨_, rfl⟩
    have hargs : (argument block before after).args (node content) =
        block.chars ++ ' ' :: text := by
      simp [args, front, back, ← htext]
    have hoperands := parseArguments_braced hpaired hv hadmits.1 hadmits.2 htext.symm
    rw [hargs]
    exact ⟨_, Draft.outcome_invoke (invocation_append block (by simp) hoperands), rfl, rfl⟩
  | path =>
    have hargs : path.args (node content) = node content := by simp [args, front, back]
    have hvar : Var.parse .shared content = .ok v := variableOf_mono (Nat.pred_le maxExprNesting) hv
    rw [hargs]
    exact ⟨_, Draft.outcome_include (includePath_braced ctx.dir hhead hpaired hadmits hvar),
      rfl, rfl⟩

/-- Reading the nodes of a directive with a text in its arguments that becomes the node of the
variable. -/
theorem reading (hfind : ctx.registry.find? u.name = some (.directive u.directive))
    {text : List Char} (htext : Markup.Becomes (Draft.handler ctx) text (node content)) :
    ∃ d, Draft.Reading ctx .start (u.source text) d ∧ d.opened = [] ∧
      d.instructions = u.instructions v := by
  have hopening : ∃ d, outcome (Draft.openDirective ctx _ _) _ = _ ∧ _ :=
    outcome_opening hhead hpaired hv hadmits
  obtain ⟨d, hopen, hemitted, hopened⟩ := hopening
  have hyields : Markup.Yields (Draft.handler ctx) (u.args text) (u.args (node content)) :=
    (Markup.Verbatim.of_inert u.inert_front).becomes.yields (htext.yields (.of_inert u.inert_back))
  obtain ⟨hsolid, hne⟩ := u.solid_args (solid_enclosed (by decide) (by decide) content)
    (List.cons_ne_nil '\x7b' (content ++ ['\x7d']))
  have hread := Draft.reading_opening u.mem_all hfind hsolid hne hyields hopen
  have hwaiting := u.emitted_add (d.waiting u.directive u.name) v
  rw [Draft.waiting, hasClose_eq] at hread hwaiting
  rw [source, instructions, hasClose_eq]
  cases hcloser : u.closer with
  | none =>
    simp only [hcloser, Option.isSome_none, Bool.false_eq_true, if_false] at hread hwaiting ⊢
    rw [List.append_nil]
    refine ⟨_, hread, hwaiting.2.trans hopened, ?_⟩
    rw [Draft.instructions, hwaiting.1, hemitted]
    rfl
  | some i =>
    simp only [hcloser, Option.isSome_some, if_true] at hread hwaiting ⊢
    generalize Draft.add _ (u.opener v) = inside at hread hwaiting
    rw [hopened] at hwaiting
    obtain ⟨d', hclose, hlast, hnames⟩ := u.outcome_closing hcloser { inside with opened := [] }
    have hclosing := Draft.reading_closing u.mem_all hfind hwaiting.2 hclose
    refine ⟨_, hread.append hclosing, hnames, ?_⟩
    rw [Draft.instructions, hlast, hwaiting.1, hemitted]
    rfl

end Reading

/-- The program of a directive that uses a variable is balanced. -/
theorem links (v : Var) (dir : Option String) :
    ∃ t, Template.ofInstructions (u.instructions v) dir = .ok t := by
  cases u <;> exact ⟨_, rfl⟩

end Usage

/-- Where the node of a variable by itself compiles to printing that variable, every directive
compiles with the same node as its value, condition, collection or path or as one of its arguments,
and receives just that variable, as long as the braces in the content of the node are paired and
there is one more level of nesting for it. -/
theorem compile_usage {r : Registry} (hr : r.Grown) {dir : Option String} {v content : List Char}
    {e : Var} {t : Template} (hhead : v.head? = some '$')
    (hcontent : Draft.nodeContent? ⟨r, dir.map slashed⟩ v = some content)
    (hcompile : compile r (.ofList (node v)) dir = .ok t)
    (hemit : t.instructions.toList = [.emit e])
    (hdepth : ∀ f, Parse.variableOf .shared (maxExprNesting - 1) content = .error f → ¬TooDeep f)
    (hpaired : Delimiter.Paired content) (u : Usage) (hadmits : u.Admits content) :
    ∃ t', compile r (.ofList (u.source (node v))) dir = .ok t' ∧
      t'.instructions.toList = u.instructions e := by
  have hparse := Draft.parse_of_compile hhead hcontent hcompile hemit
  have he : Parse.variableOf .shared (maxExprNesting - 1) content = .ok e :=
    variableOf_less hparse hdepth
  obtain ⟨parts, -, -, hspells, hparts⟩ := Draft.nodeContent?_eq_some hcontent
  have hinner := Draft.head?_content hspells hhead hparts
  have hbecomes : Markup.Becomes (Draft.handler ⟨r, dir.map slashed⟩) (node v) (node content) := by
    obtain ⟨name, rfl⟩ := List.head?_eq_some_iff.mp hhead
    exact .node ⟨'$', name, rfl, rfl⟩ (Draft.yields_of_spells hspells hparts)
      (Draft.outcome_inner hinner)
  have hfind : r.find? u.name = some (.directive u.directive) := hr.find?_directive.mpr u.mem_all
  obtain ⟨d, hread, hopened, hinstructions⟩ :=
    Usage.reading hinner hpaired he hadmits hfind hbecomes
  obtain ⟨t', hlink⟩ := u.links e dir
  refine ⟨t', compile_eq_ok_iff.mpr ⟨d, ?_, hopened, hinstructions ▸ hlink⟩, ?_⟩
  · rw [String.toList_ofList]
    exact hread.walk
  · rw [(Template.ofInstructions_eq_ok_iff.mp hlink).1]

/-- A path with a variable nested in it. -/
def nestedKey : List Char := "$a.\x7b$b\x7d".toList

/-- A variable as the whole path of an include. -/
theorem compile_usage_nestedKey :
    let e : Var := ⟨⟨.shared, [.key "a", .nested ⟨⟨.shared, [.key "b"]⟩, []⟩]⟩, []⟩
    Registry.builtin.Grown ∧ nestedKey.head? = some '$' ∧
    Draft.nodeContent? ⟨.builtin, none⟩ nestedKey = some nestedKey ∧
    (∃ t, compile .builtin (.ofList (node nestedKey)) none = .ok t ∧
      t.instructions.toList = [.emit e]) ∧
    Parse.variableOf .shared (maxExprNesting - 1) nestedKey = .ok e ∧
    Delimiter.Paired nestedKey ∧ Usage.path.Admits nestedKey ∧
    ∃ t', compile .builtin (.ofList (Usage.path.source (node nestedKey))) none = .ok t' ∧
      t'.instructions.toList = [.include [.var e]] := by
  intro e
  have hcontent : Draft.nodeContent? ⟨.builtin, none⟩ nestedKey = some nestedKey := by cbv
  have hprinted : (compile .builtin (.ofList (node nestedKey)) none).map (·.instructions.toList) =
      .ok [.emit e] := by cbv
  have hread : Parse.variableOf .shared (maxExprNesting - 1) nestedKey = .ok e := by cbv
  have hpaired : Delimiter.Paired nestedKey := by
    have hkey : Delimiter.Paired ['$', 'a', '.'] := .of_plain (by simp)
    have hnested : Delimiter.Paired ['$', 'b'] := .of_plain (by simp)
    exact hkey.append (.braces hnested .nil)
  have hadmits : Usage.path.Admits nestedKey := by
    have hcheck : nestedKey.all (fun c => !Delimiter.isQuote c) = true := by cbv
    intro c hc
    simpa using List.all_eq_true.mp hcheck c hc
  obtain ⟨t, hcompile, hemit⟩ := exists_ok_of_map hprinted
  have hdepth : ∀ f, Parse.variableOf .shared (maxExprNesting - 1) nestedKey = .error f →
      ¬TooDeep f := by
    intro f hf
    rw [hread] at hf
    cases hf
  have hused := @compile_usage .builtin .builtin none nestedKey nestedKey e t rfl hcontent hcompile
    hemit hdepth hpaired .path hadmits
  exact ⟨.builtin, rfl, hcontent, ⟨t, hcompile, hemit⟩, hread, hpaired, hadmits, hused⟩

/-- A variable with a computed index, in which a quoted brace is not closed. -/
def quotedBrace : List Char := "$a.(\"\x7b \")".toList

/-- The node of that variable is printed by itself, but it has no end as the value of an
assignment. -/
theorem quotedBrace_has_no_end :
    let e : Var := ⟨⟨.shared, [.key "a", .index (.literal (.str "\x7b "))]⟩, []⟩
    Draft.nodeContent? ⟨.builtin, none⟩ quotedBrace = some quotedBrace ∧ '\n' ∉ quotedBrace ∧
    (compile .builtin (.ofList (node quotedBrace)) none).map (·.instructions.toList) =
      .ok [.emit e] ∧
    Parse.variableOf .shared (maxExprNesting - 1) quotedBrace = .ok e ∧
    compile .builtin (.ofList ((Usage.value ⟨⟨['x'], rfl⟩, []⟩).source (node quotedBrace))) none =
      .error (.syntaxError (.inExpression .unclosedVariable "\x7b$a.(\"\x7b \")\x7d")
        (some ⟨1, 1⟩)) :=
  ⟨by cbv, by decide, by cbv, by cbv, by cbv⟩

end Source

end BraceTemplate
