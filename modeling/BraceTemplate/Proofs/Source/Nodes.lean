import BraceTemplate.Proofs.Compile.Steps
import BraceTemplate.Proofs.Source.Directives
import BraceTemplate.Proofs.Source.Scanning

/-!
Nodes: what each printed node does to a draft. An opening node adds its instruction and waits for
its closing node, which takes the name away again.
-/
namespace BraceTemplate.Draft
open Source

variable {ctx : CompileContext} {d d' : Draft}

theorem outcome_parsed {α : Type} {r : Except SyntaxFault α} {a : α} (h : r = .ok a) :
    outcome (parsed r) d = (.ok a, d) := by
  subst h
  rfl

/-! Opening nodes. -/

/-- A node with a name at its start, and its arguments. -/
structure Opens (content : List Char) (name : String) (args : List Char) : Prop where
  solid : Text.Solid content
  head : ∃ c cs, content = c :: cs ∧ Arguments.isNameChar c = true
  split : ∃ rest, Arguments.name? content = some (name.toList, rest) ∧ Text.trim rest = args

theorem Opens.directive {name : String} {args : List Char}
    (hname : Arguments.isName name.toList = true) (hargs : Text.Solid args) (hne : args ≠ []) :
    Opens (directive name args) name args := by
  have hend : Ends (' ' :: args) := .cons (by decide)
  obtain ⟨c, cs, hcs, hc⟩ := Name.head ⟨name.toList, hname⟩
  constructor
  · have hn : name.toList ≠ [] := Name.ne_nil ⟨name.toList, hname⟩
    exact (Name.solid ⟨name.toList, hname⟩).around hargs hn hne [' ']
  · exact ⟨c, cs ++ ' ' :: args, congrArg (· ++ ' ' :: args) hcs, hc⟩
  · exact ⟨' ' :: args, name?_append ⟨name.toList, hname⟩ (' ' :: args) hend, hargs.trim_cons⟩

theorem Opens.alone {name : String} (hname : Arguments.isName name.toList = true) :
    Opens name.toList name [] := by
  have hsplit := name?_append ⟨name.toList, hname⟩ [] .nil
  rw [List.append_nil] at hsplit
  exact ⟨Name.solid ⟨name.toList, hname⟩, Name.head ⟨name.toList, hname⟩, [], hsplit, rfl⟩

theorem node_of_name {content : List Char} (hsolid : Text.Solid content)
    (hhead : ∃ c cs, content = c :: cs ∧ Arguments.isNameChar c = true) :
    node ctx content false = (do
      let fragment ← openNode ctx content false
      modify fun d => fragment.foldl add d
      return []) := by
  obtain ⟨c, cs, rfl, hc⟩ := hhead
  have hdollar : c ≠ '$' := Arguments.ne_of_isNameChar hc rfl
  have hslash : c ≠ '/' := Arguments.ne_of_isNameChar hc rfl
  simp [node, hsolid.trim_eq, hdollar, namedNode, hslash]

/-- The draft in which a node of a directive waits for its closing node, if it has one. -/
def waiting (directive : Directive) (name : String) (d : Draft) : Draft :=
  if directive.hasClose then { d with opened := name :: d.opened } else d

theorem outcome_open {content args : List Char} {name : String} {directive : Directive}
    {i : Instruction} (hcontent : Opens content name args)
    (hfind : ctx.registry.find? name = some (.directive directive))
    (hopen : outcome (openDirective ctx directive args) d = (.ok [i], d')) :
    outcome (node ctx content false) d = (.ok [], (d'.waiting directive name).add i) := by
  obtain ⟨hsolid, hhead, rest, hname, hargs⟩ := hcontent
  have hnode : outcome (openNode ctx content false) d = (.ok [i], d'.waiting directive name) := by
    simp only [openNode, hname, String.ofList_toList, hargs, hfind, Bool.false_and,
      Bool.false_eq_true, if_false]
    rw [outcome_bind_ok hopen]
    unfold waiting
    show outcome (if directive.hasClose = true then _ else _) _ = _
    split <;> rfl
  rw [node_of_name hsolid hhead, outcome_bind_ok hnode]
  rfl

/-! Closing nodes. -/

theorem outcome_close {name : String} {directive : Directive} {i : Instruction}
    {opened : List String} (hname : Arguments.isName name.toList = true)
    (hfind : ctx.registry.find? name = some (.directive directive))
    (hopened : d.opened = name :: opened)
    (hclose : outcome (closeDirective name directive) { d with opened := opened } = (.ok [i], d')) :
    outcome (node ctx ('/' :: name.toList) false) d =
      (.ok [], (if name = "for" then { d' with closedInnerLoop := true } else d').add i) := by
  have hsolid := Name.solid ⟨name.toList, hname⟩
  have hcontent : Text.Solid ('/' :: name.toList) := solid_cons (by decide) hsolid
  have hnode : node ctx ('/' :: name.toList) false = (do
      let fragment ← closeNode ctx name
      modify fun d => fragment.foldl add d
      return []) := by
    have htrim : Text.trim name.toList = name.toList := hsolid.trim_eq
    simp [node, hcontent.trim_eq, namedNode, htrim]
  have hrun : outcome (closeNode ctx name) d =
      (.ok [i], if name = "for" then { d' with closedInnerLoop := true } else d') := by
    rw [closeNode, outcome_bind_ok (outcome_popOpened hopened)]
    simp only [hfind]
    rw [outcome_bind_ok hclose]
    split <;> rfl
  rw [hnode, outcome_bind_ok hrun]
  rfl

/-! The built-in directives. -/

/-- The name that a directive is registered under. -/
structure Known (name : String) (directive : Directive) : Prop where
  isName : Arguments.isName name.toList = true
  head : ∃ c cs, name.toList = c :: cs ∧ Markup.startsNode c = true
  find : Registry.builtin.find? name = some (.directive directive)

theorem known {e : String × Directive} (h : e ∈ Directive.all) : Known e.1 e.2 := by
  unfold Directive.all at h
  simp only [List.mem_cons, List.not_mem_nil, or_false] at h
  rcases h with rfl | rfl | rfl | rfl | rfl | rfl | rfl | rfl | rfl | rfl <;>
    exact ⟨by decide, ⟨_, _, rfl, by decide⟩, rfl⟩

variable {dir : Option (List Char)} {name : String} {directive : Directive}
  {args cs : List Char} {i : Instruction}

section Registered

variable (hknown : (name, directive) ∈ Directive.all)
  (hfind : ctx.registry.find? name = some (.directive directive))
include hknown hfind

/-- Reading the node of a directive whose arguments come to these, wherever its name is that of the
directive. -/
theorem reading_opening (hargs : Text.Solid args) (hne : args ≠ [])
    (hyields : Markup.Yields (handler ctx) cs args)
    (hopen : outcome (openDirective ctx directive args) d = (.ok [i], d')) :
    Reading ctx d (Source.node (Source.directive name cs)) ((d'.waiting directive name).add i) := by
  obtain ⟨hname, ⟨c, ds, hcs, hc⟩, -⟩ := known hknown
  have hinert : Inert (name.toList ++ [' ']) :=
    (Inert.name ⟨name.toList, hname⟩).append (.cons (by decide) .nil)
  have hcontent := (Markup.Verbatim.of_inert hinert).becomes.yields hyields
  rw [List.append_assoc, List.append_assoc] at hcontent
  exact .node ⟨c, ds ++ ' ' :: cs, congrArg (· ++ ' ' :: cs) hcs, hc⟩ hcontent
    (outcome_open (.directive hname hargs hne) hfind hopen)

/-- Reading the node that closes the innermost open one. -/
theorem reading_closing {opened : List String} (hopened : d.opened = name :: opened)
    (hclose : outcome (closeDirective name directive) { d with opened := opened } = (.ok [i], d')) :
    Reading ctx d (Source.node ('/' :: name.toList))
      ((if name = "for" then { d' with closedInnerLoop := true } else d').add i) := by
  obtain ⟨hname, -, -⟩ := known hknown
  exact .node ⟨'/', name.toList, rfl, rfl⟩
    (.of_inert (.cons (by decide) (.name ⟨name.toList, hname⟩)))
    (outcome_close hname hfind hopened hclose)

end Registered

/-- Reading the node of a directive with arguments. -/
theorem reading_directive (hknown : (name, directive) ∈ Directive.all) (hargs : Text.Solid args)
    (hne : args ≠ []) (hverbatim : Markup.Verbatim (handler ⟨.builtin, dir⟩) args)
    (hopen : outcome (openDirective ⟨.builtin, dir⟩ directive args) d = (.ok [i], d')) :
    Reading ⟨.builtin, dir⟩ d (Source.node (Source.directive name args))
      ((d'.waiting directive name).add i) :=
  reading_opening hknown (known hknown).find hargs hne hverbatim.becomes.alone hopen

/-- Reading the node of a directive without arguments. -/
theorem reading_alone (hknown : (name, directive) ∈ Directive.all)
    (hopen : outcome (openDirective ⟨.builtin, dir⟩ directive []) d = (.ok [i], d')) :
    Reading ⟨.builtin, dir⟩ d (Source.node name.toList) ((d'.waiting directive name).add i) := by
  obtain ⟨hname, hhead, hfind⟩ := known hknown
  have hrun := outcome_open (.alone hname) hfind hopen
  exact .node hhead (.of_inert (.name ⟨name.toList, hname⟩)) hrun

theorem reading_close {opened : List String} (hknown : (name, directive) ∈ Directive.all)
    (hopened : d.opened = name :: opened)
    (hclose : outcome (closeDirective name directive) { d with opened := opened } = (.ok [i], d')) :
    Reading ⟨.builtin, dir⟩ d (Source.node ('/' :: name.toList))
      ((if name = "for" then { d' with closedInnerLoop := true } else d').add i) :=
  reading_closing hknown (known hknown).find hopened hclose

/-! Arguments that are written in any way. -/

section Written

variable {text : List Char} {e : Expr}

theorem outcome_set (target : Dotted) (hsolid : Text.Solid text)
    (hparse : Expr.parse d.mode text = .ok e) :
    outcome (openDirective ctx .set (target.print ++ ' ' :: '=' :: ' ' :: text)) d =
      (.ok [.assign (target.path d.mode) e], d) := by
  rw [openDirective, outcome_bind_ok outcome_get]
  exact outcome_bind_ok (outcome_parsed (assignment_value target hsolid hparse)) _

theorem outcome_condition (name : String) (hne : text ≠ [])
    (hparse : Expr.parse d.mode text = .ok e) :
    outcome (condition name text) d = (.ok e, d) := by
  rw [condition, if_neg hne, outcome_bind_ok outcome_get]
  exact outcome_parsed hparse

theorem outcome_if (hne : text ≠ []) (hparse : Expr.parse d.mode text = .ok e) :
    outcome (openDirective ctx .cond text) d = (.ok [.beginIf e], d) := by
  rw [openDirective, outcome_bind_ok outcome_get]
  exact outcome_bind_ok (outcome_condition "if" hne hparse) _

theorem outcome_for (key : Option Name) (value : Name) (hsolid : Text.Solid text) (hne : text ≠ [])
    (hbreak : '\n' ∉ text) (hparse : Expr.parse d.mode text = .ok e) :
    outcome (openDirective ctx .loop (printKey key ++ '$' :: (value.chars ++
      ' ' :: 'i' :: 'n' :: ' ' :: text))) d =
      (.ok [.beginFor ⟨key.map fun k => .simple d.mode k.text, .simple d.mode value.text, e,
        d.loopDepth + 1⟩], { d with loopDepth := d.loopDepth + 1, closedInnerLoop := false }) := by
  have hloop : Arguments.loop d.mode (d.loopDepth + 1) _ = _ :=
    loop_collection hsolid hne hbreak key value hparse
  rw [openDirective, outcome_bind_ok outcome_get]
  refine (outcome_bind_ok ?_ _).trans rfl
  rw [openLoop, outcome_bind_ok outcome_get, outcome_bind_ok (outcome_parsed hloop)]
  rfl

theorem outcome_invoke {es : List Expr} {name : String}
    (hparse : Arguments.invocation d.mode text = .ok (name, es)) :
    outcome (openDirective ctx .block text) d = (.ok [.invoke name es], d) := by
  rw [openDirective, outcome_bind_ok outcome_get]
  exact outcome_bind_ok (outcome_parsed hparse) _

theorem outcome_include {parts : List IncludePart}
    (hparse : Arguments.includePath d.mode ctx.dir text = .ok (some parts)) :
    outcome (openDirective ctx .include text) d = (.ok [.include parts], d) := by
  rw [openDirective, outcome_bind_ok outcome_get]
  exact outcome_bind_ok (outcome_parsed hparse) _

end Written

/-! Pieces without a body. -/

/-- The draft behind complete pieces with the given instructions. -/
def behind (d : Draft) (is : List Instruction) (loops : Bool) : Draft :=
  { d with emitted := is.reverse ++ d.emitted, closedInnerLoop := loops || d.closedInnerLoop }

theorem behind_behind (d : Draft) (is js : List Instruction) (loops loops' : Bool) :
    (d.behind is loops).behind js loops' = d.behind (is ++ js) (loops || loops') := by
  simp [behind, Bool.or_left_comm, Bool.or_assoc]

theorem reading_emit (v : Variable) :
    Reading ⟨.builtin, dir⟩ d (Source.node v.print) (d.behind [.emit (v.var d.mode)] false) := by
  refine .node ⟨'$', _, rfl, rfl⟩ (.of_inert v.inert) ?_
  have hnode : node ⟨.builtin, dir⟩ v.print false = variableNode v.print v.print false := by
    unfold node
    rw [v.solid.trim_eq]
    rfl
  rw [hnode, variableNode, if_neg (by decide), outcome_bind_ok outcome_get,
    outcome_bind_ok (outcome_parsed (v.parse_print d.mode))]
  rfl

theorem reading_set (target : Dotted) {value : Term} (hdepth : value.depth < maxExprNesting) :
    Reading ⟨.builtin, dir⟩ d
      (Source.node (Source.directive "set" (target.print ++ ' ' :: '=' :: ' ' :: value.print 1)))
      (d.behind [.assign (target.path d.mode) (value.expr d.mode)] false) := by
  have hne : target.print ≠ [] := List.cons_ne_nil _ _
  have hsolid := target.solid.around (value.solid 1) hne (value.print_ne_nil 1) [' ', '=', ' ']
  have hinert : Inert (target.print ++ ' ' :: '=' :: ' ' :: value.print 1) :=
    target.inert.append (.cons (by decide) (.cons (by decide) (.cons (by decide) (value.inert 1))))
  exact reading_directive (by decide : ("set", Directive.set) ∈ Directive.all) hsolid
    (by simp [hne]) (.of_inert hinert)
    (outcome_set target (value.solid 1) (value.parse_print hdepth))

theorem reading_invoke (n : Name) {args : List Term}
    (hdepth : ∀ e ∈ args, e.depth < maxExprNesting) :
    Reading ⟨.builtin, dir⟩ d
      (Source.node (Source.directive "block" (n.chars ++ args.flatMap fun e => ' ' :: e.print 6)))
      (d.behind [.invoke n.text (exprs d.mode args)] false) := by
  have hinert : Inert (n.chars ++ args.flatMap fun e => ' ' :: e.print 6) :=
    (Inert.name n).append (.flatMap fun e _ => .cons (by decide) (e.inert 6))
  have hsolid : Text.Solid (n.chars ++ args.flatMap fun e => ' ' :: e.print 6) :=
    n.solid.joined [' '] n.ne_nil fun e _ => ⟨e.solid 6, e.print_ne_nil 6⟩
  exact reading_directive (by decide : ("block", Directive.block) ∈ Directive.all) hsolid
    (by simp [n.ne_nil]) (.of_inert hinert) (outcome_invoke (invocation_print n hdepth))

theorem verbatim_part (p : Part) : Markup.Verbatim (handler ⟨.builtin, dir⟩) p.print := by
  cases p with
  | text t => exact .of_inert t.inert
  | var v =>
    refine .node ⟨'$', _, rfl, rfl⟩ (.of_inert v.inert) fun s => ?_
    show outcome (node _ v.print true) s = _
    unfold node
    rw [v.solid.trim_eq]
    rfl

theorem solid_reference (r : Reference) :
    Text.Solid (r.parts.flatMap Part.print) ∧ r.parts.flatMap Part.print ≠ [] := by
  cases hr : r.parts with
  | nil => exact absurd hr r.nonempty
  | cons p ps =>
    exact ⟨p.solid.joined [] p.print_ne_nil fun q _ => ⟨q.solid, q.print_ne_nil⟩,
      by simp [p.print_ne_nil]⟩

/-- Wherever the name is that of the directive, the node of an include adds its instruction. -/
theorem outcome_includeNode (hfind : ctx.registry.find? "include" = some (.directive .include))
    (r : Reference) :
    outcome (node ctx (Source.directive "include" (r.parts.flatMap Part.print)) false) d =
      (.ok [], d.add (.include (Arguments.anchor ctx.dir (r.parts.map (Part.part d.mode))))) := by
  obtain ⟨hsolid, hne⟩ := solid_reference r
  exact outcome_open (.directive (by decide) hsolid hne) hfind
    (outcome_include (includePath_print _ r))

theorem reading_include (r : Reference) :
    Reading ⟨.builtin, dir⟩ d
      (Source.node (Source.directive "include" (r.parts.flatMap Part.print)))
      (d.behind [.include (Arguments.anchor dir (r.parts.map (Part.part d.mode)))] false) := by
  obtain ⟨hsolid, hne⟩ := solid_reference r
  exact reading_directive (by decide : ("include", Directive.include) ∈ Directive.all) hsolid hne
    (.flatMap fun p _ => verbatim_part p) (outcome_include (includePath_print _ r))

/-! Sections. -/

/-- The draft inside of a section that an instruction opens. -/
def enter (d : Draft) (name : String) (i : Instruction) : Draft :=
  { d with emitted := i :: d.emitted, opened := name :: d.opened }

/-- The draft behind the instruction that closes a section. -/
def leave (d : Draft) (opened : List String) (i : Instruction) : Draft :=
  { d with emitted := i :: d.emitted, opened := opened }

theorem outcome_insideIf (name : String) (h : d.opened.head? = some "if") :
    outcome (insideIf name) d = (.ok (), d) := by
  rw [insideIf, outcome_bind_ok outcome_get, if_pos h]
  rfl

theorem reading_if {c : Term} (hdepth : c.depth < maxExprNesting) :
    Reading ⟨.builtin, dir⟩ d (Source.node (Source.directive "if" (c.print 1)))
      (d.enter "if" (.beginIf (c.expr d.mode))) :=
  reading_directive (by decide : ("if", Directive.cond) ∈ Directive.all) (c.solid 1)
    (c.print_ne_nil 1) (.of_inert (c.inert 1))
    (outcome_if (c.print_ne_nil 1) (c.parse_print hdepth))

theorem reading_elseIf {c : Term} (hdepth : c.depth < maxExprNesting)
    (hopened : d.opened.head? = some "if") :
    Reading ⟨.builtin, dir⟩ d (Source.node (Source.directive "elseif" (c.print 1)))
      (d.behind [.elseIf (c.expr d.mode)] false) := by
  have hrun : outcome (openDirective ⟨.builtin, dir⟩ .elseCond (c.print 1)) d =
      (.ok [.elseIf (c.expr d.mode)], d) := by
    rw [openDirective, outcome_bind_ok outcome_get]
    refine (outcome_bind_ok (outcome_insideIf "elseif" hopened) _).trans ?_
    exact outcome_bind_ok (outcome_condition "elseif" (c.print_ne_nil 1) (c.parse_print hdepth)) _
  exact reading_directive (by decide : ("elseif", Directive.elseCond) ∈ Directive.all) (c.solid 1)
    (c.print_ne_nil 1) (.of_inert (c.inert 1)) hrun

theorem reading_else (hopened : d.opened.head? = some "if") :
    Reading ⟨.builtin, dir⟩ d (Source.node "else".toList) (d.behind [.otherwise] false) := by
  have hrun : outcome (openDirective ⟨.builtin, dir⟩ .otherwise []) d = (.ok [.otherwise], d) := by
    rw [openDirective, outcome_bind_ok outcome_get]
    exact outcome_bind_ok (outcome_insideIf "else" hopened) _
  exact reading_alone (by decide : ("else", Directive.otherwise) ∈ Directive.all) hrun

theorem reading_endIf {opened : List String} (hopened : d.opened = "if" :: opened) :
    Reading ⟨.builtin, dir⟩ d (Source.node "/if".toList) (d.leave opened .endIf) :=
  reading_close (by decide : ("if", Directive.cond) ∈ Directive.all) hopened rfl

/-- A loop starts without a closed loop in it. -/
def enterLoop (d : Draft) (loop : Loop) : Draft :=
  { d.enter "for" (.beginFor loop) with loopDepth := d.loopDepth + 1, closedInnerLoop := false }

theorem reading_for (key : Option Name) (value : Name) {collection : Term}
    (hdepth : collection.depth < maxExprNesting) :
    Reading ⟨.builtin, dir⟩ d
      (Source.node (Source.directive "for" (printKey key ++ '$' :: (value.chars ++
        ' ' :: 'i' :: 'n' :: ' ' :: collection.print 1))))
      (d.enterLoop ⟨key.map fun k => .simple d.mode k.text, .simple d.mode value.text,
        collection.expr d.mode, d.loopDepth + 1⟩) :=
  reading_directive (by decide : ("for", Directive.loop) ∈ Directive.all)
    (solid_loop key value (collection.solid 1) (collection.print_ne_nil 1))
    (by cases key <;> simp [printKey]) (.of_inert (inert_loop key value (collection.inert 1)))
    (outcome_for key value (collection.solid 1) (collection.print_ne_nil 1)
      (collection.inert 1).no_break (collection.parse_print hdepth))

theorem reading_endFor {opened : List String} (hopened : d.opened = "for" :: opened) :
    Reading ⟨.builtin, dir⟩ d (Source.node "/for".toList)
      { d.leave opened .endFor with loopDepth := d.loopDepth - 1, closedInnerLoop := true } :=
  reading_close (by decide : ("for", Directive.loop) ∈ Directive.all) hopened rfl

theorem reading_empty :
    Reading ⟨.builtin, dir⟩ d (Source.node "empty".toList) (d.enter "empty" d.emptySection) := by
  have hrun : outcome (openDirective ⟨.builtin, dir⟩ .empty []) d = (.ok [d.emptySection], d) := rfl
  have hadd : (d.waiting .empty "empty").add d.emptySection = d.enter "empty" d.emptySection := by
    unfold emptySection
    split <;> rfl
  rw [← hadd]
  exact reading_alone (by decide : ("empty", Directive.empty) ∈ Directive.all) hrun

theorem reading_endEmpty {opened : List String} (hopened : d.opened = "empty" :: opened) :
    Reading ⟨.builtin, dir⟩ d (Source.node "/empty".toList) (d.leave opened .endEmpty) :=
  reading_close (by decide : ("empty", Directive.empty) ∈ Directive.all) hopened rfl

theorem reading_define (n : Name) (params : List Name) (hopened : "define_block" ∉ d.opened) :
    Reading ⟨.builtin, dir⟩ d
      (Source.node (Source.directive "define_block" (n.chars ++
        params.flatMap fun p => ' ' :: '$' :: p.chars)))
      { d.enter "define_block" (.beginBlock n.text (params.map Name.text)) with
        mode := .block } := by
  have hrun : outcome (openDirective ⟨.builtin, dir⟩ .defineBlock (n.chars ++
      params.flatMap fun p => ' ' :: '$' :: p.chars)) d =
      (.ok [.beginBlock n.text (params.map Name.text)], { d with mode := .block }) := by
    rw [openDirective, outcome_bind_ok outcome_get]
    refine (outcome_bind_ok ?_ _).trans rfl
    rw [openBlock, outcome_bind_ok outcome_get, if_neg hopened,
      outcome_bind_ok (outcome_parsed (blockHead_print n params))]
    rfl
  have hsolid : Text.Solid (n.chars ++ params.flatMap fun p => ' ' :: '$' :: p.chars) :=
    n.solid.joined [' '] n.ne_nil fun p _ => ⟨solid_cons (by decide) p.solid, by simp⟩
  have hinert : Inert (n.chars ++ params.flatMap fun p => ' ' :: '$' :: p.chars) :=
    (Inert.name n).append (.flatMap fun p _ => .cons (by decide) (.cons (by decide) (.name p)))
  exact reading_directive (by decide : ("define_block", Directive.defineBlock) ∈ Directive.all)
    hsolid (by simp [n.ne_nil]) (.of_inert hinert) hrun

theorem reading_endDefine {opened : List String} (hopened : d.opened = "define_block" :: opened) :
    Reading ⟨.builtin, dir⟩ d (Source.node "/define_block".toList)
      { d.leave opened .endBlock with mode := .shared } :=
  reading_close (by decide : ("define_block", Directive.defineBlock) ∈ Directive.all) hopened rfl

theorem reading_range (counter : Name) (start : BoundTerm) (step : Option Source.Step)
    (stop : BoundTerm) :
    Reading ⟨.builtin, dir⟩ d
      (Source.node (Source.directive "range" ('$' :: (counter.chars ++ ' ' :: '=' :: ' ' ::
        (start.print ++ '.' :: (printStep step ++ stop.print))))))
      (d.enter "range" (.beginRange ⟨.simple d.mode counter.text, start.bound d.mode,
        stepBound d.mode step, stop.bound d.mode⟩)) := by
  have hrun : outcome (openDirective ⟨.builtin, dir⟩ .range ('$' :: (counter.chars ++
      ' ' :: '=' :: ' ' :: (start.print ++ '.' :: (printStep step ++ stop.print))))) d =
      (.ok [.beginRange ⟨.simple d.mode counter.text, start.bound d.mode, stepBound d.mode step,
        stop.bound d.mode⟩], d) := by
    rw [openDirective, outcome_bind_ok outcome_get]
    exact outcome_bind_ok (outcome_parsed (counting_print counter start step stop)) _
  exact reading_directive (by decide : ("range", Directive.range) ∈ Directive.all)
    (solid_counting counter start step stop) (List.cons_ne_nil _ _)
    (.of_inert (inert_counting counter start step stop)) hrun

theorem reading_endRange {opened : List String} (hopened : d.opened = "range" :: opened) :
    Reading ⟨.builtin, dir⟩ d (Source.node "/range".toList) (d.leave opened .endRange) :=
  reading_close (by decide : ("range", Directive.range) ∈ Directive.all) hopened rfl

end BraceTemplate.Draft
