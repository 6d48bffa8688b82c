import BraceTemplate.Proofs.Source.Printed
import BraceTemplate.Proofs.Source.Slices

/-! Directives: the printed arguments of each directive are read as what they stand for. -/
namespace BraceTemplate.Source

variable {mode : Mode}

/-- What may stand behind a plain variable. -/
def Ends (rest : List Char) : Prop :=
  ∀ c ∈ rest.head?, Arguments.isNameChar c = false ∧ c ≠ '\x7d'

theorem Ends.nil : Ends [] := by simp [Ends]

theorem Ends.cons {c : Char} {cs : List Char} (h : Arguments.isNameChar c = false ∧ c ≠ '\x7d') :
    Ends (c :: cs) := by simpa [Ends] using h

theorem dropOptional_of_ne {c : Char} {cs : List Char} (h : ∀ d ∈ cs.head?, d ≠ c) :
    Arguments.dropOptional c cs = cs := by
  cases cs with
  | nil => rfl
  | cons d cs => simp [Arguments.dropOptional, h d rfl]

theorem name?_append (n : Name) (rest : List Char) (h : Ends rest) :
    Arguments.name? (n.chars ++ rest) = some (n.chars, rest) := by
  have hcs : ∀ c ∈ n.chars, Arguments.isNameChar c = true := fun _ hc => Name.isNameChar hc
  have hrest : ∀ c ∈ rest.head?, Arguments.isNameChar c = false := fun c hc => (h c hc).1
  unfold Arguments.name?
  rw [takeWhile_append hcs hrest, dropWhile_append hcs hrest]
  split
  · exact absurd ‹_› n.ne_nil
  · rfl

theorem plainVariable?_append (n : Name) (rest : List Char) (h : Ends rest) :
    Arguments.plainVariable? ('$' :: (n.chars ++ rest)) = some (n.text, rest) := by
  have hbrace : Arguments.dropOptional '\x7b' ('$' :: (n.chars ++ rest)) =
      '$' :: (n.chars ++ rest) := dropOptional_of_ne (by simp)
  rw [Arguments.plainVariable?, hbrace]
  simp only [name?_append n rest h, Option.map_some, dropOptional_of_ne fun c hc => (h c hc).2]
  rfl

/-! Loops. -/

section Loop

variable {collection : List Char} (hsolid : Text.Solid collection) (hne : collection ≠ [])
  (hbreak : '\n' ∉ collection)
include hsolid hne hbreak

/-- The collection of a loop is any text on one line. -/
theorem loopValue?_collection (value : Name) :
    Arguments.loopValue? ('$' :: (value.chars ++ ' ' :: 'i' :: 'n' :: ' ' :: collection)) =
      some (value.text, collection) := by
  have hvar := plainVariable?_append value (' ' :: 'i' :: 'n' :: ' ' :: collection)
    (.cons (by decide))
  have hin : Arguments.blanks? (' ' :: 'i' :: 'n' :: ' ' :: collection) =
      some ('i' :: 'n' :: ' ' :: collection) := rfl
  have hdrop : Text.dropLead? ['i', 'n'] ('i' :: 'n' :: ' ' :: collection) =
      some (' ' :: collection) := rfl
  have hblank : Arguments.blanks? (' ' :: collection) = some collection :=
    congrArg some (Text.trimStart_eq hsolid.head)
  have hline : ¬(collection = [] ∨ '\n' ∈ collection) := not_or.mpr ⟨hne, hbreak⟩
  simp only [Arguments.loopValue?, hvar, hin, hdrop, hblank, Option.bind_eq_bind, Option.bind_some,
    if_neg hline]

theorem loop?_collection (key : Option Name) (value : Name) :
    Arguments.loop? (printKey key ++ '$' :: (value.chars ++ ' ' :: 'i' :: 'n' :: ' ' ::
      collection)) = some (key.map Name.text, value.text, collection) := by
  have hvalue := loopValue?_collection hsolid hne hbreak value
  cases key with
  | none =>
    have hvar := plainVariable?_append value (' ' :: 'i' :: 'n' :: ' ' :: collection)
      (.cons (by decide))
    simp [Arguments.loop?, Arguments.loopKey?, printKey, hvar, hvalue]
  | some k =>
    have hvar := plainVariable?_append k (',' :: ' ' :: '$' :: (value.chars ++
      ' ' :: 'i' :: 'n' :: ' ' :: collection)) (.cons (by decide))
    simp [Arguments.loop?, Arguments.loopKey?, printKey, hvar, Text.trimStart, Text.isBlank,
      hvalue]

theorem loop_collection {depth : Nat} {e : Expr} (key : Option Name) (value : Name)
    (hparse : Expr.parse mode collection = .ok e) :
    Arguments.loop mode depth (printKey key ++ '$' :: (value.chars ++ ' ' :: 'i' :: 'n' :: ' ' ::
      collection)) =
    .ok ⟨key.map fun k => .simple mode k.text, .simple mode value.text, e, depth⟩ := by
  simp only [Arguments.loop, loop?_collection hsolid hne hbreak, hparse, ok_bind, Option.map_map]
  rfl

end Loop

/-! Counters. -/

/-- A bound as its argument text is taken apart. -/
def BoundTerm.boundText : BoundTerm → Arguments.BoundText
  | .literal n => .number (printInt n.value)
  | .var name => .name name.text

/-- What may stand behind a bound: its text is over. -/
def Behind (rest : List Char) : Prop :=
  ∀ c ∈ rest.head?, c = '.'

theorem Behind.nil : Behind [] := by simp [Behind]

theorem Behind.cons {c : Char} {cs : List Char} (h : c = '.') : Behind (c :: cs) := by
  simpa [Behind] using h

theorem Behind.ends {rest : List Char} (h : Behind rest) : Ends rest := by
  intro c hc
  rw [h c hc]
  decide

theorem plainVariable?_none {c : Char} {cs : List Char} (hc : c ≠ '$') (hb : c ≠ '\x7b') :
    Arguments.plainVariable? (c :: cs) = none := by
  unfold Arguments.plainVariable?
  rw [dropOptional_of_ne (by simpa using hb)]
  split
  · simp_all
  · rfl

theorem printInt_head (n : Int) : ∃ c cs, printInt n = c :: cs ∧ c ≠ '$' ∧ c ≠ '\x7b' := by
  unfold printInt
  split
  · exact ⟨'-', _, rfl, by decide, by decide⟩
  · obtain ⟨c, cs, hn, hd⟩ := toDigits_cons n.natAbs
    have hc := hd c List.mem_cons_self
    exact ⟨c, cs, hn, ne_of_isDigit hc rfl, ne_of_isDigit hc rfl⟩

theorem integer?_printInt (n : Int) : Decimal.integer? (printInt n) = some n := by
  unfold printInt
  split
  · simp only [Decimal.integer?, Decimal.natural?_toDigits, Option.bind_eq_bind, Option.bind_some,
      Option.pure_def, Option.map_some]
    congr 1
    omega
  · rw [integer?_toDigits]
    congr 1
    omega

theorem boundText?_number {n : Int} {rest : List Char} (h : Behind rest) :
    Arguments.boundText? (printInt n ++ rest) = some (.number (printInt n), rest) := by
  obtain ⟨c, cs, hn, hc, hb⟩ := printInt_head n
  have hplain : Arguments.plainVariable? (printInt n ++ rest) = none := by
    rw [hn, List.cons_append]
    exact plainVariable?_none hc hb
  obtain ⟨d, ds, hdigits, hds⟩ := toDigits_cons n.natAbs
  have hrest : ∀ c ∈ rest.head?, c.isDigit = false := fun c hc => by
    rw [h c hc]
    rfl
  have htake := takeWhile_append hds hrest
  have hdrop := dropWhile_append hds hrest
  unfold Arguments.boundText?
  rw [hplain, printInt, hdigits]
  by_cases hneg : n < 0
  · simp only [if_pos hneg, List.cons_append] at htake hdrop ⊢
    simp only [htake, hdrop, List.nil_append]
  · have hd : d ≠ '-' := ne_of_isDigit (hds d List.mem_cons_self) rfl
    simp only [if_neg hneg, List.cons_append] at htake hdrop ⊢
    simp [hd, htake, hdrop]

theorem boundText?_print (b : BoundTerm) (rest : List Char) (h : Behind rest) :
    Arguments.boundText? (b.print ++ rest) = some (b.boundText, rest) := by
  cases b with
  | var name =>
    unfold Arguments.boundText?
    rw [BoundTerm.print, List.cons_append, plainVariable?_append name rest h.ends]
    rfl
  | literal n => exact boundText?_number h

/-- No bound starts with a point. -/
theorem boundText?_dot (cs : List Char) : Arguments.boundText? ('.' :: cs) = none := by
  unfold Arguments.boundText?
  rw [plainVariable?_none (by decide) (by decide)]
  rfl

theorem BoundTerm.trimStart_print (b : BoundTerm) (rest : List Char) :
    Text.trimStart (' ' :: (b.print ++ rest)) = b.print ++ rest := by
  rw [Text.trimStart_blank]
  refine Text.trimStart_eq fun c hc => b.solid.head c ?_
  rwa [List.head?_append_of_ne_nil _ b.print_ne_nil] at hc

theorem counting?_print (counter : Name) (start : BoundTerm) (step : Option Step)
    (stop : BoundTerm) :
    Arguments.counting? ('$' :: (counter.chars ++ ' ' :: '=' :: ' ' :: (start.print ++ '.' ::
      (printStep step ++ stop.print)))) =
    some ⟨counter.text, start.boundText, step.map fun s => s.bound.boundText, stop.boundText⟩ := by
  have hvar := plainVariable?_append counter (' ' :: '=' :: ' ' :: (start.print ++ '.' ::
    (printStep step ++ stop.print))) (.cons (by decide))
  have hequals : Text.dropLead? ['='] (Text.trimStart (' ' :: '=' :: ' ' :: (start.print ++ '.' ::
      (printStep step ++ stop.print)))) =
      some (' ' :: (start.print ++ '.' :: (printStep step ++ stop.print))) := rfl
  have hstart := boundText?_print start ('.' :: (printStep step ++ stop.print)) (.cons rfl)
  have hstop := boundText?_print stop [] .nil
  rw [List.append_nil] at hstop
  simp only [Arguments.counting?, hvar, hequals, start.trimStart_print, hstart,
    Option.bind_eq_bind, Option.bind_some, Arguments.dot?]
  cases step with
  | none =>
    simp only [printStep, List.cons_append, List.nil_append, boundText?_dot, hstop,
      Option.bind_some]
    rfl
  | some s =>
    have hstep := boundText?_print s.bound ('.' :: stop.print) (.cons rfl)
    simp only [printStep, List.append_assoc, List.cons_append, List.nil_append, hstep, hstop,
      Option.bind_some]
    rfl

theorem BoundTerm.bound_print (b : BoundTerm) :
    Arguments.bound mode b.boundText = .ok (b.bound mode) := by
  cases b with
  | var name => rfl
  | literal n =>
    have hint : Decimal.int64? (printInt n.value) = some n.value := by
      rw [Decimal.int64?, integer?_printInt, Option.filter_some, if_pos n.fits]
    simp only [BoundTerm.boundText, Arguments.bound, hint]
    rfl

/-- A literal step is positive, so it is accepted. -/
theorem counting_print (counter : Name) (start : BoundTerm) (step : Option Step)
    (stop : BoundTerm) :
    Arguments.counting mode ('$' :: (counter.chars ++ ' ' :: '=' :: ' ' :: (start.print ++ '.' ::
      (printStep step ++ stop.print)))) =
    .ok ⟨.simple mode counter.text, start.bound mode, stepBound mode step, stop.bound mode⟩ := by
  simp only [Arguments.counting, counting?_print, BoundTerm.bound_print, ok_bind]
  cases step with
  | none => rfl
  | some s =>
    simp only [Option.map_some, Option.getD_some, BoundTerm.bound_print, ok_bind, stepBound]
    cases hs : s.bound with
    | var name => rfl
    | literal n =>
      have hpos := s.positive n hs
      simp only [BoundTerm.bound, if_neg (show ¬n.value ≤ 0 by omega)]
      rfl

/-! Assignments. -/

theorem Dotted.solid (p : Dotted) : Text.Solid p.print := .of_all fun c hc => by
  rcases mem_print hc with rfl | rfl | hc
  · rfl
  · rfl
  · exact Arguments.not_blank_of_isNameChar hc

theorem assignment_value (target : Dotted) {value : List Char} {e : Expr}
    (hsolid : Text.Solid value) (hparse : Expr.parse mode value = .ok e) :
    Arguments.assignment mode (target.print ++ ' ' :: '=' :: ' ' :: value) =
      .ok (target.path mode, e) := by
  have htarget : ∀ c ∈ target.print ++ [' '], decide (c = '=') = false := by
    intro c hc
    simp only [List.mem_append, List.mem_singleton] at hc
    rw [decide_eq_false_iff_not]
    rintro rfl
    rcases hc with hc | hc
    · rcases Dotted.mem_print hc with hc | hc | hc <;> exact absurd hc (by decide)
    · exact absurd hc (by decide)
  have hsplit := Text.splitOnce_append (' ' :: value) htarget (decide_eq_true rfl)
  rw [List.append_assoc, List.singleton_append] at hsplit
  have htrim : Text.trim (target.print ++ [' ']) = target.print :=
    target.solid.trim_concat (List.cons_ne_nil _ _)
  have hunwrap : Delimiter.unwrap target.print = target.print := unwrap_dollar rfl
  simp only [Arguments.assignment, hsplit, List.head?_cons, htrim, hunwrap, target.parse_print,
    ok_bind, hsolid.trim_cons, hparse]
  rfl

/-! Blocks. -/

theorem parameter_print (args : List Char) (p : Name) :
    Arguments.parameter args ('$' :: p.chars) = .ok p.text := by
  have hunwrap : Delimiter.unwrap ('$' :: p.chars) = '$' :: p.chars := unwrap_dollar rfl
  simp only [Arguments.parameter, hunwrap, p.valid, if_true]
  rfl

theorem mapM_parameters (args : List Char) (params : List Name) :
    (params.map fun p => '$' :: p.chars).mapM (Arguments.parameter args) =
      .ok (params.map Name.text) := by
  induction params with
  | nil => rfl
  | cons p params ih =>
    rw [List.map_cons, List.mapM_cons, parameter_print, ok_bind, ih]
    rfl

theorem blockHead_print (name : Name) (params : List Name) :
    Arguments.blockHead (name.chars ++ params.flatMap fun p => ' ' :: '$' :: p.chars) =
      .ok (name.text, params.map Name.text) := by
  have hplain (n : Name) : ∀ c ∈ n.chars, Text.isBlank c = false := fun _ hc =>
    Arguments.not_blank_of_isNameChar (Name.isNameChar hc)
  have hwords : Text.words (name.chars ++ params.flatMap fun p => ' ' :: '$' :: p.chars) =
      name.chars :: params.map fun p => '$' :: p.chars := by
    have hsplit : Text.splitAll Text.isBlank
        (name.chars ++ (params.map fun p => '$' :: p.chars).flatMap (' ' :: ·)) = _ :=
      Text.splitAll_joined (by decide) (hplain name) fun cs hcs d hd => by
        obtain ⟨p, -, rfl⟩ := List.mem_map.mp hcs
        rcases List.mem_cons.mp hd with rfl | hd
        · rfl
        · exact hplain p d hd
    rw [List.flatMap_map] at hsplit
    rw [Text.words, hsplit, List.filter_eq_self]
    intro cs hcs
    rcases List.mem_cons.mp hcs with rfl | hcs
    · simpa using name.ne_nil
    · obtain ⟨p, -, rfl⟩ := List.mem_map.mp hcs
      simp
  simp only [Arguments.blockHead, hwords, name.valid, if_true, mapM_parameters, ok_bind]
  rfl

/-- What stands behind the name of a block, after a blank if it is not empty, is its arguments. -/
theorem invocation_append (name : Name) {rest : List Char} {es : List Expr}
    (hrest : ∀ c ∈ rest.head?, c = ' ') (hparse : Expr.parseArguments mode rest.tail = .ok es) :
    Arguments.invocation mode (name.chars ++ rest) = .ok (name.text, es) := by
  have hname : ∀ c ∈ name.chars, Text.isBlank c = false := fun _ hc =>
    Arguments.not_blank_of_isNameChar (Name.isNameChar hc)
  cases rest with
  | nil =>
    rw [List.tail_nil] at hparse
    simp only [Arguments.invocation, List.append_nil, Text.splitOnce_none hname,
      Option.getD_none, name.valid, if_true, hparse, ok_bind]
    rfl
  | cons c rest =>
    obtain rfl : c = ' ' := hrest c rfl
    rw [List.tail_cons] at hparse
    have hsplit := Text.splitOnce_append (c := ' ') rest hname (by decide)
    simp only [Arguments.invocation, hsplit, Option.getD_some, name.valid, if_true, hparse, ok_bind]
    rfl

theorem invocation_print (name : Name) {args : List Term}
    (hdepth : ∀ e ∈ args, e.depth < maxExprNesting) :
    Arguments.invocation mode (name.chars ++ args.flatMap fun e => ' ' :: e.print 6) =
      .ok (name.text, exprs mode args) := by
  refine invocation_append name ?_ (parseArguments_print hdepth ?_)
  · cases args <;> simp
  · have hlexes (source : String) : Lexes source _ _ := (lexes_operands args .nil .empty).2
    cases args with
    | nil => exact .empty
    | cons e es =>
      simp only [List.append_nil] at hlexes
      exact (hlexes _).of_blank

/-! Includes. -/

/-- A path that is nothing but a variable. -/
theorem includePath_braced (dir : Option (List Char)) {inner : List Char} {v : Var}
    (hhead : inner.head? = some '$') (hpaired : Delimiter.Paired inner)
    (hquote : ∀ c ∈ inner, Delimiter.isQuote c = false) (hinner : Var.parse mode inner = .ok v) :
    Arguments.includePath mode dir (node inner) = .ok (some [.var v]) := by
  have hpath : unquoted (node inner) = node inner := by
    refine unquoted_eq fun c hc => ?_
    simp only [node, List.mem_cons, List.mem_append, List.not_mem_nil, or_false] at hc
    rcases hc with rfl | hc | rfl
    · rfl
    · exact hquote c hc
    · rfl
  have hne : unquoted (node inner) ≠ [] := by
    rw [hpath]
    exact List.cons_ne_nil _ _
  have hsliced := Sliced.nil.braced hhead hpaired
  rw [List.append_nil, ← hpath] at hsliced
  have hread : Slice.Reads mode (.braced inner) (.var v) :=
    .braced ((parse_node hhead hpaired).trans hinner)
  exact hsliced.includePath hne (.cons hread .nil)

/-- A part as a slice of the path. -/
def Part.slice : Part → Slice
  | .text t => .text t.chars
  | .var v => .braced v.print

theorem Part.slice_formed (p : Part) : p.slice.Formed := by
  cases p with
  | text t => exact ⟨t.nonempty, starts_no_variable fun c hc => (t.valid c hc).2.1⟩
  | var v => exact ⟨rfl, v.paired⟩

theorem Part.slice_reads (p : Part) : Slice.Reads mode p.slice (p.part mode) := by
  cases p with
  | text t => exact .text t.chars
  | var v => exact .braced ((parse_node rfl v.paired).trans (v.parse_print mode))

/-- The parts of a reference are the slices of its path. -/
theorem Reference.sliced (r : Reference) :
    Sliced (r.parts.flatMap Part.print) (r.parts.map Part.slice) := by
  have hsource : ∀ p : Part, p.slice.source = p.print := fun p => by cases p <;> rfl
  have htext : ∀ p : Part, p.slice.isText = p.isText := fun p => by cases p <;> rfl
  refine ⟨?_, List.forall_mem_map.mpr fun p _ => p.slice_formed, ?_⟩
  · rw [List.flatMap_map]
    exact List.flatMap_congr fun p _ => hsource p
  · rw [List.isChain_map]
    simpa only [htext] using r.alternating

theorem Part.print_ne_nil (p : Part) : p.print ≠ [] := by
  cases p with
  | text t => exact t.nonempty
  | var v => exact List.cons_ne_nil _ _

theorem Part.solid (p : Part) : Text.Solid p.print := by
  cases p with
  | text t => exact .of_all fun c hc => (t.valid c hc).2.2.2.2
  | var v => exact solid_enclosed (by decide) (by decide) v.print

theorem Part.no_quote {p : Part} {c : Char} (hc : c ∈ p.print) : Delimiter.isQuote c = false := by
  cases p with
  | text t => exact (t.valid c hc).1
  | var v =>
    simp only [Part.print, node, List.mem_cons, List.mem_append, List.not_mem_nil, or_false] at hc
    rcases hc with rfl | hc | rfl
    · rfl
    · rcases Variable.mem_print hc with rfl | rfl | rfl | hc
      · rfl
      · rfl
      · rfl
      · simp [Delimiter.isQuote, Arguments.ne_of_isNameChar hc (d := '"') rfl,
          Arguments.ne_of_isNameChar hc (d := '\'') rfl]
    · rfl

theorem includePath_print (dir : Option (List Char)) (r : Reference) :
    Arguments.includePath mode dir (r.parts.flatMap Part.print) =
      .ok (some (Arguments.anchor dir (r.parts.map (Part.part mode)))) := by
  have hpath : unquoted (r.parts.flatMap Part.print) = r.parts.flatMap Part.print := by
    refine unquoted_eq fun c hc => ?_
    obtain ⟨p, -, hc⟩ := List.mem_flatMap.mp hc
    exact Part.no_quote hc
  have hne : unquoted (r.parts.flatMap Part.print) ≠ [] := by
    obtain ⟨p, ps, hparts⟩ := List.exists_cons_of_ne_nil r.nonempty
    rw [hpath, hparts, List.flatMap_cons]
    exact List.append_ne_nil_of_left_ne_nil p.print_ne_nil _
  have hsliced := r.sliced
  rw [← hpath] at hsliced
  refine hsliced.includePath hne ?_
  rw [List.forall₂_map_left_iff, List.forall₂_map_right_iff, List.forall₂_same]
  exact fun p _ => p.slice_reads

end BraceTemplate.Source
