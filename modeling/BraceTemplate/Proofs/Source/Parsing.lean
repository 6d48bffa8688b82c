import BraceTemplate.Proofs.Computation
import BraceTemplate.Proofs.Source.Operators

/-! Parsing: printed variables and terms are read as what they stand for. -/
namespace BraceTemplate.Source

/-! Variables. -/

/-- A character that stands for itself in a variable: no brace, bracket or blank. -/
def Bare (c : Char) : Prop :=
  Delimiter.opens c = false ∧ Delimiter.closes c = false ∧ Text.isBlank c = false

theorem bare_of_isNameChar {c : Char} (h : Arguments.isNameChar c = true) : Bare c := by
  have hne {d : Char} (hd : Arguments.isNameChar d = false) := Arguments.ne_of_isNameChar h hd
  refine ⟨?_, ?_, Arguments.not_blank_of_isNameChar h⟩
  · simp [Delimiter.opens, hne (d := '\x7b') rfl, hne (d := '(') rfl, hne (d := '[') rfl]
  · simp [Delimiter.closes, hne (d := '\x7d') rfl, hne (d := ')') rfl, hne (d := ']') rfl]

namespace Bare

variable {c : Char}

theorem passes {sep : Char} (h : Bare c) (hne : c ≠ sep) : Delimiter.Passes sep c :=
  ⟨hne, h.1, h.2.1⟩

end Bare

theorem Name.passes {n : Name} {sep : Char} (hsep : Arguments.isNameChar sep = false) :
    ∀ c ∈ n.chars, Delimiter.Passes sep c := fun _ hc =>
  (bare_of_isNameChar (isNameChar hc)).passes (Arguments.ne_of_isNameChar (isNameChar hc) hsep)

theorem Dotted.mem_print {p : Dotted} {c : Char} (hc : c ∈ p.print) :
    c = '$' ∨ c = '.' ∨ Arguments.isNameChar c = true := by
  simp only [Dotted.print, List.mem_cons, List.mem_append, List.mem_flatMap] at hc
  rcases hc with hc | hc | ⟨k, -, hc | hc⟩
  · exact .inl hc
  · exact .inr (.inr (Name.isNameChar hc))
  · exact .inr (.inl hc)
  · exact .inr (.inr (Name.isNameChar hc))

theorem Variable.mem_print {v : Variable} {c : Char} (hc : c ∈ v.print) :
    c = '|' ∨ c = '$' ∨ c = '.' ∨ Arguments.isNameChar c = true := by
  simp only [Variable.print, List.mem_append, List.mem_flatMap, List.mem_cons] at hc
  rcases hc with hc | ⟨f, -, hc | hc⟩
  · exact .inr (Dotted.mem_print hc)
  · exact .inl hc
  · exact .inr (.inr (.inr (Name.isNameChar hc)))

theorem Variable.bare {v : Variable} {c : Char} (hc : c ∈ v.print) : Bare c := by
  rcases mem_print hc with rfl | rfl | rfl | hc
  · exact ⟨rfl, rfl, rfl⟩
  · exact ⟨rfl, rfl, rfl⟩
  · exact ⟨rfl, rfl, rfl⟩
  · exact bare_of_isNameChar hc

theorem solid_one {c : Char} (hc : Text.isBlank c = false) : Text.Solid [c] :=
  .of_all (by simpa using hc)

/-- Text between two characters that are no blanks. -/
theorem solid_enclosed {c d : Char} (hc : Text.isBlank c = false) (hd : Text.isBlank d = false)
    (cs : List Char) : Text.Solid (c :: (cs ++ [d])) :=
  (solid_one hc).around (solid_one hd) (List.cons_ne_nil c []) (List.cons_ne_nil d []) cs

theorem solid_cons {c : Char} {cs : List Char} (hc : Text.isBlank c = false) (h : Text.Solid cs) :
    Text.Solid (c :: cs) := by
  by_cases hcs : cs = []
  · subst hcs
    exact solid_one hc
  · exact (solid_one hc).append h (List.cons_ne_nil c []) hcs

theorem Variable.solid (v : Variable) : Text.Solid v.print := .of_all fun _ hc => (bare hc).2.2

theorem Variable.paired (v : Variable) : Delimiter.Paired v.print :=
  .of_plain fun _ hc => Delimiter.ne_brace (bare hc).1 (bare hc).2.1

/-! Braces around a variable. -/

section Braced

variable {cs : List Char}

/-- A variable without braces around it is taken as it is. -/
theorem unwrap_dollar (hhead : cs.head? = some '$') : Delimiter.unwrap cs = cs := by
  obtain ⟨cs, rfl⟩ := List.head?_eq_some_iff.mp hhead
  rfl

theorem head?_trim_dollar (hhead : cs.head? = some '$') : (Text.trim cs).head? = some '$' := by
  obtain ⟨cs, rfl⟩ := List.head?_eq_some_iff.mp hhead
  obtain ⟨ds, hds⟩ := Text.trim_cons_of_not_blank (c := '$') rfl cs
  rw [hds, List.head?_cons]

theorem bare_dollar (hhead : cs.head? = some '$') : Parse.bare cs = Text.trim cs :=
  unwrap_dollar (head?_trim_dollar hhead)

/-- The braces around a variable are taken off where those inside of it are paired. -/
theorem unwrap_braced (hhead : cs.head? = some '$') (hpaired : Delimiter.Paired cs) :
    Delimiter.unwrap ('\x7b' :: (cs ++ ['\x7d'])) = Text.trim cs := by
  have hinner : (Text.dropLead? ['\x7b'] ('\x7b' :: (cs ++ ['\x7d']))).bind
      (Text.dropTail? ['\x7d']) = some cs := by
    simp [Text.dropLead?, Text.dropTail?]
  have hwrapped : Delimiter.wrapped ('\x7b' :: (cs ++ ['\x7d'])) = true := by
    rw [Delimiter.wrapped, hpaired.closeBrace?_node]
    rfl
  have hstart : (Text.trimStart cs).head? = some '$' := by
    rw [Text.trimStart_eq (by simp [hhead, Text.isBlank]), hhead]
  simp [Delimiter.unwrap, hinner, hstart, hwrapped]

theorem bare_braced (hhead : cs.head? = some '$') (hpaired : Delimiter.Paired cs) :
    Parse.bare ('\x7b' :: (cs ++ ['\x7d'])) = Parse.bare cs := by
  rw [Parse.bare, (solid_enclosed (by decide) (by decide) cs).trim_eq, bare_dollar hhead,
    unwrap_braced hhead hpaired]

/-- A variable is read from what it is without the braces around it. -/
theorem variableOf_bare {mode : Mode} {ds : List Char} (h : Parse.bare cs = Parse.bare ds)
    (room : Nat) : Parse.variableOf mode room cs = Parse.variableOf mode room ds := by
  cases room <;> simp only [Parse.variableOf, h]

end Braced

theorem Dotted.passes_bar {p : Dotted} {c : Char} (hc : c ∈ p.print) : Delimiter.Passes '|' c := by
  rcases mem_print hc with rfl | rfl | hc
  · exact ⟨by decide, rfl, rfl⟩
  · exact ⟨by decide, rfl, rfl⟩
  · exact (bare_of_isNameChar hc).passes (Arguments.ne_of_isNameChar hc rfl)

/-- A path with filters behind it is cut at their bars. -/
theorem splitTop_filters {path : List Char} (hpath : Delimiter.Uncut '|' path)
    (filters : List Name) :
    Delimiter.splitTop '|' (path ++ filters.flatMap fun f => '|' :: f.chars) =
      path :: filters.map Name.chars := by
  rw [← List.flatMap_map (f := Name.chars) (g := fun cs => '|' :: cs)]
  refine Delimiter.splitTop_joined hpath ?_
  intro cs hcs
  obtain ⟨f, -, rfl⟩ := List.mem_map.mp hcs
  exact .of_passes (Name.passes rfl)

/-- The body of a variable is cut into its path and its filters. -/
theorem Variable.splitTop_bars (v : Variable) :
    Delimiter.splitTop '|' (v.path.print.tail ++ v.filters.flatMap fun f => '|' :: f.chars) =
      v.path.print.tail :: v.filters.map Name.chars :=
  splitTop_filters (.of_passes fun _ hc => Dotted.passes_bar (List.mem_of_mem_tail hc)) v.filters

theorem Dotted.splitTop_dots (p : Dotted) :
    Delimiter.splitTop '.' p.print.tail = (p.root :: p.keys).map Name.chars := by
  rw [Dotted.print, List.tail_cons,
    ← List.flatMap_map (f := Name.chars) (g := fun cs => '.' :: cs), List.map_cons]
  refine Delimiter.splitTop_joined (.of_passes (Name.passes rfl)) ?_
  intro cs hcs
  obtain ⟨f, -, rfl⟩ := List.mem_map.mp hcs
  exact .of_passes (Name.passes rfl)

theorem segment_name (nested : List Char → Except SyntaxFault Var)
    (index : List Char → Except SyntaxFault Expr) (whole : List Char) (n : Name) :
    Parse.segment nested index whole n.chars = .ok (.key n.text) := by
  obtain ⟨c, cs, hn, hc⟩ := n.head
  have hne {d : Char} (hd : Arguments.isNameChar d = false) := Arguments.ne_of_isNameChar hc hd
  rw [Parse.segment, n.solid.trim_eq, Name.text, hn]
  simp [Text.dropLead?, hne (d := '\x7b') rfl, hne (d := '$') rfl, (hne (d := '(') rfl).symm]
  rfl

theorem mapM_segments (nested : List Char → Except SyntaxFault Var)
    (index : List Char → Except SyntaxFault Expr) (whole : List Char) (names : List Name) :
    (names.map Name.chars).mapM (Parse.segment nested index whole) =
      .ok (names.map fun n => Segment.key n.text) := by
  induction names with
  | nil => rfl
  | cons n names ih =>
    rw [List.map_cons, List.mapM_cons, segment_name, ok_bind, ih]
    rfl

theorem filterNames_map (names : List Name) :
    Parse.filterNames (names.map Name.chars) = names.map Name.text := by
  have htrim : (names.map Name.chars).map Text.trim = names.map Name.chars := by
    rw [List.map_map]
    exact List.map_congr_left fun n _ => n.solid.trim_eq
  have hfilter : (names.map Name.chars).filter (fun cs => decide (cs ≠ [])) =
      names.map Name.chars := by
    rw [List.filter_eq_self]
    intro cs hcs
    obtain ⟨n, -, rfl⟩ := List.mem_map.mp hcs
    simpa using n.ne_nil
  rw [Parse.filterNames, htrim, hfilter, List.map_map]
  rfl

/-- A printed variable without braces around it is bare already. -/
theorem Variable.bare_print (v : Variable) : Parse.bare v.print = v.print := by
  rw [bare_dollar rfl, v.solid.trim_eq]

theorem variableOf_of_bare {mode : Mode} {room : Nat} {source : List Char} (v : Variable)
    (h : Parse.bare source = v.print) (hroom : 0 < room) :
    Parse.variableOf mode room source = .ok (v.var mode) := by
  obtain ⟨room, rfl⟩ := Nat.exists_eq_succ_of_ne_zero (Nat.pos_iff_ne_zero.mp hroom)
  have hbars := v.splitTop_bars
  have hprint : v.print = '$' :: (v.path.print.tail ++ v.filters.flatMap fun f => '|' :: f.chars) :=
    rfl
  simp only [Parse.variableOf, h, hprint, hbars]
  rw [List.headD_cons, v.path.splitTop_dots, mapM_segments, ok_bind, List.drop_one, List.tail_cons,
    filterNames_map]
  rfl

theorem Variable.variableOf_print {mode : Mode} {room : Nat} (v : Variable) (hroom : 0 < room) :
    Parse.variableOf mode room v.print = .ok (v.var mode) :=
  variableOf_of_bare v v.bare_print hroom

theorem Variable.parse_print (mode : Mode) (v : Variable) :
    Var.parse mode v.print = .ok (v.var mode) := v.variableOf_print (by decide)

/-! Terms. -/

def Term.written (mode : Mode) (e : Term) : Written :=
  ⟨fun n => e.tokens n, fun _ => e.depth, e.expr mode⟩

theorem exprs_eq_map (mode : Mode) (es : List Term) : exprs mode es = es.map (Term.expr mode) := by
  induction es with
  | nil => rfl
  | cons e es ih => rw [exprs, ih, List.map_cons]

theorem written_further (mode : Mode) (es : List Term) :
    Written.further (es.map (Term.written mode)) = moreTokens es := by
  induction es with
  | nil => rfl
  | cons e es ih =>
    rw [moreTokens, ← ih]
    rfl

theorem written_deepest (mode : Mode) (es : List Term) :
    Written.deepest (es.map (Term.written mode)) = depths es := by
  induction es with
  | nil => rfl
  | cons e es ih =>
    rw [depths, ← ih]
    rfl

theorem Term.written_array (mode : Mode) (es : List Term) :
    (Term.array es).written mode = .array (es.map (Term.written mode)) := by
  cases es with
  | nil =>
    simp only [written, tokens, depth, depths, expr, exprs, Written.array, Written.constant,
      List.map_nil]
  | cons e es =>
    have hexprs : (es.map (Term.written mode)).map Written.expr = exprs mode es := by
      rw [exprs_eq_map, List.map_map]
      rfl
    rw [List.map_cons, Written.array, written_further, hexprs, ← List.map_cons, written_deepest]
    simp only [written, tokens, depth, expr, exprs, Written.constant]

/-- The depth of a term counts an operator also where it stands without parentheses. -/
theorem Term.written_binary {mode : Mode} {source : String} {op : BinaryOp} {l r : Term}
    (hl : Reads mode source (l.written mode)) (hr : Reads mode source (r.written mode)) :
    Reads mode source ((Term.binary op l r).written mode) := by
  have hdepth : ∀ n, (Written.binary op (.symbol (symbol op)) (l.written mode)
      (r.written mode)).depth n ≤ max l.depth r.depth + 1 := by
    intro n
    simp only [Written.binary, written]
    split <;> omega
  have h := (hl.binary (isOperator_symbol op) hr).deeper hdepth
  simpa only [written, tokens, depth, expr, Written.binary, Written.operation] using h

mutual

/-- The tokens of a term read as its expression. -/
theorem Term.reads (mode : Mode) (source : String) : (e : Term) → Reads mode source (e.written mode)
  | .int _ => .number _
  | .str _ => .text _
  | .bool b => .bool b
  | .null => .null
  | .array es => by
    rw [Term.written_array]
    exact .array (reads_all mode source es)
  | .var v => .var v.variableOf_print
  | .not e => (e.reads mode source).not (.inl rfl)
  | .neg e => (e.reads mode source).neg
  | .binary _ l r => Term.written_binary (l.reads mode source) (r.reads mode source)

theorem reads_all (mode : Mode) (source : String) :
    (es : List Term) → ∀ w ∈ es.map (Term.written mode), Reads mode source w
  | [] => fun _ h => absurd h List.not_mem_nil
  | e :: es => by
    have he := e.reads mode source
    have hes := reads_all mode source es
    rw [List.map_cons, List.forall_mem_cons]
    exact ⟨he, hes⟩

end

/-! Whole texts. -/

theorem Term.parse_print {mode : Mode} {e : Term} (hdepth : e.depth < maxExprNesting) :
    Expr.parse mode (e.print 1) = .ok (e.expr mode) := by
  have htext : Lexes (.ofList (e.print 1)) (e.print 1) (e.tokens 1) := by
    have h : Lexes (.ofList (e.print 1)) (e.print 1 ++ []) (e.tokens 1 ++ []) :=
      e.lexes 1 .nil .empty
    rwa [List.append_nil, List.append_nil] at h
  exact (e.reads mode (.ofList (e.print 1))).complete htext hdepth

theorem flatMap_written (mode : Mode) (es : List Term) :
    (es.map (Term.written mode)).flatMap (Written.tokens · 6) = es.flatMap (Term.tokens 6) := by
  rw [List.flatMap_map]
  rfl

theorem reads_operands (mode : Mode) (source : String) {es : List Term}
    (hes : ∀ e ∈ es, e.depth < maxExprNesting) : ∀ w ∈ es.map (Term.written mode),
      Reads mode source w ∧ w.depth 6 < maxExprNesting := by
  intro w hw
  obtain ⟨e, he, rfl⟩ := List.mem_map.mp hw
  exact ⟨e.reads mode source, hes e he⟩

/-- Operands side by side. -/
theorem parseArguments_print {mode : Mode} {es : List Term}
    (hes : ∀ e ∈ es, e.depth < maxExprNesting) {text : List Char}
    (htext : Lexes (.ofList text) text (es.flatMap (Term.tokens 6))) :
    Expr.parseArguments mode text = .ok (exprs mode es) := by
  rw [← flatMap_written mode] at htext
  rw [parseArguments_eq (reads_operands mode _ hes) htext, List.map_map, exprs_eq_map]
  rfl

/-- The target of an assignment has no filters. -/
theorem Dotted.parse_print (p : Dotted) : Path.parse mode p.print = .ok (p.path mode) := by
  have hv : Var.parse mode p.print = .ok ⟨p.path mode, []⟩ := by
    have := Variable.parse_print mode ⟨p, []⟩
    simpa [Variable.print, Variable.var] using this
  rw [Path.parse, hv, ok_bind]
  rfl

end BraceTemplate.Source
