import BraceTemplate.Proofs.Source.Selectors

/-!
Reading phrases: every lexeme of a printed phrase is one token, the tokens are read level by level,
and variables are read from their selectors, so that the phrase is read as the expression that it
stands for.
-/
namespace BraceTemplate.Source

variable {mode : Mode} {source : String}

/-! Lexemes. -/

/-- The lexeme is its token, in front of whatever may follow it. -/
def Lexeme.Sound (l : Lexeme) : Prop :=
  ∀ {source : String} {rest : List Char} {ts : List Token}, Follows rest → Lexes source rest ts →
    Lexes source (l.text ++ rest) (l.token :: ts)

theorem lexes_led {ls : List Lexeme} (h : ∀ l ∈ ls, l.Sound) :
    Follows (led ls) ∧ Lexes source (led ls) (ls.map Lexeme.token) := by
  induction ls with
  | nil => exact ⟨.nil, .empty⟩
  | cons l ls ih =>
    obtain ⟨hfollows, hlexes⟩ := ih fun m hm => h m (List.mem_cons_of_mem l hm)
    rw [led_cons, List.map_cons]
    exact ⟨.cons (.inl rfl), (h l List.mem_cons_self hfollows hlexes).blank⟩

theorem lexes_spaced {ls : List Lexeme} (h : ∀ l ∈ ls, l.Sound) :
    Lexes source (spaced ls) (ls.map Lexeme.token) := by
  cases ls with
  | nil => exact .empty
  | cons l ls =>
    obtain ⟨hfollows, hlexes⟩ := lexes_led fun m hm => h m (List.mem_cons_of_mem l hm)
    exact h l List.mem_cons_self hfollows hlexes

theorem sound_punctuation {c : Char} {t : Token} (hc : Text.isBlank c = false)
    (ht : Token.punctuation? c = some t) : Lexeme.Sound ⟨[c], t⟩ :=
  fun _ h => .punctuation hc ht h

theorem sound_notLexeme (s : Spelling) : (notLexeme s).Sound := by
  intro source rest ts hrest h
  cases s with
  | sign =>
    refine lexes_not (fun c hc => ?_) h
    rcases hrest c hc with rfl | rfl | rfl | rfl <;> decide
  | word => exact lexes_word (by decide) (by decide) hrest h

theorem sound_operatorLexeme (s : Spelling) (op : BinaryOp) : (operatorLexeme s op).Sound := by
  intro source rest ts hrest h
  rcases operatorLexeme_cases s op with heq | ⟨-, heq⟩ | ⟨-, heq⟩ <;> rw [heq]
  · exact lexes_symbol op hrest h
  · exact lexes_word (by decide) (by decide) hrest h
  · exact lexes_word (by decide) (by decide) hrest h

theorem sound_variable {v : Access} (hv : v.clear = true) (braced : Bool) :
    Lexeme.Sound ⟨variableText braced v.print, .var v.print⟩ := by
  intro source rest ts hrest h
  cases braced with
  | true => exact lexes_braced (v.matched hv).paired h
  | false =>
    obtain ⟨cs, hcs⟩ := v.print_cons
    have hspan := Access.spanned hv rest
    rw [variableSpan_follows hrest, List.append_nil, hcs, List.tail_cons] at hspan
    have hnext : Token.next source '$' (cs ++ rest) = .ok (.var v.print, rest) := by
      rw [hcs]
      simp [Token.next, Token.punctuation?, hspan]
    have := Lexes.next cs (by decide) hnext h
    rw [hcs] at this ⊢
    exact this

mutual

theorem Phrase.sound (inside : Bool) (n : Nat) :
    (e : Phrase) → e.clear inside = true → ∀ l ∈ e.lexemes n, l.Sound
  | .int k, _ => by
    simp only [Phrase.lexemes, List.mem_singleton, forall_eq]
    exact fun hrest h => lexes_int k hrest h
  | .str cs, _ => by
    simp only [Phrase.lexemes, List.mem_singleton, forall_eq]
    exact fun _ h => lexes_quoted cs h
  | .bool b, _ => by
    simp only [Phrase.lexemes, List.mem_singleton, forall_eq]
    intro source rest ts hrest h
    cases b <;> exact lexes_word (by decide) (by decide) hrest h
  | .null, _ => by
    simp only [Phrase.lexemes, List.mem_singleton, forall_eq]
    exact fun hrest h => lexes_word (by decide) (by decide) hrest h
  | .array [], _ => by
    simp only [Phrase.lexemes, List.forall_mem_cons]
    exact ⟨sound_punctuation rfl rfl, sound_punctuation rfl rfl, by simp⟩
  | .array (e :: es), h => by
    rw [Phrase.clear, allClear, Bool.and_eq_true] at h
    simp only [Phrase.lexemes, List.forall_mem_cons, List.forall_mem_append]
    exact ⟨sound_punctuation rfl rfl, e.sound inside 1 h.1, sound_more inside es h.2,
      sound_punctuation rfl rfl, by simp⟩
  | .var braced v, h => by
    simp only [Phrase.lexemes, List.mem_singleton, forall_eq]
    exact sound_variable h braced
  | .not s e, h => by
    simp only [Phrase.lexemes, List.forall_mem_cons]
    exact ⟨sound_notLexeme s, e.sound inside 6 h⟩
  | .neg e, h => by
    simp only [Phrase.lexemes, List.forall_mem_cons]
    exact ⟨fun _ h => lexes_minus h, e.sound inside 6 h⟩
  | .binary s op l r, h => by
    rw [Phrase.clear, Bool.and_eq_true] at h
    have hl := l.sound inside (leftLevel op) h.1
    have hr := r.sound inside (level op + 1) h.2
    have hbody : ∀ m ∈ l.lexemes (leftLevel op) ++ operatorLexeme s op :: r.lexemes (level op + 1),
        m.Sound := by
      rw [List.forall_mem_append, List.forall_mem_cons]
      exact ⟨hl, sound_operatorLexeme s op, hr⟩
    rw [Phrase.lexemes]
    split
    · have hclose : Lexeme.Sound ⟨[')'], .rightParen⟩ := sound_punctuation rfl rfl
      rw [List.forall_mem_cons, List.forall_mem_append, List.forall_mem_singleton]
      exact ⟨sound_punctuation rfl rfl, hbody, hclose⟩
    · exact hbody

theorem sound_more (inside : Bool) :
    (es : List Phrase) → allClear inside es = true → ∀ l ∈ moreLexemes es, l.Sound
  | [], _ => by simp [moreLexemes]
  | e :: es, h => by
    rw [allClear, Bool.and_eq_true] at h
    simp only [moreLexemes, List.forall_mem_cons, List.forall_mem_append]
    exact ⟨sound_punctuation rfl rfl, e.sound inside 1 h.1, sound_more inside es h.2⟩

end

/-! Tokens. -/

def Phrase.written (mode : Mode) (e : Phrase) : Written :=
  ⟨fun n => (e.lexemes n).map Lexeme.token, fun n => e.nesting n, e.expr mode⟩

theorem phraseExprs_eq (mode : Mode) (es : List Phrase) :
    phraseExprs mode es = es.map (Phrase.expr mode) := by
  induction es with
  | nil => rfl
  | cons e es ih => rw [phraseExprs, ih, List.map_cons]

theorem further_written (mode : Mode) (es : List Phrase) :
    Written.further (es.map (Phrase.written mode)) = (moreLexemes es).map Lexeme.token := by
  induction es with
  | nil => rfl
  | cons e es ih =>
    rw [moreLexemes, List.map_cons, List.map_cons, List.map_append, ← ih]
    rfl

theorem deepest_written (mode : Mode) (es : List Phrase) :
    Written.deepest (es.map (Phrase.written mode)) = itemNesting es := by
  induction es with
  | nil => rfl
  | cons e es ih =>
    rw [itemNesting, ← ih]
    rfl

theorem Phrase.written_array (mode : Mode) (es : List Phrase) :
    (Phrase.array es).written mode = .array (es.map (Phrase.written mode)) := by
  cases es with
  | nil => simp [written, lexemes, nesting, itemNesting, expr, phraseExprs, Written.array,
      Written.constant]
  | cons e es =>
    have hexprs : (es.map (Phrase.written mode)).map Written.expr = phraseExprs mode es := by
      rw [phraseExprs_eq, List.map_map]
      rfl
    rw [List.map_cons, Written.array, further_written, hexprs, ← List.map_cons, deepest_written]
    simp [written, lexemes, nesting, expr, phraseExprs, Written.constant]

theorem Phrase.written_binary (mode : Mode) (s : Spelling) (op : BinaryOp) (l r : Phrase) :
    (Phrase.binary s op l r).written mode =
      .binary op (operatorLexeme s op).token (l.written mode) (r.written mode) := by
  simp only [written, Written.binary, Written.operation, lexemes, nesting, expr]
  congr 1
  funext n
  split <;> simp

theorem isOperator_operatorLexeme (s : Spelling) (op : BinaryOp) :
    IsOperator (operatorLexeme s op).token op := by
  rcases operatorLexeme_cases s op with h | ⟨rfl, h⟩ | ⟨rfl, h⟩ <;> rw [h]
  · exact isOperator_symbol op
  all_goals
    intro m
    match m with
    | 0 | 1 | 2 | 3 | 4 | 5 => rfl
    | m + 6 => simp [opAt?, level]

theorem notLexeme_token (s : Spelling) :
    (notLexeme s).token = .symbol .not ∨ (notLexeme s).token = .word "not" := by
  cases s with
  | sign => exact .inl rfl
  | word => exact .inr rfl

/-! Variables. -/

theorem segment_nested {nested : List Char → Except SyntaxFault Var}
    {index : List Char → Except SyntaxFault Expr} {whole : List Char} {v : Access} {w : Var}
    (hnested : nested (Selector.nested v).print = .ok w) :
    Parse.segment nested index whole (Selector.nested v).print = .ok (.nested w) := by
  have hlast : (Selector.nested v).print.getLast? = some '\x7d' := by
    rw [Selector.print, ← List.cons_append, List.getLast?_concat]
  have hhead : (Selector.nested v).print.head? = some '\x7b' := rfl
  have hne : (Selector.nested v).print.isEmpty = false := rfl
  rw [Parse.segment, (Selector.nested v).solid.1.trim_eq]
  simp only [hne, hhead, hlast, hnested]
  rfl

theorem segment_index {nested : List Char → Except SyntaxFault Var}
    {index : List Char → Except SyntaxFault Expr} {whole : List Char} {e : Phrase} {x : Expr}
    (hindex : index (spaced (e.lexemes 1)) = .ok x) :
    Parse.segment nested index whole (Selector.index e).print = .ok (.index x) := by
  have hdrop : (Text.dropLead? ['('] (Selector.index e).print).bind (Text.dropTail? [')']) =
      some (spaced (e.lexemes 1)) := by
    simp [Selector.print, Text.dropLead?, Text.dropTail?]
  have hhead : (Selector.index e).print.head? = some '(' := rfl
  have hne : (Selector.index e).print.isEmpty = false := rfl
  rw [Parse.segment, (Selector.index e).solid.1.trim_eq]
  simp only [hne, hhead, hdrop, hindex]
  rfl

/-- The text of a variable is read when its selectors are. -/
theorem Access.variableOf_eq {room : Nat} {source : List Char} {root : Selector}
    {further : List Selector} {filters : List Name}
    (hclear : (Access.mk root further filters).clear = true)
    (hsource : Parse.bare source = (Access.mk root further filters).print)
    (hselectors : ∀ whole, ((root :: further).map Selector.print).mapM (Parse.segment
        (Parse.variableOf mode room) (Parse.complete (Parse.unary mode room)) whole) =
      .ok ((root :: further).map (Selector.segment mode))) :
    Parse.variableOf mode (room + 1) source = .ok ((Access.mk root further filters).var mode) := by
  rw [clear, Bool.and_eq_true] at hclear
  have hpath := splitTop_pathText hclear.1 hclear.2
  have hbars := splitTop_filters (pathText_uncut hclear.1 hclear.2) filters
  rw [print_eq] at hsource
  simp only [Parse.variableOf, hsource, hbars]
  rw [List.headD_cons, hpath, hselectors, ok_bind, List.drop_one, List.tail_cons, filterNames_map,
    var, furtherSegments_eq]
  rfl

mutual

/-- The tokens of a phrase read as its expression. -/
theorem Phrase.reads (mode : Mode) (source : String) {inside : Bool} :
    (e : Phrase) → e.clear inside = true → Reads mode source (e.written mode)
  | .int _, _ => .number _
  | .str _, _ => .text _
  | .bool b, _ => .bool b
  | .null, _ => .null
  | .array es, h => by
    rw [Phrase.written_array]
    exact .array (Phrase.reads_all mode source es h)
  | .var _ v, h => .var fun hroom => v.variableOf_bare mode _ h hroom v.bare_print
  | .not s e, h => (e.reads mode source h).not (notLexeme_token s)
  | .neg e, h => (e.reads mode source h).neg
  | .binary s op l r, h => by
    rw [Phrase.clear, Bool.and_eq_true] at h
    rw [Phrase.written_binary]
    exact (l.reads mode source h.1).binary (isOperator_operatorLexeme s op)
      (r.reads mode source h.2)

theorem Phrase.reads_all (mode : Mode) (source : String) {inside : Bool} :
    (es : List Phrase) → allClear inside es = true →
      ∀ w ∈ es.map (Phrase.written mode), Reads mode source w
  | [], _ => fun _ h => absurd h List.not_mem_nil
  | e :: es, h => by
    rw [allClear, Bool.and_eq_true] at h
    have he := e.reads mode source h.1
    have hes := Phrase.reads_all mode source es h.2
    rw [List.map_cons, List.forall_mem_cons]
    exact ⟨he, hes⟩

theorem Access.variableOf_bare (mode : Mode) (room : Nat) {source : List Char} :
    (v : Access) → v.clear = true → v.nesting ≤ room → Parse.bare source = v.print →
      Parse.variableOf mode room source = .ok (v.var mode)
  | .mk root further filters, h, hroom, hsource => by
    have hclear := h
    rw [Access.clear, Bool.and_eq_true] at hclear
    rw [Access.nesting] at hroom
    obtain ⟨room, rfl⟩ : ∃ k, room = k + 1 := ⟨room - 1, by omega⟩
    refine Access.variableOf_eq h hsource fun whole => ?_
    have hroot := root.segment_eq mode room whole hclear.1 (by omega)
    have hfurther := segments_eq mode room whole further hclear.2 (by omega)
    rw [List.map_cons, List.mapM_cons, hroot, ok_bind, hfurther]
    rfl

theorem segments_eq (mode : Mode) (room : Nat) (whole : List Char) :
    (ss : List Selector) → furtherClear ss = true → furtherNesting ss ≤ room →
      (ss.map Selector.print).mapM (Parse.segment (Parse.variableOf mode room)
        (Parse.complete (Parse.unary mode room)) whole) = .ok (ss.map (Selector.segment mode))
  | [], _, _ => rfl
  | s :: ss, h, hroom => by
    rw [furtherClear, Bool.and_eq_true] at h
    rw [furtherNesting] at hroom
    have hs := s.segment_eq mode room whole h.1 (by omega)
    have hss := segments_eq mode room whole ss h.2 (by omega)
    rw [List.map_cons, List.mapM_cons, hs, ok_bind, hss]
    rfl

theorem Selector.segment_eq (mode : Mode) (room : Nat) (whole : List Char) :
    (s : Selector) → s.clear = true → s.nesting ≤ room →
      Parse.segment (Parse.variableOf mode room) (Parse.complete (Parse.unary mode room)) whole
        s.print = .ok (s.segment mode)
  | .key n, _, _ => segment_name _ _ whole n
  | .nested v, h, hroom =>
    segment_nested (v.variableOf_bare mode room h hroom (Access.bare_braced h))
  | .index e, h, hroom => by
    exact segment_index ((e.reads mode _ h).complete (lexes_spaced (e.sound true 1 h)) hroom)

end

/-! Whole texts. -/

theorem Phrase.parse_print {e : Phrase} (hclear : e.clear false = true)
    (hnesting : e.nesting 1 < maxExprNesting) : Expr.parse mode e.print = .ok (e.expr mode) :=
  (e.reads mode _ hclear).complete (lexes_spaced (e.sound false 1 hclear)) hnesting

theorem parseArguments_printRow {es : List Phrase}
    (hes : ∀ e ∈ es, e.clear false = true ∧ e.nesting 6 < maxExprNesting) :
    Expr.parseArguments mode (printRow es) = .ok (es.map (Phrase.expr mode)) := by
  have hreads : ∀ w ∈ es.map (Phrase.written mode),
      Reads mode (.ofList (printRow es)) w ∧ w.depth 6 < maxExprNesting := by
    intro w hw
    obtain ⟨e, he, rfl⟩ := List.mem_map.mp hw
    exact ⟨e.reads mode _ (hes e he).1, (hes e he).2⟩
  have hsound : ∀ l ∈ es.flatMap (Phrase.lexemes 6), l.Sound := by
    intro l hl
    obtain ⟨e, he, hl⟩ := List.mem_flatMap.mp hl
    exact e.sound false 6 (hes e he).1 l hl
  have htokens : (es.flatMap (Phrase.lexemes 6)).map Lexeme.token =
      (es.map (Phrase.written mode)).flatMap (Written.tokens · 6) := by
    rw [List.map_flatMap, List.flatMap_map]
    rfl
  have htext : Lexes (.ofList (printRow es)) (printRow es) _ := lexes_spaced hsound
  rw [htokens] at htext
  rw [parseArguments_eq hreads htext, List.map_map]
  rfl

/-- Printed phrases are read as the expressions that they stand for, alone and side by side. -/
theorem phrases_read_back (mode : Mode) :
    (∀ e : Phrase, e.clear false = true → e.nesting 1 < maxExprNesting →
      Expr.parse mode e.print = .ok (e.expr mode)) ∧
    ∀ es : List Phrase, (∀ e ∈ es, e.clear false = true ∧ e.nesting 6 < maxExprNesting) →
      Expr.parseArguments mode (printRow es) = .ok (es.map (Phrase.expr mode)) :=
  ⟨fun _ hclear hnesting => Phrase.parse_print hclear hnesting,
    fun _ hes => parseArguments_printRow hes⟩

/-- Every kind of selector and operators of all kinds of levels. -/
def mixed : Phrase :=
  let access : Access := .mk (.key ⟨['a'], rfl⟩)
    [.nested (.mk (.key ⟨['b'], rfl⟩) [] [⟨['f'], rfl⟩]),
      .index (.binary .sign .add (.var false (.mk (.key ⟨['i'], rfl⟩) [] [])) (.str ['.', '|']))]
    [⟨['g'], rfl⟩]
  let sum : Phrase := .binary .sign .add (.int ⟨1, by decide⟩) (.int ⟨2, by decide⟩)
  .binary .word .or (.not .word (.var true access))
    (.binary .sign .lt (.binary .sign .mul sum .null) (.neg (.int ⟨4, by decide⟩)))

theorem phrases_read_back_mixed :
    mixed.print =
      "not \x7b$a.\x7b$b|f\x7d.($i + \".|\")|g\x7d or ( 1 + 2 ) * null < - 4".toList ∧
    Expr.parse .block mixed.print = .ok (mixed.expr .block) ∧
    Expr.parseArguments .shared (printRow [mixed, .neg mixed, .str ['\\', '"']]) =
      .ok ([mixed, .neg mixed, .str ['\\', '"']].map (Phrase.expr .shared)) := by
  refine ⟨by decide, (phrases_read_back .block).1 mixed (by decide) (by decide),
    (phrases_read_back .shared).2 _ ?_⟩
  simp only [List.forall_mem_cons]
  decide

end BraceTemplate.Source
