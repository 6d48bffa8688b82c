import BraceTemplate.Proofs.Source.Plain

/-! Lexing: the tokens of a printed term, in front of whatever may follow a term. -/
namespace BraceTemplate.Source

variable {source : String} {cs rest : List Char} {ts : List Token}

/-- The text splits into these tokens. -/
inductive Lexes (source : String) : List Char → List Token → Prop where
  | nil {cs : List Char} (h : Text.trimStart cs = []) : Lexes source cs []
  | cons {cs cs' rest : List Char} {c : Char} {t : Token} {ts : List Token}
    (hstart : Text.trimStart cs = c :: cs') (hnext : Token.next source c cs' = .ok (t, rest))
    (hlen : rest.length ≤ cs'.length) (htail : Lexes source rest ts) : Lexes source cs (t :: ts)

namespace Lexes

/-- As much fuel as there are characters is enough. -/
theorem scan_eq (h : Lexes source cs ts) {fuel : Nat} (hfuel : cs.length ≤ fuel) :
    Token.scan source fuel cs = .ok ts := by
  induction h generalizing fuel with
  | nil h =>
    cases fuel with
    | zero => rfl
    | succ fuel => simp [Token.scan, h]
  | @cons cs cs' rest c t ts hstart hnext hlen _ ih =>
    have htrim : (Text.trimStart cs).length ≤ cs.length := (List.dropWhile_sublist _).length_le
    rw [hstart, List.length_cons] at htrim
    cases fuel with
    | zero => omega
    | succ fuel =>
      rw [Token.scan, hstart]
      simp only [hnext, bind, Except.bind, ih (show rest.length ≤ fuel by omega)]
      rfl

theorem ofSource_eq (h : Lexes (.ofList cs) cs ts) : Token.ofSource cs = .ok ts :=
  h.scan_eq (Nat.le_refl _)

theorem empty : Lexes source [] [] := .nil rfl

/-- Blanks at the start make no difference. -/
theorem of_trimStart {ds : List Char} (h : Lexes source cs ts)
    (htrim : Text.trimStart ds = Text.trimStart cs) : Lexes source ds ts := by
  cases h with
  | nil h => exact .nil (htrim.trans h)
  | cons hstart hnext hlen htail => exact .cons (htrim.trans hstart) hnext hlen htail

theorem blank (h : Lexes source cs ts) : Lexes source (' ' :: cs) ts :=
  h.of_trimStart (Text.trimStart_blank cs)

theorem of_blank (h : Lexes source (' ' :: cs) ts) : Lexes source cs ts :=
  h.of_trimStart (Text.trimStart_blank cs).symm

theorem next (span : List Char) {c : Char} {t : Token} (hc : Text.isBlank c = false)
    (hnext : Token.next source c (span ++ rest) = .ok (t, rest)) (h : Lexes source rest ts) :
    Lexes source (c :: (span ++ rest)) (t :: ts) :=
  .cons (by simp [Text.trimStart, hc]) hnext (by simp) h

theorem punctuation {c : Char} {t : Token} (hc : Text.isBlank c = false)
    (ht : Token.punctuation? c = some t) (h : Lexes source cs ts) :
    Lexes source (c :: cs) (t :: ts) :=
  next [] hc (by simp [Token.next, ht]) h

end Lexes

/-- What may stand directly behind a term. -/
def Follows (rest : List Char) : Prop := ∀ c ∈ rest.head?, c = ' ' ∨ c = ')' ∨ c = ']' ∨ c = ','

theorem Follows.nil : Follows [] := by simp [Follows]

theorem Follows.cons {c : Char} (h : c = ' ' ∨ c = ')' ∨ c = ']' ∨ c = ',') :
    Follows (c :: rest) := by simpa [Follows] using h

theorem Follows.stops {p : Char → Bool} (h : Follows rest) (hblank : p ' ' = false)
    (hparen : p ')' = false) (hbracket : p ']' = false) (hcomma : p ',' = false) :
    ∀ c ∈ rest.head?, p c = false := by
  intro c hc
  rcases h c hc with rfl | rfl | rfl | rfl
  · exact hblank
  · exact hparen
  · exact hbracket
  · exact hcomma

section Spans

variable {p : Char → Bool}

theorem takeWhile_append (hcs : ∀ c ∈ cs, p c = true) (hrest : ∀ c ∈ rest.head?, p c = false) :
    (cs ++ rest).takeWhile p = cs := by
  rw [List.takeWhile_append_of_pos hcs]
  cases rest with
  | nil => simp
  | cons c rest => simp [hrest c rfl]

theorem dropWhile_append (hcs : ∀ c ∈ cs, p c = true) (hrest : ∀ c ∈ rest.head?, p c = false) :
    (cs ++ rest).dropWhile p = rest := by
  rw [List.dropWhile_append_of_pos hcs]
  cases rest with
  | nil => rfl
  | cons c rest => simp [hrest c rfl]

end Spans

/-! Numbers. -/

theorem isDigit_toDigits {n : Nat} {c : Char} (h : c ∈ Nat.toDigits 10 n) : c.isDigit = true :=
  Nat.isDigit_of_mem_toDigits (by omega) (by omega) h

theorem toDigits_cons (n : Nat) :
    ∃ d ds, Nat.toDigits 10 n = d :: ds ∧ ∀ c ∈ d :: ds, c.isDigit = true := by
  cases h : Nat.toDigits 10 n with
  | nil => exact absurd h Nat.toDigits_ne_nil
  | cons d ds =>
    refine ⟨d, ds, rfl, fun c hc => ?_⟩
    rw [← h] at hc
    exact isDigit_toDigits hc

theorem ne_of_isDigit {c d : Char} (hc : c.isDigit = true) (hd : d.isDigit = false) : c ≠ d := by
  rintro rfl
  rw [hc] at hd
  cases hd

theorem not_blank_of_isDigit {c : Char} (h : c.isDigit = true) : Text.isBlank c = false := by
  have := Char.isDigit_iff_toNat.mp h
  simp only [Char.reduceToNat] at this
  simp [Text.isBlank]
  omega

theorem integer?_toDigits (n : Nat) : Decimal.integer? (Nat.toDigits 10 n) = some (n : Int) := by
  have hd := fun c => @isDigit_toDigits n c
  have hn := Decimal.natural?_toDigits n
  generalize Nat.toDigits 10 n = ds at hd hn
  unfold Decimal.integer?
  split
  · exact absurd (hd '-' List.mem_cons_self) (by decide)
  · exact absurd (hd '+' List.mem_cons_self) (by decide)
  · simp [hn]

theorem numberSpan_append {ds : List Char} (hds : ∀ c ∈ ds, c.isDigit = true)
    (h : Follows rest) : Token.numberSpan (ds ++ rest) = ((ds, []), rest) := by
  have hstop : ∀ c ∈ rest.head?, c.isDigit = false := h.stops rfl rfl rfl rfl
  have hdot : ∀ c ∈ rest.head?, (c == '.') = false := h.stops rfl rfl rfl rfl
  unfold Token.numberSpan
  simp only [takeWhile_append hds hstop, dropWhile_append hds hstop]
  split
  · simp at hdot
  · rfl

theorem lexes_int (n : Digits) (hrest : Follows rest) (h : Lexes source rest ts) :
    Lexes source (Nat.toDigits 10 n.value ++ rest) (.number (.int n.value) :: ts) := by
  have hint : Decimal.int64? (Nat.toDigits 10 n.value) = some (n.value : Int) := by
    rw [Decimal.int64?, integer?_toDigits, Option.filter_some, if_pos n.fits]
  obtain ⟨c, cs, hcs, hd⟩ := toDigits_cons n.value
  rw [hcs] at hint ⊢
  have hc := hd c List.mem_cons_self
  have hne {d : Char} (hd : d.isDigit = false) : c ≠ d := ne_of_isDigit hc hd
  have hspan : Token.numberSpan (c :: (cs ++ rest)) = ((c :: cs, []), rest) :=
    numberSpan_append hd hrest
  have hp : Token.punctuation? c = none := by
    unfold Token.punctuation?
    split <;> first | rfl | exact absurd hc (by decide)
  have hq : Delimiter.isQuote c = false := by
    simp [Delimiter.isQuote, hne (d := '"') rfl, hne (d := '\'') rfl]
  have hbrace : c ≠ '\x7b' := hne rfl
  have hdollar : c ≠ '$' := hne rfl
  refine .next cs (not_blank_of_isDigit hc) ?_ h
  simp [Token.next, hp, hq, hbrace, hdollar, hc, hspan, Token.number?, hint]

/-! Strings. -/

/-- Double quotes around a text, and a backslash before each quote and each backslash in it. -/
def quoted (cs : List Char) : List Char :=
  '"' :: (cs.flatMap (fun c => if c = '"' ∨ c = '\\' then ['\\', c] else [c]) ++ ['"'])

theorem Quotable.print_eq (s : Quotable) : s.print = quoted s.chars := by
  have hescape : (s.chars.flatMap fun c => if c = '"' then ['\\', '"'] else [c]) =
      s.chars.flatMap fun c => if c = '"' ∨ c = '\\' then ['\\', c] else [c] := by
    refine List.flatMap_congr fun c hc => ?_
    have hslash := (s.valid c hc).2.2.2
    by_cases hquote : c = '"'
    · simp [hquote]
    · simp [hquote, hslash]
  rw [print, quoted, hescape]

theorem textSpan?_quoted (cs rest : List Char) :
    Token.textSpan? '"' ((quoted cs).tail ++ rest) = some (cs, rest) := by
  rw [quoted, List.tail_cons, List.append_assoc, List.singleton_append]
  induction cs with
  | nil =>
    cases rest with
    | nil => simp [Token.textSpan?]
    | cons c rest => simp [Token.textSpan?]
  | cons c cs ih =>
    by_cases hc : c = '"' ∨ c = '\\'
    · simp [Token.textSpan?, hc, ih]
    · obtain ⟨d, ds, hds⟩ : ∃ d ds, (cs.flatMap fun c =>
          if c = '"' ∨ c = '\\' then ['\\', c] else [c]) ++ '"' :: rest = d :: ds :=
        List.exists_cons_of_ne_nil (by simp)
      rw [List.flatMap_cons, if_neg hc, List.append_assoc, hds]
      rw [hds] at ih
      push Not at hc
      simp [Token.textSpan?, hc, ih]

theorem lexes_quoted (cs : List Char) (h : Lexes source rest ts) :
    Lexes source (quoted cs ++ rest) (.text (.ofList cs) :: ts) := by
  have hspan := textSpan?_quoted cs rest
  rw [quoted, List.tail_cons] at hspan
  refine .next _ (by decide) ?_ h
  simp [Token.next, Token.punctuation?, Delimiter.isQuote, hspan, -List.append_assoc]

theorem lexes_str (s : Quotable) (h : Lexes source rest ts) :
    Lexes source (s.print ++ rest) (.text (.ofList s.chars) :: ts) := by
  rw [s.print_eq]
  exact lexes_quoted s.chars h

/-! Words. -/

/-- The words of the language start with these letters. -/
theorem lexes_word {c : Char} {cs : List Char} (hc : c ∈ ['a', 'f', 'n', 'o', 't'])
    (hword : cs.all Token.isWordChar = true) (hrest : Follows rest) (h : Lexes source rest ts) :
    Lexes source (c :: (cs ++ rest)) (.word (.ofList (c :: cs)) :: ts) := by
  have hcs : ∀ d ∈ cs, Token.isWordChar d = true := List.all_eq_true.mp hword
  have hstop : ∀ d ∈ rest.head?, Token.isWordChar d = false := hrest.stops rfl rfl rfl rfl
  simp only [List.mem_cons, List.not_mem_nil, or_false] at hc
  have hnext : Token.next source c (cs ++ rest) = .ok (.word (.ofList (c :: cs)), rest) := by
    rcases hc with rfl | rfl | rfl | rfl | rfl <;>
      simp [Token.next, Token.punctuation?, Delimiter.isQuote, Text.isAlphabetic,
        takeWhile_append hcs hstop, dropWhile_append hcs hstop]
  exact .next _ (by rcases hc with rfl | rfl | rfl | rfl | rfl <;> rfl) hnext h

/-! Variables. -/

/-- A text that a bare variable runs through. -/
def Spanned (cs : List Char) : Prop :=
  ∀ rest, Token.variableSpan 0 (cs ++ rest) =
    (cs ++ (Token.variableSpan 0 rest).1, (Token.variableSpan 0 rest).2)

namespace Spanned

theorem nil : Spanned [] := fun _ => rfl

theorem append {cs ds : List Char} (hc : Spanned cs) (hd : Spanned ds) : Spanned (cs ++ ds) := by
  intro rest
  rw [List.append_assoc, hc, hd, List.append_assoc]

theorem flatMap {α : Type} {f : α → List Char} {l : List α} (h : ∀ a ∈ l, Spanned (f a)) :
    Spanned (l.flatMap f) := by
  induction l with
  | nil => exact .nil
  | cons a l ih =>
    rw [List.flatMap_cons]
    exact (h a List.mem_cons_self).append (ih fun b hb => h b (List.mem_cons_of_mem a hb))

/-- One character other than a bar. -/
theorem plain {c : Char} {cs : List Char} (hc : Token.isVariableChar c = true) (hbrace : c ≠ '\x7b')
    (hparen : c ≠ '(') (hbar : c ≠ '|') (h : Spanned cs) : Spanned (c :: cs) := by
  intro rest
  simp [Token.variableSpan, hc, hbrace, hparen, hbar, h rest]

theorem name {cs : List Char} (hcs : ∀ c ∈ cs, Arguments.isNameChar c = true) : Spanned cs := by
  induction cs with
  | nil => exact .nil
  | cons c cs ih =>
    have hc := hcs c List.mem_cons_self
    refine .plain ?_ (Arguments.ne_of_isNameChar hc rfl) (Arguments.ne_of_isNameChar hc rfl)
      (Arguments.ne_of_isNameChar hc rfl) (ih fun d hd => hcs d (List.mem_cons_of_mem c hd))
    simp [Token.isVariableChar, Arguments.isWordChar_of_isNameChar hc]

/-- A bar runs on unless another one follows. -/
theorem bar {c : Char} {cs : List Char} (hc : c ≠ '|') (h : Spanned (c :: cs)) :
    Spanned ('|' :: c :: cs) := by
  intro rest
  have h := h rest
  rw [List.cons_append] at h
  rw [List.cons_append, List.cons_append, Token.variableSpan]
  simp [hc, Token.isVariableChar, h]

end Spanned

namespace Name

theorem ne_nil (n : Name) : n.chars ≠ [] := by
  have := n.valid
  simp only [Arguments.isName, Bool.and_eq_true, decide_eq_true_eq] at this
  exact this.1

theorem isNameChar {n : Name} {c : Char} (h : c ∈ n.chars) : Arguments.isNameChar c = true := by
  have := n.valid
  simp only [Arguments.isName, Bool.and_eq_true, List.all_eq_true] at this
  exact this.2 c h

theorem solid (n : Name) : Text.Solid n.chars :=
  .of_all fun _ hc => Arguments.not_blank_of_isNameChar (isNameChar hc)

theorem head (n : Name) : ∃ c cs, n.chars = c :: cs ∧ Arguments.isNameChar c = true := by
  cases hn : n.chars with
  | nil => exact absurd hn n.ne_nil
  | cons c cs => exact ⟨c, cs, rfl, isNameChar (n := n) (by simp [hn])⟩

end Name

theorem Dotted.spanned (p : Dotted) :
    Spanned (p.root.chars ++ p.keys.flatMap fun k => '.' :: k.chars) := by
  refine (Spanned.name fun c hc => Name.isNameChar hc).append (.flatMap fun k _ => ?_)
  have hk : Spanned k.chars := .name fun c hc => Name.isNameChar hc
  exact .plain (by decide) (by decide) (by decide) (by decide) hk

theorem spanned_filters (filters : List Name) :
    Spanned (filters.flatMap fun f => '|' :: f.chars) := by
  refine .flatMap fun f _ => ?_
  obtain ⟨c, cs, hf, hc⟩ := f.head
  rw [hf]
  refine .bar (Arguments.ne_of_isNameChar hc rfl) (.name fun d hd => ?_)
  exact Name.isNameChar (n := f) (by rwa [hf])

theorem Variable.spanned (v : Variable) :
    Spanned (v.path.print.tail ++ v.filters.flatMap fun f => '|' :: f.chars) :=
  v.path.spanned.append (spanned_filters v.filters)

theorem variableSpan_follows (h : Follows rest) : Token.variableSpan 0 rest = ([], rest) := by
  cases rest with
  | nil => rfl
  | cons c rest =>
    have hc := h c rfl
    rcases hc with rfl | rfl | rfl | rfl <;> rfl

theorem lexes_var (v : Variable) (hrest : Follows rest) (h : Lexes source rest ts) :
    Lexes source (v.print ++ rest) (.var v.print :: ts) := by
  have hspan := v.spanned rest
  rw [variableSpan_follows hrest, List.append_nil] at hspan
  have hprint : v.print = '$' :: (v.path.print.tail ++ v.filters.flatMap fun f => '|' :: f.chars) :=
    rfl
  rw [hprint, List.cons_append]
  exact .next _ (by decide) (by simp [Token.next, Token.punctuation?, hspan, -List.append_assoc]) h

/-! Operators. -/

theorem lexes_symbol (op : BinaryOp) (hrest : Follows rest) (h : Lexes source rest ts) :
    Lexes source (printSymbol op ++ rest) (.symbol (symbol op) :: ts) := by
  have hsplit : printSymbol op ++ rest =
      (printSymbol op).headD ' ' :: ((printSymbol op).tail ++ rest) := by cases op <;> rfl
  have hnext : Token.next source ((printSymbol op).headD ' ') ((printSymbol op).tail ++ rest) =
      .ok (.symbol (symbol op), rest) := by
    cases rest with
    | nil => cases op <;> rfl
    | cons c rest => rcases hrest c rfl with rfl | rfl | rfl | rfl <;> cases op <;> rfl
  rw [hsplit]
  exact .next _ (by cases op <;> rfl) hnext h

theorem lexes_minus (h : Lexes source cs ts) :
    Lexes source ('-' :: cs) (.symbol .minus :: ts) := .next [] rfl rfl h

/-- An exclamation mark before an equals sign would be another operator. -/
theorem lexes_not (hrest : ∀ c ∈ rest.head?, c ≠ '=') (h : Lexes source rest ts) :
    Lexes source ('!' :: rest) (.symbol .not :: ts) := by
  have hs : Token.symbol? ('!' :: rest) = some (.not, rest) := by
    cases rest with
    | nil => rfl
    | cons c rest =>
      have hc : c ≠ '=' := hrest c rfl
      simp [Token.symbol?, hc]
  refine .next [] rfl ?_ h
  simp [Token.next, Token.punctuation?, Delimiter.isQuote, Text.isAlphabetic, hs]

/-! Terms. -/

/-- A printed term starts with a character that no operator ends with. -/
theorem Term.print_head (n : Nat) :
    (e : Term) → ∃ c cs, e.print n = c :: cs ∧ c ≠ '=' ∧ Text.isBlank c = false
  | .int k => by
    obtain ⟨c, cs, hk, hd⟩ := toDigits_cons k.value
    have hc := hd c List.mem_cons_self
    exact ⟨c, cs, by rw [Term.print, hk], ne_of_isDigit hc rfl, not_blank_of_isDigit hc⟩
  | .str s => ⟨'"', _, by rw [Term.print]; rfl, by decide, by decide⟩
  | .bool true => ⟨'t', _, by rw [Term.print]; rfl, by decide, by decide⟩
  | .bool false => ⟨'f', _, by rw [Term.print]; rfl, by decide, by decide⟩
  | .null => ⟨'n', _, by rw [Term.print], by decide, by decide⟩
  | .array [] => ⟨'[', _, by rw [Term.print], by decide, by decide⟩
  | .array (_ :: _) => ⟨'[', _, by rw [Term.print], by decide, by decide⟩
  | .var v => ⟨'$', _, by rw [Term.print]; rfl, by decide, by decide⟩
  | .not e => ⟨'!', _, by rw [Term.print], by decide, by decide⟩
  | .neg e => ⟨'-', _, by rw [Term.print], by decide, by decide⟩
  | .binary op l r => by
    obtain ⟨c, cs, hl, hc⟩ := l.print_head (leftLevel op)
    by_cases hn : level op < n
    · exact ⟨'(', _, by rw [Term.print, if_pos hn], by decide, by decide⟩
    · exact ⟨c, _, by rw [Term.print, if_neg hn, hl]; rfl, hc⟩

theorem follows_more (es : List Term) (rest : List Char) :
    Follows (printMore es ++ ']' :: rest) := by
  cases es with
  | nil => exact .cons (by decide)
  | cons e es => exact .cons (by decide)

mutual

/-- A printed term lexes to its tokens, whatever follows. -/
theorem Term.lexes (n : Nat) : (e : Term) → {rest : List Char} → {ts : List Token} →
    Follows rest → Lexes source rest ts → Lexes source (e.print n ++ rest) (e.tokens n ++ ts)
  | .int k, _, _, hrest, h => lexes_int k hrest h
  | .str s, _, _, _, h => lexes_str s h
  | .bool true, _, _, hrest, h => lexes_word (by decide) (by decide) hrest h
  | .bool false, _, _, hrest, h => lexes_word (by decide) (by decide) hrest h
  | .null, _, _, hrest, h => lexes_word (by decide) (by decide) hrest h
  | .array [], _, _, _, h => .punctuation rfl rfl (.punctuation rfl rfl h)
  | .array (e :: es), rest, ts, _, h => by
    have hitems := e.lexes 1 (follows_more es rest) (lexes_more es h)
    simp only [Term.print, Term.tokens, List.cons_append, List.append_assoc, List.nil_append]
    exact .punctuation rfl rfl hitems
  | .var v, _, _, hrest, h => lexes_var v hrest h
  | .not e, rest, ts, hrest, h => by
    have he := e.lexes 6 hrest h
    obtain ⟨c, cs, hprint, hc, -⟩ := e.print_head 6
    rw [hprint] at he
    simp only [Term.print, Term.tokens, hprint, List.cons_append] at he ⊢
    exact lexes_not (by simpa using hc) he
  | .neg e, _, _, hrest, h => lexes_minus (e.lexes 6 hrest h)
  | .binary op l r, rest, ts, hrest, h => by
    -- The operands with the operator between them, in front of any text.
    have hbody {rest : List Char} {ts : List Token} (hrest : Follows rest)
        (h : Lexes source rest ts) :
        Lexes source
          (l.print (leftLevel op) ++
            ' ' :: (printSymbol op ++ ' ' :: (r.print (level op + 1) ++ rest)))
          (l.tokens (leftLevel op) ++ .symbol (symbol op) :: (r.tokens (level op + 1) ++ ts)) :=
      l.lexes _ (.cons (by decide))
        (lexes_symbol op (.cons (by decide)) (r.lexes _ hrest h).blank).blank
    by_cases hn : level op < n
    · have hparen := @hbody (')' :: rest) (.rightParen :: ts) (.cons (by decide))
        (.punctuation rfl rfl h)
      simp only [Term.print, Term.tokens, if_pos hn, List.cons_append, List.append_assoc,
        List.nil_append]
      exact .punctuation rfl rfl hparen
    · simp only [Term.print, Term.tokens, if_neg hn, List.cons_append, List.append_assoc]
      exact hbody hrest h

theorem lexes_more : (es : List Term) → {rest : List Char} → {ts : List Token} →
    Lexes source rest ts →
    Lexes source (printMore es ++ ']' :: rest) (moreTokens es ++ .rightBracket :: ts)
  | [], _, _, h => .punctuation rfl rfl h
  | e :: es, rest, ts, h => by
    have hitems := (e.lexes 1 (follows_more es rest) (lexes_more es h)).blank
    simp only [printMore, moreTokens, List.cons_append, List.append_assoc]
    exact .punctuation rfl rfl hitems

end

/-- The tokens of operands side by side, each behind a blank. -/
theorem lexes_operands (es : List Term) (hrest : Follows rest) (h : Lexes source rest ts) :
    Follows ((es.flatMap fun e => ' ' :: e.print 6) ++ rest) ∧
    Lexes source ((es.flatMap fun e => ' ' :: e.print 6) ++ rest)
      (es.flatMap (Term.tokens 6) ++ ts) := by
  induction es with
  | nil => exact ⟨hrest, h⟩
  | cons e es ih =>
    have he := (e.lexes 6 ih.1 ih.2).blank
    simp only [List.flatMap_cons, List.cons_append, List.append_assoc] at he ⊢
    exact ⟨.cons (.inl rfl), he⟩

/-- A variable between braces is one token where the braces in it are paired. -/
theorem lexes_braced (hcs : Delimiter.Paired cs) (h : Lexes source rest ts) :
    Lexes source ('\x7b' :: (cs ++ ['\x7d']) ++ rest) (.var cs :: ts) := by
  have hclose := hcs.closeBrace?_one rest
  have hnext : Token.next source '\x7b' (cs ++ ['\x7d'] ++ rest) = .ok (.var cs, rest) := by
    rw [List.append_assoc, List.singleton_append]
    simp [Token.next, Token.punctuation?, hclose]
  exact .next _ (by decide) hnext h

end BraceTemplate.Source
