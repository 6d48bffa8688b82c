import BraceTemplate.Proofs.Source.Matched
import BraceTemplate.Proofs.Source.Parsing

/-!
Selectors: the brackets in printed phrases and variables match, so that a variable is cut off whole
and cut into its selectors and its filters.
-/
namespace BraceTemplate.Source

/-! Brackets. -/

theorem matched_name (n : Name) : Matched n.chars := .of_all fun c hc => by
  have hc := Name.isNameChar hc
  have hne {d : Char} (hd : Arguments.isNameChar d = false) := Arguments.ne_of_isNameChar hc hd
  refine ⟨(bare_of_isNameChar hc).1, (bare_of_isNameChar hc).2.1, ?_⟩
  simp [Delimiter.isQuote, hne (d := '"') rfl, hne (d := '\'') rfl]

theorem matched_digits (k : Nat) : Matched (Nat.toDigits 10 k) := .of_all fun c hc => by
  have hc := isDigit_toDigits hc
  have hne {d : Char} (hd : d.isDigit = false) : c ≠ d := ne_of_isDigit hc hd
  simp [Delimiter.opens, Delimiter.closes, Delimiter.isQuote, hne (d := '\x7b') rfl,
    hne (d := '\x7d') rfl, hne (d := '(') rfl, hne (d := ')') rfl, hne (d := '[') rfl,
    hne (d := ']') rfl, hne (d := '"') rfl, hne (d := '\'') rfl]

/-- Closed text without brackets and quotes is checked by evaluation. -/
theorem matched_of_check {cs : List Char} (h : (cs.all fun c =>
    !Delimiter.opens c && !Delimiter.closes c && !Delimiter.isQuote c) = true) : Matched cs :=
  .of_all fun c hc => by simpa [and_assoc] using List.all_eq_true.mp h c hc

theorem Matched.group {o c : Char} {inner : List Char} (hp : Pair o c) (h : Matched inner) :
    Matched (o :: (inner ++ [c])) := .enclosed hp h .nil

theorem matched_filters (filters : List Name) :
    Matched (filters.flatMap fun f => '|' :: f.chars) :=
  .flatMap fun f _ => .char rfl rfl rfl (matched_name f)

theorem led_cons (l : Lexeme) (ls : List Lexeme) : led (l :: ls) = ' ' :: (l.text ++ led ls) := by
  rw [led, List.flatMap_cons, List.cons_append, led]

theorem led_append (ls ms : List Lexeme) : led (ls ++ ms) = led ls ++ led ms := List.flatMap_append

theorem matched_led_cons {l : Lexeme} {ls : List Lexeme} (hl : Matched l.text)
    (hls : Matched (led ls)) : Matched (led (l :: ls)) := by
  rw [led_cons]
  exact .char rfl rfl rfl (hl.append hls)

/-- Lexemes between the lexemes of two brackets. -/
theorem matched_led_group {o c : Char} {t u : Token} {ls : List Lexeme} (hp : Pair o c)
    (h : Matched (led ls)) : Matched (led (⟨[o], t⟩ :: (ls ++ [⟨[c], u⟩]))) := by
  have hinner : Matched (led ls ++ [' ']) := h.append (.char rfl rfl rfl .nil)
  have hled : led (⟨[o], t⟩ :: (ls ++ [⟨[c], u⟩])) = ' ' :: o :: (led ls ++ [' '] ++ [c]) := by
    simp [led]
  rw [hled]
  exact .char rfl rfl rfl (hinner.group hp)

theorem Matched.of_led {ls : List Lexeme} (h : Matched (led ls)) : Matched (spaced ls) := by
  cases ls with
  | nil => exact .nil
  | cons l ls =>
    rw [led_cons] at h
    exact h.of_blank

theorem matched_notLexeme (s : Spelling) : Matched (notLexeme s).text := by
  cases s <;> exact matched_of_check (by decide)

/-- Only two of the operators have a word. -/
theorem operatorLexeme_cases (s : Spelling) (op : BinaryOp) :
    operatorLexeme s op = ⟨printSymbol op, .symbol (symbol op)⟩ ∨
      op = .or ∧ operatorLexeme s op = ⟨['o', 'r'], .word "or"⟩ ∨
      op = .and ∧ operatorLexeme s op = ⟨['a', 'n', 'd'], .word "and"⟩ := by
  cases s with
  | sign => exact .inl rfl
  | word => cases op <;> simp [operatorLexeme]

theorem matched_operatorLexeme (s : Spelling) (op : BinaryOp) :
    Matched (operatorLexeme s op).text := by
  rcases operatorLexeme_cases s op with h | ⟨-, h⟩ | ⟨-, h⟩ <;> rw [h]
  · cases op <;> exact matched_of_check (by decide)
  · exact matched_of_check (by decide)
  · exact matched_of_check (by decide)

theorem matched_variableText {v : List Char} (braced : Bool) (h : Matched v) :
    Matched (variableText braced v) := by
  cases braced with
  | false => exact h
  | true => exact h.group .brace

mutual

theorem Phrase.matched (n : Nat) :
    (e : Phrase) → e.clear true = true → Matched (led (e.lexemes n))
  | .int k, _ => matched_led_cons (matched_digits k.value) .nil
  | .str cs, h => by
    have hquoted : Matched (quoted cs ++ []) := .quoted (by simpa [Phrase.clear] using h) .nil
    rw [List.append_nil] at hquoted
    exact matched_led_cons hquoted .nil
  | .bool b, _ => matched_led_cons (by cases b <;> exact matched_of_check (by decide)) .nil
  | .null, _ => matched_led_cons (matched_of_check (by decide)) .nil
  | .array [], _ => @matched_led_group _ _ _ _ [] .bracket .nil
  | .array (e :: es), h => by
    rw [Phrase.clear, allClear, Bool.and_eq_true] at h
    have he := e.matched 1 h.1
    have hes := matched_more es h.2
    have hitems : Matched (led (e.lexemes 1 ++ moreLexemes es)) := by
      rw [led_append]
      exact he.append hes
    rw [Phrase.lexemes, ← List.append_assoc]
    exact matched_led_group .bracket hitems
  | .var braced v, h => matched_led_cons (matched_variableText braced (v.matched h)) .nil
  | .not s e, h => matched_led_cons (matched_notLexeme s) (e.matched 6 h)
  | .neg e, h => matched_led_cons (matched_of_check (by decide)) (e.matched 6 h)
  | .binary s op l r, h => by
    rw [Phrase.clear, Bool.and_eq_true] at h
    have hl := l.matched (leftLevel op) h.1
    have hr := r.matched (level op + 1) h.2
    have hbody : Matched (led (l.lexemes (leftLevel op) ++
        operatorLexeme s op :: r.lexemes (level op + 1))) := by
      rw [led_append]
      exact hl.append (matched_led_cons (matched_operatorLexeme s op) hr)
    rw [Phrase.lexemes]
    split
    · exact matched_led_group .paren hbody
    · exact hbody

theorem matched_more : (es : List Phrase) → allClear true es = true → Matched (led (moreLexemes es))
  | [], _ => .nil
  | e :: es, h => by
    rw [allClear, Bool.and_eq_true] at h
    have he := e.matched 1 h.1
    have hes := matched_more es h.2
    rw [moreLexemes]
    refine matched_led_cons (matched_of_check (by decide)) ?_
    rw [led_append]
    exact he.append hes

theorem Access.matched : (v : Access) → v.clear = true → Matched v.print
  | .mk root further filters, h => by
    rw [Access.clear, Bool.and_eq_true] at h
    have hroot := root.matched h.1
    have hfurther := matched_further further h.2
    exact .char rfl rfl rfl (hroot.append (hfurther.append (matched_filters filters)))

theorem matched_further : (ss : List Selector) → furtherClear ss = true → Matched (printFurther ss)
  | [], _ => .nil
  | s :: ss, h => by
    rw [furtherClear, Bool.and_eq_true] at h
    exact .char rfl rfl rfl ((s.matched h.1).append (matched_further ss h.2))

theorem Selector.matched : (s : Selector) → s.clear = true → Matched s.print
  | .key n, _ => matched_name n
  | .nested v, h => (v.matched h).group .brace
  | .index e, h => (e.matched 1 h).of_led.group .paren

end

/-! Variables. -/

theorem printFurther_eq (ss : List Selector) :
    printFurther ss = (ss.map Selector.print).flatMap fun cs => '.' :: cs := by
  induction ss with
  | nil => rfl
  | cons s ss ih => rw [printFurther, ih, List.map_cons, List.flatMap_cons, List.cons_append]

theorem furtherSegments_eq (mode : Mode) (ss : List Selector) :
    furtherSegments mode ss = ss.map (Selector.segment mode) := by
  induction ss with
  | nil => rfl
  | cons s ss ih => rw [furtherSegments, ih, List.map_cons]

theorem furtherClear_iff {ss : List Selector} :
    furtherClear ss = true ↔ ∀ s ∈ ss, s.clear = true := by
  induction ss with
  | nil => simp [furtherClear]
  | cons s ss ih => rw [furtherClear, Bool.and_eq_true, ih, List.forall_mem_cons]

theorem Selector.spanned {s : Selector} (h : s.clear = true) : Spanned s.print := by
  cases s with
  | key n => exact .name fun c hc => Name.isNameChar hc
  | nested v => exact .group .brace (by decide) (v.matched h)
  | index e => exact .group .paren (by decide) (e.matched 1 h).of_led

theorem Selector.uncut {s : Selector} (h : s.clear = true) {sep : Char}
    (hsep : sep = '|' ∨ sep = '.') : Delimiter.Uncut sep s.print := by
  have hname : Arguments.isNameChar sep = false := by
    rcases hsep with rfl | rfl <;> rfl
  have hopen : '\x7b' ≠ sep ∧ '(' ≠ sep := by
    rcases hsep with rfl | rfl <;> decide
  cases s with
  | key n => exact .of_passes (Name.passes hname)
  | nested v => exact uncut_group .brace hopen.1 (v.matched h)
  | index e => exact uncut_group .paren hopen.2 (e.matched 1 h).of_led

theorem Selector.solid (s : Selector) : Text.Solid s.print ∧ s.print ≠ [] := by
  cases s with
  | key n => exact ⟨n.solid, n.ne_nil⟩
  | nested v =>
    exact ⟨solid_enclosed (by decide) (by decide) v.print, by simp [print]⟩
  | index e =>
    exact ⟨solid_enclosed (by decide) (by decide) (spaced (e.lexemes 1)), by simp [print]⟩

/-- The selectors of a variable, without its filters. -/
def pathText (root : Selector) (further : List Selector) : List Char :=
  root.print ++ (further.map Selector.print).flatMap fun cs => '.' :: cs

theorem Access.print_eq (root : Selector) (further : List Selector) (filters : List Name) :
    (Access.mk root further filters).print =
      '$' :: (pathText root further ++ filters.flatMap fun f => '|' :: f.chars) := by
  rw [print, pathText, printFurther_eq, List.append_assoc]

section Path

variable {root : Selector} {further : List Selector}

theorem pathText_spanned (hroot : root.clear = true) (hfurther : furtherClear further = true) :
    Spanned (pathText root further) := by
  rw [furtherClear_iff] at hfurther
  refine (Selector.spanned hroot).append (.flatMap fun cs hcs => ?_)
  obtain ⟨s, hs, rfl⟩ := List.mem_map.mp hcs
  exact .plain (by decide) (by decide) (by decide) (by decide) (Selector.spanned (hfurther s hs))

theorem pathText_uncut (hroot : root.clear = true) (hfurther : furtherClear further = true) :
    Delimiter.Uncut '|' (pathText root further) := by
  rw [furtherClear_iff] at hfurther
  refine (Selector.uncut hroot (.inl rfl)).append (.flatMap fun cs hcs => ?_)
  obtain ⟨s, hs, rfl⟩ := List.mem_map.mp hcs
  have hdot : Delimiter.Uncut '|' ['.'] := .of_passes (by simp [Delimiter.Passes]; decide)
  exact hdot.append (Selector.uncut (hfurther s hs) (.inl rfl))

theorem splitTop_pathText (hroot : root.clear = true) (hfurther : furtherClear further = true) :
    Delimiter.splitTop '.' (pathText root further) = (root :: further).map Selector.print := by
  rw [furtherClear_iff] at hfurther
  refine Delimiter.splitTop_joined (Selector.uncut hroot (.inr rfl)) fun cs hcs => ?_
  obtain ⟨s, hs, rfl⟩ := List.mem_map.mp hcs
  exact Selector.uncut (hfurther s hs) (.inr rfl)

theorem pathText_solid (root : Selector) (further : List Selector) :
    Text.Solid (pathText root further) ∧ pathText root further ≠ [] := by
  obtain ⟨hsolid, hne⟩ := root.solid
  refine ⟨.joined ['.'] hsolid hne fun cs hcs => ?_, by simp [pathText, hne]⟩
  obtain ⟨s, -, rfl⟩ := List.mem_map.mp hcs
  exact s.solid

end Path

namespace Access

theorem spanned {v : Access} (h : v.clear = true) : Spanned v.print.tail := by
  obtain ⟨root, further, filters⟩ := v
  rw [clear, Bool.and_eq_true] at h
  rw [print_eq, List.tail_cons]
  exact (pathText_spanned h.1 h.2).append (spanned_filters filters)

theorem solid (v : Access) : Text.Solid v.print := by
  obtain ⟨root, further, filters⟩ := v
  obtain ⟨hsolid, -⟩ := pathText_solid root further
  rw [print_eq]
  have hpath : Text.Solid ('$' :: pathText root further) :=
    solid_cons (by decide) hsolid
  exact hpath.joined ['|'] (by simp) fun f _ => ⟨f.solid, f.ne_nil⟩

theorem print_cons (v : Access) : ∃ cs, v.print = '$' :: cs := by
  obtain ⟨root, further, filters⟩ := v
  exact ⟨_, print_eq root further filters⟩

theorem head?_print (v : Access) : v.print.head? = some '$' :=
  List.head?_eq_some_iff.mpr v.print_cons

theorem bare_print (v : Access) : Parse.bare v.print = v.print := by
  rw [bare_dollar v.head?_print, v.solid.trim_eq]

/-- Braces around a variable are taken off. -/
theorem bare_braced {v : Access} (h : v.clear = true) :
    Parse.bare ('\x7b' :: (v.print ++ ['\x7d'])) = v.print :=
  (Source.bare_braced v.head?_print (v.matched h).paired).trans v.bare_print

end Access

end BraceTemplate.Source
