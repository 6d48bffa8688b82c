import BraceTemplate.Proofs.Computation
import BraceTemplate.Proofs.Source.PhraseReading

/-!
Cutting text outside of brackets. The parts are what stands between the separators that are outside
of brackets, also where brackets close nothing or are never closed; so no part is cut again.
-/
namespace BraceTemplate

namespace Delimiter

/-! Brackets and quotes. -/

/-- What follows an opening quote, up to the closing one. A backslash makes the next character
plain. -/
inductive Quotation (q : Char) : List Char → Prop where
  | close : Quotation q [q]
  | escaped (c : Char) {cs : List Char} (h : Quotation q cs) : Quotation q ('\\' :: c :: cs)
  | plain {c : Char} {cs : List Char} (hslash : c ≠ '\\') (hne : c ≠ q) (h : Quotation q cs) :
    Quotation q (c :: cs)

/-- Text inside of brackets that closes what it opens, and no more. A bracket of any kind closes one
of any kind, and none counts inside of quotes. -/
inductive Enclosed : List Char → Prop where
  | nil : Enclosed []
  | char {c : Char} {cs : List Char} (ho : opens c = false) (hc : closes c = false)
    (hq : isQuote c = false) (h : Enclosed cs) : Enclosed (c :: cs)
  | quoted {q : Char} {text cs : List Char} (hq : isQuote q = true) (htext : Quotation q text)
    (h : Enclosed cs) : Enclosed (q :: (text ++ cs))
  | brackets {o c : Char} {inner cs : List Char} (ho : opens o = true) (hc : closes c = true)
    (hinner : Enclosed inner) (h : Enclosed cs) : Enclosed (o :: (inner ++ c :: cs))

/-- Text that closes what it opens. Quotes and closing brackets are plain outside of brackets. -/
inductive Outside : List Char → Prop where
  | nil : Outside []
  | char {c : Char} {cs : List Char} (ho : opens c = false) (h : Outside cs) : Outside (c :: cs)
  | brackets {o c : Char} {inner cs : List Char} (ho : opens o = true) (hc : closes c = true)
    (hinner : Enclosed inner) (h : Outside cs) : Outside (o :: (inner ++ c :: cs))

/-- No separator in the text is outside of brackets. -/
def Whole (sep : Char) (cs : List Char) : Prop :=
  ∀ before behind, cs = before ++ sep :: behind → ¬ Outside before

/-- A text is cut into parts: a separator outside of brackets stands between any two of them, and
none in any of them. -/
inductive Cut (sep : Char) : List Char → List (List Char) → Prop where
  | last {cs : List Char} (h : Whole sep cs) : Cut sep cs [cs]
  | next {part rest : List Char} {parts : List (List Char)} (h : Whole sep part)
    (hout : Outside part) (hrest : Cut sep rest parts) :
    Cut sep (part ++ sep :: rest) (part :: parts)

/-- Of two starts of a text, each up to a separator outside of brackets and with no other one in it,
neither is longer. -/
theorem Whole.eq_of_append {sep : Char} {part part' rest rest' : List Char}
    (h : Whole sep part) (hout : Outside part) (h' : Whole sep part') (hout' : Outside part')
    (heq : part ++ sep :: rest = part' ++ sep :: rest') : part = part' ∧ rest = rest' := by
  rcases List.append_eq_append_iff.mp heq with ⟨more, rfl, hmore⟩ | ⟨more, rfl, hmore⟩
  · cases more with
    | nil => simpa using hmore
    | cons c more =>
      rw [List.cons_append] at hmore
      obtain ⟨rfl, -⟩ := List.cons.inj hmore
      exact absurd hout (h' part more rfl)
  · cases more with
    | nil => simpa using hmore.symm
    | cons c more =>
      rw [List.cons_append] at hmore
      obtain ⟨rfl, -⟩ := List.cons.inj hmore
      exact absurd hout' (h part' more rfl)

namespace Cut

variable {sep : Char} {cs : List Char} {parts parts' : List (List Char)}

theorem ne_nil (h : Cut sep cs parts) : parts ≠ [] := by
  cases h <;> exact List.cons_ne_nil _ _

theorem joined (h : Cut sep cs parts) : [sep].intercalate parts = cs := by
  induction h with
  | last h => simp
  | next h hout hrest ih =>
    rw [List.intercalate_cons_of_ne_nil hrest.ne_nil, ih]
    simp

theorem whole (h : Cut sep cs parts) : ∀ part ∈ parts, Whole sep part := by
  induction h with
  | last h => exact List.forall_mem_singleton.mpr h
  | next h hout hrest ih => exact List.forall_mem_cons.mpr ⟨h, ih⟩

/-- A text is cut in one way only. -/
theorem unique (h : Cut sep cs parts) (h' : Cut sep cs parts') : parts = parts' := by
  induction h generalizing parts' with
  | last h =>
    cases h' with
    | last => rfl
    | next _ hout _ => exact absurd hout (h _ _ rfl)
  | @next part rest parts h hout hrest ih =>
    generalize hcs : part ++ sep :: rest = cs at h'
    cases h' with
    | last h' => exact absurd hout (h' _ _ hcs.symm)
    | next h' hout' hrest' =>
      obtain ⟨rfl, rfl⟩ := h.eq_of_append hout h' hout' hcs
      rw [ih hrest']

end Cut

/-! What the scan of a text knows about it. -/

theorem opens_iff {c : Char} : opens c = true ↔ c = '\x7b' ∨ c = '(' ∨ c = '[' := by
  simp [opens, or_assoc]

theorem closes_iff {c : Char} : closes c = true ↔ c = '\x7d' ∨ c = ')' ∨ c = ']' := by
  simp [closes, or_assoc]

theorem isQuote_iff {c : Char} : isQuote c = true ↔ c = '"' ∨ c = '\'' := by
  simp [isQuote]

namespace Nesting

variable {n : Nesting} {c q : Char} {cs : List Char} {d : Nat}

/-- The nesting behind a text. -/
def behind (n : Nesting) (cs : List Char) : Nesting := cs.foldl after n

@[simp] theorem behind_nil (n : Nesting) : n.behind [] = n := rfl

@[simp] theorem behind_cons (n : Nesting) (c : Char) (cs : List Char) :
    n.behind (c :: cs) = (n.after c).behind cs := rfl

theorem behind_append (n : Nesting) (cs ds : List Char) :
    n.behind (cs ++ ds) = (n.behind cs).behind ds := List.foldl_append

/-- Inside of a number of brackets and of no quotes. -/
def level (d : Nat) : Nesting := ⟨d, none, false⟩

theorem after_char (ho : opens c = false) (hc : closes c = false) (hq : isQuote c = false) :
    (level d).after c = level d := by
  simp [level, after, ho, hc, hq]

theorem after_opens (h : opens c = true) : (level d).after c = level (d + 1) := by
  rcases opens_iff.mp h with rfl | rfl | rfl <;> rfl

theorem after_closes (h : closes c = true) : (level (d + 1)).after c = level d := by
  rcases closes_iff.mp h with rfl | rfl | rfl <;> rfl

theorem after_quote (h : isQuote q = true) : (level (d + 1)).after q = ⟨d + 1, some q, false⟩ := by
  rcases isQuote_iff.mp h with rfl | rfl <;> rfl

/-- Outside of brackets only an opening one matters. -/
theorem after_outside (h : opens c = false) : top.after c = top := by
  simp [top, after, h]

/-- Inside of quotes: behind a backslash any character, and else one that does not close them. -/
theorem after_escape : (Nesting.mk d (some q) false).after '\\' = ⟨d, some q, true⟩ := by
  simp [after]

theorem after_escaped : (Nesting.mk d (some q) true).after c = ⟨d, some q, false⟩ := by
  simp [after]

theorem after_plain (hslash : c ≠ '\\') (hne : c ≠ q) :
    (Nesting.mk d (some q) false).after c = ⟨d, some q, false⟩ := by
  simp [after, hslash, hne]

theorem after_unquote (h : isQuote q = true) :
    (Nesting.mk d (some q) false).after q = level d := by
  rcases isQuote_iff.mp h with rfl | rfl <;> rfl

/-- A backslash is only kept in mind inside of quotes. -/
def Settled (n : Nesting) : Prop := n.quote = none → n.escaped = false

theorem settled_top : top.Settled := fun _ => rfl

theorem Settled.after (h : n.Settled) (c : Char) : (n.after c).Settled := by
  obtain ⟨depth, quote, escaped⟩ := n
  cases quote with
  | some q =>
    unfold Nesting.after
    dsimp only
    split
    · exact fun _ => rfl
    · rename_i hescaped
      split
      · nofun
      · split
        · exact fun _ => by simpa using hescaped
        · nofun
  | none =>
    obtain rfl : escaped = false := h rfl
    unfold Nesting.after
    dsimp only
    split
    · nofun
    · split
      · exact fun _ => rfl
      · split <;> exact fun _ => rfl

/-- Text is cut outside of brackets only. -/
theorem Settled.cutsAt_iff (h : n.Settled) {sep : Char} :
    n.cutsAt sep c = true ↔ n = top ∧ c = sep := by
  obtain ⟨depth, quote, escaped⟩ := n
  simp only [cutsAt, top, Bool.and_eq_true, decide_eq_true_eq, Nesting.mk.injEq]
  constructor
  · rintro ⟨⟨rfl, rfl⟩, rfl⟩
    exact ⟨⟨rfl, rfl, h rfl⟩, rfl⟩
  · rintro ⟨⟨rfl, rfl, -⟩, rfl⟩
    exact ⟨⟨rfl, rfl⟩, rfl⟩

end Nesting

open Nesting

theorem Quotation.behind {q : Char} {text : List Char} (hq : isQuote q = true)
    (h : Quotation q text) (d : Nat) : (Nesting.mk d (some q) false).behind text = level d := by
  induction h with
  | close => rw [behind_cons, after_unquote hq, behind_nil]
  | escaped c h ih => rw [behind_cons, after_escape, behind_cons, after_escaped, ih]
  | plain hslash hne h ih => rw [behind_cons, after_plain hslash hne, ih]

/-- Enclosed text leaves the number of brackets as it was. -/
theorem Enclosed.behind {cs : List Char} (h : Enclosed cs) (d : Nat) :
    (level (d + 1)).behind cs = level (d + 1) := by
  induction h generalizing d with
  | nil => rfl
  | char ho hc hq h ih => rw [behind_cons, after_char ho hc hq, ih]
  | quoted hq htext h ih => rw [behind_cons, after_quote hq, behind_append, htext.behind hq, ih]
  | brackets ho hc hinner h ihinner ih =>
    rw [behind_cons, after_opens ho, behind_append, ihinner, behind_cons, after_closes hc, ih]

/-- Behind quotes that are closed again there is a quotation. -/
theorem exists_quotation {q : Char} {d : Nat} : (cs : List Char) →
    (Nesting.mk d (some q) false).behind cs = top →
    ∃ text rest, cs = text ++ rest ∧ Quotation q text ∧ (level d).behind rest = top
  | [], h => by cases h
  | c :: cs, h => by
    by_cases hslash : c = '\\'
    · subst hslash
      rw [behind_cons, after_escape] at h
      cases cs with
      | nil => cases h
      | cons c cs =>
        rw [behind_cons, after_escaped] at h
        obtain ⟨text, rest, rfl, htext, hrest⟩ := exists_quotation cs h
        exact ⟨_, rest, rfl, .escaped c htext, hrest⟩
    · by_cases hne : c = q
      · subst hne
        have hclosed : (Nesting.mk d (some c) false).after c = level d := by
          simp [after, hslash, level]
        rw [behind_cons, hclosed] at h
        exact ⟨[c], cs, rfl, .close, h⟩
      · rw [behind_cons, after_plain hslash hne] at h
        obtain ⟨text, rest, rfl, htext, hrest⟩ := exists_quotation cs h
        exact ⟨_, rest, rfl, .plain hslash hne htext, hrest⟩

/-- Text that gets outside of all brackets closes the innermost one behind enclosed text. -/
theorem exists_enclosed {d : Nat} {cs : List Char} (h : (level (d + 1)).behind cs = top) :
    ∃ inner c rest, cs = inner ++ c :: rest ∧ Enclosed inner ∧ closes c = true ∧
      (level d).behind rest = top := by
  induction hn : cs.length using Nat.strongRecOn generalizing d cs with
  | ind n ih =>
    cases cs with
    | nil => cases h
    | cons c cs =>
      have hlength : cs.length + 1 = n := hn
      rw [behind_cons] at h
      by_cases hc : closes c = true
      · rw [after_closes hc] at h
        exact ⟨[], c, cs, rfl, .nil, hc, h⟩
      by_cases ho : opens c = true
      · -- the bracket that opens here is closed before the one around it
        rw [after_opens ho] at h
        obtain ⟨inner, close, rest, rfl, hinner, hclose, hrest⟩ := ih _ (by omega) h rfl
        rw [List.length_append, List.length_cons] at hlength
        obtain ⟨more, last, rest, rfl, hmore, hlast, hrest⟩ := ih _ (by omega) hrest rfl
        exact ⟨c :: (inner ++ close :: more), last, rest, by simp,
          .brackets ho hclose hinner hmore, hlast, hrest⟩
      by_cases hq : isQuote c = true
      · rw [after_quote hq] at h
        obtain ⟨text, rest, rfl, htext, hrest⟩ := exists_quotation cs h
        rw [List.length_append] at hlength
        obtain ⟨more, last, rest, rfl, hmore, hlast, hrest⟩ := ih _ (by omega) hrest rfl
        exact ⟨c :: (text ++ more), last, rest, by simp, .quoted hq htext hmore, hlast, hrest⟩
      · simp only [Bool.not_eq_true] at hc ho hq
        rw [after_char ho hc hq] at h
        obtain ⟨inner, last, rest, rfl, hinner, hlast, hrest⟩ := ih _ (by omega) h rfl
        exact ⟨c :: inner, last, rest, rfl, .char ho hc hq hinner, hlast, hrest⟩

theorem Outside.behind {cs : List Char} (h : Outside cs) : top.behind cs = top := by
  induction h with
  | nil => rfl
  | char ho h ih => rw [behind_cons, after_outside ho, ih]
  | brackets ho hc hinner h ih =>
    have hopen : top.after _ = level (0 + 1) := after_opens ho
    rw [behind_cons, hopen, behind_append, hinner.behind, behind_cons, after_closes hc]
    exact ih

/-- The scan of a text is outside of brackets exactly where the text is. -/
theorem behind_top_iff {cs : List Char} : top.behind cs = top ↔ Outside cs := by
  refine ⟨fun h => ?_, Outside.behind⟩
  induction hn : cs.length using Nat.strongRecOn generalizing cs with
  | ind n ih =>
    cases cs with
    | nil => exact .nil
    | cons c cs =>
      have hlength : cs.length + 1 = n := hn
      rw [behind_cons] at h
      by_cases ho : opens c = true
      · have hopen : top.after c = level (0 + 1) := after_opens ho
        rw [hopen] at h
        obtain ⟨inner, close, rest, rfl, hinner, hclose, hrest⟩ := exists_enclosed h
        rw [List.length_append, List.length_cons] at hlength
        exact .brackets ho hclose hinner (ih _ (by omega) hrest rfl)
      · rw [Bool.not_eq_true] at ho
        rw [after_outside ho] at h
        exact .char ho (ih _ (by omega) h rfl)

/-! Splitting. -/

/-- Splitting from inside of brackets: there is no cut, or the first one comes where all brackets
have been closed. -/
theorem splitFrom_cases (sep : Char) {n : Nesting} (hn : n.Settled) (cs : List Char) :
    ∃ part, (∀ before behind, part = before ++ sep :: behind → n.behind before ≠ top) ∧
      (cs = part ∧ splitFrom sep n cs = [part] ∨
        ∃ rest, cs = part ++ sep :: rest ∧ n.behind part = top ∧
          splitFrom sep n cs = part :: splitTop sep rest) := by
  induction cs generalizing n with
  | nil => exact ⟨[], by simp, .inl ⟨rfl, rfl⟩⟩
  | cons c cs ih =>
    by_cases hcut : n.cutsAt sep c = true
    · obtain ⟨rfl, rfl⟩ := hn.cutsAt_iff.mp hcut
      exact ⟨[], by simp, .inr ⟨cs, rfl, rfl, splitTop_sep c cs⟩⟩
    · obtain ⟨part, hpart, hrest⟩ := ih (hn.after c)
      refine ⟨c :: part, ?_, ?_⟩
      · intro before behind heq
        cases before with
        | nil =>
          rw [List.nil_append] at heq
          obtain ⟨rfl, -⟩ := List.cons.inj heq
          rintro rfl
          exact hcut (hn.cutsAt_iff.mpr ⟨rfl, rfl⟩)
        | cons d before =>
          rw [List.cons_append] at heq
          obtain ⟨rfl, htail⟩ := List.cons.inj heq
          exact hpart before behind htail
      · rw [Bool.not_eq_true] at hcut
        rw [splitFrom_cons hcut]
        rcases hrest with ⟨rfl, hsplit⟩ | ⟨rest, rfl, htop, hsplit⟩
        · exact .inl ⟨rfl, by rw [hsplit, List.modifyHead_cons]⟩
        · exact .inr ⟨rest, rfl, htop, by rw [hsplit, List.modifyHead_cons]⟩

theorem cut_splitTop (sep : Char) (cs : List Char) : Cut sep cs (splitTop sep cs) := by
  induction hn : cs.length using Nat.strongRecOn generalizing cs with
  | ind n ih =>
    obtain ⟨part, hpart, hrest⟩ := splitFrom_cases sep settled_top cs
    have hwhole : Whole sep part := fun before behind heq hout =>
      hpart before behind heq hout.behind
    rcases hrest with ⟨rfl, hsplit⟩ | ⟨rest, rfl, htop, hsplit⟩
    · rw [splitTop, hsplit]
      exact .last hwhole
    · rw [splitTop, hsplit]
      refine .next hwhole (behind_top_iff.mp htop) (ih _ ?_ rest rfl)
      rw [← hn, List.length_append, List.length_cons]
      omega

theorem splitTop_eq_iff {sep : Char} {cs : List Char} {parts : List (List Char)} :
    splitTop sep cs = parts ↔ Cut sep cs parts := by
  constructor
  · rintro rfl
    exact cut_splitTop sep cs
  · exact (cut_splitTop sep cs).unique

/-! Variables. -/

theorem forall₂_of_mapM_ok {ε α β : Type} {f : α → Except ε β} {as : List α} {bs : List β}
    (h : as.mapM f = .ok bs) : List.Forall₂ (fun a b => f a = .ok b) as bs := by
  induction as generalizing bs with
  | nil =>
    cases h
    exact .nil
  | cons a as ih =>
    rw [List.mapM_cons] at h
    obtain ⟨b, hb, h⟩ := bind_eq_ok.mp h
    obtain ⟨more, hmore, h⟩ := bind_eq_ok.mp h
    cases h
    exact .cons hb (ih hmore)

/-- The source of a variable is cut at bars into its path and its filters, and the path at dots into
the segments. Each segment is read from its own text, and each filter has the name that is its text
without the blanks around it. -/
def ReadInParts (mode : Mode) (room : Nat) (source : List Char) (v : Var) : Prop :=
  ∃ body path filters keys, Parse.bare source = '$' :: body ∧ Cut '|' body (path :: filters) ∧
    Cut '.' path keys ∧ v.filters = Parse.filterNames filters ∧
    List.Forall₂ (fun key segment => Parse.segment (Parse.variableOf mode room)
      (Parse.complete (Parse.unary mode room)) (Parse.bare source) key = .ok segment)
      keys v.path.segments

theorem readInParts_of_variableOf {mode : Mode} {room : Nat} {source : List Char} {v : Var}
    (h : Parse.variableOf mode (room + 1) source = .ok v) : ReadInParts mode room source v := by
  simp only [Parse.variableOf] at h
  split at h
  · rename_i body hbody
    obtain ⟨segments, hsegments, h⟩ := bind_eq_ok.mp h
    cases h
    cases hparts : splitTop '|' body with
    | nil => exact absurd hparts (splitFrom_ne_nil '|' .top body)
    | cons path filters =>
      rw [hparts, List.headD_cons] at hsegments
      refine ⟨body, path, filters, splitTop '.' path, hbody, splitTop_eq_iff.mp hparts,
        cut_splitTop '.' path, ?_, forall₂_of_mapM_ok hsegments⟩
      rw [List.drop_one, List.tail_cons]
  · cases h

/-- Splitting loses nothing and repeats nothing: joined with the separator the parts are the text,
they are the only way to cut it at exactly the separators outside of brackets, and none of them is
split again. So a variable of any nesting is read from such parts of its source. -/
theorem splitTop_exact :
    (∀ sep cs, [sep].intercalate (splitTop sep cs) = cs ∧
      (∀ part ∈ splitTop sep cs, splitTop sep part = [part]) ∧
      ∀ parts, splitTop sep cs = parts ↔ Cut sep cs parts) ∧
    ∀ mode room source v, Parse.variableOf mode (room + 1) source = .ok v →
      ReadInParts mode room source v := by
  refine ⟨fun sep cs => ?_, fun _ _ _ _ => readInParts_of_variableOf⟩
  have hcut := cut_splitTop sep cs
  refine ⟨hcut.joined, fun part hpart => ?_, fun parts => splitTop_eq_iff⟩
  exact splitTop_eq_iff.mpr (.last (hcut.whole part hpart))

/-- A variable with a variable and an expression in its path. -/
def nestedParts : Source.Access :=
  .mk (.key ⟨['c'], rfl⟩) [.nested (.mk (.key ⟨['d'], rfl⟩) [] [⟨['h'], rfl⟩]),
    .index (.str ['.'])] [⟨['k'], rfl⟩]

/-- A group in which a quoted bracket closes nothing, closed by a bracket of another kind. -/
theorem splitTop_exact_group :
    let text := "x.(\".)\".]y.z".toList
    let group := "(\".)\".]y".toList
    splitTop '.' text = ["x".toList, group, "z".toList] ∧
      Cut '.' text ["x".toList, group, "z".toList] ∧ splitTop '.' group = [group] ∧
      nestedParts.print = "$c.\x7b$d|h\x7d.(\".\")|k".toList ∧
      Parse.variableOf .shared 3 nestedParts.print = .ok (nestedParts.var .shared) ∧
      ReadInParts .shared 2 nestedParts.print (nestedParts.var .shared) := by
  intro text group
  have hparts : splitTop '.' text = ["x".toList, group, "z".toList] := by decide
  have hgroup : group ∈ splitTop '.' text := by
    rw [hparts]
    exact List.mem_cons_of_mem _ List.mem_cons_self
  have hv : Parse.variableOf .shared 3 nestedParts.print = .ok (nestedParts.var .shared) :=
    nestedParts.variableOf_bare .shared 3 rfl (by decide) nestedParts.bare_print
  obtain ⟨-, hwhole, hcut⟩ := splitTop_exact.1 '.' text
  exact ⟨hparts, (hcut _).mp hparts, hwhole group hgroup, by decide, hv,
    splitTop_exact.2 .shared 2 nestedParts.print _ hv⟩

end Delimiter

end BraceTemplate
