import BraceTemplate.Proofs.Markup.Seams

/-!
How far a source has been read: which nodes are open there, and in front of which texts their braces
stand. What has been read has its own marks, and its position is told by its line breaks.
-/
namespace BraceTemplate

/-- The position behind a text that a source begins with: one more than the line breaks in it, and
one more than the characters behind the last of them. -/
def Position.behind (cs : List Char) : Position :=
  ⟨1 + cs.count '\n', 1 + (cs.reverse.takeWhile (· ≠ '\n')).length⟩

theorem Position.behind_concat (cs : List Char) (c : Char) :
    behind (cs ++ [c]) = (behind cs).after c := by
  unfold behind after
  by_cases hc : c = '\n'
  · subst hc
    simp
    omega
  · simp [hc]
    omega

theorem Position.behind_append (cs more : List Char) :
    behind (cs ++ more) = more.foldl after (behind cs) := by
  induction more generalizing cs with
  | nil => rw [List.append_nil, List.foldl_nil]
  | cons c more ih => rw [List.foldl_cons, ← behind_concat, ← ih, List.append_assoc,
      List.singleton_append]

namespace Markup

variable {source read rest more before text : List Char} {opened : List (List Char)}

/-- An even number of backslashes ends the text: the character behind it stands for itself. -/
def Unescaped (read : List Char) : Prop := (read.reverse.takeWhile (· = '\\')).length % 2 = 0

instance : DecidablePred Unescaped := fun read =>
  inferInstanceAs (Decidable ((read.reverse.takeWhile (· = '\\')).length % 2 = 0))

/-- A source, what has been read of it, what has not, and the texts in front of the opening braces
of the nodes that are open there, innermost first. The first character of a node is read with its
brace. -/
inductive ReadTo (source : List Char) : List Char → List Char → List (List Char) → Prop where
  | start : ReadTo source [] source []
  | escape {read rest : List Char} {opened : List (List Char)} {d : Char}
      (h : ReadTo source read ('\\' :: d :: rest) opened) (hd : isEscapable d) :
      ReadTo source (read ++ ['\\', d]) rest opened
  | comment {read rest text : List Char} {opened : List (List Char)}
      (h : ReadTo source read (Markup.comment text ++ rest) opened)
      (htext : ¬['%', '\x7d'] <:+: text) :
      ReadTo source (read ++ Markup.comment text) rest opened
  | opening {read rest : List Char} {opened : List (List Char)} {c : Char}
      (h : ReadTo source read ('\x7b' :: c :: rest) opened) (hc : BeginsNode c) :
      ReadTo source (read ++ ['\x7b', c]) rest (read :: opened)
  | closing {read rest before : List Char} {opened : List (List Char)}
      (h : ReadTo source read ('\x7d' :: rest) (before :: opened)) :
      ReadTo source (read ++ ['\x7d']) rest opened
  | char {read rest : List Char} {opened : List (List Char)} {c : Char}
      (h : ReadTo source read (c :: rest) opened) (hc : head c rest.head? = .single)
      (hinside : opened ≠ [] → c ≠ '\x7d' ∧ c ≠ '\n') : ReadTo source (read ++ [c]) rest opened

theorem ReadTo.source_eq (h : ReadTo source read rest opened) : source = read ++ rest := by
  induction h with
  | start => rfl
  | escape _ _ ih => simpa using ih
  | comment _ _ ih => simpa using ih
  | opening _ _ ih => simpa using ih
  | closing _ ih => simpa using ih
  | char _ _ _ ih => simpa using ih

theorem unescaped_concat (read : List Char) {c : Char} (hc : c ≠ '\\') :
    Unescaped (read ++ [c]) := by
  simp [Unescaped, hc]

/-- Whatever may be escaped next is not. -/
theorem ReadTo.unescaped (h : ReadTo source read rest opened) {c : Char} {others : List Char}
    (hrest : rest = c :: others) (hc : isEscapable c) : Unescaped read := by
  induction h generalizing c others with
  | start => rfl
  | @escape read rest opened d _ hd ih =>
    have hread : Unescaped read := ih rfl (by decide)
    by_cases hslash : d = '\\'
    · subst hslash
      simp only [Unescaped] at hread ⊢
      simp
      omega
    · have := unescaped_concat (read ++ ['\\']) hslash
      simpa using this
  | @comment read rest text opened _ _ _ =>
    have := unescaped_concat (read ++ '\x7b' :: '%' :: text ++ ['%']) (c := '\x7d') (by decide)
    simpa [Markup.comment] using this
  | @opening read rest opened d _ hd _ =>
    have := unescaped_concat (read ++ ['\x7b']) (hd.ne (by decide))
    simpa using this
  | closing _ _ => exact unescaped_concat _ (by decide)
  | @char read rest opened d _ hd _ _ =>
    apply unescaped_concat
    rintro rfl
    subst hrest
    have hescapes := (isEscapable_iff c).mp hc
    simp [head, hescapes] at hd

/-- An open node begins with a brace that nothing escapes. -/
theorem ReadTo.opened_mem (h : ReadTo source read rest opened) (hmem : before ∈ opened) :
    ∃ c others, source = before ++ '\x7b' :: c :: others ∧ BeginsNode c ∧ Unescaped before := by
  induction h with
  | start => cases hmem
  | escape _ _ ih => exact ih hmem
  | comment _ _ ih => exact ih hmem
  | @opening read rest opened c h hc ih =>
    rcases List.mem_cons.mp hmem with rfl | hmem
    · exact ⟨c, rest, h.source_eq, hc, h.unescaped rfl (by decide)⟩
    · exact ih hmem
  | closing _ ih => exact ih (List.mem_cons_of_mem _ hmem)
  | char _ _ _ ih => exact ih hmem

/-- What ends a comment stands behind its text. -/
theorem behindComment_eq_some {p q : Position} (h : behindComment p rest = some (q, more)) :
    ∃ text, ¬['%', '\x7d'] <:+: text ∧ rest = text ++ '%' :: '\x7d' :: more ∧
      q = (text ++ ['%', '\x7d']).foldl Position.after p := by
  fun_induction behindComment p rest with
  | case1 p c d cs hend =>
    obtain ⟨rfl, rfl⟩ := hend
    cases h
    exact ⟨[], by decide, rfl, rfl⟩
  | case2 p c d cs hend ih =>
    obtain ⟨text, htext, hcs, rfl⟩ := ih h
    refine ⟨c :: text, ?_, by rw [hcs, List.cons_append], rfl⟩
    rw [List.infix_cons_iff, not_or]
    refine ⟨?_, htext⟩
    rintro ⟨others, hothers⟩
    cases hothers
    exact hend ⟨rfl, (List.cons.inj hcs).1⟩
  | case3 => cases h

theorem behindComment_eq_none {p : Position} (h : behindComment p rest = none) :
    ¬['%', '\x7d'] <:+: rest := by
  fun_induction behindComment p rest with
  | case1 p c d cs hend => cases h
  | case2 p c d cs hend ih =>
    rw [List.infix_cons_iff, not_or]
    refine ⟨?_, ih h⟩
    rintro ⟨others, hothers⟩
    cases hothers
    exact hend ⟨rfl, rfl⟩
  | case3 p cs hshort =>
    rintro ⟨front, others, rfl⟩
    rcases front with _ | ⟨c, _ | ⟨d, front⟩⟩
    · exact hshort _ _ _ rfl
    · exact hshort _ _ _ rfl
    · exact hshort _ _ _ rfl

/-- What stands first is an escape, opens a comment or a node, or is a single character. -/
theorem head_cases (c : Char) (cs : List Char) :
    (∃ d rest, c = '\\' ∧ cs = d :: rest ∧ isEscapable d) ∨
    (∃ rest, c = '\x7b' ∧ cs = '%' :: rest) ∨
    (∃ d rest, c = '\x7b' ∧ cs = d :: rest ∧ BeginsNode d) ∨ head c cs.head? = .single := by
  cases cs with
  | nil => exact .inr (.inr (.inr rfl))
  | cons d cs =>
    by_cases hescape : c = '\\' ∧ isEscapable d
    · exact .inl ⟨d, cs, hescape.1, rfl, hescape.2⟩
    by_cases hcomment : c = '\x7b' ∧ d = '%'
    · exact .inr (.inl ⟨cs, hcomment.1, by rw [hcomment.2]⟩)
    by_cases hopening : c = '\x7b' ∧ BeginsNode d
    · exact .inr (.inr (.inl ⟨d, cs, hopening.1, rfl, hopening.2⟩))
    rw [isEscapable_iff] at hescape
    rw [List.head?_cons, head, if_neg hescape, if_neg hcomment, if_neg hopening]
    exact .inr (.inr (.inr rfl))

/-- A character that neither escapes nor opens anything. -/
theorem head_eq_single {c : Char} (hslash : c ≠ '\\') (hbrace : c ≠ '\x7b') (next : Option Char) :
    head c next = .single := by
  cases next with
  | none => rfl
  | some d => simp [head, hslash, hbrace]

theorem head_brace {c : Char} (hc : BeginsNode c) : head '\x7b' (some c) = .opening := by
  have hpercent : c ≠ '%' := hc.ne (by decide)
  simp [head, hc, hpercent]

theorem head_of_beginsNode {c : Char} (hc : BeginsNode c) (next : Option Char) :
    head c next = .single :=
  head_eq_single (hc.ne (by decide)) (hc.ne (by decide)) next

theorem scan_single {c : Char} (hc : head c more.head? = .single) (p : Position) :
    scan .body p (c :: more) = (Mark.ofChar c, p) :: scan .body (p.after c) more := by
  rw [scan_cons, hc]

theorem scan_node {c : Char} (hc : BeginsNode c) (p : Position) (more : List Char) :
    scan .body p ('\x7b' :: c :: more) = (.opening, p) :: (Mark.ofChar c, p.after '\x7b') ::
      scan .body ((p.after '\x7b').after c) more := by
  rw [scan_opening ((startsNode_iff c).mpr hc), scan_single (head_of_beginsNode hc _)]

/-- Text is scanned by itself. -/
def Separate (p : Position) (text more : List Char) : Prop :=
  scan .body p (text ++ more) = scan .body p text ++ scan .body (text.foldl Position.after p) more

theorem separate_comment (htext : ¬['%', '\x7d'] <:+: text) (p : Position) (more : List Char) :
    Separate p (comment text) more := by
  have halone := scan_past_comment htext p []
  rw [List.append_nil] at halone
  rw [Separate, scan_past_comment htext, halone]
  rfl

theorem separate_single {c : Char} (hc : head c more.head? = .single) (p : Position) :
    Separate p [c] more :=
  scan_single hc p

theorem head_close (next : Option Char) : head '\x7d' next = .single :=
  head_eq_single (by decide) (by decide) next

/-- Marks of what has been read stand in front of those of the rest. -/
theorem ReadTo.marks_append (h : ReadTo source read rest opened)
    (hmore : more = [] ∨ more.head? = rest.head?) :
    marks (read ++ more) = marks read ++ scan .body (.behind read) more := by
  have hstep {read text more : List Char}
      (ih : ∀ more, marks (read ++ (text ++ more)) =
        marks read ++ scan .body (.behind read) (text ++ more))
      (hseparate : Separate (.behind read) text more) :
      marks (read ++ text ++ more) =
        marks (read ++ text) ++ scan .body (.behind (read ++ text)) more := by
    have halone := ih []
    rw [List.append_nil] at halone
    rw [List.append_assoc, ih, hseparate, halone, Position.behind_append, List.append_assoc]
  induction h generalizing more with
  | start => rfl
  | escape h hd ih =>
    apply hstep fun more => ih (.inr rfl)
    exact (scan_escaped hd _ more).trans (congrArg (· ++ _) (scan_escaped hd _ []).symm)
  | comment h htext ih => exact hstep (fun more => ih (.inr rfl)) (separate_comment htext _ _)
  | opening h hc ih =>
    apply hstep fun more => ih (.inr rfl)
    exact (scan_node hc _ more).trans (congrArg (· ++ _) (scan_node hc _ []).symm)
  | closing h ih => exact hstep (fun more => ih (.inr rfl)) (separate_single (head_close _) _)
  | @char read rest opened c h hc hinside ih =>
    apply hstep fun more => ih (.inr rfl)
    apply separate_single
    rcases hmore with rfl | hmore
    · rfl
    · rwa [hmore]

end Markup
end BraceTemplate
