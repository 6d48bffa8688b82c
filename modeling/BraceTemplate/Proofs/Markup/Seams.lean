import Mathlib.Data.List.Forall2
import BraceTemplate.Proofs.Coupling
import BraceTemplate.Proofs.Markup.Extraction

/-!
Where source may be cut, and what a walk makes of marks that stand elsewhere. Behind text that ends
in nothing that looks ahead scanning starts afresh; a position reaches nothing but errors.
-/
namespace BraceTemplate

/-- An error without its position. -/
def Error.unplaced : Error → Error
  | .syntaxError fault _ => .syntaxError fault none
  | .unbalanced fault _ => .unbalanced fault none
  | .unknownNode node _ => .unknownNode node none
  | e => e

@[simp] theorem Error.unplaced_locate (e : Error) (p : Position) :
    (e.locate p).unplaced = e.unplaced := by
  rcases e with ⟨_, _ | _⟩ | ⟨_, _ | _⟩ | ⟨_, _ | _⟩ | _ | _ | _ | _ <;> rfl

namespace Markup

/-- The source ends inside of a comment. -/
def EndsInComment (cs : List Char) : Prop := .openComment ∈ (marks cs).map Prod.fst

instance : DecidablePred EndsInComment := fun cs =>
  inferInstanceAs (Decidable (.openComment ∈ (marks cs).map Prod.fst))

section Cuts

variable {p q : Position} {cs rest : List Char}

/-- The text does not end in a character that looks ahead. -/
structure Cut (cs : List Char) : Prop where
  slash : cs.getLast? ≠ some '\\'
  brace : cs.getLast? ≠ some '\x7b'

theorem Cut.suffix (h : Cut cs) (hsuffix : rest <:+ cs) : Cut rest := by
  obtain ⟨front, rfl⟩ := hsuffix
  have hlast {c : Char} (hc : (front ++ rest).getLast? ≠ some c) : rest.getLast? ≠ some c := by
    intro hrest
    rw [List.getLast?_append, hrest] at hc
    exact hc rfl
  exact ⟨hlast h.slash, hlast h.brace⟩

/-- What stands first is told in front of a cut. -/
theorem head_append {c : Char} (h : Cut (c :: cs)) (more : List Char) :
    head c (cs ++ more).head? = head c cs.head? := by
  cases cs with
  | cons d cs => rfl
  | nil =>
    have hslash : c ≠ '\\' := fun hc => h.slash (congrArg some hc)
    have hbrace : c ≠ '\x7b' := fun hc => h.brace (congrArg some hc)
    cases more with
    | nil => rfl
    | cons d more => simp [head, hslash, hbrace]

theorem behindComment_more (h : behindComment p cs = some (q, rest)) (more : List Char) :
    behindComment p (cs ++ more) = some (q, rest ++ more) := by
  fun_induction behindComment p cs with
  | case1 p c d cs hend =>
    cases h
    rw [List.cons_append, List.cons_append, behindComment, if_pos hend]
  | case2 p c d cs hend ih =>
    rw [List.cons_append, List.cons_append, behindComment, if_neg hend]
    exact ih h
  | case3 => cases h

theorem behindComment_suffix (h : behindComment p cs = some (q, rest)) : rest <:+ cs := by
  fun_induction behindComment p cs with
  | case1 p c d cs hend =>
    cases h
    exact ⟨[c, d], rfl⟩
  | case2 p c d cs hend ih => exact (ih h).trans (List.suffix_cons c (d :: cs))
  | case3 => cases h

/-- The first mark is made in front of a cut, and what is left is a rest of the text. -/
theorem scan_first {c : Char} (hcut : Cut (c :: cs))
    (hcomment : ∀ start, (Mark.openComment, start) ∉ scan .body p (c :: cs)) :
    ∃ ms next rest, rest <:+ cs ∧
      ∀ more, scan .body p (c :: cs ++ more) = ms ++ scan .body next (rest ++ more) := by
  have hscan (more : List Char) := scan_cons p c (cs ++ more)
  simp only [head_append hcut] at hscan
  cases hhead : head c cs.head? with
  | escape d =>
    cases cs with
    | nil => cases hhead
    | cons e cs =>
      simp only [hhead] at hscan
      exact ⟨[(.plain d, p)], _, cs, List.suffix_cons e cs, hscan⟩
  | comment =>
    cases cs with
    | nil => cases hhead
    | cons e cs =>
      simp only [hhead, List.cons_append, List.tail_cons, scan_opened] at hscan
      cases hbehind : behindComment ((p.after c).after '%') cs with
      | none =>
        have hopen := hscan []
        rw [List.append_nil, hbehind] at hopen
        rw [hopen] at hcomment
        exact absurd List.mem_cons_self (hcomment p)
      | some behind =>
        obtain ⟨next, rest⟩ := behind
        refine ⟨[], next, rest, (behindComment_suffix hbehind).trans (List.suffix_cons e cs), ?_⟩
        intro more
        rw [List.cons_append, List.cons_append, hscan, behindComment_more hbehind]
        rfl
  | opening =>
    simp only [hhead] at hscan
    exact ⟨[(.opening, p)], _, cs, List.suffix_rfl, hscan⟩
  | single =>
    simp only [hhead] at hscan
    exact ⟨[(Mark.ofChar c, p)], _, cs, List.suffix_rfl, hscan⟩

/-- Behind a cut outside of comments the marks are those of what follows. -/
theorem scan_append (hcut : Cut cs)
    (hcomment : ∀ start, (Mark.openComment, start) ∉ scan .body p cs) :
    ∃ q, ∀ more, scan .body p (cs ++ more) = scan .body p cs ++ scan .body q more := by
  induction hlength : cs.length using Nat.strongRecOn generalizing cs p with
  | ind n ih =>
  subst hlength
  cases cs with
  | nil => exact ⟨p, fun more => rfl⟩
  | cons c cs =>
    obtain ⟨ms, next, rest, hsuffix, hscan⟩ := scan_first hcut hcomment
    have halone : scan .body p (c :: cs) = ms ++ scan .body next rest := by
      simpa using hscan []
    rw [halone] at hcomment ⊢
    obtain ⟨q, hq⟩ := ih _ (Nat.lt_succ_of_le hsuffix.length_le)
      (hcut.suffix (hsuffix.trans (List.suffix_cons c cs)))
      (fun start h => hcomment start (List.mem_append_right _ h)) rfl
    exact ⟨q, fun more => by rw [hscan, hq, List.append_assoc]⟩

/-- Text without the end of a comment in it, with that end behind it. -/
theorem behindComment_end (h : ¬ ['%', '\x7d'] <:+: cs) (p : Position) (more : List Char) :
    behindComment p (cs ++ '%' :: '\x7d' :: more) =
      some ((cs ++ ['%', '\x7d']).foldl Position.after p, more) := by
  induction cs generalizing p with
  | nil => rfl
  | cons c cs ih =>
    have hrest := ih (fun hin => h (List.infix_cons hin)) (p.after c)
    cases cs with
    | nil =>
      rw [List.cons_append, List.nil_append, behindComment, if_neg (by simp)]
      exact hrest
    | cons d cs =>
      have hopen : ¬(c = '%' ∧ d = '\x7d') := by
        rintro ⟨rfl, rfl⟩
        exact h ⟨[], cs, rfl⟩
      rw [List.cons_append, List.cons_append, behindComment, if_neg hopen]
      exact hrest

/-- A comment that holds a text. -/
def comment (cs : List Char) : List Char := '\x7b' :: '%' :: (cs ++ ['%', '\x7d'])

/-- Scanning starts afresh behind a comment. -/
theorem scan_past_comment (h : ¬ ['%', '\x7d'] <:+: cs) (p : Position) (more : List Char) :
    scan .body p (comment cs ++ more) =
      scan .body ((comment cs).foldl Position.after p) more := by
  have hscan := scan_cons p '\x7b' ('%' :: (cs ++ '%' :: '\x7d' :: more))
  have hhead : head '\x7b' (some '%') = .comment := rfl
  simp only [List.head?_cons, hhead, List.tail_cons, scan_opened, behindComment_end h] at hscan
  simpa [comment] using hscan

end Cuts

section Alike

variable {σ τ α β : Type} {S : σ → τ → Prop} {Q : α → β → σ → τ → Prop} {h : Handler σ}
  {k : Handler τ}

/-- The same marks, wherever they stand. -/
abbrev MarksAlike : List (Mark × Position) → List (Mark × Position) → Prop :=
  List.Forall₂ fun m m' => m.1 = m'.1

theorem behindComment_alike (p p' : Position) (cs : List Char) :
    (behindComment p cs).map Prod.snd = (behindComment p' cs).map Prod.snd := by
  induction cs generalizing p p' with
  | nil => rfl
  | cons c cs ih =>
    cases cs with
    | nil => rfl
    | cons d cs =>
      rw [behindComment, behindComment]
      split
      · rfl
      · exact ih _ _

/-- Which marks a text has does not depend on where it stands. -/
theorem scan_alike (p p' : Position) (cs : List Char) :
    MarksAlike (scan .body p cs) (scan .body p' cs) := by
  induction hlength : cs.length using Nat.strongRecOn generalizing cs p p' with
  | ind n ih =>
  subst hlength
  cases cs with
  | nil => exact .nil
  | cons c cs =>
    have htail := length_tail_lt c cs
    rw [scan_cons, scan_cons]
    cases head c cs.head? with
    | escape d => exact .cons rfl (ih _ htail _ _ _ rfl)
    | comment =>
      dsimp only
      have hbehind := behindComment_alike ((p.after c).after '%') ((p'.after c).after '%') cs.tail
      rw [scan_opened, scan_opened]
      cases hend : behindComment ((p.after c).after '%') cs.tail with
      | none =>
        rw [hend, Option.map_none] at hbehind
        rw [Option.map_eq_none_iff.mp hbehind.symm]
        exact .cons rfl .nil
      | some behind =>
        rw [hend, Option.map_some] at hbehind
        obtain ⟨behind', hend', hrest⟩ := Option.map_eq_some_iff.mp hbehind.symm
        rw [hend']
        have hshorter := Nat.lt_trans (length_behindComment hend) htail
        show MarksAlike (scan .body behind.1 behind.2) (scan .body behind'.1 behind'.2)
        rw [hrest]
        exact ih _ hshorter _ _ _ rfl
    | opening => exact .cons rfl (ih _ (Nat.lt_succ_self _) _ _ _ rfl)
    | single => exact .cons rfl (ih _ (Nat.lt_succ_self _) _ _ _ rfl)

/-- Errors that differ in their positions at most. -/
def Misplaced (S : σ → τ → Prop) (e e' : Error) (s : σ) (t : τ) : Prop :=
  e.unplaced = e'.unplaced ∧ S s t

/-- Handlers that from related states do the same, up to the positions of errors. -/
structure Handler.Alike (S : σ → τ → Prop) (h : Handler σ) (k : Handler τ) : Prop where
  text : ∀ cs, Coupled (Misplaced S) S (h.text cs) (k.text cs) fun _ _ => S
  node : ∀ content inner, Coupled (Misplaced S) S (h.node content inner) (k.node content inner)
    fun a b s t => a = b ∧ S s t

/-- The same open nodes and the same text, wherever the nodes start. -/
structure Pending.Alike (p p' : Pending) : Prop where
  levels : List.Forall₂ (fun l l' => l.content = l'.content) p.levels p'.levels
  text : p.text = p'.text

theorem Pending.Alike.refl (p : Pending) : p.Alike p :=
  ⟨List.forall₂_same.mpr fun _ _ => rfl, rfl⟩

theorem Pending.Alike.add {p p' : Pending} (hp : p.Alike p') (cs : List Char) :
    (p.add cs).Alike (p'.add cs) := by
  obtain ⟨levels, text⟩ := p
  obtain ⟨levels', text'⟩ := p'
  obtain ⟨hlevels, htext⟩ := hp
  dsimp only at hlevels htext
  cases hlevels with
  | nil => exact ⟨.nil, congrArg (cs.reverse ++ ·) htext⟩
  | cons hl hls => exact ⟨.cons (congrArg (cs.reverse ++ ·) hl) hls, htext⟩

/-- Walks that are coupled differ in nothing but the position of an error. -/
theorem same_outcome {x : Process σ Unit} {y : Process τ Unit}
    (h : Coupled (Misplaced S) S x y fun _ _ => S) {s : σ} {t : τ} (hs : S s t) :
    S (outcome x s).2 (outcome y t).2 ∧
      (outcome x s).1.mapError Error.unplaced = (outcome y t).1.mapError Error.unplaced := by
  have hends := h s t hs
  generalize outcome x s = first at hends ⊢
  generalize outcome y t = first' at hends ⊢
  cases hends with
  | ok hq => exact ⟨hq, rfl⟩
  | error hf => exact ⟨hf.2, congrArg Except.error hf.1⟩

theorem located_coupled {x : Process σ α} {y : Process τ β}
    (hxy : Coupled (Misplaced S) S x y Q) (p q : Position) :
    Coupled (Misplaced S) S (located p x) (located q y) Q := by
  intro s t hs
  have hends := hxy s t hs
  rw [outcome_located, outcome_located]
  generalize outcome x s = first at hends ⊢
  generalize outcome y t = first' at hends ⊢
  cases hends with
  | ok hq => exact .ok hq
  | error hf => exact .error ⟨by simpa using hf.1, hf.2⟩

theorem syntaxErrorAt_coupled {fault fault' : SyntaxFault} (hfault : fault = fault')
    (p q : Position) :
    Coupled (Misplaced S) S (syntaxErrorAt p fault : Process σ α)
      (syntaxErrorAt q fault' : Process τ β) Q := by
  subst hfault
  exact .throw fun _ _ hs => ⟨rfl, hs⟩

theorem flush_coupled (hk : h.Alike S k) (text : List Char) :
    Coupled (Misplaced S) S (flush h text) (flush k text) fun _ _ => S := by
  unfold flush
  split
  · exact .pure fun _ _ hs => hs
  · exact hk.text text

theorem closeNode_coupled (hk : h.Alike S k) {l l' : Level} (hl : l.content = l'.content)
    {p p' : Pending} (hp : p.Alike p') :
    Coupled (Misplaced S) S (closeNode h l p) (closeNode k l' p') fun q q' s t =>
      q.Alike q' ∧ S s t := by
  have hinner : p.levels.isEmpty = p'.levels.isEmpty := by
    rw [Bool.eq_iff_iff, List.isEmpty_iff_length_eq_zero, List.isEmpty_iff_length_eq_zero,
      hp.levels.length_eq]
  unfold closeNode
  dsimp only
  rw [hl, hinner]
  refine .bind (located_coupled (hk.node _ _) l.start l'.start) fun answer answer' => ?_
  split
  · refine .pure ?_
    rintro s t ⟨rfl, hs⟩
    exact ⟨hp.add answer, hs⟩
  · rintro s t ⟨rfl, hs⟩
    exact Coupled.bind (flush_coupled hk answer) (fun _ _ => .pure fun _ _ hs => ⟨hp, hs⟩) s t hs

theorem step_coupled (hk : h.Alike S k) {p p' : Pending} (hp : p.Alike p')
    {m m' : Mark × Position} (hm : m.1 = m'.1) :
    Coupled (Misplaced S) S (step h p m) (step k p' m') fun q q' s t => q.Alike q' ∧ S s t := by
  obtain ⟨mark, pos⟩ := m
  obtain ⟨mark', pos'⟩ := m'
  obtain ⟨levels, text⟩ := p
  obtain ⟨levels', text'⟩ := p'
  have hadd (cs : List Char) : Coupled (Misplaced S) S
      (pure (Pending.add ⟨levels, text⟩ cs) : Process σ Pending)
      (pure (Pending.add ⟨levels', text'⟩ cs) : Process τ Pending)
      fun q q' s t => q.Alike q' ∧ S s t := .pure fun _ _ hs => ⟨hp.add cs, hs⟩
  obtain ⟨hlevels, htext⟩ := hp
  dsimp only at hm hlevels htext
  subst hm htext
  cases hlevels with
  | nil =>
    cases mark with
    | plain c => exact hadd [c]
    | opening =>
      exact .bind (flush_coupled hk text.reverse) fun _ _ =>
        .pure fun _ _ hs => ⟨⟨.cons rfl .nil, rfl⟩, hs⟩
    | closing => exact hadd ['\x7d']
    | lineBreak => exact hadd ['\n']
    | openComment => exact syntaxErrorAt_coupled rfl pos pos'
  | @cons l l' ls ls' hl hls =>
    cases mark with
    | plain c => exact hadd [c]
    | opening => exact .pure fun _ _ hs => ⟨⟨.cons rfl (.cons hl hls), rfl⟩, hs⟩
    | closing => exact closeNode_coupled hk hl ⟨hls, rfl⟩
    | lineBreak => exact syntaxErrorAt_coupled (by rw [hl]) l.start l'.start
    | openComment => exact syntaxErrorAt_coupled rfl pos pos'

theorem finish_coupled (hk : h.Alike S k) {p p' : Pending} (hp : p.Alike p') :
    Coupled (Misplaced S) S (finish h p) (finish k p') fun _ _ => S := by
  obtain ⟨levels, text⟩ := p
  obtain ⟨levels', text'⟩ := p'
  obtain ⟨hlevels, htext⟩ := hp
  dsimp only at hlevels htext
  subst htext
  cases hlevels with
  | nil => exact flush_coupled hk text.reverse
  | @cons l l' ls ls' hl hls => exact syntaxErrorAt_coupled (by rw [hl]) l.start l'.start

/-- A walk goes on in the same way wherever the rest of the source stands. -/
theorem resume_coupled (hk : h.Alike S k) {p p' : Pending} (hp : p.Alike p')
    (pos pos' : Position) (cs : List Char) :
    Coupled (Misplaced S) S (resume h p pos cs) (resume k p' pos' cs) fun _ _ => S := by
  have hmarks := scan_alike pos pos' cs
  unfold resume
  generalize scan .body pos cs = ms at hmarks ⊢
  generalize scan .body pos' cs = ms' at hmarks ⊢
  induction hmarks generalizing p p' with
  | nil => simpa using finish_coupled hk hp
  | @cons m m' ms ms' hm hms ih =>
    rw [List.foldlM_cons, List.foldlM_cons, bind_assoc, bind_assoc]
    refine .bind (step_coupled hk hp hm) fun q q' => ?_
    rintro s t ⟨hq, hs⟩
    exact ih hq s t hs

end Alike

/-- A walk that succeeds has met no comment without an end. -/
theorem steps_closed {σ : Type} {h : Handler σ} (ms : List (Mark × Position)) (p : Pending) :
    Ensures (fun _ => True) (ms.foldlM (step h) p) fun _ _ =>
      Mark.openComment ∉ ms.map Prod.fst := by
  induction ms generalizing p with
  | nil => exact .pure fun _ _ => List.not_mem_nil
  | cons m ms ih =>
    obtain ⟨mark, pos⟩ := m
    by_cases hmark : mark = .openComment
    · subst hmark
      have hstep : step h p (.openComment, pos) = syntaxErrorAt pos .unterminatedComment := by
        unfold step
        rfl
      rw [List.foldlM_cons, hstep]
      exact .bind (Q := fun _ _ => False) .throw fun _ _ hf => hf.elim
    · rw [List.foldlM_cons]
      refine .after fun p' => (ih p').imp fun _ _ hms => ?_
      rw [List.map_cons, List.mem_cons, not_or]
      exact ⟨Ne.symm hmark, hms⟩

theorem walk_closed {σ : Type} {h : Handler σ} {cs : List Char} {s s' : σ}
    (hwalk : outcome (walk h cs) s = (.ok (), s')) : ¬EndsInComment cs := by
  obtain ⟨p, t, hsteps, -⟩ := outcome_bind_eq_ok hwalk
  exact steps_closed (marks cs) .empty s trivial p t hsteps

/-- A walk comes to a cut with the same pending nodes and text, whatever follows. -/
theorem walk_append {σ : Type} (h : Handler σ) {cs : List Char} (hcut : Cut cs)
    (hcomment : ¬EndsInComment cs) : ∃ q, ∀ more, walk h (cs ++ more) =
      (marks cs).foldlM (step h) .empty >>= fun p => resume h p q more := by
  obtain ⟨q, hq⟩ := scan_append hcut (p := .start) fun start hopen =>
    hcomment (List.mem_map_of_mem hopen)
  refine ⟨q, fun more => ?_⟩
  rw [walk, marks, hq, List.foldlM_append, bind_assoc]
  rfl

end Markup
end BraceTemplate
