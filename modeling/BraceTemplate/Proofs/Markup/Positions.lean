import BraceTemplate.Proofs.Markup.Comments
import BraceTemplate.Proofs.Markup.Progress

/-!
Where the errors of a walk point. A walk that fails fails in a call of the text callback, or it is
to blame on an opening brace that nothing escapes: that of the node whose callback failed, of the
innermost open node, or of a comment without an end.
-/
namespace BraceTemplate

/-- An error of compilation, the kind that carries a position. -/
def Error.OfCompilation : Error → Prop
  | .syntaxError _ _ | .unbalanced _ _ | .unknownNode _ _ => True
  | .execution _ | .io _ | .config _ | .crashed => False

/-- Attaching a position to an error of compilation without one succeeds. -/
theorem Error.position_locate {e : Error} {p : Position} (hplain : e.position = none)
    (hkind : (e.locate p).OfCompilation) : (e.locate p).position = some p := by
  cases e with
  | syntaxError fault position => cases hplain; rfl
  | unbalanced fault position => cases hplain; rfl
  | unknownNode node position => cases hplain; rfl
  | execution fault => exact hkind.elim
  | io fault => exact hkind.elim
  | config fault => exact hkind.elim
  | crashed => exact hkind.elim

namespace Markup

section Answers

variable {σ α β : Type} (h : Handler σ)

/-- A call of a handler, with the error it fails with if it does. -/
abbrev Answer := Callback × Option Error

/-- The error of what failed. -/
def failure? : Except Error α → Option Error
  | .ok _ => none
  | .error e => some e

/-- The handler with a record of its calls and of how they end. -/
def Handler.answering (h : Handler σ) : Handler (σ × List Answer) where
  text := fun text => annotated (fun result => (.text text, failure? result)) (h.text text)
  node := fun content inner =>
    annotated (fun result => (.node content inner, failure? result)) (h.node content inner)

/-- The calls of a walk and how they end, in order. -/
def answers (s : σ) (source : List Char) : List Answer :=
  (outcome (walk h.answering source) (s, [])).2.2

/-- The two computations end alike, in states that differ in the record at most. -/
abbrev Recorded (x : Process (σ × List Answer) α) (y : Process σ α) : Prop :=
  Coupled (fun e e' r s => e = e' ∧ r.1 = s) (fun r s => r.1 = s) x y fun a b r s => a = b ∧ r.1 = s

namespace Recorded

theorem pure (a : α) : Recorded (Pure.pure a) (Pure.pure a : Process σ α) :=
  Coupled.pure fun _ _ hs => ⟨rfl, hs⟩

theorem syntaxError (p : Position) (fault : SyntaxFault) :
    Recorded (syntaxErrorAt p fault) (syntaxErrorAt p fault : Process σ α) :=
  Coupled.throw fun _ _ hs => ⟨rfl, hs⟩

theorem bind {x : Process (σ × List Answer) α} {y : Process σ α}
    {f : α → Process (σ × List Answer) β} {g : α → Process σ β} (h : Recorded x y)
    (hnext : ∀ a, Recorded (f a) (g a)) : Recorded (x >>= f) (y >>= g) := by
  apply Coupled.bind h
  rintro a _ r s ⟨rfl, hs⟩
  exact hnext a r s hs

theorem call (note : Except Error α → Answer) (act : Process σ α) :
    Recorded (annotated note act) act := by
  rintro ⟨s, calls⟩ _ rfl
  rw [outcome_annotated]
  rcases outcome act s with ⟨e | a, t⟩
  · exact .error ⟨rfl, rfl⟩
  · exact .ok ⟨rfl, rfl⟩

theorem located {x : Process (σ × List Answer) α} {y : Process σ α} (h : Recorded x y)
    (p : Position) : Recorded (located p x) (located p y) := by
  intro r s hs
  have hends := h r s hs
  rw [outcome_located, outcome_located]
  generalize outcome x r = first at hends ⊢
  generalize outcome y s = second at hends ⊢
  cases hends with
  | ok hq => exact .ok hq
  | error hf => exact .error ⟨congrArg _ hf.1, hf.2⟩

end Recorded

theorem Handler.answering_text (text : List Char) :
    Recorded (h.answering.text text) (h.text text) :=
  .call (fun result => (.text text, failure? result)) (h.text text)

theorem Handler.answering_node (content : List Char) (inner : Bool) :
    Recorded (h.answering.node content inner) (h.node content inner) :=
  .call (fun result => (.node content inner, failure? result)) (h.node content inner)

theorem flush_recorded (text : List Char) :
    Recorded (flush h.answering text) (flush h text) := by
  unfold flush
  split
  · exact .pure _
  · exact h.answering_text text

theorem step_recorded (p : Pending) (mark : Mark × Position) :
    Recorded (step h.answering p mark) (step h p mark) := by
  obtain ⟨mark, pos⟩ := mark
  obtain ⟨levels, text⟩ := p
  cases levels with
  | nil =>
    cases mark with
    | plain c => exact .pure _
    | opening => exact .bind (flush_recorded h _) fun _ => .pure _
    | closing => exact .pure _
    | lineBreak => exact .pure _
    | openComment => exact .syntaxError _ _
  | cons level levels =>
    cases mark with
    | plain c => exact .pure _
    | opening => exact .pure _
    | closing =>
      show Recorded (closeNode h.answering level ⟨levels, text⟩) (closeNode h level ⟨levels, text⟩)
      unfold closeNode
      apply Recorded.bind (.located (h.answering_node _ _) level.start)
      intro answer
      dsimp only
      split
      · exact .pure _
      · exact .bind (flush_recorded h _) fun _ => .pure _
    | lineBreak => exact .syntaxError _ _
    | openComment => exact .syntaxError _ _

theorem walk_recorded (source : List Char) :
    Recorded (walk h.answering source) (walk h source) := by
  have hsteps (ms : List (Mark × Position)) (p : Pending) :
      Recorded (ms.foldlM (step h.answering) p) (ms.foldlM (step h) p) := by
    induction ms generalizing p with
    | nil => exact .pure p
    | cons m ms ih =>
      rw [List.foldlM_cons, List.foldlM_cons]
      exact .bind (step_recorded h p m) ih
  unfold walk
  apply Recorded.bind (hsteps (marks source) .empty)
  intro p
  unfold finish
  split
  · exact flush_recorded h _
  · exact .syntaxError _ _

/-- The record changes nothing about how a walk ends. -/
theorem walk_answering {s t : σ} {source : List Char} {r : Except Error Unit}
    (hwalk : outcome (walk h source) s = (r, t)) :
    outcome (walk h.answering source) (s, []) = (r, (t, answers h s source)) := by
  have hends := walk_recorded h source (s, []) s rfl
  rw [hwalk] at hends
  rw [answers]
  generalize outcome (walk h.answering source) (s, []) = first at hends ⊢
  cases hends with
  | ok hq => rw [← hq.2]
  | error hf => rw [hf.1, ← hf.2]

end Answers

section Blame

variable {σ : Type} {h : Handler σ} {s : σ} {source read rest before : List Char}
  {opened : List (List Char)} {p : Pending}

/-- A walk has come to a rest of its source and goes on from there. -/
structure Reached (h : Handler σ) (s : σ) (source read rest : List Char)
    (opened : List (List Char)) (p : Pending) (t : σ) : Prop where
  reads : ReadTo source read rest opened
  run : outcome ((marks read).foldlM (step h) .empty) s = (.ok p, t)
  starts : p.levels.map Level.start = opened.map Position.behind

namespace Reached

variable {t : σ}

theorem walk (hr : Reached h s source read rest opened p t) :
    outcome (walk h source) s = outcome (resume h p (.behind read) rest) t := by
  have hmarks := hr.reads.marks_append (.inr rfl)
  rw [← hr.reads.source_eq] at hmarks
  rw [Markup.walk, hmarks, List.foldlM_append, bind_assoc, outcome_bind_ok hr.run]
  rfl

/-- Where a node is open, what has been read makes the same calls without the rest. -/
theorem alone (hr : Reached h s source read rest (before :: opened) p t) :
    (outcome (Markup.walk h read) s).2 = t := by
  rw [Markup.walk, outcome_bind_ok hr.run, finish]
  cases hlevels : p.levels with
  | nil =>
    have hstarts := hr.starts
    rw [hlevels] at hstarts
    cases hstarts
  | cons level levels => rfl

theorem advance (hr : Reached h s source read rest opened p t) {text rest' : List Char}
    {opened' : List (List Char)} {p' : Pending} {t' : σ}
    (hreads : ReadTo source (read ++ text) rest' opened')
    (hrun : outcome ((scan .body (.behind read) text).foldlM (step h) p) t = (.ok p', t'))
    (hstarts : p'.levels.map Level.start = opened'.map Position.behind) :
    Reached h s source (read ++ text) rest' opened' p' t' := by
  have hrest : rest = text ++ rest' := by
    have hsource := hr.reads.source_eq.symm.trans hreads.source_eq
    rwa [List.append_assoc, List.append_cancel_left_eq] at hsource
  have hhead : text = [] ∨ text.head? = rest.head? := by
    rw [hrest]
    cases text with
    | nil => exact .inl rfl
    | cons c text => exact .inr rfl
  refine ⟨hreads, ?_, hstarts⟩
  rw [hr.reads.marks_append hhead, List.foldlM_append, outcome_bind_ok hr.run, hrun]

end Reached

/-- The walk fails because its last call, one of the text callback, fails. -/
def FailsAtText (h : Handler σ) (s : σ) (source : List Char) (e : Error) : Prop :=
  ∃ earlier text, answers h s source = earlier ++ [(.text text, some e)]

/-- The walk of a source ends in an error that is to blame on the opening brace behind a text. -/
inductive Blamed (h : Handler σ) (s : σ) (source before : List Char) : Error → Prop where
  /-- It opens a node whose callback fails: the last call, made where the node closes. -/
  | node {read rest content : List Char} {opened : List (List Char)} {t u : σ} {e : Error}
      (hread : ReadTo source read ('\x7d' :: rest) (before :: opened))
      (hlast : answers h s source =
        answers h s read ++ [(.node content (!opened.isEmpty), some e)])
      (hcall : outcome (h.node content (!opened.isEmpty)) t = (.error e, u)) :
      Blamed h s source before (e.locate (.behind before))
  /-- It opens the innermost node around a line break. -/
  | lineBreak {read rest : List Char} {opened : List (List Char)} {content : String}
      (hread : ReadTo source read ('\n' :: rest) (before :: opened)) :
      Blamed h s source before (.syntaxError (.lineBreakInNode content) (some (.behind before)))
  /-- It opens the innermost node that is open at the end. -/
  | unterminated {opened : List (List Char)} {content : String}
      (hread : ReadTo source source [] (before :: opened)) :
      Blamed h s source before (.syntaxError (.unterminatedNode content) (some (.behind before)))
  /-- It opens a comment without an end. -/
  | comment {rest : List Char} {opened : List (List Char)}
      (hread : ReadTo source before ('\x7b' :: '%' :: rest) opened)
      (hrest : ¬['%', '\x7d'] <:+: rest) :
      Blamed h s source before (.syntaxError .unterminatedComment (some (.behind before)))

/-- What is blamed is an opening brace that nothing escapes, with the start of a node or a comment
behind it. -/
theorem Blamed.brace {e : Error} (hblamed : Blamed h s source before e) :
    ∃ c others, source = before ++ '\x7b' :: c :: others ∧ (BeginsNode c ∨ c = '%') ∧
      Unescaped before := by
  have hnode {read rest : List Char} {opened : List (List Char)}
      (hread : ReadTo source read rest (before :: opened)) :
      ∃ c others, source = before ++ '\x7b' :: c :: others ∧ (BeginsNode c ∨ c = '%') ∧
        Unescaped before := by
    obtain ⟨c, others, hsource, hc, hbefore⟩ := hread.opened_mem List.mem_cons_self
    exact ⟨c, others, hsource, .inl hc, hbefore⟩
  cases hblamed with
  | node hread _ _ => exact hnode hread
  | lineBreak hread => exact hnode hread
  | unterminated hread => exact hnode hread
  | comment hread _ => exact ⟨'%', _, hread.source_eq, .inr rfl, hread.unescaped rfl (by decide)⟩

theorem annotated_ends {α : Type} (note : Except Error α → Answer) (act : Process σ α)
    (r : σ × List Answer) :
    (∃ a r', outcome (annotated note act) r = (.ok a, r')) ∨
      ∃ e t, outcome act r.1 = (.error e, t) ∧
        outcome (annotated note act) r = (.error e, (t, r.2 ++ [note (.error e)])) := by
  obtain ⟨s, calls⟩ := r
  have hrun := outcome_annotated note act s calls
  cases hact : outcome act s with
  | mk result t =>
    rw [hact] at hrun
    cases result with
    | ok a => exact .inl ⟨a, _, hrun⟩
    | error e => exact .inr ⟨e, t, rfl, hrun⟩

/-- A run has failed because its last call, one of the text callback, has. -/
def EndsAtText {α : Type} (run : Except Error α × σ × List Answer) : Prop :=
  ∃ e t earlier text, run = (.error e, (t, earlier ++ [(.text text, some e)]))

theorem EndsAtText.bind {α β : Type} {act : Process (σ × List Answer) α} {r : σ × List Answer}
    (hends : EndsAtText (outcome act r)) (next : α → Process (σ × List Answer) β) :
    EndsAtText (outcome (act >>= next) r) := by
  obtain ⟨e, t, earlier, text, hact⟩ := hends
  exact ⟨e, t, earlier, text, outcome_bind_error hact next⟩

theorem flush_ends (text : List Char) (r : σ × List Answer) :
    (∃ r', outcome (flush h.answering text) r = (.ok (), r')) ∨
      EndsAtText (outcome (flush h.answering text) r) := by
  unfold flush
  split
  · exact .inl ⟨r, rfl⟩
  · rcases annotated_ends (fun result => (.text text, failure? result)) (h.text text) r with
      ⟨_, r', hrun⟩ | ⟨e, t, -, hrun⟩
    · exact .inl ⟨r', hrun⟩
    · exact .inr ⟨e, t, r.2, text, hrun⟩

theorem Pending.starts_add (p : Pending) (cs : List Char) :
    (p.add cs).levels.map Level.start = p.levels.map Level.start := by
  obtain ⟨_ | ⟨level, levels⟩, text⟩ := p <;> rfl

theorem opening_ends (p : Pending) (pos : Position) (r : σ × List Answer) :
    (∃ p' r', outcome (step h.answering p (.opening, pos)) r = (.ok p', r') ∧
      p'.levels.map Level.start = pos :: p.levels.map Level.start) ∨
    EndsAtText (outcome (step h.answering p (.opening, pos)) r) := by
  obtain ⟨levels, text⟩ := p
  cases levels with
  | nil =>
    rcases flush_ends (h := h) text.reverse r with ⟨r', hflush⟩ | htext
    · exact .inl ⟨_, r', outcome_bind_ok hflush _, rfl⟩
    · exact .inr (htext.bind _)
  | cons level levels => exact .inl ⟨_, r, rfl, rfl⟩

/-- A character of text or of a node's content. -/
theorem step_char {c : Char} (p : Pending) (pos : Position)
    (hinside : p.levels ≠ [] → c ≠ '\x7d' ∧ c ≠ '\n') :
    step h p (Mark.ofChar c, pos) = pure (p.add [c]) := by
  obtain ⟨levels, text⟩ := p
  cases levels with
  | nil => exact step_ofChar h c pos text
  | cons level levels =>
    obtain ⟨hclose, hbreak⟩ := hinside (List.cons_ne_nil level levels)
    rw [Mark.ofChar, if_neg hclose, if_neg hbreak]
    rfl

/-- A node is closed, or its callback fails, or the text callback fails on the answer. -/
theorem closeNode_ends (level : Level) (outer : Pending) (r : σ × List Answer) :
    (∃ p r', outcome (closeNode h.answering level outer) r = (.ok p, r') ∧
      p.levels.map Level.start = outer.levels.map Level.start) ∨
    (∃ e t, outcome (h.node level.content.reverse !outer.levels.isEmpty) r.1 = (.error e, t) ∧
      outcome (closeNode h.answering level outer) r = (.error (e.locate level.start),
        (t, r.2 ++ [(.node level.content.reverse !outer.levels.isEmpty, some e)]))) ∨
    EndsAtText (outcome (closeNode h.answering level outer) r) := by
  rcases annotated_ends
      (fun result => (.node level.content.reverse !outer.levels.isEmpty, failure? result))
      (h.node level.content.reverse !outer.levels.isEmpty) r with
    ⟨answer, r', hnode⟩ | ⟨e, t, hcall, hnode⟩
  · have hlocated := outcome_located_ok (p := level.start).mpr hnode
    have hclose : outcome (closeNode h.answering level outer) r =
        outcome (if !outer.levels.isEmpty then pure (outer.add answer)
          else flush h.answering answer >>= fun _ => pure outer) r' :=
      outcome_bind_ok hlocated _
    cases hinner : outer.levels.isEmpty with
    | false =>
      rw [hinner] at hclose
      exact .inl ⟨_, r', hclose, outer.starts_add answer⟩
    | true =>
      rw [hinner] at hclose
      rcases flush_ends (h := h) answer r' with ⟨r'', hflush⟩ | htext
      · exact .inl ⟨outer, r'', hclose.trans (outcome_bind_ok hflush _), rfl⟩
      · exact .inr (.inr (hclose ▸ htext.bind _))
  · refine .inr (.inl ⟨e, t, hcall, outcome_bind_error ?_ _⟩)
    rw [outcome_located]
    exact congrArg (fun end' => (end'.1.mapError (·.locate level.start), end'.2)) hnode

/-- A failing walk is explained by a call of the text callback or by an opening brace. -/
def Explained (h : Handler σ) (s : σ) (source : List Char) (e : Error) : Prop :=
  FailsAtText h s source e ∨ ∃ before, Blamed h s source before e

namespace Reached

variable {c : Char} {cs : List Char} {r : σ × List Answer} {e : Error} {t : σ}

/-- Going on from a rest ends like the walk, with its record. -/
theorem resume (hr : Reached h.answering (s, []) source read rest opened p r)
    (hwalk : outcome (Markup.walk h source) s = (.error e, t)) :
    outcome (Markup.resume h.answering p (.behind read) rest) r =
      (.error e, (t, answers h s source)) :=
  hr.walk.symm.trans (walk_answering h hwalk)

theorem explained_text {α : Type} {act : Process (σ × List Answer) α}
    (hends : outcome act r = (.error e, (t, answers h s source)))
    (htext : EndsAtText (outcome act r)) : Explained h s source e := by
  obtain ⟨e', t', earlier, text, hact⟩ := htext
  obtain ⟨he, ht⟩ := Prod.mk.inj (hends.symm.trans hact)
  cases he
  exact .inl ⟨earlier, text, (Prod.mk.inj ht).2⟩

/-- The end of the source. -/
theorem explained_nil (hr : Reached h.answering (s, []) source read [] opened p r)
    (hwalk : outcome (Markup.walk h source) s = (.error e, t)) : Explained h s source e := by
  have hends := hr.resume hwalk
  obtain ⟨levels, text⟩ := p
  cases levels with
  | nil =>
    rcases flush_ends (h := h) text.reverse r with ⟨r', hflush⟩ | htext
    · cases hends.symm.trans hflush
    · exact explained_text hends htext
  | cons level levels =>
    have hstarts := hr.starts
    cases opened with
    | nil => cases hstarts
    | cons before opened =>
      have hstart : level.start = .behind before := (List.cons.inj hstarts).1
      have hread : read = source := by
        have := hr.reads.source_eq
        rw [this, List.append_nil]
      have he : e = .syntaxError (.unterminatedNode (.ofList level.content.reverse))
          (some level.start) := Except.error.inj (Prod.mk.inj hends.symm).1
      rw [he, hstart]
      exact .inr ⟨before, .unterminated (hread ▸ hr.reads)⟩

/-- The walk comes to a shorter rest. -/
def GoesOn (h : Handler σ) (s : σ) (source rest : List Char) : Prop :=
  ∃ read' rest' opened' p' r', Reached h.answering (s, []) source read' rest' opened' p' r' ∧
    rest'.length < rest.length

theorem next_escape (hr : Reached h.answering (s, []) source read ('\\' :: c :: cs) opened p r)
    (hc : isEscapable c) : GoesOn h s source ('\\' :: c :: cs) := by
  have hrun : outcome ((scan .body (.behind read) ['\\', c]).foldlM (step h.answering) p) r =
      (.ok (p.add [c]), r) := by
    rw [scan_escaped hc]
    rfl
  refine ⟨_, cs, opened, _, r, hr.advance (hr.reads.escape hc) hrun ?_, ?_⟩
  · rw [p.starts_add, hr.starts]
  · simp only [List.length_cons]
    omega

theorem next_comment (hr : Reached h.answering (s, []) source read ('\x7b' :: '%' :: cs) opened p r)
    (hwalk : outcome (Markup.walk h source) s = (.error e, t)) :
    Explained h s source e ∨ GoesOn h s source ('\x7b' :: '%' :: cs) := by
  cases hbehind : behindComment (((Position.behind read).after '\x7b').after '%') cs with
  | none =>
    have hends := hr.resume hwalk
    have hhead : head '\x7b' (some '%') = .comment := rfl
    rw [resume_cons] at hends
    simp only [List.head?_cons, hhead, List.tail_cons, hbehind] at hends
    have he : e = .syntaxError .unterminatedComment (some (.behind read)) :=
      Except.error.inj (Prod.mk.inj hends.symm).1
    rw [he]
    exact .inl (.inr ⟨read, .comment hr.reads (behindComment_eq_none hbehind)⟩)
  | some behind =>
    obtain ⟨text, htext, rfl, -⟩ := behindComment_eq_some hbehind
    have hreads : ReadTo source read (comment text ++ behind.2) opened := by
      have := hr.reads
      simpa [comment] using this
    have hrun : outcome ((scan .body (.behind read) (comment text)).foldlM (step h.answering) p) r =
        (.ok p, r) := by
      have hscan := scan_past_comment htext (.behind read) []
      rw [List.append_nil] at hscan
      rw [hscan]
      rfl
    refine .inr ⟨_, behind.2, opened, p, r, hr.advance (hreads.comment htext) hrun hr.starts, ?_⟩
    simp only [List.length_cons, List.length_append]
    omega

theorem next_opening (hr : Reached h.answering (s, []) source read ('\x7b' :: c :: cs) opened p r)
    (hc : BeginsNode c) (hwalk : outcome (Markup.walk h source) s = (.error e, t)) :
    Explained h s source e ∨ GoesOn h s source ('\x7b' :: c :: cs) := by
  have hhead : head '\x7b' (some c) = .opening := head_brace hc
  rcases opening_ends (h := h) p (.behind read) r with
    ⟨p', r', hopening, hstarts⟩ | htext
  · have hrun : outcome ((scan .body (.behind read) ['\x7b', c]).foldlM (step h.answering) p) r =
        (.ok (p'.add [c]), r') := by
      have hchar := step_char (h := h.answering) p' ((Position.behind read).after '\x7b')
        fun _ => ⟨hc.ne (by decide), hc.ne (by decide)⟩
      rw [scan_node hc, List.foldlM_cons, outcome_bind_ok hopening, List.foldlM_cons, hchar]
      rfl
    refine .inr ⟨_, cs, read :: opened, _, r',
      hr.advance (hr.reads.opening hc) hrun ?_, ?_⟩
    · rw [p'.starts_add, hstarts, hr.starts, List.map_cons]
    · simp only [List.length_cons]
      omega
  · have hends := hr.resume hwalk
    rw [resume_cons] at hends
    simp only [List.head?_cons, hhead] at hends
    exact .inl (explained_text hends (htext.bind _))

/-- The mark of a single character is handled. -/
theorem next_mark (hr : Reached h.answering (s, []) source read (c :: cs) opened p r)
    {opened' : List (List Char)} (hreads : ReadTo source (read ++ [c]) cs opened') {p' : Pending}
    {r' : σ × List Answer}
    (hstep : outcome (step h.answering p (Mark.ofChar c, .behind read)) r = (.ok p', r'))
    (hstarts : p'.levels.map Level.start = opened'.map Position.behind) :
    GoesOn h s source (c :: cs) := by
  refine ⟨_, cs, opened', p', r', hr.advance hreads ?_ hstarts, Nat.lt_succ_self cs.length⟩
  show outcome ([(Mark.ofChar c, Position.behind read)].foldlM (step h.answering) p) r =
    (.ok p', r')
  rw [List.foldlM_cons, outcome_bind_ok hstep]
  rfl

/-- A closing brace inside of a node. -/
theorem next_closing
    (hr : Reached h.answering (s, []) source read ('\x7d' :: cs) (before :: opened) p r)
    (hwalk : outcome (Markup.walk h source) s = (.error e, t)) :
    Explained h s source e ∨ GoesOn h s source ('\x7d' :: cs) := by
  obtain ⟨_ | ⟨level, levels⟩, text⟩ := p
  · cases hr.starts
  have hends := hr.resume hwalk
  rw [resume_cons, head_close] at hends
  obtain ⟨hstart, hlevels⟩ := List.cons.inj hr.starts
  rcases closeNode_ends (h := h) level ⟨levels, text⟩ r with
    ⟨p', r', hclose, hstarts⟩ | ⟨e', u, hcall, hclose⟩ | htext
  · exact .inr (hr.next_mark hr.reads.closing hclose (hstarts.trans hlevels))
  · obtain ⟨he, hanswers⟩ := Prod.mk.inj (hends.symm.trans (outcome_bind_error hclose _))
    obtain rfl : e = e'.locate level.start := Except.error.inj he
    have hinner : levels.isEmpty = opened.isEmpty := by
      rw [← List.isEmpty_map (f := Level.start), hlevels, List.isEmpty_map]
    have hearlier : answers h s read = r.2 := congrArg Prod.snd hr.alone
    rw [hstart]
    refine .inl (.inr ⟨before, .node hr.reads ?_ (hinner ▸ hcall)⟩)
    rw [hearlier, ← hinner]
    exact (Prod.mk.inj hanswers).2
  · exact .inl (explained_text hends (htext.bind _))

theorem next_single (hr : Reached h.answering (s, []) source read (c :: cs) opened p r)
    (hc : head c cs.head? = .single) (hwalk : outcome (Markup.walk h source) s = (.error e, t)) :
    Explained h s source e ∨ GoesOn h s source (c :: cs) := by
  by_cases hinside : opened ≠ [] → c ≠ '\x7d' ∧ c ≠ '\n'
  · have hlevels : p.levels ≠ [] → c ≠ '\x7d' ∧ c ≠ '\n' := by
      intro hlevels
      apply hinside
      rintro rfl
      exact hlevels (List.map_eq_nil_iff.mp hr.starts)
    have hstep : outcome (step h.answering p (Mark.ofChar c, .behind read)) r =
        (.ok (p.add [c]), r) := by
      rw [step_char p _ hlevels, outcome_pure]
    refine .inr (hr.next_mark (hr.reads.char hc hinside) hstep ?_)
    rw [p.starts_add, hr.starts]
  · obtain ⟨hopened, hmark⟩ := Classical.not_imp.mp hinside
    obtain ⟨before, opened, rfl⟩ := List.exists_cons_of_ne_nil hopened
    by_cases hclose : c = '\x7d'
    · subst hclose
      exact hr.next_closing hwalk
    · obtain rfl : c = '\n' := by
        by_contra hbreak
        exact hmark ⟨hclose, hbreak⟩
      obtain ⟨_ | ⟨level, levels⟩, text⟩ := p
      · cases hr.starts
      have hends := hr.resume hwalk
      rw [resume_cons, hc] at hends
      have hstart : level.start = .behind before := (List.cons.inj hr.starts).1
      have he : e = .syntaxError (.lineBreakInNode (.ofList level.content.reverse))
          (some level.start) := Except.error.inj (Prod.mk.inj hends.symm).1
      rw [he, hstart]
      exact .inl (.inr ⟨before, .lineBreak hr.reads⟩)

/-- What stands first in the rest of a source that is walked is handled, or explains the error. -/
theorem next (hr : Reached h.answering (s, []) source read (c :: cs) opened p r)
    (hwalk : outcome (Markup.walk h source) s = (.error e, t)) :
    Explained h s source e ∨ GoesOn h s source (c :: cs) := by
  rcases head_cases c cs with ⟨d, rest, rfl, rfl, hd⟩ | ⟨rest, rfl, rfl⟩ | ⟨d, rest, rfl, rfl, hd⟩ |
    hsingle
  · exact .inr (hr.next_escape hd)
  · exact hr.next_comment hwalk
  · exact hr.next_opening hd hwalk
  · exact hr.next_single hsingle hwalk

/-- Every error of a walk is explained. -/
theorem explained (hr : Reached h.answering (s, []) source read rest opened p r)
    (hwalk : outcome (Markup.walk h source) s = (.error e, t)) : Explained h s source e := by
  induction hlength : rest.length using Nat.strongRecOn generalizing read rest opened p r with
  | ind n ih =>
  subst hlength
  cases rest with
  | nil => exact hr.explained_nil hwalk
  | cons c cs =>
    rcases hr.next hwalk with hexplained | ⟨read, rest, opened, p, r, hr, hshorter⟩
    · exact hexplained
    · exact ih _ hshorter hr rfl

end Reached

theorem walk_explained {e : Error} {t : σ} (hwalk : outcome (walk h source) s = (.error e, t)) :
    Explained h s source e :=
  Reached.explained ⟨.start, rfl, rfl⟩ hwalk

/-- Errors of compilation point at the offending node. Where the errors of the node callback carry
no position, one that the text callback has not raised carries that of an opening brace that nothing
escapes, with the start of a node or a comment behind it: the brace of the node whose callback
failed, of the innermost node that is open at a line break or at the end of the source, or of a
comment without an end. -/
theorem failure_placed {e : Error} {t : σ}
    (hplain : ∀ content inner u e u', outcome (h.node content inner) u = (.error e, u') →
      e.position = none)
    (hwalk : outcome (walk h source) s = (.error e, t)) (hkind : e.OfCompilation)
    (htext : ¬FailsAtText h s source e) :
    ∃ before c rest, source = before ++ '\x7b' :: c :: rest ∧ (BeginsNode c ∨ c = '%') ∧
      Unescaped before ∧ e.position = some (.behind before) ∧ Blamed h s source before e := by
  obtain ⟨before, hblamed⟩ := (walk_explained hwalk).resolve_left htext
  obtain ⟨c, rest, hsource, hc, hbefore⟩ := hblamed.brace
  refine ⟨before, c, rest, hsource, hc, hbefore, ?_, hblamed⟩
  cases hblamed with
  | node hread hlast hcall => exact Error.position_locate (hplain _ _ _ _ _ hcall) hkind
  | lineBreak hread => rfl
  | unterminated hread => rfl
  | comment hread hrest => rfl

/-- Behind line breaks, escapes and a comment, in a node inside of another one. -/
theorem failure_placed_nested :
    let h : Handler Unit :=
      { text := fun _ => pure ()
        node := fun content _ =>
          if content = "bad".toList then throw (.unknownNode "bad" none) else pure ['x'] }
    let source := "a\\\x7b\n\x7b%\n \x7bn\x7d%\x7d\\\\\x7bif \x7bok\x7d \x7bbad\x7d\x7d".toList
    let e : Error := .unknownNode "bad" (some ⟨3, 18⟩)
    ((∀ content inner u e u', outcome (h.node content inner) u = (.error e, u') →
        e.position = none) ∧
      outcome (walk h source) () = (.error e, ()) ∧ e.OfCompilation ∧ ¬FailsAtText h () source e) ∧
    ∃ before c rest, source = before ++ '\x7b' :: c :: rest ∧ (BeginsNode c ∨ c = '%') ∧
      Unescaped before ∧ e.position = some (.behind before) ∧ Blamed h () source before e := by
  intro h source e
  have hplain (content : List Char) (inner : Bool) (u : Unit) (e : Error) (u' : Unit)
      (hcall : outcome (h.node content inner) u = (.error e, u')) : e.position = none := by
    simp only [h] at hcall
    split at hcall
    · cases hcall
      rfl
    · cases hcall
  have hwalk : outcome (walk h source) () = (.error e, ()) := by decide +kernel
  have htext : ¬FailsAtText h () source e := by
    have hanswers : answers h () source = [(.text "a\x7b\n\\".toList, none),
        (.node "ok".toList true, none),
        (.node "bad".toList true, some (.unknownNode "bad" none))] := by decide +kernel
    rintro ⟨earlier, text, hlast⟩
    have hcalls := congrArg List.getLast? (hanswers.symm.trans hlast)
    simp at hcalls
  exact ⟨⟨hplain, hwalk, trivial, htext⟩, failure_placed hplain hwalk trivial htext⟩

end Blame
end Markup
end BraceTemplate
