import BraceTemplate.Proofs.Markup.Extraction
import BraceTemplate.Proofs.Source.Printed

/-!
Scanning: what a walk does on printed text, character by character, whatever follows. Escaped text
comes back as it was, and the content of a node as it is printed.
-/
namespace BraceTemplate.Markup
open Source

variable {σ : Type} {h : Handler σ} {s s' s₁ : σ} {p p' p₁ : Pending}

/-- A walk through a rest of source. -/
def feed (h : Handler σ) (p : Pending) (pos : Position) (cs : List Char) : Process σ Pending :=
  (scan .body pos cs).foldlM (step h) p

theorem feed_step {cs rest : List Char} {m : Mark} {pos pos' : Position}
    (hscan : scan .body pos cs = (m, pos) :: scan .body pos' rest)
    (hstep : outcome (step h p (m, pos)) s = (.ok p', s')) :
    outcome (feed h p pos cs) s = outcome (feed h p' pos' rest) s' := by
  rw [feed, hscan, List.foldlM_cons, outcome_bind_ok hstep]
  rfl

/-- Reading text leads from one state to another, whatever follows the text. -/
def Moves (h : Handler σ) (s : σ) (p : Pending) (cs : List Char) (s' : σ) (p' : Pending) : Prop :=
  ∀ pos rest, ∃ pos', outcome (feed h p pos (cs ++ rest)) s = outcome (feed h p' pos' rest) s'

namespace Moves

theorem nil : Moves h s p [] s p := fun pos _ => ⟨pos, rfl⟩

theorem append {cs ds : List Char} (hc : Moves h s p cs s₁ p₁) (hd : Moves h s₁ p₁ ds s' p') :
    Moves h s p (cs ++ ds) s' p' := by
  intro pos rest
  obtain ⟨pos₁, hc⟩ := hc pos (ds ++ rest)
  obtain ⟨pos', hd⟩ := hd pos₁ rest
  exact ⟨pos', by rw [List.append_assoc, hc, hd]⟩

theorem plain {c : Char} (hescape : c ≠ '\\') (hopen : c ≠ '\x7b') (hclose : c ≠ '\x7d')
    (hbreak : c ≠ '\n') : Moves h s p [c] s (p.add [c]) := by
  intro pos rest
  refine ⟨_, feed_step (scan_plain hescape hopen pos rest) ?_⟩
  rw [Mark.ofChar, if_neg hclose, if_neg hbreak]
  rfl

theorem lineBreak {text : List Char} :
    Moves h s ⟨[], text⟩ ['\n'] s ⟨[], '\n' :: text⟩ := fun pos rest =>
  ⟨_, feed_step (scan_plain (by decide) (by decide) pos rest) rfl⟩

theorem escaped {c : Char} (hc : isEscapable c = true) : Moves h s p ['\\', c] s (p.add [c]) :=
  fun pos rest => ⟨_, feed_step (scan_escaped hc pos rest) rfl⟩

end Moves

theorem Pending.add_append (p : Pending) (cs ds : List Char) :
    (p.add cs).add ds = p.add (cs ++ ds) := by
  obtain ⟨levels, text⟩ := p
  cases levels <;> simp [Pending.add]

/-- Text that becomes content of the node around it as it is. -/
def Verbatim (h : Handler σ) (cs : List Char) : Prop :=
  ∀ s p, p.levels ≠ [] → Moves h s p cs s (p.add cs)

namespace Verbatim

theorem nil : Verbatim h [] := by
  intro s p hp
  have hadd : p.add [] = p := by
    obtain ⟨levels, text⟩ := p
    cases levels <;> rfl
  rw [hadd]
  exact .nil

theorem levels_add {cs : List Char} (hp : p.levels ≠ []) : (p.add cs).levels ≠ [] := by
  obtain ⟨levels, text⟩ := p
  cases levels with
  | nil => exact absurd rfl hp
  | cons l ls => exact List.cons_ne_nil _ _

theorem append {cs ds : List Char} (hc : Verbatim h cs) (hd : Verbatim h ds) :
    Verbatim h (cs ++ ds) := by
  intro s p hp
  rw [← p.add_append]
  exact (hc s p hp).append (hd s _ (levels_add hp))

theorem flatMap {α : Type} {f : α → List Char} {l : List α} (hf : ∀ a ∈ l, Verbatim h (f a)) :
    Verbatim h (l.flatMap f) := by
  induction l with
  | nil => exact .nil
  | cons a l ih =>
    rw [List.flatMap_cons]
    exact (hf a List.mem_cons_self).append (ih fun b hb => hf b (List.mem_cons_of_mem a hb))

theorem backslash : Verbatim h ['\\', '"'] := by
  intro s p _ pos rest
  have hb : outcome (feed h p pos ('\\' :: '"' :: rest)) s = _ :=
    feed_step (scan_backslash (by decide) pos rest) rfl
  obtain ⟨pos', hq⟩ := Moves.plain (h := h) (s := s) (p := p.add ['\\']) (c := '"') (by decide)
    (by decide) (by decide) (by decide) _ rest
  rw [p.add_append] at hq
  exact ⟨pos', hb.trans hq⟩

theorem of_inert {cs : List Char} (hcs : Inert cs) : Verbatim h cs := by
  induction hcs with
  | nil => exact .nil
  | char hbreak hopen hclose hescape _ ih =>
    exact append (fun s p _ => .plain hescape hopen hclose hbreak) ih
  | quote _ ih => exact append backslash ih

end Verbatim

/-- Text that becomes content of the node around it, whatever follows. -/
def Becomes (h : Handler σ) (cs content : List Char) : Prop :=
  ∀ s p, p.levels ≠ [] → Moves h s p cs s (p.add content)

theorem Verbatim.becomes {cs : List Char} (hcs : Verbatim h cs) : Becomes h cs cs := hcs

/-- Text that becomes content of the node around it in front of a closing brace, whatever follows
that. -/
def Yields (h : Handler σ) (cs content : List Char) : Prop :=
  ∀ s p, p.levels ≠ [] → ∀ pos rest, ∃ pos', outcome (feed h p pos (cs ++ '\x7d' :: rest)) s =
    outcome (feed h (p.add content) pos' ('\x7d' :: rest)) s

theorem Yields.nil : Yields h [] [] := by
  intro s p hp pos rest
  obtain ⟨levels, text⟩ := p
  cases levels with
  | nil => exact absurd rfl hp
  | cons level levels => exact ⟨pos, rfl⟩

/-- What stands in front makes no difference to what follows. -/
theorem Becomes.yields {cs ds x y : List Char} (hc : Becomes h cs x) (hd : Yields h ds y) :
    Yields h (cs ++ ds) (x ++ y) := by
  intro s p hp pos rest
  obtain ⟨pos₁, hc⟩ := hc s p hp pos (ds ++ '\x7d' :: rest)
  obtain ⟨pos', hd⟩ := hd s (p.add x) (Verbatim.levels_add hp) pos₁ rest
  rw [p.add_append] at hd
  exact ⟨pos', by rw [List.append_assoc, hc, hd]⟩

theorem Becomes.alone {cs content : List Char} (hc : Becomes h cs content) :
    Yields h cs content := by
  have hyields := hc.yields .nil
  rwa [List.append_nil, List.append_nil] at hyields

theorem Yields.of_inert {cs : List Char} (hcs : Inert cs) : Yields h cs cs :=
  (Verbatim.of_inert hcs).becomes.alone

/-- A node from its brace to the closing one: the content arrives at the handler, and the answer
replaces the node. -/
theorem feed_node {cs content : List Char} (rest : Pending) (s₁ : σ)
    (hhead : ∃ c ds, cs = c :: ds ∧ startsNode c = true) (hcontent : Yields h cs content)
    (hopen : ∀ pos, outcome (step h p (.opening, pos)) s =
      (.ok { rest with levels := ⟨[], pos⟩ :: rest.levels }, s₁))
    (hclose : ∀ pos, outcome (closeNode h ⟨content.reverse, pos⟩ rest) s₁ = (.ok p', s')) :
    Moves h s p (Source.node cs) s' p' := by
  intro pos following
  obtain ⟨c, ds, hcs, hc⟩ := hhead
  have hstart : outcome (feed h p pos (Source.node cs ++ following)) s =
      outcome (feed h { rest with levels := ⟨[], pos⟩ :: rest.levels } (pos.after '\x7b')
        (cs ++ '\x7d' :: following)) s₁ := by
    rw [Source.node, hcs]
    simp only [List.cons_append, List.append_assoc, List.nil_append]
    exact feed_step (scan_opening hc pos _) (hopen pos)
  obtain ⟨pos₁, hread⟩ := hcontent s₁ { rest with levels := ⟨[], pos⟩ :: rest.levels }
    (List.cons_ne_nil _ _) (pos.after '\x7b') following
  refine ⟨_, (hstart.trans hread).trans (feed_step (scan_plain (by decide) (by decide) pos₁ _) ?_)⟩
  show outcome (closeNode h ⟨content.reverse ++ [], pos⟩ rest) s₁ = _
  rw [List.append_nil]
  exact hclose pos

/-- A node inside of another one: the answer to it stands in the content around it. -/
theorem Becomes.node {cs content answer : List Char}
    (hhead : ∃ c ds, cs = c :: ds ∧ startsNode c = true) (hcontent : Yields h cs content)
    (hnode : ∀ s, outcome (h.node content true) s = (.ok answer, s)) :
    Becomes h (Source.node cs) answer := by
  intro s p hp
  obtain ⟨levels, text⟩ := p
  cases levels with
  | nil => exact absurd rfl hp
  | cons level levels =>
    refine feed_node ⟨level :: levels, text⟩ s hhead hcontent (fun _ => rfl) ?_
    intro pos
    rw [closeNode, List.reverse_reverse]
    exact outcome_bind_ok (outcome_located_ok.mpr (hnode s)) _

/-- A node inside of another one that the handler answers with itself. -/
theorem Verbatim.node {content : List Char}
    (hhead : ∃ c cs, content = c :: cs ∧ startsNode c = true) (hcontent : Verbatim h content)
    (hnode : ∀ s, outcome (h.node content true) s = (.ok (Source.node content), s)) :
    Verbatim h (Source.node content) := Becomes.node hhead hcontent.becomes.alone hnode

/-- A node outside of other ones; the text before it is handed over, and its answer is empty. -/
theorem Moves.node {cs content text : List Char}
    (hhead : ∃ c ds, cs = c :: ds ∧ startsNode c = true) (hcontent : Yields h cs content)
    (hflush : outcome (flush h text.reverse) s = (.ok ⟨⟩, s₁))
    (hnode : outcome (h.node content false) s₁ = (.ok [], s')) :
    Moves h s ⟨[], text⟩ (Source.node cs) s' .empty := by
  refine feed_node .empty s₁ hhead hcontent (fun pos => ?_) fun pos => ?_
  · show outcome (flush h text.reverse >>= fun _ => pure _) s = _
    rw [outcome_bind_ok hflush]
    rfl
  · rw [closeNode, List.reverse_reverse]
    exact outcome_bind_ok (outcome_located_ok.mpr hnode) _

/-- Escaped text becomes text as it was. -/
theorem Moves.escape (cs : List Char) {text : List Char} :
    Moves h s ⟨[], text⟩ (Source.escape cs) s ⟨[], cs.reverse ++ text⟩ := by
  induction cs generalizing text with
  | nil => exact .nil
  | cons c cs ih =>
    rw [Source.escape, List.flatMap_cons, List.reverse_cons, List.append_assoc]
    refine .append ?_ ih
    by_cases hc : isEscapable c = true
    · rw [if_pos hc]
      exact .escaped hc
    · rw [if_neg hc]
      have hne {d : Char} (hd : isEscapable d = true) : c ≠ d := by
        rintro rfl
        exact hc hd
      by_cases hbreak : c = '\n'
      · subst hbreak
        exact .lineBreak
      · exact .plain (hne rfl) (hne rfl) (hne rfl) hbreak

end BraceTemplate.Markup

namespace BraceTemplate.Draft
open Source

variable {ctx : CompileContext} {d d' d₁ : Draft}

/-- A draft with text that has not been handed over yet, last character first. -/
def takes (d : Draft) (text : List Char) : Draft :=
  if text = [] then d else d.addText (.ofList text.reverse)

theorem outcome_flush (text : List Char) :
    outcome (Markup.flush (handler ctx) text.reverse) d = (.ok ⟨⟩, d.takes text) := by
  unfold Markup.flush takes
  by_cases ht : text = []
  · simp [ht]
  · rw [if_neg (by simpa using ht), if_neg ht]
    rfl

theorem addText_addText (d : Draft) (x y : String) :
    (d.addText x).addText y = d.addText (x ++ y) := by
  obtain ⟨emitted, opened, loopDepth, mode, closed⟩ := d
  cases emitted with
  | nil => rfl
  | cons i is => cases i <;> simp [addText, String.append_assoc]

/-- Reading source leads from one draft to another, text that has not been handed over included. -/
def Reading (ctx : CompileContext) (d : Draft) (cs : List Char) (d' : Draft) : Prop :=
  ∀ s text, s.takes text = d → ∃ s' text', s'.takes text' = d' ∧
    Markup.Moves (handler ctx) s ⟨[], text⟩ cs s' ⟨[], text'⟩

namespace Reading

theorem nil : Reading ctx d [] d := fun s text h => ⟨s, text, h, .nil⟩

theorem append {cs ds : List Char} (hc : Reading ctx d cs d₁) (hd : Reading ctx d₁ ds d') :
    Reading ctx d (cs ++ ds) d' := by
  intro s text hs
  obtain ⟨s₁, text₁, hs₁, hc⟩ := hc s text hs
  obtain ⟨s', text', hs', hd⟩ := hd s₁ text₁ hs₁
  exact ⟨s', text', hs', hc.append hd⟩

theorem text {cs : List Char} (hcs : cs ≠ []) :
    Reading ctx d (Source.escape cs) (d.addText (.ofList cs)) := by
  intro s text hs
  refine ⟨s, cs.reverse ++ text, ?_, .escape cs⟩
  subst hs
  unfold takes
  rw [if_neg (by simp [hcs])]
  by_cases ht : text = []
  · simp [ht]
  · rw [if_neg ht, addText_addText]
    simp

theorem node {cs content : List Char} (hhead : ∃ c ds, cs = c :: ds ∧ Markup.startsNode c = true)
    (hcontent : Markup.Yields (handler ctx) cs content)
    (hnode : outcome (Draft.node ctx content false) d = (.ok [], d')) :
    Reading ctx d (Source.node cs) d' := by
  intro s text hs
  refine ⟨d', [], rfl, .node hhead hcontent (outcome_flush text) ?_⟩
  rw [hs]
  exact hnode

/-- Reading a whole source from the start. -/
theorem walk {cs : List Char} (h : Reading ctx .start cs d) :
    outcome (Markup.walk (handler ctx) cs) .start = (.ok ⟨⟩, d) := by
  obtain ⟨s', text, hs, hmoves⟩ := h .start [] rfl
  obtain ⟨pos, hfeed⟩ := hmoves .start []
  rw [List.append_nil] at hfeed
  have hsteps : outcome ((Markup.marks cs).foldlM (Markup.step (handler ctx)) .empty) .start =
      (.ok ⟨[], text⟩, s') := hfeed
  rw [Markup.walk, outcome_bind_ok hsteps]
  show outcome (Markup.flush _ text.reverse) s' = _
  rw [outcome_flush, hs]

end Reading

end BraceTemplate.Draft
