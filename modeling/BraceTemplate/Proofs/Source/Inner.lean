import BraceTemplate.Proofs.Compile.Closing
import BraceTemplate.Proofs.Source.Scanning

/-!
Nodes inside of nodes: the text of a node that stands alone in a source comes to the same content
inside of another node.
-/
namespace BraceTemplate

namespace Markup

variable {σ : Type} {h : Handler σ}

/-- A comment that ends does so wherever it stands, and whatever follows. -/
theorem behindComment_append {p q : Position} {cs rest : List Char}
    (hend : behindComment p cs = some (q, rest)) : ∃ body, cs = body ++ rest ∧
      ∀ p' more, ∃ q', behindComment p' (body ++ more) = some (q', more) := by
  fun_induction behindComment p cs with
  | case1 p c d cs hcd =>
    cases hend
    refine ⟨[c, d], rfl, fun p' more => ⟨(p'.after c).after d, ?_⟩⟩
    rw [List.cons_append, List.cons_append, List.nil_append, behindComment, if_pos hcd]
  | case2 p c d cs hcd ih =>
    obtain ⟨body, hcs, hbody⟩ := ih hend
    cases body with
    | nil =>
      obtain ⟨q', hnone⟩ := hbody p []
      cases hnone
    | cons e body =>
      obtain ⟨rfl, hcs⟩ := List.cons.inj hcs
      refine ⟨c :: d :: body, by rw [hcs]; rfl, fun p' more => ?_⟩
      obtain ⟨q', hq'⟩ := hbody (p'.after c) more
      refine ⟨q', ?_⟩
      rw [List.cons_append, List.cons_append, behindComment, if_neg hcd]
      exact hq'
  | case3 => cases hend

theorem head_opening {c : Char} {d? : Option Char} (hhead : head c d? = .opening) :
    c = '\x7b' ∧ ∃ d, d? = some d ∧ startsNode d = true := by
  cases d? with
  | none => cases hhead
  | some d =>
    unfold head at hhead
    dsimp only at hhead
    split at hhead
    · cases hhead
    · split at hhead
      · cases hhead
      · split at hhead
        · rename_i hopen
          exact ⟨hopen.1, d, rfl, (startsNode_iff d).2 hopen.2⟩
        · cases hhead

theorem head_comment {c : Char} {d? : Option Char} (hhead : head c d? = .comment) :
    c = '\x7b' ∧ d? = some '%' := by
  cases d? with
  | none => cases hhead
  | some d =>
    unfold head at hhead
    dsimp only at hhead
    split at hhead
    · cases hhead
    · split at hhead
      · rename_i hcomment
        exact ⟨hcomment.1, by rw [hcomment.2]⟩
      · split at hhead <;> cases hhead

theorem head_escape {c d : Char} {d? : Option Char} (hhead : head c d? = .escape d) :
    c = '\\' ∧ d? = some d ∧ isEscapable d = true := by
  cases d? with
  | none => cases hhead
  | some e =>
    unfold head at hhead
    dsimp only at hhead
    split at hhead
    · rename_i hescape
      cases hhead
      exact ⟨hescape.1, rfl, (isEscapable_iff d).2 hescape.2⟩
    · split at hhead
      · cases hhead
      · split at hhead <;> cases hhead

/-- What a stateless computation hands on, it hands on from every state. -/
theorem Stateless.of_bind_ok {α β : Type} {act : Process σ α} {next : α → Process σ β} {s t : σ}
    {b : β} (hact : Stateless act) (hrun : outcome (act >>= next) s = (.ok b, t)) :
    ∃ a, (∀ s, outcome act s = (.ok a, s)) ∧ outcome (next a) s = (.ok b, t) := by
  obtain ⟨a, u, hfirst, -⟩ := outcome_bind_eq_ok hrun
  have hall := hact.outcome_eq hfirst
  exact ⟨a, hall, by rwa [outcome_bind_ok (hall s)] at hrun⟩

theorem Content.of_cons_closed {part : Part} {content : Content} {parts : List Part}
    {next : Position} {rest : List Char} (hcons : content.cons part = .closed parts next rest) :
    ∃ others, parts = part :: others ∧ content = .closed others next rest := by
  cases content with
  | closed others next' rest' =>
    cases hcons
    exact ⟨others, rfl, rfl⟩
  | stopped others stop => cases hcons

/-- The text in front of the closing brace of a node that is read as these parts. -/
inductive Spells : List Char → List Part → Prop where
  | nil : Spells [] []
  | escaped {d : Char} {cs : List Char} {parts : List Part} (hd : isEscapable d = true)
    (h : Spells cs parts) : Spells ('\\' :: d :: cs) (.char d :: parts)
  | comment {body cs : List Char} {parts : List Part}
    (hbody : ∀ p more, ∃ q, behindComment p (body ++ more) = some (q, more))
    (h : Spells cs parts) : Spells ('\x7b' :: '%' :: (body ++ cs)) parts
  | node {inner cs : List Char} {within parts : List Part} (start : Position)
    (hstart : ∃ c ds, inner = c :: ds ∧ startsNode c = true) (hinner : Spells inner within)
    (h : Spells cs parts) : Spells (Source.node inner ++ cs) (.node start within :: parts)
  | char {c : Char} {cs : List Char} {parts : List Part}
    (hhead : head c (cs ++ ['\x7d']).head? = .single) (hclose : c ≠ '\x7d') (hbreak : c ≠ '\n')
    (h : Spells cs parts) : Spells (c :: cs) (.char c :: parts)

/-- What is read up to a closing brace spells its parts. -/
theorem exists_spells {p q : Position} {cs rest : List Char} {parts : List Part}
    (hread : readContent p cs = .closed parts q rest) :
    ∃ v, cs = v ++ '\x7d' :: rest ∧ Spells v parts := by
  induction hlength : cs.length using Nat.strongRecOn generalizing p q cs rest parts with
  | ind n ih =>
  subst hlength
  cases cs with
  | nil =>
    rw [readContent_nil] at hread
    cases hread
  | cons c cs =>
    rw [readContent_cons] at hread
    cases hhead : head c cs.head? with
    | escape d =>
      obtain ⟨rfl, hd, hescapable⟩ := head_escape hhead
      obtain ⟨cs, rfl⟩ := List.head?_eq_some_iff.mp hd
      rw [hhead] at hread
      obtain ⟨others, rfl, htail⟩ := Content.of_cons_closed hread
      obtain ⟨v, rfl, hv⟩ := ih _ (length_tail_lt '\\' (d :: cs)) htail rfl
      exact ⟨'\\' :: d :: v, rfl, .escaped hescapable hv⟩
    | comment =>
      obtain ⟨rfl, hpercent⟩ := head_comment hhead
      obtain ⟨cs, rfl⟩ := List.head?_eq_some_iff.mp hpercent
      rw [hhead] at hread
      dsimp only [List.tail_cons] at hread
      split at hread
      · cases hread
      · rename_i hbehind
        have hshorter := length_behindComment hbehind
        obtain ⟨body, rfl, hbody⟩ := behindComment_append hbehind
        obtain ⟨v, rfl, hv⟩ := ih _ (Nat.lt_succ_of_lt (Nat.lt_succ_of_lt hshorter)) hread rfl
        exact ⟨'\x7b' :: '%' :: (body ++ v), by simp, .comment hbody hv⟩
    | opening =>
      obtain ⟨rfl, d, hd, hstarts⟩ := head_opening hhead
      rw [hhead] at hread
      dsimp only at hread
      split at hread
      · rename_i within next behind hinner
        obtain ⟨others, rfl, htail⟩ := Content.of_cons_closed hread
        obtain ⟨inner, rfl, hspells⟩ := ih _ (Nat.lt_succ_self _) hinner rfl
        have hshorter : behind.length < ('\x7b' :: (inner ++ '\x7d' :: behind)).length := by
          simp only [List.length_cons, List.length_append]
          omega
        obtain ⟨v, rfl, hv⟩ := ih _ hshorter htail rfl
        have hstart : ∃ c ds, inner = c :: ds ∧ startsNode c = true := by
          cases inner with
          | nil =>
            cases hd
            exact absurd hstarts (by decide)
          | cons c ds =>
            cases hd
            exact ⟨_, _, rfl, hstarts⟩
        exact ⟨Source.node inner ++ v, by simp [Source.node], .node p hstart hspells hv⟩
      · cases hread
    | single =>
      rw [hhead] at hread
      dsimp only at hread
      split at hread
      · rename_i hclose
        cases hread
        exact ⟨[], by rw [hclose]; rfl, .nil⟩
      · rename_i hclose
        split at hread
        · cases hread
        · rename_i hbreak
          obtain ⟨others, rfl, htail⟩ := Content.of_cons_closed hread
          obtain ⟨v, rfl, hv⟩ := ih _ (Nat.lt_succ_self _) htail rfl
          have hsingle : head c (v ++ ['\x7d']).head? = .single := by
            rw [← hhead]
            cases v <;> rfl
          exact ⟨c :: v, rfl, .char hsingle hclose hbreak hv⟩

namespace Yields

variable {cs content : List Char}

theorem escaped {d : Char} (hd : isEscapable d = true) (hcs : Yields h cs content) :
    Yields h ('\\' :: d :: cs) (d :: content) :=
  Becomes.yields (fun _ _ _ => .escaped hd) hcs

/-- What a character is may depend on what follows it, a closing brace at least. -/
theorem single {c : Char} (hhead : head c (cs ++ ['\x7d']).head? = .single) (hclose : c ≠ '\x7d')
    (hbreak : c ≠ '\n') (hcs : Yields h cs content) : Yields h (c :: cs) (c :: content) := by
  intro s p hp pos rest
  have hnext : (cs ++ '\x7d' :: rest).head? = (cs ++ ['\x7d']).head? := by cases cs <;> rfl
  have hscan := scan_cons pos c (cs ++ '\x7d' :: rest)
  rw [hnext, hhead] at hscan
  have hstep : outcome (step h p (Mark.ofChar c, pos)) s = (.ok (p.add [c]), s) := by
    rw [Mark.ofChar, if_neg hclose, if_neg hbreak]
    rfl
  obtain ⟨pos', hread⟩ := hcs s (p.add [c]) (Verbatim.levels_add hp) (pos.after c) rest
  rw [p.add_append] at hread
  exact ⟨pos', (feed_step hscan hstep).trans hread⟩

theorem comment {body : List Char}
    (hbody : ∀ p more, ∃ q, behindComment p (body ++ more) = some (q, more))
    (hcs : Yields h cs content) : Yields h ('\x7b' :: '%' :: (body ++ cs)) content := by
  intro s p hp pos rest
  obtain ⟨q, hq⟩ := hbody ((pos.after '\x7b').after '%') (cs ++ '\x7d' :: rest)
  obtain ⟨pos', hread⟩ := hcs s p hp q rest
  have hscan := scan_cons pos '\x7b' ('%' :: (body ++ (cs ++ '\x7d' :: rest)))
  have hhead : head '\x7b' (some '%') = .comment := rfl
  rw [List.head?_cons, hhead] at hscan
  dsimp only [List.tail_cons] at hscan
  rw [scan_opened, hq] at hscan
  refine ⟨pos', ?_⟩
  rw [← hread, feed, feed, List.cons_append, List.cons_append, List.append_assoc, hscan]

end Yields

end Markup

namespace Draft
open Markup

variable {ctx : CompileContext} {parts : List Part} {content : List Char}

theorem content?_eq_some : content? ctx parts = some content ↔
    ∀ d, outcome (contents (handler ctx) parts) d = (.ok content, d) := by
  constructor
  · exact fun h => outcome_contents h
  · intro h
    rw [content?, h]
    rfl

theorem content?_nil (h : content? ctx [] = some content) : content = [] := by
  cases content?_eq_some.mp h .start
  rfl

/-- The content of a node is made part by part. -/
theorem content?_cons {part : Part} (h : content? ctx (part :: parts) = some content) :
    ∃ first others, (∀ d, outcome (part.answer (handler ctx) true) d = (.ok first, d)) ∧
      content? ctx parts = some others ∧ content = first ++ others := by
  have hrun := content?_eq_some.mp h .start
  rw [contents] at hrun
  obtain ⟨first, hfirst, hrun⟩ := (answer_stateless part).of_bind_ok hrun
  obtain ⟨others, hothers, hrun⟩ := (contents_stateless parts).of_bind_ok hrun
  cases hrun
  exact ⟨first, others, hfirst, content?_eq_some.mpr hothers, rfl⟩

theorem content?_char {c : Char} (h : content? ctx (.char c :: parts) = some content) :
    ∃ others, content? ctx parts = some others ∧ content = c :: others := by
  obtain ⟨first, others, hfirst, hothers, rfl⟩ := content?_cons h
  cases hfirst .start
  exact ⟨others, hothers, rfl⟩

theorem content?_node {start : Position} {inner : List Part}
    (h : content? ctx (.node start inner :: parts) = some content) :
    ∃ within answer others, content? ctx inner = some within ∧
      (∀ d, outcome (node ctx within true) d = (.ok answer, d)) ∧
      content? ctx parts = some others ∧ content = answer ++ others := by
  obtain ⟨answer, others, hanswer, hothers, rfl⟩ := content?_cons h
  have hrun := hanswer .start
  rw [Part.answer] at hrun
  obtain ⟨within, hwithin, hrun⟩ := (contents_stateless inner).of_bind_ok hrun
  exact ⟨within, answer, others, content?_eq_some.mpr hwithin,
    (node_stateless within).outcome_eq (outcome_located_ok.mp hrun), hothers, rfl⟩

/-- The text of a node comes to its content inside of any node. -/
theorem yields_of_spells {v : List Char} (hspells : Spells v parts)
    (hcontent : content? ctx parts = some content) : Yields (handler ctx) v content := by
  induction hspells generalizing content with
  | nil =>
    rw [content?_nil hcontent]
    exact .nil
  | escaped hd _ ih =>
    obtain ⟨others, hothers, rfl⟩ := content?_char hcontent
    exact .escaped hd (ih hothers)
  | comment hbody _ ih => exact .comment hbody (ih hcontent)
  | node _ hstart _ _ ihinner ih =>
    obtain ⟨within, answer, others, hwithin, hanswer, hothers, rfl⟩ := content?_node hcontent
    exact (Becomes.node hstart (ihinner hwithin) hanswer).yields (ih hothers)
  | char hhead hclose hbreak _ ih =>
    obtain ⟨others, hothers, rfl⟩ := content?_char hcontent
    exact .single hhead hclose hbreak (ih hothers)

end Draft

end BraceTemplate
