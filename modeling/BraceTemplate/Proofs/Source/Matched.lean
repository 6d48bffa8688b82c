import BraceTemplate.Proofs.Source.Phrase

/-!
Matched text: what stands inside of brackets when each of them is closed by its partner and quoted
text holds none. All scanners of variables run through it at any depth.
-/
namespace BraceTemplate.Source

inductive Pair : Char → Char → Prop where
  | brace : Pair '\x7b' '\x7d'
  | paren : Pair '(' ')'
  | bracket : Pair '[' ']'

inductive Matched : List Char → Prop where
  | nil : Matched []
  | char {c : Char} {cs : List Char} (ho : Delimiter.opens c = false)
    (hc : Delimiter.closes c = false) (hq : Delimiter.isQuote c = false) (h : Matched cs) :
    Matched (c :: cs)
  | quoted {s cs : List Char} (hs : noBrackets s = true) (h : Matched cs) :
    Matched (quoted s ++ cs)
  | enclosed {o c : Char} {inner cs : List Char} (hp : Pair o c) (hinner : Matched inner)
    (h : Matched cs) : Matched (o :: (inner ++ c :: cs))

namespace Matched

variable {cs ds : List Char}

theorem append (hc : Matched cs) (hd : Matched ds) : Matched (cs ++ ds) := by
  induction hc with
  | nil => exact hd
  | char ho hc hq _ ih => exact .char ho hc hq ih
  | quoted hs _ ih =>
    rw [List.append_assoc]
    exact .quoted hs ih
  | enclosed hp hinner _ _ ih =>
    rw [List.cons_append, List.append_assoc, List.cons_append]
    exact .enclosed hp hinner ih

theorem flatMap {α : Type} {f : α → List Char} {l : List α} (h : ∀ a ∈ l, Matched (f a)) :
    Matched (l.flatMap f) := by
  induction l with
  | nil => exact .nil
  | cons a l ih =>
    rw [List.flatMap_cons]
    exact (h a List.mem_cons_self).append (ih fun b hb => h b (List.mem_cons_of_mem a hb))

theorem of_all (h : ∀ c ∈ cs, Delimiter.opens c = false ∧ Delimiter.closes c = false ∧
    Delimiter.isQuote c = false) : Matched cs := by
  induction cs with
  | nil => exact .nil
  | cons c cs ih =>
    obtain ⟨ho, hc, hq⟩ := h c List.mem_cons_self
    exact .char ho hc hq (ih fun d hd => h d (List.mem_cons_of_mem c hd))

/-- A blank can only stand for itself. -/
theorem of_blank (h : Matched (' ' :: cs)) : Matched cs := by
  cases h with
  | char _ _ _ h => exact h
  | enclosed hp _ _ => cases hp

end Matched

theorem noBrackets_iff {cs : List Char} : noBrackets cs = true ↔
    ∀ c ∈ cs, Delimiter.opens c = false ∧ Delimiter.closes c = false := by
  simp [noBrackets, List.all_eq_true]

theorem noBrackets_quoted {s : List Char} (h : noBrackets s = true) :
    noBrackets (quoted s) = true := by
  rw [noBrackets_iff] at h ⊢
  intro c hc
  have hmem : c = '"' ∨ c = '\\' ∨ c ∈ s := by
    simp only [quoted, List.mem_cons, List.mem_append, List.mem_flatMap, List.not_mem_nil,
      or_false] at hc
    rcases hc with hc | ⟨d, hd, hc⟩ | hc
    · exact .inl hc
    · split at hc
      · rcases List.mem_cons.mp hc with hc | hc
        · exact .inr (.inl hc)
        · exact .inr (.inr (by rwa [List.mem_singleton.mp hc]))
      · exact .inr (.inr (by rwa [List.mem_singleton.mp hc]))
    · exact .inl hc
  rcases hmem with rfl | rfl | hmem
  · exact ⟨rfl, rfl⟩
  · exact ⟨rfl, rfl⟩
  · exact h c hmem

/-- Where all brackets match, so do the braces among them. -/
theorem Matched.paired {cs : List Char} (h : Matched cs) : Delimiter.Paired cs := by
  induction h with
  | nil => exact .nil
  | char ho hc _ _ ih =>
    obtain ⟨hopen, hclose⟩ := Delimiter.ne_brace ho hc
    exact .char hopen hclose ih
  | quoted hs _ ih =>
    refine (Delimiter.Paired.of_plain fun c hc => ?_).append ih
    obtain ⟨ho, hc⟩ := noBrackets_iff.mp (noBrackets_quoted hs) c hc
    exact Delimiter.ne_brace ho hc
  | enclosed hp _ _ ihinner ih =>
    cases hp with
    | brace => exact .braces ihinner ih
    | paren | bracket =>
      exact .char (by decide) (by decide) (ihinner.append (.char (by decide) (by decide) ih))

/-! Scanners. -/

/-- A scanner that counts open brackets, or some kinds of them, and keeps every character inside of
brackets: `add` is what a character adds to the result for what follows. -/
structure Keeps {γ : Type} (scan : Nat → List Char → γ) (add : Char → γ → γ) : Prop where
  char : ∀ {d c cs}, Delimiter.opens c = false → Delimiter.closes c = false →
    Delimiter.isQuote c = false → scan d (c :: cs) = add c (scan d cs)
  text : ∀ {d s cs}, noBrackets s = true →
    scan d (quoted s ++ cs) = (quoted s).foldr add (scan d cs)
  enclosed : ∀ {d o c}, Pair o c → ∃ inside, ∀ cs, scan d (o :: cs) = add o (scan inside cs) ∧
    scan inside (c :: cs) = add c (scan d cs)

section Keeps

variable {γ : Type} {scan : Nat → List Char → γ} {add : Char → γ → γ}

/-- Quotes mean nothing to some scanners. -/
theorem Keeps.of_chars
    (hchar : ∀ {d c cs}, Delimiter.opens c = false → Delimiter.closes c = false →
      scan d (c :: cs) = add c (scan d cs))
    (henclosed : ∀ {d o c}, Pair o c → ∃ inside, ∀ cs, scan d (o :: cs) = add o (scan inside cs) ∧
      scan inside (c :: cs) = add c (scan d cs)) : Keeps scan add := by
  refine ⟨fun ho hc _ => hchar ho hc, ?_, henclosed⟩
  intro d s cs hs
  have hquoted := noBrackets_iff.mp (noBrackets_quoted hs)
  generalize quoted s = text at hquoted
  induction text with
  | nil => rfl
  | cons c text ih =>
    obtain ⟨ho, hc⟩ := hquoted c List.mem_cons_self
    rw [List.cons_append, hchar ho hc, List.foldr_cons,
      ih fun e he => hquoted e (List.mem_cons_of_mem c he)]

/-- Matched text is run through, and brackets are as open behind it as before. -/
theorem Matched.scan_eq {cs : List Char} (h : Matched cs) (hk : Keeps scan add) (d : Nat)
    (rest : List Char) : scan d (cs ++ rest) = cs.foldr add (scan d rest) := by
  induction h generalizing d rest with
  | nil => rfl
  | char ho hc hq _ ih => rw [List.cons_append, hk.char ho hc hq, ih, List.foldr_cons]
  | quoted hs _ ih => rw [List.append_assoc, hk.text hs, ih, List.foldr_append]
  | enclosed hp _ _ ihinner ih =>
    obtain ⟨inside, hin⟩ := hk.enclosed (d := d) hp
    rw [List.cons_append, (hin _).1, List.append_assoc, List.cons_append, ihinner, (hin _).2, ih,
      List.foldr_cons, List.foldr_append, List.foldr_cons]

end Keeps

theorem keeps_variableSpan : Keeps (fun d => Token.variableSpan (d + 1))
    (fun c r => (c :: r.1, r.2)) := by
  refine .of_chars ?_ ?_
  · intro d c cs ho hc
    simp only [Delimiter.opens, Delimiter.closes, Bool.or_eq_false_iff,
      beq_eq_false_iff_ne] at ho hc
    simp [Token.variableSpan, ho, hc]
  · rintro d o c (_ | _ | _)
    · exact ⟨d + 1, fun cs => by simp [Token.variableSpan]⟩
    · exact ⟨d + 1, fun cs => by simp [Token.variableSpan]⟩
    · exact ⟨d, fun cs => by simp [Token.variableSpan]⟩

section Cutting

open Delimiter

/-- Inside of that many brackets and of no quotes. -/
def inBrackets (d : Nat) : Nesting := ⟨d + 1, none, false⟩

/-- Nothing is cut inside of quotes, up to the closing one. -/
theorem splitFrom_quoted (sep : Char) (d : Nat) (s rest : List Char) :
    splitFrom sep (inBrackets d) (quoted s ++ rest) =
      (quoted s).foldr (fun c => List.modifyHead (c :: ·)) (splitFrom sep (inBrackets d) rest) := by
  have hcuts (escaped : Bool) (c : Char) :
      (Nesting.mk (d + 1) (some '"') escaped).cutsAt sep c = false := rfl
  have hopen : (inBrackets d).after '"' = ⟨d + 1, some '"', false⟩ := by
    simp [inBrackets, Nesting.after, isQuote]
  rw [quoted, List.cons_append, splitFrom_cons (by simp [inBrackets, Nesting.cutsAt]), hopen,
    List.foldr_cons, List.append_assoc, List.singleton_append]
  congr 1
  induction s with
  | nil =>
    rw [List.flatMap_nil, List.nil_append, splitFrom_cons (hcuts false '"')]
    rfl
  | cons c s ih =>
    by_cases hc : c = '"' ∨ c = '\\'
    · have hslash : (Nesting.mk (d + 1) (some '"') false).after '\\' = ⟨d + 1, some '"', true⟩ := by
        simp [Nesting.after]
      have hescaped : (Nesting.mk (d + 1) (some '"') true).after c = ⟨d + 1, some '"', false⟩ := by
        simp [Nesting.after]
      simp only [List.flatMap_cons, if_pos hc, List.cons_append, List.nil_append]
      rw [splitFrom_cons (hcuts false '\\'), hslash, splitFrom_cons (hcuts true c), hescaped, ih]
      rfl
    · have hplain : (Nesting.mk (d + 1) (some '"') false).after c = ⟨d + 1, some '"', false⟩ := by
        push Not at hc
        simp [Nesting.after, hc]
      simp only [List.flatMap_cons, if_neg hc, List.cons_append, List.nil_append]
      rw [splitFrom_cons (hcuts false c), hplain, ih]
      rfl

theorem keeps_splitFrom (sep : Char) :
    Keeps (fun d => splitFrom sep (inBrackets d)) (fun c => List.modifyHead (c :: ·)) := by
  have hcuts (d : Nat) (c : Char) : (inBrackets d).cutsAt sep c = false := by
    simp [inBrackets, Nesting.cutsAt]
  refine ⟨?_, fun _ => splitFrom_quoted sep _ _ _, ?_⟩
  · intro d c cs ho hc hq
    have hafter : (inBrackets d).after c = inBrackets d := by
      simp [inBrackets, Nesting.after, ho, hc, hq]
    rw [splitFrom_cons (hcuts d c), hafter]
  · rintro d o c hp
    refine ⟨d + 1, fun cs => ?_⟩
    rw [splitFrom_cons (hcuts d o), splitFrom_cons (hcuts (d + 1) c)]
    cases hp <;> exact ⟨rfl, rfl⟩

end Cutting

/-! Groups: matched text with its brackets around it. -/

section Group

variable {inner : List Char}

theorem Spanned.group {o c : Char} (hp : Pair o c) (ho : o ≠ '[') (h : Matched inner) :
    Spanned (o :: (inner ++ [c])) := by
  have hadd (cs : List Char) (r : List Char × List Char) :
      cs.foldr (fun c r => (c :: r.1, r.2)) r = (cs ++ r.1, r.2) := by
    induction cs with
    | nil => rfl
    | cons c cs ih => rw [List.foldr_cons, ih, List.cons_append]
  intro rest
  have hinner := h.scan_eq keeps_variableSpan 0 (c :: rest)
  rw [hadd] at hinner
  cases hp with
  | brace => simp [Token.variableSpan, hinner]
  | paren => simp [Token.variableSpan, hinner]
  | bracket => exact absurd rfl ho

theorem uncut_group {o c sep : Char} (hp : Pair o c) (hsep : o ≠ sep) (h : Matched inner) :
    Delimiter.Uncut sep (o :: (inner ++ [c])) := by
  have hadd (cs : List Char) (r : List (List Char)) :
      cs.foldr (fun c => List.modifyHead (c :: ·)) r = r.modifyHead (cs ++ ·) := by
    induction cs with
    | nil => exact (congrFun List.modifyHead_id r).symm
    | cons c cs ih => rw [List.foldr_cons, ih, List.modifyHead_modifyHead]; rfl
  intro rest
  have hinner := h.scan_eq (keeps_splitFrom sep) 0 (c :: rest)
  rw [hadd] at hinner
  have hopen : Delimiter.Nesting.top.cutsAt sep o = false := by
    rw [Delimiter.Nesting.cutsAt_top, decide_eq_false hsep]
  have hafter : Delimiter.Nesting.top.after o = inBrackets 0 := by cases hp <;> rfl
  have hclose : (inBrackets 0).after c = Delimiter.Nesting.top := by cases hp <;> rfl
  have hcuts : (inBrackets 0).cutsAt sep c = false := rfl
  unfold Delimiter.splitTop
  rw [List.cons_append, List.append_assoc, List.singleton_append,
    Delimiter.splitFrom_cons hopen, hafter, hinner, Delimiter.splitFrom_cons hcuts, hclose,
    List.modifyHead_modifyHead, List.modifyHead_modifyHead]
  congr 1
  funext cs
  simp

end Group

end BraceTemplate.Source
