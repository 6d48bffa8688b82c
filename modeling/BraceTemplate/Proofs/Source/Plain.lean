import Mathlib.Data.List.DropRight
import BraceTemplate.Proofs.Source.Term

/-! Plain text: what trimming leaves alone, where splitting cuts, and what names are made of. -/
namespace BraceTemplate

namespace Text

/-- Text that neither starts nor ends with a blank. -/
structure Solid (cs : List Char) : Prop where
  head : ∀ c ∈ cs.head?, isBlank c = false
  last : ∀ c ∈ cs.getLast?, isBlank c = false

theorem trimStart_eq {cs : List Char} (h : ∀ c ∈ cs.head?, isBlank c = false) :
    trimStart cs = cs := by
  cases cs with
  | nil => rfl
  | cons c cs => simp [trimStart, h c rfl]

theorem trimStart_blank (cs : List Char) : trimStart (' ' :: cs) = trimStart cs := by
  simp [trimStart, isBlank]

theorem trimEnd_eq {cs : List Char} (h : ∀ c ∈ cs.getLast?, isBlank c = false) :
    trimEnd cs = cs := by
  have hr : trimStart cs.reverse = cs.reverse := trimStart_eq (by simpa using h)
  rw [trimEnd, show cs.reverse.dropWhile isBlank = cs.reverse from hr, List.reverse_reverse]

theorem trimEnd_eq_rdropWhile (cs : List Char) : trimEnd cs = cs.rdropWhile isBlank := rfl

theorem solid_trim (cs : List Char) : Solid (trim cs) := by
  rw [trim, trimEnd_eq_rdropWhile]
  constructor
  · intro c hc
    obtain ⟨ds, hds⟩ := List.head?_eq_some_iff.mp hc
    obtain ⟨rest, hrest⟩ := List.rdropWhile_prefix isBlank (trimStart cs)
    have hhead := List.head?_dropWhile_not isBlank cs
    rw [← trimStart, ← hrest, hds] at hhead
    simpa using hhead
  · intro c hc
    obtain ⟨hne, rfl⟩ := List.mem_getLast?_eq_getLast hc
    simpa using List.rdropWhile_last_not isBlank (trimStart cs) hne

/-- Trimming leaves text that starts with no blank its start. -/
theorem trim_cons_of_not_blank {c : Char} (hc : isBlank c = false) (cs : List Char) :
    ∃ ds, trim (c :: cs) = c :: ds := by
  have hstart : trimStart (c :: cs) = c :: cs := trimStart_eq (by simpa using hc)
  rw [trim, hstart, trimEnd_eq_rdropWhile]
  obtain ⟨rest, hrest⟩ := List.rdropWhile_prefix isBlank (c :: cs)
  cases hends : (c :: cs).rdropWhile isBlank with
  | nil =>
    have hblank := List.rdropWhile_eq_nil_iff.mp hends c List.mem_cons_self
    rw [hc] at hblank
    cases hblank
  | cons d ds =>
    rw [hends, List.cons_append] at hrest
    exact ⟨ds, by rw [(List.cons.inj hrest).1]⟩

namespace Solid

theorem trim_eq {cs : List Char} (h : Solid cs) : trim cs = cs := by
  rw [trim, trimStart_eq h.head, trimEnd_eq h.last]

/-- A blank before solid text is trimmed. -/
theorem trim_cons {cs : List Char} (h : Solid cs) : trim (' ' :: cs) = cs := by
  rw [trim, trimStart_blank, trimStart_eq h.head, trimEnd_eq h.last]

/-- A blank behind solid text is trimmed. -/
theorem trim_concat {cs : List Char} (h : Solid cs) (hne : cs ≠ []) : trim (cs ++ [' ']) = cs := by
  have hs : trimStart (cs ++ [' ']) = cs ++ [' '] := by
    refine trimStart_eq fun c hc => h.head c ?_
    rwa [List.head?_append_of_ne_nil cs hne] at hc
  have he : trimEnd (cs ++ [' ']) = trimEnd cs := by
    simp [trimEnd, isBlank]
  rw [trim, hs, he, trimEnd_eq h.last]

theorem of_all {cs : List Char} (h : ∀ c ∈ cs, isBlank c = false) : Solid cs :=
  ⟨fun c hc => h c (List.mem_of_mem_head? hc), fun c hc => h c (List.mem_of_getLast? hc)⟩

/-- Closed text is checked by evaluation. -/
theorem of_check {cs : List Char} (h : (cs.all fun c => !isBlank c) = true) : Solid cs :=
  of_all fun c hc => by simpa using List.all_eq_true.mp h c hc

/-- Whatever stands between two solid texts. -/
theorem around {cs ds : List Char} (hc : Solid cs) (hd : Solid ds) (hcs : cs ≠ []) (hds : ds ≠ [])
    (between : List Char) : Solid (cs ++ (between ++ ds)) := by
  constructor
  · intro c h
    rw [List.head?_append_of_ne_nil cs hcs] at h
    exact hc.head c h
  · intro c h
    rw [← List.append_assoc, List.getLast?_append_of_ne_nil _ hds] at h
    exact hd.last c h

theorem append {cs ds : List Char} (hc : Solid cs) (hd : Solid ds) (hcs : cs ≠ []) (hds : ds ≠ []) :
    Solid (cs ++ ds) := around hc hd hcs hds []

/-- Solid pieces in a row, with the same separator before each but the first. -/
theorem joined {α : Type} {f : α → List Char} {l : List α} {first : List Char} (sep : List Char)
    (hfirst : Solid first) (hne : first ≠ []) (h : ∀ a ∈ l, Solid (f a) ∧ f a ≠ []) :
    Solid (first ++ l.flatMap fun a => sep ++ f a) := by
  induction l generalizing first with
  | nil => simpa using hfirst
  | cons a l ih =>
    obtain ⟨ha, hane⟩ := h a List.mem_cons_self
    have := ih (hfirst.around ha hne hane sep) (by simp [hne]) fun b hb =>
      h b (List.mem_cons_of_mem a hb)
    simpa using this

end Solid

/-- A class splits text at its first character in that class. -/
theorem splitOnce_append {sep : Char → Bool} {cs : List Char} {c : Char} (rest : List Char)
    (hcs : ∀ d ∈ cs, sep d = false) (hc : sep c = true) :
    splitOnce sep (cs ++ c :: rest) = some (cs, rest) := by
  induction cs with
  | nil => simp [splitOnce, hc]
  | cons d cs ih =>
    have hd := hcs d List.mem_cons_self
    simp [splitOnce, hd, ih fun e he => hcs e (List.mem_cons_of_mem d he)]

theorem splitOnce_none {sep : Char → Bool} {cs : List Char} (hcs : ∀ d ∈ cs, sep d = false) :
    splitOnce sep cs = none := by
  induction cs with
  | nil => rfl
  | cons d cs ih =>
    have hd := hcs d List.mem_cons_self
    simp [splitOnce, hd, ih fun e he => hcs e (List.mem_cons_of_mem d he)]

theorem splitAll_plain {sep : Char → Bool} {cs : List Char} (hcs : ∀ d ∈ cs, sep d = false) :
    splitAll sep cs = [cs] := by
  induction cs with
  | nil => rfl
  | cons d cs ih =>
    have hd := hcs d List.mem_cons_self
    simp [splitAll, hd, ih fun e he => hcs e (List.mem_cons_of_mem d he)]

theorem splitAll_append {sep : Char → Bool} {cs : List Char} {c : Char} (rest : List Char)
    (hcs : ∀ d ∈ cs, sep d = false) (hc : sep c = true) :
    splitAll sep (cs ++ c :: rest) = cs :: splitAll sep rest := by
  induction cs with
  | nil => simp [splitAll, hc]
  | cons d cs ih =>
    have hd := hcs d List.mem_cons_self
    simp [splitAll, hd, ih fun e he => hcs e (List.mem_cons_of_mem d he)]

/-- Pieces with a character of the class before each of them, behind a first one. -/
theorem splitAll_joined {sep : Char → Bool} {c : Char} (hc : sep c = true) {first : List Char}
    {pieces : List (List Char)} (hfirst : ∀ d ∈ first, sep d = false)
    (hpieces : ∀ p ∈ pieces, ∀ d ∈ p, sep d = false) :
    splitAll sep (first ++ pieces.flatMap (c :: ·)) = first :: pieces := by
  induction pieces generalizing first with
  | nil => simpa using splitAll_plain hfirst
  | cons p pieces ih =>
    have ih := ih (hpieces p List.mem_cons_self) fun q hq => hpieces q (List.mem_cons_of_mem p hq)
    rw [List.flatMap_cons, List.cons_append, splitAll_append _ hfirst hc, ih]

end Text

namespace Delimiter

/-- A character that cutting text outside of brackets passes by. -/
def Passes (sep c : Char) : Prop := c ≠ sep ∧ opens c = false ∧ closes c = false

theorem Nesting.after_top {c : Char} (ho : opens c = false) (hc : closes c = false) :
    Nesting.top.after c = .top := by
  simp [Nesting.after, Nesting.top, ho, hc]

theorem Nesting.cutsAt_top {sep c : Char} : Nesting.top.cutsAt sep c = decide (c = sep) := by
  simp [Nesting.cutsAt, Nesting.top]

theorem splitFrom_ne_nil (sep : Char) (n : Nesting) (cs : List Char) : splitFrom sep n cs ≠ [] := by
  cases cs with
  | nil => simp [splitFrom]
  | cons c cs =>
    rw [splitFrom]
    split
    · simp
    · split <;> simp

/-- A character that is no cut belongs to the first piece. -/
theorem splitFrom_cons {sep : Char} {n : Nesting} {c : Char} (h : n.cutsAt sep c = false)
    (cs : List Char) :
    splitFrom sep n (c :: cs) = (splitFrom sep (n.after c) cs).modifyHead (c :: ·) := by
  have hne := splitFrom_ne_nil sep (n.after c) cs
  rw [splitFrom, h]
  cases hrest : splitFrom sep (n.after c) cs with
  | nil => exact absurd hrest hne
  | cons piece pieces => rfl

theorem splitTop_sep (sep : Char) (rest : List Char) :
    splitTop sep (sep :: rest) = [] :: splitTop sep rest := by
  rw [splitTop, splitFrom, Nesting.cutsAt_top, decide_eq_true rfl, if_pos rfl, splitTop]

/-- A text that is nowhere cut, whatever follows. -/
def Uncut (sep : Char) (cs : List Char) : Prop :=
  ∀ rest, splitTop sep (cs ++ rest) = (splitTop sep rest).modifyHead (cs ++ ·)

namespace Uncut

variable {sep : Char} {cs : List Char}

theorem nil : Uncut sep [] := fun rest => by
  rw [List.nil_append]
  exact (congrFun List.modifyHead_id (splitTop sep rest)).symm

theorem append {ds : List Char} (hc : Uncut sep cs) (hd : Uncut sep ds) : Uncut sep (cs ++ ds) := by
  intro rest
  rw [List.append_assoc, hc, hd, List.modifyHead_modifyHead]
  simp only [Function.comp_def, List.append_assoc]

theorem of_passes (h : ∀ c ∈ cs, Passes sep c) : Uncut sep cs := by
  induction cs with
  | nil => exact nil
  | cons c cs ih =>
    obtain ⟨hne, ho, hc⟩ := h c List.mem_cons_self
    have ih := ih fun d hd => h d (List.mem_cons_of_mem c hd)
    have hcuts : Nesting.top.cutsAt sep c = false := by
      rw [Nesting.cutsAt_top, decide_eq_false hne]
    intro rest
    have ih := ih rest
    unfold splitTop at ih ⊢
    rw [List.cons_append, splitFrom_cons hcuts, Nesting.after_top ho hc, ih,
      List.modifyHead_modifyHead]
    rfl

theorem flatMap {α : Type} {f : α → List Char} {l : List α} (h : ∀ a ∈ l, Uncut sep (f a)) :
    Uncut sep (l.flatMap f) := by
  induction l with
  | nil => exact nil
  | cons a l ih =>
    rw [List.flatMap_cons]
    exact (h a List.mem_cons_self).append (ih fun b hb => h b (List.mem_cons_of_mem a hb))

theorem splitTop_eq (h : Uncut sep cs) : splitTop sep cs = [cs] := by
  have := h []
  rw [List.append_nil] at this
  simpa [splitTop, splitFrom] using this

end Uncut

/-- Pieces joined with a separator are cut into these pieces. -/
theorem splitTop_joined {sep : Char} {first : List Char} {pieces : List (List Char)}
    (hfirst : Uncut sep first) (hpieces : ∀ p ∈ pieces, Uncut sep p) :
    splitTop sep (first ++ pieces.flatMap (sep :: ·)) = first :: pieces := by
  induction pieces generalizing first with
  | nil => simpa using hfirst.splitTop_eq
  | cons p pieces ih =>
    have ih := ih (hpieces p List.mem_cons_self) fun q hq => hpieces q (List.mem_cons_of_mem p hq)
    rw [List.flatMap_cons, List.cons_append, hfirst, splitTop_sep, ih]
    simp

/-- What is no bracket is no brace. -/
theorem ne_brace {c : Char} (ho : opens c = false) (hc : closes c = false) :
    c ≠ '\x7b' ∧ c ≠ '\x7d' := by
  constructor <;> rintro rfl
  · exact absurd ho (by decide)
  · exact absurd hc (by decide)

/-- Text in which each brace is closed by its partner. -/
inductive Paired : List Char → Prop where
  | nil : Paired []
  | char {c : Char} {cs : List Char} (hopen : c ≠ '\x7b') (hclose : c ≠ '\x7d') (h : Paired cs) :
    Paired (c :: cs)
  | braces {inner cs : List Char} (hinner : Paired inner) (h : Paired cs) :
    Paired ('\x7b' :: (inner ++ '\x7d' :: cs))

namespace Paired

variable {cs : List Char}

theorem append {ds : List Char} (hc : Paired cs) (hd : Paired ds) : Paired (cs ++ ds) := by
  induction hc with
  | nil => exact hd
  | char hopen hclose _ ih => exact .char hopen hclose ih
  | braces hinner _ _ ih =>
    rw [List.cons_append, List.append_assoc, List.cons_append]
    exact .braces hinner ih

theorem of_plain (h : ∀ c ∈ cs, c ≠ '\x7b' ∧ c ≠ '\x7d') : Paired cs := by
  induction cs with
  | nil => exact .nil
  | cons c cs ih =>
    obtain ⟨hopen, hclose⟩ := h c List.mem_cons_self
    exact .char hopen hclose (ih fun d hd => h d (List.mem_cons_of_mem c hd))

/-- The closing brace is looked for behind paired text, as many levels deep as before it. -/
theorem closeBrace?_append (h : Paired cs) (depth : Nat) (rest : List Char) :
    closeBrace? (depth + 1) (cs ++ rest) =
      (closeBrace? (depth + 1) rest).map fun r => (cs ++ r.1, r.2) := by
  induction h generalizing depth rest with
  | nil => simp
  | char hopen hclose _ ih => simp [closeBrace?, hopen, hclose, ih, Function.comp_def]
  | braces _ _ ihinner ih =>
    rw [List.cons_append, List.append_assoc, List.cons_append]
    simp [closeBrace?, ihinner, ih, Function.comp_def]

/-- Paired text in front of the brace that closes the only open one. -/
theorem closeBrace?_one (h : Paired cs) (rest : List Char) :
    closeBrace? 1 (cs ++ '\x7d' :: rest) = some (cs ++ ['\x7d'], rest) := by
  rw [h.closeBrace?_append 0]
  simp [closeBrace?]

theorem closeBrace?_node (h : Paired cs) (rest : List Char) :
    closeBrace? 0 ('\x7b' :: (cs ++ '\x7d' :: rest)) = some ('\x7b' :: (cs ++ ['\x7d']), rest) := by
  simp [closeBrace?, h.closeBrace?_one rest]

end Paired

end Delimiter

namespace Arguments

theorem isNameChar_iff {c : Char} : isNameChar c = true ↔
    (48 ≤ c.toNat ∧ c.toNat ≤ 57) ∨ (65 ≤ c.toNat ∧ c.toNat ≤ 90) ∨
      (97 ≤ c.toNat ∧ c.toNat ≤ 122) ∨ c.toNat = 95 := by
  have hscore : c = '_' ↔ c.toNat = 95 := by rw [← Char.toNat_inj]; rfl
  have hupper : c.isUpper = decide (c.val ≥ 'A'.val ∧ c.val ≤ 'Z'.val) := rfl
  have hlower : c.isLower = (decide (c.val ≥ 'a'.val) && decide (c.val ≤ 'z'.val)) := rfl
  have hname : isNameChar c = (c.isUpper || c.isLower || c.isDigit || c == '_') := rfl
  rw [hname, hupper, hlower]
  simp only [Bool.or_eq_true, Bool.and_eq_true, decide_eq_true_eq, beq_iff_eq, hscore, ge_iff_le,
    UInt32.le_iff_toNat_le, Char.isDigit_iff_toNat, Char.toNat_val, Char.reduceToNat]
  omega

theorem not_blank_of_isNameChar {c : Char} (h : isNameChar c = true) : Text.isBlank c = false := by
  have := isNameChar_iff.mp h
  simp [Text.isBlank]
  omega

theorem isWordChar_of_isNameChar {c : Char} (h : isNameChar c = true) :
    Token.isWordChar c = true := by
  have hlt : c.toNat < 0x80 := by
    have := isNameChar_iff.mp h
    omega
  simp only [isNameChar, Char.isAlphanum, Bool.or_eq_true] at h
  simp only [Token.isWordChar, Text.isAlphanumeric, Text.isAlphabetic, Text.isNumeric, hlt, if_true,
    Bool.or_eq_true]
  exact h

/-- A character outside of names differs from all characters in them. -/
theorem ne_of_isNameChar {c d : Char} (h : isNameChar c = true) (hd : isNameChar d = false) :
    c ≠ d := by
  rintro rfl
  rw [h] at hd
  cases hd

end Arguments
end BraceTemplate
