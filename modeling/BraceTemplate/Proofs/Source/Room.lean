import BraceTemplate.Proofs.Source.Operators

/-!
Room: how deep expressions and variables may nest decides only whether they are read to their end.
What is read with some room is read alike with more of it.
-/
namespace BraceTemplate.Source

/-- There was no room left for what is nested deeper. -/
def TooDeep : SyntaxFault → Prop
  | .variableTooDeep _ | .inExpression .tooDeep _ => True
  | _ => False

/-- The second result is the first one, unless that has run out of room. -/
def Widens {α : Type} (r r' : Except SyntaxFault α) : Prop :=
  (∃ f, r = .error f ∧ TooDeep f) ∨ r' = r

namespace Widens

variable {α β : Type} {r r' : Except SyntaxFault α}

theorem refl (r : Except SyntaxFault α) : Widens r r := .inr rfl

theorem tooDeep {f : SyntaxFault} (h : TooDeep f) (r' : Except SyntaxFault α) :
    Widens (.error f) r' := .inl ⟨f, rfl, h⟩

theorem bind {next next' : α → Except SyntaxFault β} (h : Widens r r')
    (hnext : ∀ a, Widens (next a) (next' a)) : Widens (r >>= next) (r' >>= next') := by
  rcases h with ⟨f, rfl, hf⟩ | rfl
  · exact tooDeep hf _
  · cases r' with
    | error f => exact refl _
    | ok a => exact hnext a

theorem eq_ok {a : α} (h : Widens r r') (hr : r = .ok a) : r' = .ok a := by
  rcases h with ⟨f, hf, -⟩ | rfl
  · rw [hr] at hf
    cases hf
  · exact hr

theorem mapM {f g : α → Except SyntaxFault β} (h : ∀ a, Widens (f a) (g a)) (as : List α) :
    Widens (as.mapM f) (as.mapM g) := by
  induction as with
  | nil => exact refl _
  | cons a as ih =>
    rw [List.mapM_cons, List.mapM_cons]
    exact bind (h a) fun _ => bind ih fun _ => refl _

/-! Operators and brackets, over operands that are read with more room. -/

section Operands

variable {op? : Token → Option BinaryOp} {operand operand' : Parse Expr}
  (h : ∀ ts, Widens (operand ts) (operand' ts))
include h

theorem chain (fuel : Nat) (left : Expr) (ts : List Token) :
    Widens (Parse.chain op? operand fuel left ts) (Parse.chain op? operand' fuel left ts) := by
  induction fuel generalizing left ts with
  | zero => exact refl _
  | succ fuel ih =>
    cases ts with
    | nil => exact refl _
    | cons t ts =>
      rw [Parse.chain, Parse.chain]
      cases op? t with
      | none => exact refl _
      | some op => exact bind (h ts) fun _ => ih _ _

theorem leftAssoc (ts : List Token) :
    Widens (Parse.leftAssoc op? operand ts) (Parse.leftAssoc op? operand' ts) :=
  bind (h ts) fun _ => chain h _ _ _

theorem nonAssoc (ts : List Token) :
    Widens (Parse.nonAssoc op? operand ts) (Parse.nonAssoc op? operand' ts) :=
  bind (h ts) fun _ => chain h _ _ _

theorem expression (ts : List Token) :
    Widens (Parse.expression operand ts) (Parse.expression operand' ts) :=
  leftAssoc (leftAssoc (nonAssoc (leftAssoc (leftAssoc h)))) ts

theorem items (missing : SyntaxFault) (fuel : Nat) (ts : List Token) :
    Widens (Parse.items missing operand fuel ts) (Parse.items missing operand' fuel ts) := by
  induction fuel generalizing ts with
  | zero => exact refl _
  | succ fuel ih =>
    refine bind (h ts) fun ⟨e, rest⟩ => ?_
    dsimp only
    split
    · exact bind (ih _) fun _ => refl _
    · exact refl _
    · exact refl _

end Operands

theorem complete {unary unary' : String → Parse Expr}
    (h : ∀ text ts, Widens (unary text ts) (unary' text ts)) (source : List Char) :
    Widens (Parse.complete unary source) (Parse.complete unary' source) := by
  refine bind (refl _) fun ts => ?_
  split
  · exact refl _
  · exact bind (expression (h _) ts) fun _ => refl _

theorem segment {nested nested' : List Char → Except SyntaxFault Var}
    {index index' : List Char → Except SyntaxFault Expr}
    (hnested : ∀ text, Widens (nested text) (nested' text))
    (hindex : ∀ text, Widens (index text) (index' text)) (whole text : List Char) :
    Widens (Parse.segment nested index whole text) (Parse.segment nested' index' whole text) := by
  unfold Parse.segment
  dsimp only
  split
  · exact refl _
  · split
    · exact bind (hnested _) fun _ => refl _
    · split
      · exact bind (hindex _) fun _ => refl _
      · exact refl _

variable {mode : Mode}

theorem variableOf {room : Nat}
    (hunary : ∀ source ts, Widens (Parse.unary mode room source ts)
      (Parse.unary mode (room + 1) source ts))
    (hnested : ∀ text, Widens (Parse.variableOf mode room text)
      (Parse.variableOf mode (room + 1) text)) (text : List Char) :
    Widens (Parse.variableOf mode (room + 1) text) (Parse.variableOf mode (room + 2) text) := by
  rw [Parse.variableOf, Parse.variableOf]
  split
  · refine bind (mapM (fun segment => ?_) _) fun _ => refl _
    exact Widens.segment hnested (complete hunary) _ _
  · exact refl _

theorem unary_zero (source : String) (ts : List Token) :
    Widens (Parse.unary mode 0 source ts) (Parse.unary mode 1 source ts) := by
  unfold Parse.unary
  dsimp only
  split
  all_goals first
    | exact refl _
    | exact .inl ⟨_, rfl, trivial⟩

theorem unary {room : Nat}
    (hunary : ∀ source ts, Widens (Parse.unary mode room source ts)
      (Parse.unary mode (room + 1) source ts))
    (hnested : ∀ text, Widens (Parse.variableOf mode room text)
      (Parse.variableOf mode (room + 1) text)) (source : String) (ts : List Token) :
    Widens (Parse.unary mode (room + 1) source ts) (Parse.unary mode (room + 2) source ts) := by
  unfold Parse.unary
  dsimp only
  split
  -- Only unary operators, variables, parentheses and arrays read what is nested in them.
  any_goals exact refl _
  · exact bind (hunary source _) fun _ => refl _
  · exact bind (hunary source _) fun _ => refl _
  · exact bind (hunary source _) fun _ => refl _
  · exact bind (hnested _) fun _ => refl _
  · exact bind (expression (hunary source) _) fun _ => refl _
  · exact bind (items (expression (hunary source)) _ _ _) fun _ => refl _

theorem more_room (mode : Mode) (room : Nat) :
    (∀ source ts, Widens (Parse.unary mode room source ts)
      (Parse.unary mode (room + 1) source ts)) ∧
    ∀ text, Widens (Parse.variableOf mode room text) (Parse.variableOf mode (room + 1) text) := by
  induction room with
  | zero =>
    refine ⟨unary_zero, fun text => ?_⟩
    rw [Parse.variableOf]
    exact .inl ⟨_, rfl, trivial⟩
  | succ room ih => exact ⟨unary ih.1 ih.2, variableOf ih.1 ih.2⟩

end Widens

/-- A variable that is read with some room is read alike with more room. -/
theorem variableOf_mono {mode : Mode} {room more : Nat} (h : room ≤ more) {text : List Char}
    {v : Var} (hv : Parse.variableOf mode room text = .ok v) :
    Parse.variableOf mode more text = .ok v := by
  induction h with
  | refl => exact hv
  | step _ ih => exact ((Widens.more_room mode _).2 text).eq_ok ih

/-- A variable that is read, and that does not run out of one level less, is read with one level
less. -/
theorem variableOf_less {mode : Mode} {room : Nat} {text : List Char} {v : Var}
    (hv : Parse.variableOf mode (room + 1) text = .ok v)
    (hdeep : ∀ f, Parse.variableOf mode room text = .error f → ¬TooDeep f) :
    Parse.variableOf mode room text = .ok v := by
  rcases (Widens.more_room mode room).2 text with ⟨f, hf, htoo⟩ | hsame
  · exact absurd htoo (hdeep f hf)
  · rw [← hsame, hv]

end BraceTemplate.Source
