import BraceTemplate.Expr.Parse
import BraceTemplate.Proofs.Computation

/-!
Expressions and variables are read step by step, with less room further inside. What every step
keeps holds of all that is read.
-/
namespace BraceTemplate

theorem mem_of_mapM_ok {ε α β : Type} {f : α → Except ε β} {as : List α} {bs : List β}
    (h : as.mapM f = .ok bs) {b : β} (hb : b ∈ bs) : ∃ a ∈ as, f a = .ok b := by
  induction as generalizing bs with
  | nil =>
    cases h
    simp at hb
  | cons a as ih =>
    rw [List.mapM_cons] at h
    obtain ⟨c, hc, h⟩ := bind_eq_ok.mp h
    obtain ⟨cs, hcs, h⟩ := bind_eq_ok.mp h
    cases h
    rcases List.mem_cons.mp hb with rfl | hb
    · exact ⟨a, List.mem_cons_self, hc⟩
    · obtain ⟨a', ha', hfa⟩ := ih hcs hb
      exact ⟨a', List.mem_cons_of_mem _ ha', hfa⟩

/-- What is asked of the variable or the index inside of a segment. -/
def Segment.Meets (V : Var → Prop) (E : Expr → Prop) : Segment → Prop
  | .key _ => True
  | .nested v => V v
  | .index e => E e

namespace Parse

/-- Properties of what is read with some room, with a rule for each step of reading. -/
structure Formation (mode : Mode) (E : Nat → Expr → Prop) (V : Nat → Var → Prop) : Prop where
  literal : ∀ {room} (v : Value), E room (.literal v)
  empty : ∀ {room}, E room (.array [])
  array : ∀ {room es}, (∀ e ∈ es, E room e) → E (room + 1) (.array es)
  var : ∀ {room v}, V room v → E (room + 1) (.var v)
  not : ∀ {room e}, E room e → E (room + 1) (.not e)
  neg : ∀ {room e}, E room e → E (room + 1) (.neg e)
  binary : ∀ {room} (op) {left right}, E room left → E room right → E room (.binary op left right)
  parenthesized : ∀ {room e}, E room e → E (room + 1) e
  path : ∀ {room segments} (filters), (∀ s ∈ segments, Segment.Meets (V room) (E room) s) →
    V (room + 1) ⟨⟨mode, segments⟩, filters⟩

/-- A reader all of whose expressions have a property. -/
def Forms (P : Expr → Prop) (p : Parse Expr) : Prop := ∀ ts e rest, p ts = .ok (e, rest) → P e

section Operands

variable {P : Expr → Prop} {op? : Token → Option BinaryOp} {operand : Parse Expr}

section Operators

variable (hbinary : ∀ op {left right}, P left → P right → P (.binary op left right))
include hbinary

theorem chain_forms (h : Forms P operand) {fuel : Nat} {left e : Expr} {ts rest : List Token}
    (hleft : P left) (hrun : chain op? operand fuel left ts = .ok (e, rest)) : P e := by
  induction fuel generalizing left ts with
  | zero =>
    cases hrun
    exact hleft
  | succ fuel ih =>
    cases ts with
    | nil =>
      cases hrun
      exact hleft
    | cons t ts =>
      rw [chain] at hrun
      split at hrun
      · cases hrun
        exact hleft
      · obtain ⟨⟨right, ts'⟩, hright, hrun⟩ := bind_eq_ok.mp hrun
        exact ih (hbinary _ hleft (h _ _ _ hright)) hrun

theorem Forms.leftAssoc (h : Forms P operand) : Forms P (leftAssoc op? operand) := by
  intro ts e rest hrun
  obtain ⟨⟨left, ts'⟩, hleft, hrun⟩ := bind_eq_ok.mp hrun
  exact chain_forms hbinary h (h _ _ _ hleft) hrun

theorem Forms.nonAssoc (h : Forms P operand) : Forms P (nonAssoc op? operand) := by
  intro ts e rest hrun
  obtain ⟨⟨left, ts'⟩, hleft, hrun⟩ := bind_eq_ok.mp hrun
  exact chain_forms hbinary h (h _ _ _ hleft) hrun

theorem Forms.expression (h : Forms P operand) : Forms P (expression operand) := by
  unfold Parse.expression sum
  have hproduct : Forms P (Parse.leftAssoc multiplicativeOp? operand) := .leftAssoc hbinary h
  have hsum : Forms P (Parse.leftAssoc additiveOp? (Parse.leftAssoc multiplicativeOp? operand)) :=
    .leftAssoc hbinary hproduct
  exact .leftAssoc hbinary (.leftAssoc hbinary (.nonAssoc hbinary hsum))

theorem complete_forms {unary : String → Parse Expr} (h : ∀ text, Forms P (unary text))
    {source : List Char} {e : Expr} (hrun : complete unary source = .ok e) : P e := by
  unfold complete at hrun
  obtain ⟨ts, -, hrun⟩ := bind_eq_ok.mp hrun
  dsimp only at hrun
  split at hrun
  · cases hrun
  · obtain ⟨⟨e', rest⟩, he, hrun⟩ := bind_eq_ok.mp hrun
    dsimp only at hrun
    split at hrun
    · cases hrun
      exact Forms.expression hbinary (h _) _ _ _ he
    · cases hrun

end Operators

theorem items_form (h : Forms P operand) {missing : SyntaxFault} {fuel : Nat}
    {ts rest : List Token} {es : List Expr}
    (hrun : items missing operand fuel ts = .ok (es, rest)) : ∀ e ∈ es, P e := by
  induction fuel generalizing ts es with
  | zero => cases hrun
  | succ fuel ih =>
    rw [items] at hrun
    obtain ⟨⟨e, ts'⟩, he, hrun⟩ := bind_eq_ok.mp hrun
    have hone : P e := h _ _ _ he
    dsimp only at hrun
    split at hrun
    · obtain ⟨⟨es', ts''⟩, hes, hrun⟩ := bind_eq_ok.mp hrun
      cases hrun
      exact List.forall_mem_cons.mpr ⟨hone, ih hes⟩
    · cases hrun
      exact List.forall_mem_singleton.mpr hone
    · cases hrun

theorem operands_form (h : Forms P operand) {fuel : Nat} {ts : List Token} {es : List Expr}
    (hrun : operands operand fuel ts = .ok es) : ∀ e ∈ es, P e := by
  induction fuel generalizing ts es with
  | zero =>
    cases ts <;> cases hrun <;> nofun
  | succ fuel ih =>
    cases ts with
    | nil =>
      cases hrun
      nofun
    | cons t ts =>
      rw [operands] at hrun
      · obtain ⟨⟨e, ts'⟩, he, hrun⟩ := bind_eq_ok.mp hrun
        obtain ⟨es', hes, hrun⟩ := bind_eq_ok.mp hrun
        cases hrun
        exact List.forall_mem_cons.mpr ⟨h _ _ _ he, ih hes⟩
      · nofun

theorem segment_meets {V : Var → Prop} {nested : List Char → Except SyntaxFault Var}
    {index : List Char → Except SyntaxFault Expr} (hnested : ∀ text v, nested text = .ok v → V v)
    (hindex : ∀ text e, index text = .ok e → P e) {whole text : List Char} {s : Segment}
    (hrun : segment nested index whole text = .ok s) : s.Meets V P := by
  unfold segment at hrun
  dsimp only at hrun
  split at hrun
  · cases hrun
  · split at hrun
    · obtain ⟨v, hv, hrun⟩ := bind_eq_ok.mp hrun
      cases hrun
      exact hnested _ v hv
    · split at hrun
      · obtain ⟨e, he, hrun⟩ := bind_eq_ok.mp hrun
        cases hrun
        exact hindex _ e he
      · cases hrun
        trivial

end Operands

namespace Formation

variable {mode : Mode} {E : Nat → Expr → Prop} {V : Nat → Var → Prop}

/-- What is read with less room has the properties. -/
def Inwards (mode : Mode) (E : Nat → Expr → Prop) (V : Nat → Var → Prop) (room : Nat) : Prop :=
  ∀ inner, room = inner + 1 → (∀ source, Forms (E inner) (unary mode inner source)) ∧
    ∀ source v, variableOf mode inner source = .ok v → V inner v

theorem unary_step (h : Formation mode E V) {room : Nat} (hin : Inwards mode E V room)
    (source : String) : Forms (E room) (unary mode room source) := by
  intro ts e rest hrun
  unfold unary at hrun
  dsimp only at hrun
  split at hrun
  case h_2 | h_3 | h_4 | h_5 | h_6 =>
    cases hrun
    exact h.literal _
  case h_7 | h_8 =>
    split at hrun
    · cases hrun
    · obtain ⟨⟨e', rest'⟩, he, hrun⟩ := bind_eq_ok.mp hrun
      cases hrun
      exact h.not ((hin _ rfl).1 source _ _ _ he)
  case h_9 =>
    split at hrun
    · cases hrun
    · obtain ⟨⟨e', rest'⟩, he, hrun⟩ := bind_eq_ok.mp hrun
      cases hrun
      exact h.neg ((hin _ rfl).1 source _ _ _ he)
  case h_11 =>
    split at hrun
    · cases hrun
    · obtain ⟨v, hv, hrun⟩ := bind_eq_ok.mp hrun
      cases hrun
      exact h.var ((hin _ rfl).2 _ v hv)
  case h_12 =>
    split at hrun
    · cases hrun
    · obtain ⟨⟨e', rest'⟩, he, hrun⟩ := bind_eq_ok.mp hrun
      dsimp only at hrun
      split at hrun
      · cases hrun
        exact h.parenthesized (Forms.expression h.binary ((hin _ rfl).1 source) _ _ _ he)
      · cases hrun
  case h_13 =>
    cases hrun
    exact h.empty
  case h_14 =>
    split at hrun
    · cases hrun
    · obtain ⟨⟨es, rest'⟩, hes, hrun⟩ := bind_eq_ok.mp hrun
      cases hrun
      exact h.array (items_form (Forms.expression h.binary ((hin _ rfl).1 source)) hes)
  all_goals cases hrun

theorem variableOf_step (h : Formation mode E V) {room : Nat} (hin : Inwards mode E V room)
    (source : List Char) (v : Var) (hrun : variableOf mode room source = .ok v) : V room v := by
  cases room with
  | zero => simp [variableOf] at hrun
  | succ room =>
    simp only [variableOf] at hrun
    split at hrun
    · obtain ⟨segments, hsegments, hrun⟩ := bind_eq_ok.mp hrun
      cases hrun
      refine h.path _ fun s hs => ?_
      obtain ⟨text, -, hs⟩ := mem_of_mapM_ok hsegments hs
      exact segment_meets (hin _ rfl).2
        (fun _ _ => complete_forms h.binary (hin _ rfl).1) hs
    · cases hrun

/-- By induction on the room, of which every step inwards uses up some. -/
theorem inwards (h : Formation mode E V) (room : Nat) : Inwards mode E V room := by
  induction room with
  | zero => exact fun _ h => nomatch h
  | succ room ih =>
    rintro inner ⟨⟩
    exact ⟨h.unary_step ih, h.variableOf_step ih⟩

theorem of_var (h : Formation mode E V) {source : List Char} {v : Var}
    (hv : Var.parse mode source = .ok v) : V maxExprNesting v :=
  h.variableOf_step (h.inwards _) source v hv

theorem of_expr (h : Formation mode E V) {source : List Char} {e : Expr}
    (he : Expr.parse mode source = .ok e) : E maxExprNesting e :=
  complete_forms h.binary (fun text => h.unary_step (h.inwards _) text) he

theorem of_arguments (h : Formation mode E V) {source : List Char} {es : List Expr}
    (hes : Expr.parseArguments mode source = .ok es) : ∀ e ∈ es, E maxExprNesting e := by
  obtain ⟨ts, -, hes⟩ := bind_eq_ok.mp hes
  exact operands_form (h.unary_step (h.inwards _) _) hes

end Formation

end Parse
end BraceTemplate
