import BraceTemplate.Proofs.Source.Lexing

/-!
Operators: how the tokens of an expression read at each level, whatever its operands are. Operators
of one level are read along the left spine of an expression, where all of them stand without
parentheses.
-/
namespace BraceTemplate.Source

theorem ok_bind {ε α β : Type} (a : α) (f : α → Except ε β) : (Except.ok a >>= f) = f a := rfl

theorem error_bind {ε α β : Type} (e : ε) (f : α → Except ε β) :
    (Except.error e >>= f) = .error e := rfl

/-! Levels. -/

/-- The operator of a level that a token stands for. -/
def opAt? : Nat → Token → Option BinaryOp
  | 1 => Parse.orOp?
  | 2 => Parse.andOp?
  | 3 => Parse.comparisonOp?
  | 4 => Parse.additiveOp?
  | 5 => Parse.multiplicativeOp?
  | _ => fun _ => none

/-- The operators from a level on, over operands of the tightest level. -/
def atLevel (unary : Parse Expr) : Nat → Parse Expr
  | 1 => Parse.expression unary
  | 2 => Parse.leftAssoc Parse.andOp? (Parse.nonAssoc Parse.comparisonOp? (Parse.sum unary))
  | 3 => Parse.nonAssoc Parse.comparisonOp? (Parse.sum unary)
  | 4 => Parse.sum unary
  | 5 => Parse.leftAssoc Parse.multiplicativeOp? unary
  | _ => unary

/-- No operator of the given level or of a tighter one goes on. -/
def Stops (n : Nat) (ts : List Token) : Prop := ∀ t ∈ ts.head?, ∀ m, n ≤ m → opAt? m t = none

namespace Stops

variable {n : Nat} {ts : List Token}

theorem nil : Stops n [] := by simp [Stops]

/-- There are no operators between operands. -/
theorem six : Stops 6 ts := fun t _ m hm => by
  match m, hm with
  | m + 6, _ => rfl

theorem mono {m : Nat} (h : Stops n ts) (hm : n ≤ m) : Stops m ts :=
  fun t ht k hk => h t ht k (Nat.le_trans hm hk)

theorem cons {t : Token} (h : ∀ m, n ≤ m → opAt? m t = none) : Stops n (t :: ts) := by
  simpa [Stops] using h

end Stops

/-- The token is the operator, at the level of the operator alone. -/
def IsOperator (t : Token) (op : BinaryOp) : Prop :=
  ∀ m, opAt? m t = if m = level op then some op else none

theorem isOperator_symbol (op : BinaryOp) : IsOperator (.symbol (symbol op)) op := by
  intro m
  match m with
  | 0 | 1 | 2 | 3 | 4 | 5 => cases op <;> rfl
  | m + 6 => cases op <;> simp [opAt?, level]

theorem IsOperator.stops {t : Token} {op : BinaryOp} (h : IsOperator t op) (ts : List Token) :
    Stops (level op + 1) (t :: ts) := by
  refine .cons fun m hm => ?_
  rw [h m, if_neg (by omega)]

theorem opAt?_closing {t : Token} (h : t = .rightParen ∨ t = .rightBracket ∨ t = .comma) (m : Nat) :
    opAt? m t = none := by
  match m with
  | 0 | 1 | 2 | 3 | 4 | 5 => rcases h with rfl | rfl | rfl <;> rfl
  | m + 6 => rfl

theorem level_bounds (op : BinaryOp) : 1 ≤ level op ∧ level op ≤ 5 := by cases op <;> decide

section Chain

variable {op? : Token → Option BinaryOp} {operand unary : Parse Expr} {ts rest : List Token}
  {e : Expr}

theorem chain_stop (h : ∀ t ∈ rest.head?, op? t = none) (fuel : Nat) :
    Parse.chain op? operand fuel e rest = .ok (e, rest) := by
  cases fuel with
  | zero => rfl
  | succ fuel =>
    cases rest with
    | nil => rfl
    | cons t rest => simp [Parse.chain, h t rfl]

theorem chain_step {t : Token} {op : BinaryOp} {right : Expr} {fuel : Nat} (ht : op? t = some op)
    (hright : operand ts = .ok (right, rest)) :
    Parse.chain op? operand (fuel + 1) e (t :: ts) =
      Parse.chain op? operand fuel (.binary op e right) rest := by
  simp only [Parse.chain, ht, hright, ok_bind]

theorem leftAssoc_eq (h : operand ts = .ok (e, rest)) :
    Parse.leftAssoc op? operand ts = Parse.chain op? operand rest.length e rest := by
  rw [Parse.leftAssoc, h, ok_bind]

/-- An operand at a tighter level stands at a looser one. -/
theorem atLevel_step {n : Nat} (hn : 1 ≤ n) (h : atLevel unary (n + 1) ts = .ok (e, rest))
    (hrest : Stops n rest) : atLevel unary n ts = .ok (e, rest) := by
  have hstop : ∀ t ∈ rest.head?, opAt? n t = none := fun t ht => hrest t ht n (Nat.le_refl n)
  match n, hn with
  | 1, _ | 2, _ | 4, _ | 5, _ => exact (leftAssoc_eq h).trans (chain_stop hstop _)
  | 3, _ =>
    simp only [atLevel] at h ⊢
    rw [Parse.nonAssoc, h, ok_bind]
    exact chain_stop hstop 1
  | n + 6, _ => exact h

theorem atLevel_mono {n m : Nat} (hn : 1 ≤ n) (hm : n ≤ m) (h : atLevel unary m ts = .ok (e, rest))
    (hrest : Stops n rest) : atLevel unary n ts = .ok (e, rest) := by
  induction hm with
  | refl => exact h
  | step hm ih => exact ih (atLevel_step (Nat.le_trans hn hm) h (hrest.mono hm))

theorem leftAssoc_error {f : SyntaxFault} (h : operand ts = .error f) :
    Parse.leftAssoc op? operand ts = .error f := by
  rw [Parse.leftAssoc, h, error_bind]

/-- Where no operand starts no level has anything to read. -/
theorem atLevel_error {f : SyntaxFault} (h : unary ts = .error f) (n : Nat) :
    atLevel unary n ts = .error f := by
  have hsum : Parse.sum unary ts = .error f := leftAssoc_error (leftAssoc_error h)
  have hcomparison : Parse.nonAssoc Parse.comparisonOp? (Parse.sum unary) ts = .error f := by
    rw [Parse.nonAssoc, hsum, error_bind]
  match n with
  | 0 | n + 6 => exact h
  | 1 => exact leftAssoc_error (leftAssoc_error hcomparison)
  | 2 => exact leftAssoc_error hcomparison
  | 3 => exact hcomparison
  | 4 => exact hsum
  | 5 => exact leftAssoc_error h

end Chain

/-- The levels whose operators chain to the left. -/
def Chains (p : Nat) : Prop := p = 1 ∨ p = 2 ∨ p = 4 ∨ p = 5

theorem Chains.bounds {p : Nat} (h : Chains p) : 1 ≤ p ∧ p ≤ 5 := by
  unfold Chains at h
  omega

theorem chains_of_ne {op : BinaryOp} (h : level op ≠ 3) : Chains (level op) := by
  have := level_bounds op
  unfold Chains
  omega

theorem atLevel_chain {unary : Parse Expr} {p : Nat} (hp : Chains p) {ts rest : List Token}
    {e : Expr} (h : atLevel unary (p + 1) ts = .ok (e, rest)) :
    atLevel unary p ts = Parse.chain (opAt? p) (atLevel unary (p + 1)) rest.length e rest := by
  rcases hp with rfl | rfl | rfl | rfl <;> exact leftAssoc_eq h

/-! Operands, by the token they start with. -/

section Operands

variable {mode : Mode} {room : Nat} {source : String}

theorem unary_nil : Parse.unary mode room source [] =
    .error (.inExpression .unexpectedEnd source) := by
  cases room <;> rfl

theorem unary_number (v : Value) (ts : List Token) :
    Parse.unary mode room source (.number v :: ts) = .ok (.literal v, ts) := by
  cases room <;> rfl

theorem unary_text (s : String) (ts : List Token) :
    Parse.unary mode room source (.text s :: ts) = .ok (.literal (.str s), ts) := by
  cases room <;> rfl

theorem unary_bool (b : Bool) (ts : List Token) :
    Parse.unary mode room source (.word (.ofList (printBool b)) :: ts) =
      .ok (.literal (.bool b), ts) := by
  cases room <;> cases b <;> rfl

theorem unary_null (ts : List Token) :
    Parse.unary mode room source (.word "null" :: ts) = .ok (.literal .null, ts) := by
  cases room <;> rfl

theorem unary_not {t : Token} (h : t = .symbol .not ∨ t = .word "not") (ts : List Token) :
    Parse.unary mode (room + 1) source (t :: ts) = (do
      let (e, ts) ← Parse.unary mode room source ts
      return (.not e, ts)) := by
  rcases h with rfl | rfl <;> rfl

theorem unary_minus (ts : List Token) :
    Parse.unary mode (room + 1) source (.symbol .minus :: ts) = (do
      let (e, ts) ← Parse.unary mode room source ts
      return (.neg e, ts)) := rfl

theorem unary_var (text : List Char) (ts : List Token) :
    Parse.unary mode (room + 1) source (.var text :: ts) = (do
      return (.var (← Parse.variableOf mode room text), ts)) := rfl

theorem unary_paren (ts : List Token) :
    Parse.unary mode (room + 1) source (.leftParen :: ts) = (do
      let (e, ts) ← Parse.expression (Parse.unary mode room source) ts
      match ts with
      | .rightParen :: ts => return (e, ts)
      | _ => .error (.inExpression .missingParenthesis source)) := rfl

theorem unary_empty (ts : List Token) :
    Parse.unary mode room source (.leftBracket :: .rightBracket :: ts) = .ok (.array [], ts) := by
  cases room <;> rfl

theorem unary_bracket {t : Token} {ts : List Token} (h : t ≠ .rightBracket) :
    Parse.unary mode (room + 1) source (.leftBracket :: t :: ts) = (do
      let (es, rest) ← Parse.items (.inExpression .missingBracket source)
        (Parse.expression (Parse.unary mode room source)) ((t :: ts).length + 1) (t :: ts)
      return (.array es, rest)) := by
  cases t with
  | rightBracket => exact absurd rfl h
  | _ => rfl

theorem unary_closing (ts : List Token) :
    Parse.unary mode room source (.rightBracket :: ts) =
      .error (.inExpression .unexpectedToken source) := by
  cases room <;> rfl

end Operands

/-! Written expressions. -/

/-- An expression as it is written: its tokens where the operators from a level on may stand, how
deep these nest, and the expression itself. -/
structure Written where
  tokens : Nat → List Token
  depth : Nat → Nat
  expr : Expr

namespace Written

/-- Tokens that are the same at all levels. -/
def constant (ts : List Token) (depth : Nat) (e : Expr) : Written :=
  ⟨fun _ => ts, fun _ => depth, e⟩

/-- Two operands with their operator, without parentheses around them. -/
def operation (op : BinaryOp) (t : Token) (l r : Written) : List Token :=
  l.tokens (leftLevel op) ++ t :: r.tokens (level op + 1)

/-- Two operands with their operator, in parentheses where a tighter operator is needed. -/
def binary (op : BinaryOp) (t : Token) (l r : Written) : Written where
  tokens n :=
    if level op < n then .leftParen :: (operation op t l r ++ [.rightParen]) else operation op t l r
  depth n :=
    max (l.depth (leftLevel op)) (r.depth (level op + 1)) + if level op < n then 1 else 0
  expr := .binary op l.expr r.expr

/-- A unary operator before its operand. -/
def unary (t : Token) (f : Expr → Expr) (w : Written) : Written :=
  constant (t :: w.tokens 6) (w.depth 6 + 1) (f w.expr)

/-- Items behind the first one, each behind a comma. -/
def further (ws : List Written) : List Token := ws.flatMap fun w => .comma :: w.tokens 1

/-- How deep the items of an array nest inside of its brackets. -/
def deepest : List Written → Nat
  | [] => 0
  | w :: ws => max (w.depth 1 + 1) (deepest ws)

def array : List Written → Written
  | [] => constant [.leftBracket, .rightBracket] 0 (.array [])
  | w :: ws =>
    constant (.leftBracket :: (w.tokens 1 ++ (further ws ++ [.rightBracket]))) (deepest (w :: ws))
      (.array (w.expr :: ws.map expr))

end Written

/-- What reading a written expression gives: at every level the expression, and at the level of a
chain the chain of what follows behind the expression. -/
structure Reads (mode : Mode) (source : String) (w : Written) : Prop where
  expr : ∀ {room n rest}, w.depth n < room → 1 ≤ n → n ≤ 6 → Stops n rest →
    atLevel (Parse.unary mode room source) n (w.tokens n ++ rest) = .ok (w.expr, rest)
  spine : ∀ {room p rest}, w.depth p < room → Chains p → Stops (p + 1) rest →
    ∃ fuel, rest.length ≤ fuel ∧
      atLevel (Parse.unary mode room source) p (w.tokens p ++ rest) =
        Parse.chain (opAt? p) (atLevel (Parse.unary mode room source) (p + 1)) fuel w.expr rest

variable {mode : Mode} {source : String}

namespace Reads

variable {w : Written}

/-- A count of the nesting that is too high does no harm. -/
theorem deeper (h : Reads mode source w) {depth : Nat → Nat} (hd : ∀ n, w.depth n ≤ depth n) :
    Reads mode source { w with depth := depth } :=
  ⟨fun hroom => h.expr (Nat.lt_of_le_of_lt (hd _) hroom),
    fun hroom => h.spine (Nat.lt_of_le_of_lt (hd _) hroom)⟩

/-- What stands at the tightest level stands at all of them. -/
theorem of_unary {ts : List Token} {depth : Nat} {e : Expr}
    (h : ∀ {room rest}, depth < room → Parse.unary mode room source (ts ++ rest) = .ok (e, rest)) :
    Reads mode source (.constant ts depth e) := by
  constructor
  · intro room n rest hroom hn hn6 hrest
    exact atLevel_mono hn hn6 (h hroom) hrest
  · intro room p rest hroom hp hrest
    obtain ⟨hp1, hp5⟩ := hp.bounds
    exact ⟨rest.length, Nat.le_refl _,
      atLevel_chain hp (atLevel_mono (by omega) (by omega : p + 1 ≤ 6) (h hroom) hrest)⟩

theorem number (v : Value) : Reads mode source (.constant [.number v] 0 (.literal v)) :=
  of_unary fun _ => unary_number v _

theorem text (s : String) : Reads mode source (.constant [.text s] 0 (.literal (.str s))) :=
  of_unary fun _ => unary_text s _

theorem bool (b : Bool) :
    Reads mode source (.constant [.word (.ofList (printBool b))] 0 (.literal (.bool b))) :=
  of_unary fun _ => unary_bool b _

theorem null : Reads mode source (.constant [.word "null"] 0 (.literal .null)) :=
  of_unary fun _ => unary_null _

/-- A variable is read with one level of nesting less. -/
theorem var {text : List Char} {v : Var} {depth : Nat}
    (h : ∀ {room}, depth ≤ room → Parse.variableOf mode room text = .ok v) :
    Reads mode source (.constant [.var text] depth (.var v)) := by
  refine of_unary fun {room rest} hroom => ?_
  obtain ⟨room, rfl⟩ : ∃ k, room = k + 1 := ⟨room - 1, by omega⟩
  rw [List.singleton_append, unary_var, h (show depth ≤ room by omega)]
  rfl

/-- What is written starts with a token, which does not close a bracket. -/
theorem head (h : Reads mode source w) {n : Nat} (hn : 1 ≤ n) (hn6 : n ≤ 6) :
    ∃ t ts, w.tokens n = t :: ts ∧ t ≠ .rightBracket := by
  have hread := h.expr (Nat.lt_succ_self (w.depth n)) hn hn6 .nil
  rw [List.append_nil] at hread
  cases htokens : w.tokens n with
  | nil =>
    rw [htokens, atLevel_error unary_nil] at hread
    cases hread
  | cons t ts =>
    refine ⟨t, ts, rfl, ?_⟩
    rintro rfl
    rw [htokens, atLevel_error (unary_closing ts)] at hread
    cases hread

section Operation

variable {op : BinaryOp} {t : Token} {l r : Written} {room : Nat} {rest : List Token}

theorem chained (ht : IsOperator t op) (hl : Reads mode source l) (hr : Reads mode source r)
    (hdl : l.depth (leftLevel op) < room) (hdr : r.depth (level op + 1) < room)
    (hrest : Stops (level op + 1) rest) (hp : Chains (level op)) :
    ∃ fuel, rest.length ≤ fuel ∧
      atLevel (Parse.unary mode room source) (level op) (Written.operation op t l r ++ rest) =
        Parse.chain (opAt? (level op)) (atLevel (Parse.unary mode room source) (level op + 1)) fuel
          (.binary op l.expr r.expr) rest := by
  have hleft : leftLevel op = level op := by
    have : level op ≠ 3 := by
      unfold Chains at hp
      omega
    rw [leftLevel, if_neg this]
  rw [hleft] at hdl
  obtain ⟨fuel, hfuel, hchain⟩ :=
    hl.spine hdl hp (ht.stops (r.tokens (level op + 1) ++ rest))
  have hlen : rest.length + 1 ≤ fuel := by
    simp only [List.length_cons, List.length_append] at hfuel
    omega
  obtain ⟨fuel, rfl⟩ : ∃ k, fuel = k + 1 := ⟨fuel - 1, by omega⟩
  refine ⟨fuel, by omega, ?_⟩
  rw [Written.operation, hleft, List.append_assoc, List.cons_append, hchain]
  refine chain_step (by rw [ht, if_pos rfl]) ?_
  exact hr.expr hdr (by omega) (by have := hp.bounds; omega) hrest

theorem compared (ht : IsOperator t op) (hl : Reads mode source l) (hr : Reads mode source r)
    (hdl : l.depth (leftLevel op) < room) (hdr : r.depth (level op + 1) < room)
    (hrest : Stops 3 rest) (hp : level op = 3) :
    atLevel (Parse.unary mode room source) 3 (Written.operation op t l r ++ rest) =
      .ok (.binary op l.expr r.expr, rest) := by
  have hleft : leftLevel op = 4 := by rw [leftLevel, if_pos hp]
  have hstops := ht.stops (r.tokens 4 ++ rest)
  rw [hp] at hdr hstops
  rw [hleft] at hdl
  have hl4 := hl.expr hdl (by omega) (by omega) hstops
  have hr4 := hr.expr hdr (by omega) (by omega) (hrest.mono (show 3 ≤ 4 by omega))
  rw [Written.operation, hleft, hp, List.append_assoc, List.cons_append]
  simp only [atLevel] at hl4 hr4 ⊢
  rw [Parse.nonAssoc, hl4, ok_bind]
  have hop : Parse.comparisonOp? t = some op := (ht 3).trans (if_pos hp.symm)
  exact chain_step hop hr4

/-- Operands with their operator are read at the level of the operator. -/
theorem operation (ht : IsOperator t op) (hl : Reads mode source l) (hr : Reads mode source r)
    (hdl : l.depth (leftLevel op) < room) (hdr : r.depth (level op + 1) < room)
    (hrest : Stops (level op) rest) :
    atLevel (Parse.unary mode room source) (level op) (Written.operation op t l r ++ rest) =
      .ok (.binary op l.expr r.expr, rest) := by
  by_cases hp : level op = 3
  · rw [hp] at hrest
    rw [hp]
    exact hl.compared ht hr hdl hdr hrest hp
  · obtain ⟨fuel, -, hchain⟩ :=
      hl.chained ht hr hdl hdr (hrest.mono (Nat.le_succ _)) (chains_of_ne hp)
    rw [hchain]
    exact chain_stop (fun t ht => hrest t ht _ (Nat.le_refl _)) fuel

theorem parenthesized (ht : IsOperator t op) (hl : Reads mode source l) (hr : Reads mode source r)
    (hdl : l.depth (leftLevel op) < room) (hdr : r.depth (level op + 1) < room) :
    Parse.unary mode (room + 1) source
        (.leftParen :: (Written.operation op t l r ++ .rightParen :: rest)) =
      .ok (.binary op l.expr r.expr, rest) := by
  have hclosed : Stops 1 (.rightParen :: rest) := .cons fun m _ => opAt?_closing (.inl rfl) m
  have hp := level_bounds op
  have hbody := hl.operation ht hr hdl hdr (hclosed.mono hp.1)
  have hexpr : Parse.expression (Parse.unary mode room source)
      (Written.operation op t l r ++ .rightParen :: rest) = _ :=
    atLevel_mono (by omega) hp.1 hbody hclosed
  rw [unary_paren, hexpr]
  rfl

theorem binary (ht : IsOperator t op) (hl : Reads mode source l) (hr : Reads mode source r) :
    Reads mode source (.binary op t l r) := by
  -- In parentheses the operation stands at the tightest level, else at the level of its operator.
  have htight {room n : Nat} {rest : List Token} (hroom : (Written.binary op t l r).depth n < room)
      (hn : 1 ≤ n) (hn6 : n ≤ 6) (hlt : level op < n) (hrest : Stops n rest) :
      atLevel (Parse.unary mode room source) n ((Written.binary op t l r).tokens n ++ rest) =
        .ok (.binary op l.expr r.expr, rest) := by
    simp only [Written.binary, if_pos hlt] at hroom ⊢
    obtain ⟨k, rfl⟩ : ∃ k, room = k + 1 := ⟨room - 1, by omega⟩
    rw [List.cons_append, List.append_assoc, List.singleton_append]
    exact atLevel_mono hn hn6 (hl.parenthesized ht hr (by omega) (by omega)) hrest
  have hloose {room n : Nat} {rest : List Token} (hroom : (Written.binary op t l r).depth n < room)
      (hn : 1 ≤ n) (hle : n ≤ level op) (hrest : Stops n rest) :
      atLevel (Parse.unary mode room source) n (Written.operation op t l r ++ rest) =
        .ok (.binary op l.expr r.expr, rest) := by
    simp only [Written.binary, if_neg (Nat.not_lt.mpr hle)] at hroom
    exact atLevel_mono hn hle (hl.operation ht hr (by omega) (by omega) (hrest.mono hle)) hrest
  have hbare {n : Nat} (hle : n ≤ level op) :
      (Written.binary op t l r).tokens n = Written.operation op t l r :=
    if_neg (Nat.not_lt.mpr hle)
  constructor
  · intro room n rest hroom hn hn6 hrest
    by_cases hlt : level op < n
    · exact htight hroom hn hn6 hlt hrest
    · rw [hbare (by omega)]
      exact hloose hroom hn (by omega) hrest
  · intro room p rest hroom hp hrest
    obtain ⟨hp1, hp5⟩ := hp.bounds
    rcases Nat.lt_trichotomy (level op) p with hlt | heq | hgt
    · have hsame : (Written.binary op t l r).tokens p = (Written.binary op t l r).tokens (p + 1) ∧
          (Written.binary op t l r).depth p = (Written.binary op t l r).depth (p + 1) := by
        simp only [Written.binary, if_pos hlt, if_pos (show level op < p + 1 by omega), and_self]
      rw [hsame.2] at hroom
      rw [hsame.1]
      exact ⟨rest.length, Nat.le_refl _,
        atLevel_chain hp (htight hroom (by omega) (by omega) (by omega) hrest)⟩
    · subst heq
      simp only [Written.binary, if_neg (Nat.lt_irrefl _)] at hroom
      rw [hbare (Nat.le_refl _)]
      exact hl.chained ht hr (by omega) (by omega) hrest hp
    · have hroom' : (Written.binary op t l r).depth (p + 1) < room := by
        simp only [Written.binary, if_neg (show ¬level op < p by omega)] at hroom
        simp only [Written.binary, if_neg (show ¬level op < p + 1 by omega)]
        exact hroom
      rw [hbare (by omega)]
      exact ⟨rest.length, Nat.le_refl _,
        atLevel_chain hp (hloose hroom' (by omega) (by omega) hrest)⟩

end Operation

/-- The operand of a unary operator is read with one level of nesting less. -/
theorem operand (h : Reads mode source w) {room : Nat} (hroom : w.depth 6 + 1 < room)
    (rest : List Token) : ∃ k, room = k + 1 ∧
      Parse.unary mode k source (w.tokens 6 ++ rest) = .ok (w.expr, rest) :=
  ⟨room - 1, by omega, h.expr (n := 6) (by omega) (by omega) (by omega) .six⟩

theorem not {t : Token} (ht : t = .symbol .not ∨ t = .word "not") (h : Reads mode source w) :
    Reads mode source (.unary t .not w) := by
  refine of_unary fun {room rest} hroom => ?_
  obtain ⟨room, rfl, he⟩ := h.operand hroom rest
  rw [List.cons_append, unary_not ht, he]
  rfl

theorem neg (h : Reads mode source w) : Reads mode source (.unary (.symbol .minus) .neg w) := by
  refine of_unary fun {room rest} hroom => ?_
  obtain ⟨room, rfl, he⟩ := h.operand hroom rest
  rw [List.cons_append, unary_minus, he]
  rfl

end Reads

/-! Arrays. -/

theorem length_le_further (ws : List Written) : ws.length ≤ (Written.further ws).length := by
  induction ws with
  | nil => exact Nat.zero_le _
  | cons w ws ih =>
    simp only [Written.further, List.flatMap_cons, List.length_cons, List.length_append] at ih ⊢
    omega

theorem stops_further (ws : List Written) (rest : List Token) :
    Stops 1 (Written.further ws ++ .rightBracket :: rest) := by
  cases ws with
  | nil => exact .cons fun m _ => opAt?_closing (.inr (.inl rfl)) m
  | cons w ws => exact .cons fun m _ => opAt?_closing (.inr (.inr rfl)) m

/-- Items are read one by one up to the closing bracket. -/
theorem items_eq (missing : SyntaxFault) (rest : List Token) {room : Nat} {w : Written}
    {ws : List Written} (hw : Reads mode source w) (hws : ∀ v ∈ ws, Reads mode source v)
    (hdw : w.depth 1 < room) (hdws : Written.deepest ws ≤ room) {fuel : Nat}
    (hfuel : ws.length < fuel) :
    Parse.items missing (Parse.expression (Parse.unary mode room source)) fuel
        (w.tokens 1 ++ (Written.further ws ++ .rightBracket :: rest)) =
      .ok (w.expr :: ws.map Written.expr, rest) := by
  induction ws generalizing w fuel with
  | nil =>
    obtain ⟨fuel, rfl⟩ : ∃ k, fuel = k + 1 := ⟨fuel - 1, by omega⟩
    have hitem := hw.expr (n := 1) hdw (by omega) (by omega) (stops_further [] rest)
    simp only [atLevel] at hitem
    simp only [Parse.items, hitem, ok_bind]
    rfl
  | cons v ws ih =>
    obtain ⟨fuel, rfl⟩ : ∃ k, fuel = k + 1 := ⟨fuel - 1, by omega⟩
    rw [Written.deepest] at hdws
    rw [List.length_cons] at hfuel
    have hitem := hw.expr (n := 1) hdw (by omega) (by omega) (stops_further (v :: ws) rest)
    have ih := ih (hws v List.mem_cons_self) (fun u hu => hws u (List.mem_cons_of_mem v hu))
      (by omega) (by omega) (show ws.length < fuel by omega)
    have hfurther : Written.further (v :: ws) = .comma :: (v.tokens 1 ++ Written.further ws) := rfl
    simp only [atLevel, hfurther, List.cons_append, List.append_assoc] at hitem
    simp only [Parse.items, hfurther, List.cons_append, List.append_assoc, hitem, ok_bind, ih]
    rfl

theorem Reads.array {ws : List Written} (hws : ∀ w ∈ ws, Reads mode source w) :
    Reads mode source (.array ws) := by
  cases ws with
  | nil =>
    exact .of_unary fun _ => unary_empty _
  | cons w ws =>
    refine .of_unary fun {room rest} hroom => ?_
    rw [Written.deepest] at hroom
    obtain ⟨room, rfl⟩ : ∃ k, room = k + 1 := ⟨room - 1, by omega⟩
    have hfuel := length_le_further ws
    have hitems := items_eq (.inExpression .missingBracket source) rest
      (hws w List.mem_cons_self) (fun v hv => hws v (List.mem_cons_of_mem w hv))
      (show w.depth 1 < room by omega) (by omega)
      (show ws.length < (w.tokens 1 ++ (Written.further ws ++ .rightBracket :: rest)).length + 1 by
        simp only [List.length_append]
        omega)
    obtain ⟨t, ts, ht, hne⟩ := (hws w List.mem_cons_self).head (n := 1) (by omega) (by omega)
    simp only [List.cons_append, List.append_assoc, List.nil_append, ht] at hitems ⊢
    rw [unary_bracket hne, hitems]
    rfl

/-! Whole texts. -/

/-- A text that splits into the tokens of a written expression is that expression. -/
theorem Reads.complete {w : Written} {text : List Char} (h : Reads mode (.ofList text) w)
    (htext : Lexes (.ofList text) text (w.tokens 1)) {room : Nat} (hroom : w.depth 1 < room) :
    Parse.complete (Parse.unary mode room) text = .ok w.expr := by
  obtain ⟨t, ts, ht, -⟩ := h.head (n := 1) (by omega) (by omega)
  have hexpr := h.expr (n := 1) hroom (by omega) (by omega) Stops.nil
  rw [List.append_nil] at hexpr
  simp only [atLevel] at hexpr
  simp only [Parse.complete, htext.ofSource_eq, ok_bind, hexpr]
  simp only [ht, List.isEmpty_cons, List.isEmpty_nil, if_true, Bool.false_eq_true, if_false]
  rfl

theorem operands_eq {ws : List Written}
    (hws : ∀ w ∈ ws, Reads mode source w ∧ w.depth 6 < maxExprNesting) {fuel : Nat}
    (hfuel : ws.length ≤ fuel) :
    Parse.operands (Parse.unary mode maxExprNesting source) fuel (ws.flatMap (Written.tokens · 6)) =
      .ok (ws.map Written.expr) := by
  induction ws generalizing fuel with
  | nil =>
    cases fuel <;> rfl
  | cons w ws ih =>
    obtain ⟨fuel, rfl⟩ : ∃ k, fuel = k + 1 := ⟨fuel - 1, by simp at hfuel; omega⟩
    have ih := ih (fun v hv => hws v (List.mem_cons_of_mem w hv)) (Nat.le_of_succ_le_succ hfuel)
    obtain ⟨hw, hroom⟩ := hws w List.mem_cons_self
    have he : Parse.unary mode maxExprNesting source
        (w.tokens 6 ++ ws.flatMap (Written.tokens · 6)) = _ :=
      hw.expr hroom (by omega) (by omega) .six
    obtain ⟨t, ts, ht, -⟩ := hw.head (n := 6) (by omega) (by omega)
    rw [List.flatMap_cons]
    rw [ht, List.cons_append] at he ⊢
    simp only [Parse.operands, he, ok_bind, ih]
    rfl

/-- Written expressions side by side. -/
theorem parseArguments_eq {ws : List Written} {text : List Char}
    (hws : ∀ w ∈ ws, Reads mode (.ofList text) w ∧ w.depth 6 < maxExprNesting)
    (htext : Lexes (.ofList text) text (ws.flatMap (Written.tokens · 6))) :
    Expr.parseArguments mode text = .ok (ws.map Written.expr) := by
  have hlen : ws.length ≤ (ws.flatMap (Written.tokens · 6)).length := by
    clear htext
    induction ws with
    | nil => exact Nat.zero_le _
    | cons w ws ih =>
      have ih := ih fun v hv => hws v (List.mem_cons_of_mem w hv)
      obtain ⟨t, ts, ht, -⟩ := (hws w List.mem_cons_self).1.head (n := 6) (by omega) (by omega)
      simp only [List.flatMap_cons, ht, List.length_append, List.length_cons]
      omega
  rw [Expr.parseArguments, htext.ofSource_eq, ok_bind]
  exact operands_eq hws hlen

end BraceTemplate.Source
