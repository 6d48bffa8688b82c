import BraceTemplate.Proofs.Source.Formation

/-!
How deep expressions and variables are nested. Of all ways from the root of what is read to a leaf,
none passes more levels than there is room to start with.
-/
namespace BraceTemplate

mutual

/-- The most levels on a way from the root to a leaf. A unary operator, the step to an item of an
array, a variable and a nested or computed segment are one level each, a binary operator is none. -/
def Expr.levels : Expr → Nat
  | .literal _ => 0
  | .array items => itemLevels items
  | .var v => v.levels + 1
  | .not e => e.levels + 1
  | .neg e => e.levels + 1
  | .binary _ left right => max left.levels right.levels

def itemLevels : List Expr → Nat
  | [] => 0
  | e :: es => max (e.levels + 1) (itemLevels es)

def Segment.levels : Segment → Nat
  | .key _ => 0
  | .nested v => v.levels + 1
  | .index e => e.levels + 1

def segmentLevels : List Segment → Nat
  | [] => 0
  | s :: ss => max s.levels (segmentLevels ss)

def Path.levels : Path → Nat
  | ⟨_, segments⟩ => segmentLevels segments

def Var.levels : Var → Nat
  | ⟨path, _⟩ => path.levels

end

theorem itemLevels_le {es : List Expr} {n : Nat} (h : ∀ e ∈ es, e.levels ≤ n) :
    itemLevels es ≤ n + 1 := by
  induction es with
  | nil => exact Nat.zero_le _
  | cons e es ih =>
    rw [itemLevels]
    exact Nat.max_le.mpr ⟨Nat.succ_le_succ (h e List.mem_cons_self),
      ih fun e he => h e (List.mem_cons_of_mem _ he)⟩

theorem segmentLevels_le {ss : List Segment} {n : Nat} (h : ∀ s ∈ ss, s.levels ≤ n) :
    segmentLevels ss ≤ n := by
  induction ss with
  | nil => exact Nat.zero_le _
  | cons s ss ih =>
    rw [segmentLevels]
    exact Nat.max_le.mpr ⟨h s List.mem_cons_self, ih fun s hs => h s (List.mem_cons_of_mem _ hs)⟩

/-- Every step of reading passes a level only where it uses up room. -/
theorem levels_formation (mode : Mode) :
    Parse.Formation mode (fun room e => e.levels ≤ room) fun room v => v.levels ≤ room where
  literal v := by
    rw [Expr.levels]
    exact Nat.zero_le _
  empty := by
    rw [Expr.levels, itemLevels]
    exact Nat.zero_le _
  array h := by
    rw [Expr.levels]
    exact itemLevels_le h
  var h := by
    rw [Expr.levels]
    exact Nat.succ_le_succ h
  not h := by
    rw [Expr.levels]
    exact Nat.succ_le_succ h
  neg h := by
    rw [Expr.levels]
    exact Nat.succ_le_succ h
  binary op left right hleft hright := by
    rw [Expr.levels]
    exact Nat.max_le.mpr ⟨hleft, hright⟩
  parenthesized h := Nat.le_succ_of_le h
  path filters h := by
    rw [Var.levels, Path.levels]
    refine segmentLevels_le fun s hs => ?_
    have hmeets := h s hs
    cases s with
    | key name =>
      rw [Segment.levels]
      exact Nat.zero_le _
    | nested v =>
      rw [Segment.levels]
      exact Nat.succ_le_succ hmeets
    | index e =>
      rw [Segment.levels]
      exact Nat.succ_le_succ hmeets

/-- What is read from a source has no more levels than expressions may nest. -/
theorem parsed_levels (mode : Mode) (source : List Char) :
    (∀ e, Expr.parse mode source = .ok e → e.levels ≤ maxExprNesting) ∧
    (∀ es, Expr.parseArguments mode source = .ok es → ∀ e ∈ es, e.levels ≤ maxExprNesting) ∧
    ∀ v, Var.parse mode source = .ok v → v.levels ≤ maxExprNesting :=
  ⟨fun _ he => (levels_formation mode).of_expr he,
    fun _ hes => (levels_formation mode).of_arguments hes,
    fun _ hv => (levels_formation mode).of_var hv⟩

/-- All the room is used: by unary operators alone, by what is nested in the second of two
arguments, and by what is computed inside of what is computed. -/
theorem parsed_levels_deepest :
    let signs := List.replicate 64 '-'
    let args := "[1] ".toList ++ signs.drop 5 ++ "[$a.\x7b$b.(not 1)\x7d]".toList
    let key := "$a.(".toList ++ signs.drop 3 ++ "\x7b$b.(1)\x7d + $c)".toList
    (∃ e, Expr.parse .shared (signs ++ ['1']) = .ok e ∧ e.levels = 64 ∧
      e.levels ≤ maxExprNesting) ∧
    (∃ es, Expr.parseArguments .block args = .ok es ∧ es.map Expr.levels = [1, 64] ∧
      ∀ e ∈ es, e.levels ≤ maxExprNesting) ∧
    ∃ v, Var.parse .shared key = .ok v ∧ v.levels = 64 ∧ v.levels ≤ maxExprNesting := by
  intro signs args key
  have hexpr : (Expr.parse .shared (signs ++ ['1'])).toOption.any (·.levels == 64) = true := by
    decide +kernel
  have hargs : (Expr.parseArguments .block args).toOption.any
      (·.map Expr.levels == [1, 64]) = true := by decide +kernel
  have hkey : (Var.parse .shared key).toOption.any (·.levels == 64) = true := by decide +kernel
  obtain ⟨e, he, hdeep⟩ := exists_ok_of_any hexpr
  obtain ⟨es, hes, hdeeps⟩ := exists_ok_of_any hargs
  obtain ⟨v, hv, hdeepest⟩ := exists_ok_of_any hkey
  exact ⟨⟨e, he, eq_of_beq hdeep, (parsed_levels _ _).1 e he⟩,
    ⟨es, hes, eq_of_beq hdeeps, (parsed_levels _ _).2.1 es hes⟩,
    ⟨v, hv, eq_of_beq hdeepest, (parsed_levels _ _).2.2 v hv⟩⟩

end BraceTemplate
