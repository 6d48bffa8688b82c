import BraceTemplate.Proofs.Decimal.Ordering
import BraceTemplate.Proofs.Value.Sound

/-!
Equality and order of values. Both are those of what the values read as, floats or texts, and turn
around with their operands. They agree but for two numerals of one number, which are equals in the
order and differ as texts.
-/
namespace BraceTemplate

open Decimal

namespace Value

variable {a b : Value}

/-! Equality without conversions. -/

section Sameness

theorem sameItems_iff {xs ys : List Value} :
    sameItems xs ys = true ↔ List.Forall₂ (fun x y => same x y = true) xs ys := by
  induction xs generalizing ys with
  | nil => cases ys <;> simp [sameItems]
  | cons x xs ih => cases ys <;> simp [sameItems, ih]

theorem sameFields_iff {fs gs : List (String × Value)} :
    sameFields fs gs = true ↔ ∀ k v, (k, v) ∈ fs → ∃ w, Dict.find? gs k = some w ∧
      same v w = true := by
  induction fs with
  | nil => simp [sameFields]
  | cons e fs ih =>
    obtain ⟨k, v⟩ := e
    rw [sameFields, Bool.and_eq_true, ih]
    cases hfind : Dict.find? gs k <;> simp [hfind, or_imp, forall_and]

theorem Sound.same_self (h : a.Sound) : same a a = true := by
  induction h with
  | null => rfl
  | bool | int | str => simp [same]
  | float hx => rw [same, beq_eq_floatOrder, floatOrder_self hx, beq_self_eq_true]
  | list _ _ ih => exact sameItems_iff.mpr (List.forall₂_same.mpr ih)
  | dict hkeys _ ih =>
    rw [same, beq_self_eq_true, Bool.true_and, sameFields_iff]
    intro k v hfield
    exact ⟨v, (Dict.find?_eq_some_iff hkeys).mpr hfield, ih _ hfield⟩

/-- Distinct keys that are as many as others, and among these, are all of them. -/
theorem keys_subset {fs gs : List (String × Value)} (hfs : (Dict.keys fs).Nodup)
    (hlength : fs.length = gs.length) (h : Dict.keys fs ⊆ Dict.keys gs) :
    Dict.keys gs ⊆ Dict.keys fs := by
  have hperm := (List.subperm_of_subset hfs h).perm_of_length_le (by simp [Dict.keys, hlength])
  exact hperm.symm.subset

theorem Sound.same_symm (ha : a.Sound) (hb : b.Sound) (h : same a b = true) :
    same b a = true := by
  induction ha generalizing b with
  | null => cases b <;> first | rfl | cases h
  | bool | int | str => cases b <;> first | cases h | rwa [same, BEq.comm]
  | float =>
    cases b with
    | float y => rwa [same, float_beq_comm]
    | _ => cases h
  | list _ _ ih =>
    cases hb with
    | list _ hitems =>
      rw [same, sameItems_iff, List.forall₂_iff_get] at h ⊢
      obtain ⟨hlength, h⟩ := h
      refine ⟨hlength.symm, ?_⟩
      intro i hy hx
      exact ih _ (List.get_mem ..) (hitems _ (List.get_mem ..)) (h i hx hy)
    | _ => cases h
  | @dict fs hkeys _ ih =>
    cases hb with
    | @dict gs hkeys' hfields =>
      rw [same, Bool.and_eq_true, beq_iff_eq, sameFields_iff] at h ⊢
      obtain ⟨hlength, h⟩ := h
      refine ⟨hlength.symm, ?_⟩
      intro k w hw
      have hsubset : Dict.keys fs ⊆ Dict.keys gs := by
        intro k hk
        obtain ⟨⟨k, v⟩, hv, rfl⟩ := List.mem_map.mp hk
        obtain ⟨w, hw, -⟩ := h k v hv
        exact List.mem_map.mpr ⟨(k, w), Dict.mem_of_find? hw, rfl⟩
      obtain ⟨⟨k, v⟩, hv, rfl⟩ :=
        List.mem_map.mp (keys_subset hkeys hlength hsubset (List.mem_map_of_mem hw))
      obtain ⟨w', hw', hsame⟩ := h k v hv
      obtain rfl : w' = w :=
        Option.some.inj (hw'.symm.trans ((Dict.find?_eq_some_iff hkeys').mpr hw))
      exact ⟨v, (Dict.find?_eq_some_iff hkeys).mpr hv, ih _ hv (hfields _ hw) hsame⟩
    | _ => cases h

theorem Sound.same_comm (ha : a.Sound) (hb : b.Sound) : same a b = same b a :=
  Bool.eq_iff_iff.mpr ⟨ha.same_symm hb, hb.same_symm ha⟩

end Sameness

/-! What values are compared by. -/

section Readings

/-- The floats that two values read as. -/
def readings? (a b : Value) : Option (Float × Float) :=
  match a.number?, b.number? with
  | some m, some n => some (m.toFloat, n.toFloat)
  | _, _ => none

/-- The order by the given readings, and without any the order of the display texts. -/
def orderBy (a b : Value) : Option (Float × Float) → Option Ordering
  | some (x, y) => floatOrder x y
  | none => some (compare a.display b.display)

theorem number?_collection (h : a.isCollection = true) : a.number? = none := by
  cases a <;> first | rfl | cases h

/-- Two texts, which equality takes as they stand. -/
def bothTexts : Value → Value → Bool
  | .str _, .str _ => true
  | _, _ => false

/-- Two texts that are not both numerals, which the order takes as they stand. -/
def notNumerals : Value → Value → Bool
  | .str s, .str t => !(isNumeral s && isNumeral t)
  | _, _ => false

theorem readings?_eq_some {xy : Float × Float} : readings? a b = some xy ↔
    ∃ m n, a.number? = some m ∧ b.number? = some n ∧ (m.toFloat, n.toFloat) = xy := by
  unfold readings?
  cases a.number? <;> cases b.number? <;> simp

theorem readings?_swap (a b : Value) : readings? b a = (readings? a b).map Prod.swap := by
  unfold readings?
  cases a.number? <;> cases b.number? <;> rfl

theorem bothTexts_comm (a b : Value) : bothTexts b a = bothTexts a b := by
  cases a <;> cases b <;> rfl

theorem notNumerals_comm (a b : Value) : notNumerals b a = notNumerals a b := by
  cases a <;> cases b <;> first | rfl | simp only [notNumerals, Bool.and_comm]

theorem orderBy_swap (a b : Value) (readings : Option (Float × Float)) :
    orderBy b a (readings.map Prod.swap) = (orderBy a b readings).map Ordering.swap := by
  cases readings with
  | none => exact congrArg some Std.OrientedCmp.eq_swap
  | some xy => exact floatOrder_swap xy.1 xy.2

theorem Sound.orderBy_self (h : a.Sound) : orderBy a a (readings? a a) = some .eq := by
  unfold readings?
  cases hnumber : a.number? with
  | none => exact congrArg some (compare_eq_iff_eq.mpr rfl)
  | some n => exact floatOrder_self (h.number_finite hnumber)

theorem Sound.orderBy_isSome (ha : a.Sound) (hb : b.Sound) :
    (orderBy a b (readings? a b)).isSome = true := by
  cases hreadings : readings? a b with
  | none => rfl
  | some xy =>
    obtain ⟨m, n, hm, hn, rfl⟩ := readings?_eq_some.mp hreadings
    exact floatOrder_isSome (ha.number_finite hm) (hb.number_finite hn)

theorem orderBy_texts (a b : Value) :
    (orderBy a b none == some .eq) = (a.display == b.display) := by
  rw [orderBy, Bool.eq_iff_iff]
  simp

theorem bothTexts_iff : bothTexts a b = true ↔ ∃ s t, a = .str s ∧ b = .str t := by
  cases a <;> cases b <;> simp [bothTexts]

theorem notNumerals_eq_false (h : ¬ bothTexts a b = true) : notNumerals a b = false := by
  cases a <;> cases b <;> first | rfl | exact absurd rfl h

theorem numericOrder?_eq (a b : Value) : numericOrder? a b =
    if notNumerals a b then none
    else (readings? a b).map fun xy => floatOrder xy.1 xy.2 := by
  unfold readings?
  by_cases htexts : bothTexts a b = true
  · obtain ⟨s, t, rfl, rfl⟩ := bothTexts_iff.mp htexts
    rw [notNumerals, numericOrder?]
    by_cases hnumerals : (isNumeral s && isNumeral t) = true
    · rw [if_pos hnumerals, if_neg (by rw [hnumerals]; decide)]
      cases (str s).number? <;> cases (str t).number? <;> rfl
    · rw [if_neg hnumerals, if_pos (by rw [Bool.eq_false_iff.mpr hnumerals]; rfl)]
  · rw [notNumerals_eq_false htexts, numericOrder?, if_pos rfl, if_neg Bool.false_ne_true]
    · cases a.number? <;> cases b.number? <;> rfl
    · rintro s t rfl rfl
      exact htexts rfl

/-- Scalars are in the order of their readings. -/
theorem order_scalars (ha : a.isCollection = false) (hb : b.isCollection = false) :
    order a b = orderBy a b (if notNumerals a b then none else readings? a b) := by
  rw [order, numericOrder?_eq, ha, hb]
  by_cases htexts : notNumerals a b = true
  · rw [if_pos htexts, if_pos htexts]
    rfl
  · rw [if_neg htexts, if_neg htexts]
    cases readings? a b <;> rfl

/-- Scalars are equal if they are so by their readings. -/
theorem equal_scalars (ha : a.isCollection = false) (hb : b.isCollection = false) :
    equal a b = (orderBy a b (if bothTexts a b then none else readings? a b) == some .eq) := by
  by_cases htexts : bothTexts a b = true
  · rw [if_pos htexts, orderBy_texts]
    obtain ⟨s, t, rfl, rfl⟩ := bothTexts_iff.mp htexts
    rfl
  · rw [if_neg htexts, equal, ha, hb, Bool.or_false, if_neg Bool.false_ne_true]
    · unfold readings?
      cases a.number? with
      | none => exact (orderBy_texts a b).symm
      | some m =>
        cases b.number? with
        | none => exact (orderBy_texts a b).symm
        | some n => exact beq_eq_floatOrder _ _
    · rintro s t rfl rfl
      exact htexts rfl

theorem equal_collection (h : (a.isCollection || b.isCollection) = true) :
    equal a b = same a b := by
  unfold equal
  exact if_pos h

theorem order_collection (h : (a.isCollection || b.isCollection) = true) : order a b = none := by
  have hreadings : readings? a b = none := by
    unfold readings?
    rcases Bool.or_eq_true_iff.mp h with ha | hb
    · rw [number?_collection ha]
    · rw [number?_collection hb]
      cases a.number? <;> rfl
  rw [order, numericOrder?_eq, hreadings, Option.map_none, ite_self]
  exact if_pos h

end Readings

/-! The laws of both. -/

section Laws

/-- A reading that is only of some operands, whichever way around they stand. -/
theorem readings_swap {p p' : Bool} (h : p' = p) (a b : Value) :
    (if p' then none else readings? b a) =
      (if p then none else readings? a b).map Prod.swap := by
  rw [h, readings?_swap]
  cases p <;> rfl

theorem Sound.equal_self (h : a.Sound) : equal a a = true := by
  cases hc : a.isCollection with
  | true => rw [equal_collection (by rw [hc]; rfl), h.same_self]
  | false =>
    rw [equal_scalars hc hc]
    by_cases htexts : bothTexts a a = true
    · rw [if_pos htexts, orderBy_texts, beq_self_eq_true]
    · rw [if_neg htexts, h.orderBy_self, beq_self_eq_true]

theorem order_swap (a b : Value) : order b a = (order a b).map Ordering.swap := by
  cases hc : a.isCollection || b.isCollection with
  | true =>
    rw [order_collection hc, order_collection (by rwa [Bool.or_comm])]
    rfl
  | false =>
    obtain ⟨ha, hb⟩ := Bool.or_eq_false_iff.mp hc
    rw [order_scalars ha hb, order_scalars hb ha, readings_swap (notNumerals_comm a b), orderBy_swap]

theorem Sound.equal_comm (ha : a.Sound) (hb : b.Sound) : equal a b = equal b a := by
  cases hc : a.isCollection || b.isCollection with
  | true =>
    rw [equal_collection hc, equal_collection (by rwa [Bool.or_comm]), ha.same_comm hb]
  | false =>
    obtain ⟨hascalar, hbscalar⟩ := Bool.or_eq_false_iff.mp hc
    rw [equal_scalars hascalar hbscalar, equal_scalars hbscalar hascalar,
      readings_swap (bothTexts_comm a b), orderBy_swap]
    rcases orderBy a b _ with _ | (_ | _ | _) <;> rfl

theorem Sound.order_isSome (ha : a.Sound) (hb : b.Sound) (hascalar : a.isCollection = false)
    (hbscalar : b.isCollection = false) : (order a b).isSome = true := by
  rw [order_scalars hascalar hbscalar]
  by_cases hnot : notNumerals a b = true
  · rw [if_pos hnot]
    rfl
  · rw [if_neg hnot]
    exact ha.orderBy_isSome hb

/-- Equality is reflexive and symmetric, and the order turns around with its operands; it is absent
exactly where one of them is a collection. -/
theorem comparison_symmetric (ha : a.Sound) (hb : b.Sound) :
    equal a a = true ∧ equal a b = equal b a ∧ order b a = (order a b).map Ordering.swap ∧
    (order a b = none ↔ a.isCollection = true ∨ b.isCollection = true) := by
  refine ⟨ha.equal_self, ha.equal_comm hb, order_swap a b, ?_⟩
  rw [← Bool.or_eq_true_iff]
  constructor
  · intro hnone
    by_contra hc
    obtain ⟨hascalar, hbscalar⟩ := Bool.or_eq_false_iff.mp (Bool.eq_false_iff.mpr hc)
    have hsome := ha.order_isSome hb hascalar hbscalar
    rw [hnone] at hsome
    cases hsome
  · exact order_collection

/-- Two mappings with the same fields in another order, and a text against a float. -/
theorem comparison_symmetric_nested :
    let a : Value := .dict [("x", .list [.int 1, .null]), ("y", .str "0.50")]
    let b : Value := .dict [("y", .str "0.50"), ("x", .list [.int 1, .null])]
    (a.Sound ∧ b.Sound ∧ (Value.float 0.5).Sound) ∧
    (equal a a = true ∧ equal a b = equal b a ∧ order a b = none) ∧
    equal (.str "0.50") (.float 0.5) = equal (.float 0.5) (.str "0.50") ∧
    order (.float 0.5) (.str "0.50") ≠ none := by
  intro a b
  have hlist : (Value.list [.int 1, .null]).Sound := by
    refine .list (by decide) ?_
    simp only [List.forall_mem_cons, List.not_mem_nil, false_implies, implies_true, and_true]
    exact ⟨.int ⟨by decide, by decide⟩, .null⟩
  have ha : a.Sound := by
    refine .dict (by decide) ?_
    simp only [List.forall_mem_cons, List.not_mem_nil, false_implies, implies_true, and_true]
    exact ⟨hlist, .str _⟩
  have hb : b.Sound := by
    refine .dict (by decide) ?_
    simp only [List.forall_mem_cons, List.not_mem_nil, false_implies, implies_true, and_true]
    exact ⟨.str _, hlist⟩
  have hhalf : (Value.float 0.5).Sound := .float (by decide +kernel)
  obtain ⟨hself, hcomm, -, hnone⟩ := comparison_symmetric ha hb
  obtain ⟨-, hcomm', -, -⟩ := comparison_symmetric (.str "0.50") hhalf
  obtain ⟨-, -, -, hnone'⟩ := comparison_symmetric hhalf (.str "0.50")
  refine ⟨⟨ha, hb, hhalf⟩, ⟨hself, hcomm, hnone.mpr (.inl rfl)⟩, hcomm', ?_⟩
  rw [Ne, hnone']
  decide

end Laws

/-! Where equality and order part. -/

section Numerals

/-- Two different texts that are numerals of one number. -/
inductive SpelledApart : Value → Value → Prop where
  | intro {s t : String} {m n : Number} (hdiffer : s ≠ t) (hs : isNumeral s = true)
    (ht : isNumeral t = true) (hm : readNumber s = some m) (hn : readNumber t = some n)
    (hequal : (m.toFloat == n.toFloat) = true) : SpelledApart (.str s) (.str t)

theorem order_numerals {s t : String} {m n : Number} (hs : isNumeral s = true)
    (ht : isNumeral t = true) (hm : readNumber s = some m) (hn : readNumber t = some n) :
    order (.str s) (.str t) = floatOrder m.toFloat n.toFloat := by
  have hreadings : readings? (.str s) (.str t) = some (m.toFloat, n.toFloat) :=
    readings?_eq_some.mpr ⟨m, n, hm, hn, rfl⟩
  rw [order_scalars rfl rfl, notNumerals, hs, ht, hreadings]
  rfl

theorem SpelledApart.order_eq (h : SpelledApart a b) : order a b = some .eq := by
  obtain ⟨-, hs, ht, hm, hn, hequal⟩ := h
  rw [order_numerals hs ht hm hn]
  exact eq_of_beq ((beq_eq_floatOrder _ _).symm.trans hequal)

theorem SpelledApart.equal_eq (h : SpelledApart a b) : equal a b = false := by
  obtain ⟨hdiffer, -⟩ := h
  exact beq_false_of_ne hdiffer

theorem equal_texts_eq_order {s t : String} (h : ¬ SpelledApart (.str s) (.str t)) :
    equal (.str s) (.str t) = (order (.str s) (.str t) == some .eq) := by
  by_cases hnumerals : ∃ m n, isNumeral s = true ∧ isNumeral t = true ∧
      readNumber s = some m ∧ readNumber t = some n
  · obtain ⟨m, n, hs, ht, hm, hn⟩ := hnumerals
    rw [order_numerals hs ht hm hn, ← beq_eq_floatOrder]
    by_cases hsame : s = t
    · subst hsame
      obtain rfl : m = n := Option.some.inj (hm.symm.trans hn)
      have hself := floatOrder_self (readNumber_finite hm)
      rw [beq_eq_floatOrder, hself]
      exact beq_self_eq_true s
    · have hdiffer : (m.toFloat == n.toFloat) = false :=
        Bool.eq_false_iff.mpr fun hequal => h (.intro hsame hs ht hm hn hequal)
      rw [hdiffer]
      exact beq_false_of_ne hsame
  · have hwords : (if notNumerals (.str s) (.str t) then none
        else readings? (.str s) (.str t)) = none := by
      rw [ite_eq_left_iff, Option.eq_none_iff_forall_ne_some]
      intro hnot xy hreadings
      obtain ⟨hs, ht⟩ : isNumeral s = true ∧ isNumeral t = true := by
        simpa [notNumerals] using hnot
      obtain ⟨m, n, hm, hn, -⟩ := readings?_eq_some.mp hreadings
      exact hnumerals ⟨m, n, hs, ht, hm, hn⟩
    rw [equal_scalars rfl rfl, order_scalars rfl rfl, hwords]
    rfl

/-- Equality is being equals in the order, but for numerals of one number. -/
theorem equal_eq_order (ha : a.isCollection = false) (hb : b.isCollection = false)
    (h : ¬ SpelledApart a b) : equal a b = (order a b == some .eq) := by
  by_cases htexts : bothTexts a b = true
  · obtain ⟨s, t, rfl, rfl⟩ := bothTexts_iff.mp htexts
    exact equal_texts_eq_order h
  · rw [equal_scalars ha hb, order_scalars ha hb, if_neg htexts, notNumerals_eq_false htexts,
      if_neg Bool.false_ne_true]

end Numerals

end Value

end BraceTemplate
