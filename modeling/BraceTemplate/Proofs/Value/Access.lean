import BraceTemplate.Value.Access

/-!
What is read after a write inside a value: the path written to holds what was written, and the paths
that part from it hold what they held.
-/
namespace BraceTemplate.Value

/-- Two keys select one entry: of a sequence where they stand for one index, and else only where they
are the same key. -/
def SameEntry : Value → String → String → Prop
  | .list _, key, other => index? key = index? other
  | _, key, other => key = other

/-- Two paths below a value part: at some point they select different entries of what lies there. -/
inductive Parts : Value → List String → List String → Prop
  | here {v : Value} {key other : String} (h : ¬ SameEntry v key other)
      (keys others : List String) : Parts v (key :: keys) (other :: others)
  | further {v : Value} {key other : String} {keys others : List String}
      (h : SameEntry v key other) (hrest : Parts ((v.lookup? key).getD .null) keys others) :
      Parts v (key :: keys) (other :: others)

theorem SameEntry.lookup? {v : Value} {key other : String} (h : SameEntry v key other) :
    v.lookup? key = v.lookup? other := by
  cases v with
  | list items =>
    have hindex : index? key = index? other := h
    rw [Value.lookup?, Value.lookup?, hindex]
  | _ =>
    obtain rfl : key = other := h
    rfl

/-- Nothing lies below an absent value. -/
theorem Parts.lookupAll?_null {v : Value} {keys others : List String} (h : Parts v keys others) :
    lookupAll? .null others = none := by
  cases h <;> rfl

theorem getElem?_roomFor (items : List Value) (i : Nat) {item : Value}
    (h : (roomFor items i)[i]? = some item) : (items[i]?).getD .null = item := by
  unfold roomFor at h
  split at h
  · rename_i hi
    simp only [hi, List.getElem?_concat_length, Option.some.injEq] at h
    simp [hi, h]
  · simp [h]

theorem getElem?_roomFor_of_ne (items : List Value) {i j : Nat} (h : j ≠ i) :
    (roomFor items i)[j]? = items[j]? := by
  unfold roomFor
  split
  · rename_i hi
    rw [List.getElem?_append]
    split
    · rfl
    · rw [List.getElem?_eq_none (by simp; omega), List.getElem?_eq_none (by omega)]
  · rfl

/-- What a write below a key leaves in its slot: the key selects what the write below made of the
entry, and the other entries are as they were. -/
structure WrittenBelow (v after : Value) (key : String) (inner : Value) : Prop where
  self : ∀ other, SameEntry v key other → after.lookup? other = some inner
  other : ∀ other, ¬ SameEntry v key other → after.lookup? other = v.lookup? other

variable {key : String} {keys others : List String} {v value : Value}

theorem WrittenBelow.insert {fields : List (String × Value)} (inner : Value)
    (hentry : ∀ other, SameEntry v key other ↔ key = other)
    (hlookup : ∀ other, v.lookup? other = Dict.find? fields other) :
    WrittenBelow v (.dict (Dict.insert fields key inner)) key inner where
  self other h := by
    obtain rfl := (hentry other).mp h
    exact Dict.find?_insert_self fields key inner
  other other h := by
    rw [hlookup]
    exact Dict.find?_insert_of_ne fields inner (Ne.symm (mt (hentry other).mpr h))

theorem WrittenBelow.set {items : List Value} {i : Nat} {item : Value} (inner : Value)
    (hkey : index? key = some i) (hitem : (roomFor items i)[i]? = some item) :
    WrittenBelow (.list items) (.list ((roomFor items i).set i inner)) key inner where
  self other h := by
    have hother : index? other = some i := Eq.trans (Eq.symm h) hkey
    have hi : i < (roomFor items i).length := (List.getElem?_eq_some_iff.mp hitem).1
    simp only [Value.lookup?, hother, Option.bind_some, List.getElem?_set_self hi]
  other other h := by
    simp only [Value.lookup?]
    cases hother : index? other with
    | none => rfl
    | some j =>
      have hij : j ≠ i := by
        rintro rfl
        exact h (hkey.trans hother.symm)
      simp only [Option.bind_some, List.getElem?_set_ne hij.symm, getElem?_roomFor_of_ne items hij]

/-- A write below a key that succeeds is one below the entry there, or below an absent value. -/
theorem setPath_cons (h : (setPath (key :: keys) v value).fault = none) :
    let inner := setPath keys ((v.lookup? key).getD .null) value
    inner.fault = none ∧ WrittenBelow v (setPath (key :: keys) v value).slot key inner.slot := by
  have hmapping : ∀ fields : List (String × Value), vivified v = .dict fields →
      (∀ other, SameEntry v key other ↔ key = other) →
      (∀ other, v.lookup? other = Dict.find? fields other) →
      let inner := setPath keys ((v.lookup? key).getD .null) value
      inner.fault = none ∧ WrittenBelow v (setPath (key :: keys) v value).slot key inner.slot := by
    intro fields hv hentry hlookup
    simp only [setPath, hv] at h ⊢
    rw [hlookup key]
    exact ⟨h, .insert _ hentry hlookup⟩
  cases v with
  | null => exact hmapping [] rfl (fun _ => Iff.rfl) fun _ => rfl
  | dict fields => exact hmapping fields rfl (fun _ => Iff.rfl) fun _ => rfl
  | str text =>
    by_cases htext : text = ""
    · subst htext
      exact hmapping [] rfl (fun _ => Iff.rfl) fun _ => rfl
    · simp [setPath, vivified, htext] at h
  | list items =>
    simp only [setPath, vivified] at h ⊢
    cases hkey : index? key with
    | none => simp [hkey] at h
    | some i =>
      simp only [hkey] at h ⊢
      cases hitem : (roomFor items i)[i]? with
      | none => simp [hitem] at h
      | some item =>
        simp only [hitem] at h ⊢
        have hbefore : ((Value.list items).lookup? key).getD .null = item := by
          simpa [Value.lookup?, hkey] using getElem?_roomFor items i hitem
        rw [hbefore]
        exact ⟨h, .set _ hkey hitem⟩
  | _ => simp [setPath, vivified] at h

/-- The path that was written to holds the value. -/
theorem lookupAll?_setPath (h : (setPath keys v value).fault = none) :
    lookupAll? (setPath keys v value).slot keys = some value := by
  induction keys generalizing v with
  | nil => rfl
  | cons key keys ih =>
    obtain ⟨hinner, hwritten⟩ := setPath_cons h
    have hself : SameEntry v key key := by cases v <;> exact Eq.refl _
    rw [lookupAll?, hwritten.self key hself, Option.bind_some]
    exact ih hinner

/-- A path that parts from the one written to holds what it held. -/
theorem lookupAll?_setPath_of_parts (hparts : Parts v keys others)
    (h : (setPath keys v value).fault = none) :
    lookupAll? (setPath keys v value).slot others = lookupAll? v others := by
  induction hparts with
  | here hother keys others =>
    rw [lookupAll?, lookupAll?, (setPath_cons h).2.other _ hother]
  | @further v key other keys others hsame hrest ih =>
    obtain ⟨hinner, hwritten⟩ := setPath_cons h
    rw [lookupAll?, hwritten.self other hsame, Option.bind_some, ih hinner, lookupAll?,
      ← hsame.lookup?]
    cases hkey : v.lookup? key with
    | none => exact hrest.lookupAll?_null
    | some entry => rfl

/-- The same of a value that may be absent before the write. -/
theorem lookupAll?_setPath_getD {old : Option Value} (hparts : Parts (old.getD .null) keys others)
    (h : (setPath keys (old.getD .null) value).fault = none) :
    lookupAll? (setPath keys (old.getD .null) value).slot others =
      old.bind fun v => lookupAll? v others := by
  rw [lookupAll?_setPath_of_parts hparts h]
  cases old with
  | none => exact hparts.lookupAll?_null
  | some v => rfl

end BraceTemplate.Value
