import BraceTemplate.Proofs.Value.Writing

/-!
Writes that fail. A value on the way refuses a key, and what was made on the way to it is nothing: a
write that fails leaves its slot as it was.
-/
namespace BraceTemplate.Value

variable {key : String} {keys : List String} {v value entry : Value} {f : RenderFault}

/-- Why nothing can be written below a key, where that is so. -/
def refusal (v : Value) (key : String) : Option RenderFault :=
  match v with
  | .null | .str "" | .dict _ => none
  | .list items =>
    match index? key with
    | none => some (.notAnIndex key)
    | some i => if i ≤ items.length then none else some (.indexOutOfBounds i items.length)
  | scalar => some (.scalarInTheWay key scalar.text)

/-- On the way along a path a value is met that refuses the key that the path goes on with. -/
def Obstructed (v : Value) (keys : List String) (f : RenderFault) : Prop :=
  ∃ before key behind met, keys = before ++ key :: behind ∧ v.lookupAll? before = some met ∧
    met.refusal key = some f

/-- Below a key that is refused there is nothing, and a write leaves the value as it is. -/
theorem setPath_of_refusal (h : v.refusal key = some f) (keys : List String) (value : Value) :
    v.lookup? key = none ∧ setPath (key :: keys) v value = ⟨v, some f⟩ := by
  cases v with
  | null | dict => cases h
  | str text =>
    by_cases htext : text = ""
    · subst htext
      cases h
    · obtain rfl : RenderFault.scalarInTheWay key (Value.str text).text = f := by
        simpa [refusal, htext] using h
      simp [lookup?, setPath, vivified, htext]
  | list items =>
    simp only [refusal] at h
    cases hkey : index? key with
    | none =>
      obtain rfl : RenderFault.notAnIndex key = f := by simpa [hkey] using h
      simp [lookup?, setPath, vivified, hkey]
    | some i =>
      obtain ⟨hi, rfl⟩ : items.length < i ∧ RenderFault.indexOutOfBounds i items.length = f := by
        simpa [hkey] using h
      have hroom : roomFor items i = items := if_neg (by omega)
      have hnone : items[i]? = none := List.getElem?_eq_none (Nat.le_of_lt hi)
      simp [lookup?, setPath, vivified, hkey, hroom, hnone]
  | _ =>
    cases h
    exact ⟨rfl, rfl⟩

theorem Admits.of_refusal (h : v.refusal key = none) : v.Admits key := by
  cases v with
  | null | dict => trivial
  | str text =>
    by_cases htext : text = ""
    · exact htext
    · simp [refusal, htext] at h
  | list items =>
    simp only [refusal] at h
    cases hkey : index? key with
    | none => simp [hkey] at h
    | some i => exact ⟨i, hkey, by simpa [hkey] using h⟩
  | _ => cases h

theorem not_obstructed_nil : ¬ v.Obstructed [] f := by
  rintro ⟨before, key, behind, met, hkeys, -⟩
  simp at hkeys

/-- A path is obstructed at its first key, or in the entry there. -/
theorem obstructed_cons : v.Obstructed (key :: keys) f ↔
    v.refusal key = some f ∨ ∃ entry, v.lookup? key = some entry ∧ entry.Obstructed keys f := by
  constructor
  · rintro ⟨before, key', behind, met, hkeys, hmet, hrefused⟩
    cases before with
    | nil =>
      obtain ⟨rfl, rfl⟩ := List.cons.inj hkeys
      obtain rfl : v = met := Option.some.inj hmet
      exact .inl hrefused
    | cons first before =>
      obtain ⟨rfl, rfl⟩ := List.cons.inj hkeys
      rw [lookupAll?] at hmet
      obtain ⟨entry, hentry, hmet⟩ := Option.bind_eq_some_iff.mp hmet
      exact .inr ⟨entry, hentry, before, key', behind, met, rfl, hmet, hrefused⟩
  · rintro (hrefused | ⟨entry, hentry, before, key', behind, met, rfl, hmet, hrefused⟩)
    · exact ⟨[], key, keys, v, rfl, rfl, hrefused⟩
    · refine ⟨key :: before, key', behind, met, rfl, ?_, hrefused⟩
      rw [lookupAll?, hentry, Option.bind_some, hmet]

theorem fault_setPath_null (keys : List String) (value : Value) :
    (setPath keys .null value).fault = none :=
  (fault_setPath_iff keys .null value).mpr (open_null keys)

/-- A write fails exactly where its path is obstructed, for the reason that is met there. -/
theorem fault_setPath_eq_some_iff (keys : List String) (v value : Value) (f : RenderFault) :
    (setPath keys v value).fault = some f ↔ v.Obstructed keys f := by
  induction keys generalizing v with
  | nil => exact iff_of_false nofun not_obstructed_nil
  | cons key keys ih =>
    rw [obstructed_cons]
    cases hrefusal : v.refusal key with
    | some f' =>
      obtain ⟨hnone, hwrite⟩ := setPath_of_refusal hrefusal keys value
      simp [hwrite, hnone]
    | none =>
      obtain ⟨put, hput, -⟩ := (Admits.of_refusal hrefusal).exists_place
      rw [hput]
      cases hlookup : v.lookup? key with
      | none => simp [fault_setPath_null]
      | some entry => simp [ih]

/-- An entry that is put back where it was leaves the value as it was. -/
theorem exists_place_of_lookup (h : v.lookup? key = some entry) :
    ∃ put, v.PutsBack key entry put ∧ put entry = v := by
  cases v with
  | dict fields =>
    have hfind : Dict.find? fields key = some entry := h
    refine ⟨fun inner => .dict (Dict.insert fields key inner), fun keys value => ?_, ?_⟩
    · simp only [setPath, vivified, hfind, Option.getD_some]
    · simp only [Dict.insert_of_find? hfind]
  | list items =>
    obtain ⟨i, hkey, hitem⟩ := Option.bind_eq_some_iff.mp (show (index? key).bind _ = _ from h)
    have hi : i < items.length := (List.getElem?_eq_some_iff.mp hitem).1
    have hroom : roomFor items i = items := if_neg (by omega)
    refine ⟨fun inner => .list (items.set i inner), fun keys value => ?_, ?_⟩
    · simp only [setPath, vivified, hkey, hroom, hitem]
    · obtain ⟨_, rfl⟩ := List.getElem?_eq_some_iff.mp hitem
      simp only [List.set_getElem_self]
  | _ => cases h

/-- A write that fails leaves its slot as it was, however deep it came: what a write puts in on its
way is absent at first, and below what is absent no write fails. -/
theorem slot_setPath_of_fault (h : (setPath keys v value).fault = some f) :
    (setPath keys v value).slot = v := by
  induction keys generalizing v with
  | nil => cases h
  | cons key keys ih =>
    cases hrefusal : v.refusal key with
    | some f' => rw [(setPath_of_refusal hrefusal _ _).2]
    | none =>
      cases hlookup : v.lookup? key with
      | none =>
        obtain ⟨put, hput, -⟩ := (Admits.of_refusal hrefusal).exists_place
        rw [hput, hlookup, Option.getD_none, fault_setPath_null] at h
        cases h
      | some entry =>
        obtain ⟨put, hput, hback⟩ := exists_place_of_lookup hlookup
        rw [hput] at h ⊢
        dsimp only at h ⊢
        rw [ih h, hback]

end BraceTemplate.Value
