import BraceTemplate.Proofs.Value.Access

/-!
The laws of a write at a path: where it succeeds, that the last of two writes stands, and what can be
read behind it.
-/
namespace BraceTemplate.Value

/-- Something can be written below a key: at any key of what is absent, empty or a mapping, and at the
indices of a sequence and the one right behind them. -/
def Admits : Value → String → Prop
  | .null, _ => True
  | .str text, _ => text = ""
  | .dict _, _ => True
  | .list items, key => ∃ i, index? key = some i ∧ i ≤ items.length
  | _, _ => False

/-- Every value met along a path admits the key that the path goes on with. -/
def Open (v : Value) (keys : List String) : Prop :=
  ∀ before key met, before ++ [key] <+: keys → v.lookupAll? before = some met → met.Admits key

variable {key : String} {keys others : List String} {v value : Value}

theorem open_nil (v : Value) : v.Open [] := by
  intro before key met hleads
  have := hleads.length_le
  simp at this

/-- A path is open where its first key is admitted and the rest is open in the entry there, if there
is one. -/
theorem open_cons : v.Open (key :: keys) ↔
    v.Admits key ∧ ∀ entry, v.lookup? key = some entry → entry.Open keys := by
  constructor
  · intro h
    refine ⟨h [] key v (by simp) rfl, fun entry hentry before next met hleads hmet => ?_⟩
    refine h (key :: before) next met ?_ ?_
    · rwa [List.cons_append, List.prefix_cons_inj]
    · rw [lookupAll?, hentry, Option.bind_some, hmet]
  · rintro ⟨hkey, hrest⟩ before next met hleads hmet
    cases before with
    | nil =>
      rw [List.nil_append, List.cons_prefix_cons] at hleads
      obtain rfl : v = met := Option.some.inj hmet
      rw [hleads.1]
      exact hkey
    | cons first before =>
      rw [List.cons_append, List.cons_prefix_cons] at hleads
      obtain ⟨rfl, hleads⟩ := hleads
      rw [lookupAll?] at hmet
      obtain ⟨entry, hentry, hmet⟩ := Option.bind_eq_some_iff.mp hmet
      exact hrest entry hentry before next met hleads hmet

/-- Every path is open in an absent value. -/
theorem open_null (keys : List String) : (Value.null).Open keys := by
  cases keys with
  | nil => exact open_nil _
  | cons key keys => exact open_cons.mpr ⟨trivial, fun entry hentry => by cases hentry⟩

theorem open_cons_getD : v.Open (key :: keys) ↔
    v.Admits key ∧ ((v.lookup? key).getD .null).Open keys := by
  rw [open_cons]
  cases v.lookup? key with
  | none => simp [open_null]
  | some entry => simp

/-- The way back from an entry to the value around it: a write below the key puts what it makes of the
entry in its place. -/
def PutsBack (v : Value) (key : String) (entry : Value) (put : Value → Value) : Prop :=
  ∀ keys value, setPath (key :: keys) v value =
    ⟨put (setPath keys entry value).slot, (setPath keys entry value).fault⟩

/-- A key that is admitted has a place, which stays the same whatever is put there. -/
theorem Admits.exists_place (h : v.Admits key) : ∃ put,
    v.PutsBack key ((v.lookup? key).getD .null) put ∧
      ∀ inner, (put inner).PutsBack key inner put := by
  have hmapping : ∀ fields : List (String × Value), vivified v = .dict fields →
      v.lookup? key = Dict.find? fields key → ∃ put,
        v.PutsBack key ((v.lookup? key).getD .null) put ∧
          ∀ inner, (put inner).PutsBack key inner put := by
    intro fields hv hlookup
    refine ⟨fun inner => .dict (Dict.insert fields key inner), fun keys value => ?_,
      fun inner keys value => ?_⟩
    · simp only [setPath, hv, hlookup]
    · simp only [setPath, vivified, Dict.find?_insert_self, Option.getD_some, Dict.insert_insert]
  cases v with
  | null => exact hmapping [] rfl rfl
  | dict fields => exact hmapping fields rfl rfl
  | str text =>
    obtain rfl : text = "" := h
    exact hmapping [] rfl rfl
  | list items =>
    obtain ⟨i, hkey, hi⟩ := h
    have hroom : i < (roomFor items i).length := by
      unfold roomFor
      split
      · rw [List.length_append, List.length_singleton]
        omega
      · omega
    obtain ⟨item, hitem⟩ : ∃ item, (roomFor items i)[i]? = some item :=
      ⟨_, List.getElem?_eq_getElem hroom⟩
    have hentry : ((Value.list items).lookup? key).getD .null = item := by
      simpa [Value.lookup?, hkey] using getElem?_roomFor items i hitem
    refine ⟨fun inner => .list ((roomFor items i).set i inner), fun keys value => ?_,
      fun inner keys value => ?_⟩
    · simp only [setPath, vivified, hkey, hitem, hentry]
    · -- there is room already
      have hagain : roomFor ((roomFor items i).set i inner) i = (roomFor items i).set i inner := by
        rw [roomFor, if_neg]
        rw [List.length_set]
        omega
      simp only [setPath, vivified, hkey, hagain, List.getElem?_set_self hroom, List.set_set]
  | _ => cases h

/-- No write goes below a key that is not admitted. -/
theorem Admits.of_setPath (h : (setPath (key :: keys) v value).fault = none) : v.Admits key := by
  cases v with
  | null => trivial
  | dict fields => trivial
  | str text =>
    by_cases htext : text = ""
    · exact htext
    · simp [setPath, vivified, htext] at h
  | list items =>
    simp only [setPath, vivified] at h
    cases hkey : index? key with
    | none => simp [hkey] at h
    | some i =>
      refine ⟨i, hkey, ?_⟩
      rcases Nat.lt_or_ge items.length i with hi | hi
      · have hroom : roomFor items i = items := if_neg (by omega)
        simp [hkey, hroom, List.getElem?_eq_none (Nat.le_of_lt hi)] at h
      · exact hi
  | _ => simp [setPath, vivified] at h

/-- A write succeeds exactly along an open path, whatever is written. -/
theorem fault_setPath_iff (keys : List String) (v value : Value) :
    (setPath keys v value).fault = none ↔ v.Open keys := by
  induction keys generalizing v with
  | nil => exact iff_of_true rfl (open_nil v)
  | cons key keys ih =>
    rw [open_cons_getD]
    constructor
    · intro h
      have hkey := Admits.of_setPath h
      obtain ⟨put, hput, -⟩ := hkey.exists_place
      rw [hput] at h
      exact ⟨hkey, (ih _).mp h⟩
    · rintro ⟨hkey, hrest⟩
      obtain ⟨put, hput, -⟩ := hkey.exists_place
      rw [hput]
      exact (ih _).mpr hrest

/-- Of two writes at one path the last one stands. -/
theorem setPath_setPath (h : v.Open keys) (value other : Value) :
    setPath keys (setPath keys v value).slot other = setPath keys v other := by
  induction keys generalizing v with
  | nil => rfl
  | cons key keys ih =>
    obtain ⟨hkey, hrest⟩ := open_cons_getD.mp h
    obtain ⟨put, hput, hagain⟩ := hkey.exists_place
    rw [hput keys value, hagain, hput keys other, ih hrest]

/-- A write succeeds exactly where each value met along its path is absent, empty, a mapping, or a
sequence with an index of it or the next one for a key. Behind it the path holds the value, another
write there succeeds and leaves what it would have left without the first one, and each path that
parts from it holds what it held or, as before, nothing. -/
theorem setPath_laws (keys : List String) (v value : Value) :
    ((setPath keys v value).fault = none ↔ v.Open keys) ∧
    ((setPath keys v value).fault = none →
      lookupAll? (setPath keys v value).slot keys = some value ∧
      (∀ other, (setPath keys (setPath keys v value).slot other).fault = none ∧
        setPath keys (setPath keys v value).slot other = setPath keys v other) ∧
      ∀ others, Parts v keys others →
        lookupAll? (setPath keys v value).slot others = lookupAll? v others) := by
  refine ⟨fault_setPath_iff keys v value, fun h => ⟨lookupAll?_setPath h, fun other => ?_,
    fun others hparts => lookupAll?_setPath_of_parts hparts h⟩⟩
  have hopen : v.Open keys := (fault_setPath_iff keys v value).mp h
  have hlast := setPath_setPath hopen value other
  refine ⟨?_, hlast⟩
  rw [hlast]
  exact (fault_setPath_iff keys v other).mpr hopen

/-- A row is added to a table, and its first row, spelled in another way, stays. -/
theorem setPath_laws_row :
    let table : Value := .dict [("rows", .list [.int 1])]
    let after : Value := .dict [("rows", .list [.int 1, .dict [("name", .str "b")]])]
    (setPath ["rows", "1", "name"] table (.str "b")).fault = none ∧
      (setPath ["rows", "1", "name"] table (.str "b")).slot = after ∧
      lookupAll? after ["rows", "1", "name"] = some (.str "b") ∧
      setPath ["rows", "1", "name"] after (.int 2) =
        setPath ["rows", "1", "name"] table (.int 2) ∧
      lookupAll? after ["rows", "+0"] = some (.int 1) := by
  intro table after
  have hfault : (setPath ["rows", "1", "name"] table (.str "b")).fault = none := rfl
  have hparts : Parts table ["rows", "1", "name"] ["rows", "+0"] := by
    refine .further rfl (.here ?_ _ _)
    intro (h : index? "1" = index? "+0")
    exact absurd h (by decide)
  obtain ⟨hown, hagain, hothers⟩ := (setPath_laws ["rows", "1", "name"] table (.str "b")).2 hfault
  exact ⟨hfault, rfl, hown, (hagain (.int 2)).2, hothers ["rows", "+0"] hparts⟩

end BraceTemplate.Value
