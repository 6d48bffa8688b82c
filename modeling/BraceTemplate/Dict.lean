/-! Insertion-ordered dictionaries: a key keeps its first place and takes its last value. -/
namespace BraceTemplate

abbrev Dict (α : Type) := List (String × α)

namespace Dict

variable {α : Type}

def find? : Dict α → String → Option α
  | [], _ => none
  | (k, v) :: d, key => if k = key then some v else find? d key

def contains (d : Dict α) (key : String) : Bool := (find? d key).isSome

/-- Replaces the value of a key in place, or adds the key at the end. -/
def insert : Dict α → String → α → Dict α
  | [], key, value => [(key, value)]
  | (k, v) :: d, key, value => if k = key then (k, value) :: d else (k, v) :: insert d key value

/-- Removes a key; the others keep their order. -/
def erase : Dict α → String → Dict α
  | [], _ => []
  | (k, v) :: d, key => if k = key then d else (k, v) :: erase d key

def keys (d : Dict α) : List String := d.map Prod.fst

def insertAll (d : Dict α) (entries : List (String × α)) : Dict α :=
  entries.foldl (fun d e => insert d e.1 e.2) d

def ofList (entries : List (String × α)) : Dict α := insertAll [] entries

@[simp] theorem find?_nil (key : String) : find? ([] : Dict α) key = none := rfl

@[simp] theorem find?_insert_self (d : Dict α) (key : String) (value : α) :
    find? (insert d key value) key = some value := by
  induction d with
  | nil => simp [insert, find?]
  | cons e d ih =>
    by_cases h : e.1 = key
    · simp [insert, find?, h]
    · simp [insert, find?, h, ih]

@[simp] theorem insert_insert (d : Dict α) (key : String) (value value' : α) :
    insert (insert d key value) key value' = insert d key value' := by
  induction d with
  | nil => simp [insert]
  | cons e d ih =>
    by_cases h : e.1 = key
    · simp [insert, h]
    · simp [insert, h, ih]

theorem find?_insert_of_ne (d : Dict α) {key other : String} (value : α) (h : other ≠ key) :
    find? (insert d key value) other = find? d other := by
  induction d with
  | nil => simp [insert, find?, Ne.symm h]
  | cons e d ih =>
    by_cases hk : e.1 = key
    · simp [insert, find?, hk, Ne.symm h]
    · simp only [insert, hk, ↓reduceIte, find?, ih]

theorem keys_insert (d : Dict α) (key : String) (value : α) :
    keys (insert d key value) = if key ∈ keys d then keys d else keys d ++ [key] := by
  induction d with
  | nil => simp [insert, keys]
  | cons e d ih =>
    by_cases h : e.1 = key
    · simp [insert, keys, h]
    · have hk : key ≠ e.1 := Ne.symm h
      simp only [keys] at ih
      simp only [insert, h, ↓reduceIte, keys, List.map_cons, List.mem_cons, hk, false_or, ih]
      by_cases hm : key ∈ d.map Prod.fst <;> simp [hm]

theorem contains_iff (d : Dict α) (key : String) : contains d key = true ↔ key ∈ keys d := by
  induction d with
  | nil => simp [contains, keys]
  | cons e d ih =>
    simp only [contains, keys] at ih
    by_cases h : e.1 = key
    · simp [contains, find?, keys, h]
    · simp [contains, find?, keys, h, ih, Ne.symm h]

theorem insert_of_not_mem {d : Dict α} {key : String} (h : key ∉ keys d) (value : α) :
    insert d key value = d ++ [(key, value)] := by
  induction d with
  | nil => rfl
  | cons e d ih =>
    simp only [keys, List.map_cons, List.mem_cons, not_or] at h
    simp [insert, Ne.symm h.1, ih h.2]

theorem mem_of_find? {d : Dict α} {key : String} {value : α} (h : find? d key = some value) :
    (key, value) ∈ d := by
  induction d with
  | nil => simp at h
  | cons e d ih =>
    obtain ⟨k, v⟩ := e
    by_cases hk : k = key
    · obtain rfl : v = value := by simpa [find?, hk] using h
      simp [hk]
    · exact List.mem_cons_of_mem _ (ih (by simpa [find?, hk] using h))

/-- Writing what a key is bound to changes nothing. -/
theorem insert_of_find? {d : Dict α} {key : String} {value : α}
    (h : find? d key = some value) : insert d key value = d := by
  induction d with
  | nil => cases h
  | cons e d ih =>
    obtain ⟨k, v⟩ := e
    by_cases hk : k = key
    · obtain rfl : v = value := by simpa [find?, hk] using h
      simp [insert, hk]
    · simp [insert, hk, ih (by simpa [find?, hk] using h)]

/-- A dictionary with distinct keys finds exactly its entries. -/
theorem find?_eq_some_iff {d : Dict α} (hd : (keys d).Nodup) {key : String} {value : α} :
    find? d key = some value ↔ (key, value) ∈ d := by
  refine ⟨mem_of_find?, ?_⟩
  intro h
  induction d with
  | nil => simp at h
  | cons e d ih =>
    obtain ⟨k, v⟩ := e
    simp only [keys, List.map_cons, List.nodup_cons] at hd
    rcases List.mem_cons.mp h with he | hm
    · cases he
      simp [find?]
    · have hk : k ≠ key := by
        rintro rfl
        exact hd.1 (List.mem_map_of_mem hm)
      simp only [find?, hk, ↓reduceIte]
      exact ih hd.2 hm

end Dict
end BraceTemplate
