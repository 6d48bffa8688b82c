import BraceTemplate.Filter.Table
import BraceTemplate.Proofs.Computation
import BraceTemplate.Proofs.Decimal.Integers

/-!
Sound values are those that a host can hold: their numbers are finite and of 64 bits, and the keys of
a mapping are distinct. The entries of a sound collection are found under their keys.
-/
namespace BraceTemplate.Value

open Decimal

/-- A value without infinities and not-a-number, whose integers are 64-bit ones, whose sequences have
such a length and whose mappings have distinct keys. -/
inductive Sound : Value → Prop where
  | null : Sound .null
  | bool (b : Bool) : Sound (.bool b)
  | int {n : Int} (h : InRange n) : Sound (.int n)
  | float {x : Float} (h : x.isFinite = true) : Sound (.float x)
  | str (s : String) : Sound (.str s)
  | list {items : List Value} (hlength : items.length ≤ maxNat64) (h : ∀ v ∈ items, Sound v) :
    Sound (.list items)
  | dict {fields : List (String × Value)} (hkeys : (Dict.keys fields).Nodup)
    (h : ∀ e ∈ fields, Sound e.2) : Sound (.dict fields)

variable {v w key : Value} {n : Number}

theorem readNumber_finite {s : String} (h : readNumber s = some n) :
    n.toFloat.isFinite = true := by
  unfold readNumber at h
  dsimp only at h
  split at h
  · cases h
    exact isFinite_ofInt ⟨by decide, by decide⟩
  · split at h
    · rename_i i hi
      cases h
      obtain ⟨-, hfits⟩ := Option.filter_eq_some_iff.mp hi
      exact isFinite_ofInt (inRange_of_fits hfits)
    · obtain ⟨x, hx, rfl⟩ := Option.map_eq_some_iff.mp h
      exact (Option.filter_eq_some_iff.mp hx).2

/-- What a sound value reads as is finite. -/
theorem Sound.number_finite (h : v.Sound) (hn : v.number? = some n) :
    n.toFloat.isFinite = true := by
  cases h with
  | null =>
    cases hn
    exact isFinite_ofInt ⟨by decide, by decide⟩
  | bool b =>
    cases hn
    cases b <;> exact isFinite_ofInt ⟨by decide, by decide⟩
  | int hrange =>
    rw [number?] at hn
    split at hn <;> cases hn <;> exact isFinite_ofInt hrange
  | float hx =>
    cases hn
    exact hx
  | str s => exact readNumber_finite hn
  | list | dict => cases hn

section Entries

/-- The positions of a sequence are written and read in decimal digits. -/
theorem index?_display {i : Nat} (h : i ≤ maxNat64) : index? (Value.int i).display = some i := by
  have hdigits : (Value.int i).display.toList = Nat.toDigits 10 i := by
    rw [display]
    exact String.toList_ofList
  have hplus : ∀ ds, Nat.toDigits 10 i ≠ '+' :: ds := by
    intro ds hds
    have hplus : '+' ∈ Nat.toDigits 10 i := hds ▸ List.mem_cons_self
    exact absurd (Nat.isDigit_of_mem_toDigits (by decide) (by decide) hplus) (by decide)
  rw [index?, hdigits, nat64?, natural?_toDigits, Option.filter_some, decide_eq_true h, if_pos rfl]
  exact hplus

theorem keys_entries (hc : v.isCollection = true) :
    Filter.keys v = .list (v.entries.map Prod.fst) := by
  cases v with
  | list items =>
    have hplaces : items.zipIdx.map Prod.snd = List.range items.length := by
      rw [List.zipIdx_map_snd, List.range_eq_range']
    rw [Filter.keys, entries, List.map_map, ← hplaces, List.map_map]
    rfl
  | dict fields =>
    rw [Filter.keys, entries, List.map_map]
    rfl
  | _ => cases hc

theorem length_entries (hc : v.isCollection = true) : Filter.length v = .int v.entries.length := by
  cases v with
  | list items => rw [Filter.length, entries, List.length_map, List.length_zipIdx]
  | dict fields => rw [Filter.length, entries, List.length_map]
  | _ => cases hc

/-- Each entry of a collection is the one that its key selects. -/
theorem Sound.lookup?_entry (h : v.Sound) (hc : v.isCollection = true)
    (he : (key, w) ∈ v.entries) : v.lookup? key.display = some w := by
  cases h with
  | list hlength _ =>
    obtain ⟨⟨item, i⟩, hitem, hentry⟩ := List.mem_map.mp he
    cases hentry
    have hget := List.mem_zipIdx_iff_getElem?.mp hitem
    have hi := (List.getElem?_eq_some_iff.mp hget).1
    rw [lookup?, index?_display (by omega), Option.bind_some, hget]
  | dict hkeys _ =>
    obtain ⟨field, hfield, hentry⟩ := List.mem_map.mp he
    cases hentry
    exact (Dict.find?_eq_some_iff hkeys).mpr hfield
  | _ => cases hc

end Entries

end BraceTemplate.Value
