import BraceTemplate.Error
import BraceTemplate.Value.Compare

/-! Reading and writing inside collections, and the entries that a loop visits. -/
namespace BraceTemplate.Value

/-- The position that a key names in a sequence. -/
def index? (key : String) : Option Nat := Decimal.nat64? key.toList

def lookup? : Value → String → Option Value
  | .dict fields, key => Dict.find? fields key
  | .list items, key => (index? key).bind fun i => items[i]?
  | _, _ => none

/-- Looks keys up one below the other. -/
def lookupAll? : Value → List String → Option Value
  | v, [] => some v
  | v, key :: keys => (lookup? v key).bind fun w => lookupAll? w keys

/-- A value into which a mapping may be written: absent and empty values become one. -/
def vivified : Value → Value
  | .null => .dict []
  | .str "" => .dict []
  | v => v

/-- What a write leaves in its slot, and the fault if it failed. -/
structure Written where
  slot : Value
  fault : Option RenderFault

/-- A sequence with room for an index: one item more if the index stands right behind the last. -/
def roomFor (items : List Value) (i : Nat) : List Value :=
  if i = items.length then items ++ [.null] else items

/-- Writes a value at a path below a slot, from the outside in. A missing key of a mapping is added,
a sequence grows by one item at most, and no scalar is overwritten by a collection. -/
def setPath : List String → Value → Value → Written
  | [], _, value => ⟨value, none⟩
  | key :: keys, slot, value =>
    match vivified slot with
    | .dict fields =>
      let inner := setPath keys ((Dict.find? fields key).getD .null) value
      ⟨.dict (Dict.insert fields key inner.slot), inner.fault⟩
    | .list items =>
      match index? key with
      | none => ⟨.list items, some (.notAnIndex key)⟩
      | some i =>
        let items := roomFor items i
        match items[i]? with
        | some item =>
          let inner := setPath keys item value
          ⟨.list (items.set i inner.slot), inner.fault⟩
        | none => ⟨.list items, some (.indexOutOfBounds i items.length)⟩
    | other => ⟨other, some (.scalarInTheWay key other.text)⟩

/-- The pairs that a loop visits; a scalar is visited once. -/
def entries : Value → List (Value × Value)
  | .null => []
  | .str "" => []
  | .list items => items.zipIdx.map fun e => (.int e.2, e.1)
  | .dict fields => fields.map fun e => (.str e.1, e.2)
  | scalar => [(.int 0, scalar)]

end BraceTemplate.Value
