import BraceTemplate.Filter.Builtin
import BraceTemplate.Warning

/-! Filters by name. A name keeps its first filter. -/
namespace BraceTemplate

abbrev Filter := Value → Except Error Value

structure FilterTable where
  filters : Dict Filter

namespace FilterTable

def builtin (speller : Text.Speller) : FilterTable where
  filters :=
    ("abs", fun v => (Filter.abs v).mapError .execution) ::
      (Filter.total speller).map fun e => (e.1, fun v => .ok (e.2 v))

def find? (t : FilterTable) (name : String) : Option Filter := Dict.find? t.filters name

/-- Adds a filter unless the name is taken. -/
def register (t : FilterTable) (name : String) (filter : Filter) : Bool × FilterTable :=
  if Dict.contains t.filters name then (false, t)
  else (true, ⟨Dict.insert t.filters name filter⟩)

/-- An unknown filter passes the value on with a warning, or fails in a strict setting. -/
def apply (t : FilterTable) (strict : Bool) (name : String) (v : Value) : Logged Value :=
  match t.find? name with
  | some filter => liftExcept (filter v)
  | none =>
    if strict then throw (.execution (.unknownFilter name))
    else do
      warn (.unknownFilter name)
      return v

/-- Applies filters from first to last. -/
def applyAll (t : FilterTable) (strict : Bool) (names : List String) (v : Value) : Logged Value :=
  names.foldlM (fun v name => t.apply strict name v) v

end FilterTable
end BraceTemplate
