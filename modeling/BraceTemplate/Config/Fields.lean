import BraceTemplate.Config.Basic

/-!
Settings by field, given by name or as a list in the order of the fields. Fields that are not given
keep their standard values; unknown and repeated ones are errors.
-/
namespace BraceTemplate.Config

inductive Field where
  | maxDepth
  | strictFilters
  | baseDir
  deriving DecidableEq, Repr

namespace Field

def all : List Field := [.maxDepth, .strictFilters, .baseDir]

def name : Field → String
  | .maxDepth => "max_depth"
  | .strictFilters => "strict_filters"
  | .baseDir => "base_dir"

def ofName? (name : String) : Option Field := all.find? fun f => f.name = name

end Field

/-- How the values of a format are read as settings. -/
structure SettingReader (α : Type) where
  natural? : α → Option Nat
  boolean? : α → Option Bool
  directory? : α → Option (Option String)

variable {α : Type}

def set? (r : SettingReader α) (c : Config) (f : Field) (v : α) : Option Config :=
  match f with
  | .maxDepth => (r.natural? v).map fun n => { c with maxDepth := n }
  | .strictFilters => (r.boolean? v).map fun b => { c with strictFilters := b }
  | .baseDir => (r.directory? v).map fun d => { c with baseDir := d }

def ofFields? (r : SettingReader α) (fields : List (Field × α)) : Option Config :=
  if (fields.map Prod.fst).Nodup then fields.foldlM (fun c e => c.set? r e.1 e.2) standard else none

def ofNamed? (r : SettingReader α) (entries : List (String × α)) : Option Config := do
  ofFields? r (← entries.mapM fun e => do return (← Field.ofName? e.1, e.2))

def ofListed? (r : SettingReader α) (items : List α) : Option Config :=
  if items.length ≤ Field.all.length then ofFields? r (Field.all.zip items) else none

end BraceTemplate.Config
