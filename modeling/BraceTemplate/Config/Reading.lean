import BraceTemplate.Config.Fields
import BraceTemplate.Error
import BraceTemplate.Yaml.Values

/-! Reading settings and variables from text, which is JSON or else YAML. -/
namespace BraceTemplate

namespace Config

/-- Settings in JSON. -/
def jsonSettings : SettingReader Value where
  natural?
    | .int n => if 0 ≤ n then some n.toNat else none
    | _ => none
  boolean?
    | .bool b => some b
    | _ => none
  directory?
    | .null => some none
    | .str s => some (some s)
    | _ => none

def ofJson? (text : String) : Option Config := do
  match ← Value.Json.members? text with
  | .listed items => ofListed? jsonSettings items
  | .named fields => ofNamed? jsonSettings fields

/-- The text of a plain scalar, or of a literal one with the tag of a core type. -/
def settingText? (type : String) : Yaml.Node → Option String
  | .scalar .plain _ text => some text
  | .scalar .literal tag text => if tag = some (Yaml.coreTag type) then some text else none
  | _ => none

/-- A directory is any text; null and nothing at all, both plain, stand for none. -/
def settingDirectory? : Yaml.Node → Option (Option String)
  | .scalar .plain none text => some (if text = "" ∨ Yaml.isNull text then none else some text)
  | .scalar .plain (some tag) text =>
    if tag ≠ Yaml.coreTag "null" then some (some text)
    else if Yaml.isNull text then some none else none
  | .scalar _ _ text => some (some text)
  | _ => none

/-- Settings in YAML; aliases stand for their nodes. -/
def yamlSettings (d : Yaml.Document) : SettingReader Yaml.Node where
  natural? n := do
    let digits ← settingText? "int" (← d.resolve? n)
    (Yaml.unsigned? digits.toList).filter (· ≤ Decimal.maxNat64)
  boolean? n := do Yaml.boolean? (← settingText? "bool" (← d.resolve? n))
  directory? n := do settingDirectory? (← d.resolve? n)

def fieldName? (d : Yaml.Document) (n : Yaml.Node) : Option String := do
  match ← d.resolve? n with
  | .scalar _ _ text => return text
  | _ => none

def ofYaml? (text : String) : Option Config := do
  match ← Yaml.Contents.read? text with
  | .nothing => return standard
  | .document d =>
    match ← d.resolve? d.root with
    | .mapping _ entries =>
      ofNamed? (yamlSettings d) (← entries.mapM fun e => do return (← fieldName? d e.1, e.2))
    | .sequence _ items => ofListed? (yamlSettings d) items
    | .scalar .plain _ text => if text = "" then return standard else none
    | _ => none

/-- Blank text leaves all settings at their standard values. -/
def read (text : String) : Except Error Config :=
  if text.toList.all Text.isBlank then .ok standard
  else match (ofJson? text).or (ofYaml? text) with
    | some c => .ok c
    | none => .error (.config .invalidConfiguration)

end Config

/-- Variables are a mapping; blank text and null stand for an empty one. -/
def readVariables (text : String) : Except Error (List (String × Value)) :=
  if text.toList.all Text.isBlank then .ok []
  else match (Value.Json.read? text).or (Yaml.readValue? text) with
    | some (.dict fields) => .ok fields
    | some .null => .ok []
    | some v => .error (.config (.notAMapping v.text))
    | none => .error (.config .invalidVariables)

end BraceTemplate
