/-! Settings of an engine. -/
namespace BraceTemplate

structure Config where
  /-- How many blocks and includes may be nested. -/
  maxDepth : Nat
  /-- Whether an unknown filter is an error. -/
  strictFilters : Bool
  /-- The directory that relative references start from. -/
  baseDir : Option String
  deriving DecidableEq, Repr

def Config.standard : Config := ⟨64, false, none⟩

end BraceTemplate
