import BraceTemplate.Error

/-! Warnings: what is worth telling though nothing failed. -/
namespace BraceTemplate

inductive Warning where
  | unknownFilter (name : String)
  | emptyInclude
  | builtinKept (name : String)
  deriving DecidableEq, Repr

def Warning.message : Warning → String
  | .unknownFilter name => "unknown filter " ++ quoted name ++ " ignored"
  | .emptyInclude => braced "include" ++ " resolved to an empty path, skipped"
  | .builtinKept name => "built-in node " ++ braced name ++ " cannot be unregistered"

/-- A computation that logs warnings, in order, also up to a failure. -/
abbrev Logged := ExceptT Error (StateM (List Warning))

def warn (w : Warning) : Logged Unit := modify fun log => log ++ [w]

end BraceTemplate
