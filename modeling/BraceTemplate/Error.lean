import BraceTemplate.Files.Basic

/-!
Everything that can go wrong, as causes. Errors of compilation may carry the position of the node at
fault; the first position that is attached stays. A crash is no error that a caller is told of: the
program gives up where it stands.
-/
namespace BraceTemplate

/-- Line and column in source text, both counted from one. -/
structure Position where
  line : Nat
  column : Nat
  deriving DecidableEq, Repr

namespace Position

def start : Position := ⟨1, 1⟩

/-- The position behind a character. -/
def after (p : Position) (c : Char) : Position :=
  if c = '\n' then ⟨p.line + 1, 1⟩ else ⟨p.line, p.column + 1⟩

end Position

/-- `name` in braces. -/
def braced (name : String) : String := "\x7b" ++ name ++ "\x7d"

def quoted (s : String) : String := "\"" ++ s ++ "\""

/-- What is wrong with an expression. -/
inductive ExprFault where
  | unclosedVariable
  | unterminatedString
  | unexpectedCharacter (c : Char)
  | singleEquals
  | tooDeep
  | unexpectedWord (word : String)
  | missingParenthesis
  | missingBracket
  | unexpectedToken
  | unexpectedEnd
  | empty
  | trailingInput
  deriving DecidableEq, Repr

inductive SyntaxFault where
  | unterminatedComment
  | lineBreakInNode (content : String)
  | unterminatedNode (content : String)
  | filtersOnTarget (target : String)
  | variableTooDeep (source : String)
  | invalidVariable (source : String)
  | emptySegment (source : String)
  | invalidNumber (text : String)
  | inExpression (fault : ExprFault) (source : String)
  | invalidNode (node : String)
  | notNestable (node : String)
  | closingNested (name : String)
  | openNested (name : String)
  | missingCondition (name : String)
  | malformedArguments (name args : String)
  | invalidParameter (param args : String)
  | boundOutOfRange (text : String)
  | nonPositiveStep (args : String)
  | unclosedIncludeVariable (args : String)
  | branchOutsideIf (name : String)
  | branchAfterElse (name : String)
  | secondEmptySection
  | emptyOutsideFor
  | nestedBlockDefinition
  | blockDefinedTwice (name : String)
  | other (message : String)
  deriving DecidableEq, Repr

inductive BalanceFault where
  | closesOther (name opened : String)
  | closesNothing (name : String)
  | unclosedTags (names : List String)
  | mismatchedSection (name expected : String)
  | unclosedSections (names : List String)
  | other (message : String)
  deriving DecidableEq, Repr

/-- Why rendering stopped. Values appear as their text. -/
inductive RenderFault where
  | unknownFilter (name : String)
  | notANumber (value : String)
  | absOfNonNumber (value : String)
  | divisionByZero
  | moduloByZero
  | notAnIndex (key : String)
  | indexOutOfBounds (index length : Nat)
  | scalarInTheWay (key value : String)
  | boundNotANumber (value : String)
  | nonPositiveStep (step : Int)
  | undefinedBlock (name : String)
  | blockTooDeep (limit : Nat) (name : String)
  | includeTooDeep (limit : Nat) (path : String)
  | noLoader (path : String)
  | other (message : String)
  deriving DecidableEq, Repr

inductive IoFault where
  | unreadable (path : String) (failure : Files.Failure)
  | system (failure : Files.Failure)
  | unknownSource (name : String)
  | other (message : String)
  deriving DecidableEq, Repr

inductive ConfigFault where
  | invalidVariables
  | invalidConfiguration
  | notAMapping (value : String)
  | other (message : String)
  deriving DecidableEq, Repr

inductive Error where
  | syntaxError (fault : SyntaxFault) (position : Option Position)
  | unbalanced (fault : BalanceFault) (position : Option Position)
  | unknownNode (node : String) (position : Option Position)
  | execution (fault : RenderFault)
  | io (fault : IoFault)
  | config (fault : ConfigFault)
  | crashed
  deriving DecidableEq, Repr

def ExprFault.message : ExprFault → String
  | .unclosedVariable => "unclosed variable"
  | .unterminatedString => "unterminated string"
  | .unexpectedCharacter c => "unexpected character '" ++ c.toString ++ "'"
  | .singleEquals => "single '='"
  | .tooDeep => "expression nested too deeply"
  | .unexpectedWord word => "unexpected word " ++ quoted word
  | .missingParenthesis => "missing ')'"
  | .missingBracket => "missing ']'"
  | .unexpectedToken => "unexpected token"
  | .unexpectedEnd => "unexpected end"
  | .empty => "empty expression"
  | .trailingInput => "unexpected trailing input"

/-- The one fault that comes with advice. -/
def ExprFault.advice : ExprFault → String
  | .singleEquals => ", use '==' to compare"
  | _ => ""

def SyntaxFault.message : SyntaxFault → String
  | .unterminatedComment => "unterminated comment"
  | .lineBreakInNode content => "found illegal line break in a node (" ++ content ++ ")"
  | .unterminatedNode content => "unterminated node \x7b" ++ content
  | .filtersOnTarget target => "filters are not allowed on assignment target " ++ quoted target
  | .variableTooDeep source => "variable " ++ quoted source ++ " nested too deeply"
  | .invalidVariable source => "invalid variable " ++ quoted source
  | .emptySegment source => "empty segment in variable " ++ quoted source
  | .invalidNumber text => "invalid number " ++ quoted text
  | .inExpression fault source =>
    fault.message ++ " in expression " ++ quoted source ++ fault.advice
  | .invalidNode node => "invalid node " ++ quoted (braced node)
  | .notNestable node => "node " ++ braced node ++ " cannot be nested in another node"
  | .closingNested name => "closing node " ++ braced ("/" ++ name) ++ " cannot be nested"
  | .openNested name => "node " ++ braced name ++ " cannot be nested"
  | .missingCondition name => braced name ++ " requires a condition"
  | .malformedArguments name args => "wrong syntax for node " ++ braced (name ++ " " ++ args)
  | .invalidParameter param args =>
    "invalid block parameter " ++ quoted param ++ " in " ++ braced ("define_block " ++ args)
  | .boundOutOfRange text => "range bound " ++ quoted text ++ " is out of range"
  | .nonPositiveStep args => braced ("range " ++ args) ++ " needs a positive step"
  | .unclosedIncludeVariable args => "unclosed variable in " ++ braced ("include " ++ args)
  | .branchOutsideIf name => braced name ++ " found outside of " ++ braced "if"
  | .branchAfterElse name => braced name ++ " found after " ++ braced "else"
  | .secondEmptySection =>
    "a " ++ braced "for" ++ " loop has more than one " ++ braced "empty" ++ " section"
  | .emptyOutsideFor => "inline " ++ braced "empty" ++ " found outside of " ++ braced "for"
  | .nestedBlockDefinition => braced "define_block" ++ " cannot be nested"
  | .blockDefinedTwice name => "block " ++ quoted name ++ " is defined twice"
  | .other message => message

def BalanceFault.message : BalanceFault → String
  | .closesOther name opened =>
    "mismatched node " ++ braced ("/" ++ name) ++ ", expected " ++ braced ("/" ++ opened)
  | .closesNothing name => "mismatched node " ++ braced ("/" ++ name) ++ " opening tag"
  | .unclosedTags names => "some tags were not properly closed (" ++ ", ".intercalate names ++ ")"
  | .mismatchedSection name expected =>
    "mismatched " ++ braced name ++ " node, expected closing of " ++ braced expected
  | .unclosedSections names =>
    "some nodes were not properly closed (" ++ ", ".intercalate names ++ ")"
  | .other message => message

def RenderFault.message : RenderFault → String
  | .unknownFilter name => "unknown filter " ++ quoted name
  | .notANumber value => "cannot use " ++ value ++ " as a number"
  | .absOfNonNumber value => "abs filter expects a number, got " ++ value
  | .divisionByZero => "division by zero"
  | .moduloByZero => "modulo by zero"
  | .notAnIndex key => quoted key ++ " is not a sequence index"
  | .indexOutOfBounds index length =>
    s!"index {index} is out of bounds for a sequence of {length} items"
  | .scalarInTheWay key value => "cannot set key " ++ quoted key ++ " on scalar " ++ value
  | .boundNotANumber value => "range bound " ++ value ++ " is not a number"
  | .nonPositiveStep step => s!"range step must be positive, got {step}"
  | .undefinedBlock name => "block " ++ quoted name ++ " is not defined"
  | .blockTooDeep limit name =>
    s!"maximum nesting depth of {limit} exceeded by block " ++ quoted name
  | .includeTooDeep limit path =>
    s!"maximum nesting depth of {limit} exceeded by include " ++ quoted path
  | .noLoader path => "cannot include " ++ quoted path ++ " without a loader"
  | .other message => message

def IoFault.message : IoFault → String
  | .unreadable path failure => path ++ ": " ++ failure.message
  | .system failure => failure.message
  | .unknownSource name => name ++ ": no such template"
  | .other message => message

def ConfigFault.message : ConfigFault → String
  | .invalidVariables => "Invalid variables format"
  | .invalidConfiguration => "Invalid configuration format"
  | .notAMapping value => "Variables must be a mapping, got " ++ value ++ "."
  | .other message => message ++ "."

/-- The position in words, as it ends a message. -/
def Position.suffix : Option Position → String
  | some p => s!" (at line {p.line}, column {p.column})"
  | none => ""

namespace Error

def message : Error → String
  | .syntaxError fault position => "Syntax error: " ++ fault.message ++ Position.suffix position
  | .unbalanced fault position =>
    "Unbalanced node error: " ++ fault.message ++ Position.suffix position
  | .unknownNode node position =>
    "Unknown node error: no handler found for node " ++ braced node ++ Position.suffix position
  | .execution fault => "Execution error: " ++ fault.message ++ "."
  | .io fault => "IO error: " ++ fault.message ++ "."
  | .config fault => "Configuration error: " ++ fault.message
  | .crashed => "capacity overflow"

def position : Error → Option Position
  | .syntaxError _ p | .unbalanced _ p | .unknownNode _ p => p
  | .execution _ | .io _ | .config _ | .crashed => none

/-- Attaches a position to an error of compilation that has none. -/
def locate (p : Position) : Error → Error
  | .syntaxError fault none => .syntaxError fault (some p)
  | .unbalanced fault none => .unbalanced fault (some p)
  | .unknownNode node none => .unknownNode node (some p)
  | e => e

/-- Attaching a second position changes nothing. -/
theorem locate_locate (p q : Position) (e : Error) : (e.locate p).locate q = e.locate p := by
  rcases e with ⟨_, _ | _⟩ | ⟨_, _ | _⟩ | ⟨_, _ | _⟩ | _ | _ | _ | _ <;> rfl

end Error
end BraceTemplate
