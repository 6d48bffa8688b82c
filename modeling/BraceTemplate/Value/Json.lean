import BraceTemplate.Value.Number

/-!
Reading values from JSON text. Integers beyond 64 bits and numbers with a fraction or an exponent
are floats; a repeated key keeps its first place and takes its last value.
-/
namespace BraceTemplate.Value.Json

/-- The four blanks of JSON. -/
def isSpace (c : Char) : Bool := c == ' ' || c == '\n' || c == '\t' || c == '\r'

def skipSpace (cs : List Char) : List Char := cs.dropWhile isSpace

def hexDigit? (c : Char) : Option Nat :=
  if c.isDigit then some (c.toNat - '0'.toNat)
  else if 'a' ≤ c ∧ c ≤ 'f' then some (c.toNat - 'a'.toNat + 10)
  else if 'A' ≤ c ∧ c ≤ 'F' then some (c.toNat - 'A'.toNat + 10)
  else none

def hex4? : List Char → Option (Nat × List Char)
  | a :: b :: c :: d :: cs => do
    let a ← hexDigit? a
    let b ← hexDigit? b
    let c ← hexDigit? c
    let d ← hexDigit? d
    return (((a * 16 + b) * 16 + c) * 16 + d, cs)
  | _ => none

/-- The character of an escape whose `\u` has been read; the halves of a pair stand together. -/
def unicodeEscape? (cs : List Char) : Option (Char × List Char) := do
  let (n, cs) ← hex4? cs
  if n < 0xD800 ∨ 0xDFFF < n then return (Char.ofNat n, cs)
  else if 0xDBFF < n then none
  else match cs with
    | '\\' :: 'u' :: cs => do
      let (m, cs) ← hex4? cs
      if m < 0xDC00 ∨ 0xDFFF < m then none
      else return (Char.ofNat (0x10000 + (n - 0xD800) * 0x400 + (m - 0xDC00)), cs)
    | _ => none

def escape? : List Char → Option (Char × List Char)
  | '"' :: cs => some ('"', cs)
  | '\\' :: cs => some ('\\', cs)
  | '/' :: cs => some ('/', cs)
  | 'b' :: cs => some (Char.ofNat 8, cs)
  | 'f' :: cs => some (Char.ofNat 12, cs)
  | 'n' :: cs => some ('\n', cs)
  | 'r' :: cs => some ('\r', cs)
  | 't' :: cs => some ('\t', cs)
  | 'u' :: cs => unicodeEscape? cs
  | _ => none

/-- The characters up to the closing quote; `fuel` bounds their number. -/
def stringBody? : Nat → List Char → Option (List Char × List Char)
  | 0, _ => none
  | _ + 1, [] => none
  | fuel + 1, c :: cs =>
    if c = '"' then some ([], cs)
    else if c = '\\' then do
      let (d, cs) ← escape? cs
      let (ds, cs) ← stringBody? fuel cs
      return (d :: ds, cs)
    else if c.toNat < 0x20 then none
    else do
      let (ds, cs) ← stringBody? fuel cs
      return (c :: ds, cs)

def string? (fuel : Nat) (cs : List Char) : Option (String × List Char) :=
  (stringBody? fuel cs).map fun r => (String.ofList r.1, r.2)

/-- A whole part without leading zeros. -/
def wholePart? : List Char → Option (List Char × List Char)
  | '0' :: cs => some (['0'], cs)
  | cs =>
    match cs.takeWhile Char.isDigit with
    | [] => none
    | ds => some (ds, cs.dropWhile Char.isDigit)

def fraction? : List Char → Option (List Char × List Char)
  | '.' :: cs =>
    match cs.takeWhile Char.isDigit with
    | [] => none
    | ds => some (ds, cs.dropWhile Char.isDigit)
  | cs => some ([], cs)

/-- An exponent, if there is one. -/
def exponent? : List Char → Option (Option Int × List Char)
  | e :: cs =>
    if e = 'e' ∨ e = 'E' then
      let (negative, cs) := Decimal.sign cs
      (Decimal.natural? (cs.takeWhile Char.isDigit)).map fun n =>
        (some (if negative then -(n : Int) else n), cs.dropWhile Char.isDigit)
    else some (none, e :: cs)
  | [] => some (none, [])

/-- Too large a float is an error, not infinity. -/
def numberOf (negative : Bool) (whole fraction : List Char) (exponent : Option Int) :
    Option Value :=
  let digits := Nat.ofDigitChars 10 (whole ++ fraction) 0
  let number : Int := if negative then -(digits : Int) else digits
  if fraction = [] ∧ exponent = none ∧ Decimal.minInt64 ≤ number ∧ number ≤ Decimal.maxNat64 ∧
      ¬(negative ∧ digits = 0) then
    some (.int number)
  else
    let x := Decimal.nearestFloat digits (exponent.getD 0 - fraction.length)
    if x.isFinite then some (.float (Decimal.signed negative x)) else none

def number? (cs : List Char) : Option (Value × List Char) := do
  let (negative, cs) := match cs with
    | '-' :: ds => (true, ds)
    | ds => (false, ds)
  let (whole, cs) ← wholePart? cs
  let (fraction, cs) ← fraction? cs
  let (exponent, cs) ← exponent? cs
  return (← numberOf negative whole fraction exponent, cs)

/-- The word `word`, standing for a value. -/
def keyword? (word : String) (value : Value) (cs : List Char) : Option (Value × List Char) :=
  (Text.dropLead? word.toList cs).map fun rest => (value, rest)

mutual

/-- Reads one value. `depth` bounds the nesting of collections, `fuel` the length of the text. -/
def value? (depth fuel : Nat) (cs : List Char) : Option (Value × List Char) :=
  match fuel with
  | 0 => none
  | fuel + 1 =>
    match skipSpace cs with
    | '"' :: cs => (string? fuel cs).map fun r => (.str r.1, r.2)
    | '[' :: cs =>
      match depth with
      | 0 => none
      | depth + 1 =>
        match skipSpace cs with
        | ']' :: cs => some (.list [], cs)
        | cs => (items? depth fuel cs).map fun r => (.list r.1, r.2)
    | '{' :: cs =>
      match depth with
      | 0 => none
      | depth + 1 =>
        match skipSpace cs with
        | '}' :: cs => some (.dict [], cs)
        | cs => (fields? depth fuel cs).map fun r => (.dict (Dict.ofList r.1), r.2)
    | 'n' :: cs => keyword? "ull" .null cs
    | 't' :: cs => keyword? "rue" (.bool true) cs
    | 'f' :: cs => keyword? "alse" (.bool false) cs
    | cs => number? cs

/-- The items of a list up to its end. -/
def items? (depth fuel : Nat) (cs : List Char) : Option (List Value × List Char) :=
  match fuel with
  | 0 => none
  | fuel + 1 => do
    let (v, cs) ← value? depth fuel cs
    match skipSpace cs with
    | ']' :: cs => return ([v], cs)
    | ',' :: cs => do
      let (vs, cs) ← items? depth fuel cs
      return (v :: vs, cs)
    | _ => none

/-- The fields of a mapping up to its end. -/
def fields? (depth fuel : Nat) (cs : List Char) : Option (List (String × Value) × List Char) :=
  match fuel with
  | 0 => none
  | fuel + 1 =>
    match skipSpace cs with
    | '"' :: cs => do
      let (key, cs) ← string? fuel cs
      match skipSpace cs with
      | ':' :: cs => do
        let (v, cs) ← value? depth fuel cs
        match skipSpace cs with
        | '}' :: cs => return ([(key, v)], cs)
        | ',' :: cs => do
          let (fs, cs) ← fields? depth fuel cs
          return ((key, v) :: fs, cs)
        | _ => none
      | _ => none
    | _ => none

end

/-- Collections nest less than 128 deep. -/
def maxNesting : Nat := 127

/-- The value of a whole text whose collections nest at most `depth` deep. -/
def readWithin? (depth : Nat) (text : String) : Option Value :=
  let cs := text.toList
  match value? depth (2 * cs.length + 2) cs with
  | some (v, rest) => if skipSpace rest = [] then some v else none
  | none => none

def read? (text : String) : Option Value := readWithin? maxNesting text

/-- What a list or a mapping holds, repeated keys included. -/
inductive Members where
  | listed (items : List Value)
  | named (fields : List (String × Value))

/-- Reads a list or a mapping up to its end. -/
def membersOf? (fuel : Nat) (cs : List Char) : Option (Members × List Char) :=
  match skipSpace cs with
  | '[' :: cs =>
    match skipSpace cs with
    | ']' :: cs => some (.listed [], cs)
    | cs => (items? maxNesting fuel cs).map fun r => (.listed r.1, r.2)
  | '{' :: cs =>
    match skipSpace cs with
    | '}' :: cs => some (.named [], cs)
    | cs => (fields? maxNesting fuel cs).map fun r => (.named r.1, r.2)
  | _ => none

/-- The members of a whole text that is a list or a mapping. -/
def members? (text : String) : Option Members :=
  let cs := text.toList
  match membersOf? (2 * cs.length + 2) cs with
  | some (members, rest) => if skipSpace rest = [] then some members else none
  | none => none

end BraceTemplate.Value.Json
