import BraceTemplate.Text.LetterCase

/-!
Spellings of a text as one identifier. Words are told apart by characters that are neither letters
nor digits, by capitals and by digits; only ASCII letters change case.
-/
namespace BraceTemplate.Text

/-- Ways to spell a text as one identifier. -/
structure Speller where
  snake : List Char → List Char
  camel : List Char → List Char
  pascal : List Char → List Char
  kebab : List Char → List Char

namespace WordCase

/-- Drops what is neither letter nor digit at the end. -/
def trimEnd (cs : List Char) : List Char :=
  (cs.reverse.dropWhile fun c => !isAlphanumeric c).reverse

/-- Neither a lower-case ASCII letter nor anything that ASCII would change in upper case. -/
def isCapital (c : Char) : Bool := c = c.toUpper

/-- Whether the characters around a character are in lower case. The neighbours are looked up at
the character's byte offset, so they are its own only in ASCII text. -/
def besideLowercase (whole : Array Char) (byte : Nat) : Bool :=
  (whole[byte + 1]?).any isLowercase || (whole[byte - 1]?).any isLowercase

/-- Joins the words of a text in lower case. `fresh` says that a word is about to start. -/
def joinFrom (joiner : Char) (whole : Array Char) : Bool → Nat → List Char → List Char
  | _, _, [] => []
  | fresh, byte, c :: cs =>
    let next := byte + c.utf8Size
    if !isAlphanumeric c then
      if fresh then joinFrom joiner whole true next cs
      else joiner :: joinFrom joiner whole true next cs
    else if !fresh && isCapital c && besideLowercase whole byte then
      joiner :: c.toLower :: joinFrom joiner whole false next cs
    else c.toLower :: joinFrom joiner whole false next cs

def join (joiner : Char) (cs : List Char) : List Char :=
  joinFrom joiner cs.toArray true 0 (trimEnd cs)

def snake : List Char → List Char := join '_'

def kebab : List Char → List Char := join '-'

/-- What has been seen of a text whose words are run together: whether a letter or digit came yet,
whether a word is about to start, and the last character inside a word. -/
structure Seen where
  any : Bool
  fresh : Bool
  last : Char

/-- Runs words together; each starts with a capital. -/
def runTogether : Seen → List Char → List Char
  | _, [] => []
  | seen, c :: cs =>
    if !isAlphanumeric c then
      runTogether (if seen.any then { seen with fresh := true } else seen) cs
    else if isNumeric c then c :: runTogether { seen with any := true, fresh := true } cs
    else if seen.fresh || (isLowercase seen.last && isUppercase c) then
      c.toUpper :: runTogether { seen with any := true, fresh := false } cs
    else c.toLower :: runTogether { seen with any := true, last := c } cs

def camel (cs : List Char) : List Char := runTogether ⟨false, false, ' '⟩ (trimEnd cs)

def pascal (cs : List Char) : List Char := runTogether ⟨false, true, ' '⟩ (trimEnd cs)

def speller : Speller := ⟨snake, camel, pascal, kebab⟩

end WordCase
end BraceTemplate.Text
