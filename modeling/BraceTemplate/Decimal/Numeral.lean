/-! Whole numbers in decimal digits, and the ranges of 64-bit integers. -/
namespace BraceTemplate.Decimal

/-- The number that a non-empty text of ASCII digits stands for. -/
def natural? (cs : List Char) : Option Nat :=
  if cs ≠ [] ∧ cs.all Char.isDigit then some (Nat.ofDigitChars 10 cs 0) else none

@[simp] theorem natural?_toDigits (n : Nat) : natural? (Nat.toDigits 10 n) = some n := by
  have hd : (Nat.toDigits 10 n).all Char.isDigit = true :=
    List.all_eq_true.2 fun c hc => Nat.isDigit_of_mem_toDigits (by omega) (by omega) hc
  simp [natural?, hd, Nat.toDigits_ne_nil]

/-- Digits behind at most one sign. -/
def integer? : List Char → Option Int
  | '-' :: cs => (natural? cs).map fun n => -(n : Int)
  | '+' :: cs => (natural? cs).map fun n => (n : Int)
  | cs => (natural? cs).map fun n => (n : Int)

def minInt64 : Int := -9223372036854775808
def maxInt64 : Int := 9223372036854775807
def maxNat64 : Nat := 18446744073709551615

/-- Whether an integer is a signed 64-bit one. -/
def fits (n : Int) : Bool := decide (minInt64 ≤ n) && decide (n ≤ maxInt64)

@[simp] theorem fits_iff {n : Int} : fits n = true ↔ minInt64 ≤ n ∧ n ≤ maxInt64 := by
  simp [fits]

def int64? (cs : List Char) : Option Int := (integer? cs).filter fits

/-- An unsigned 64-bit integer; a plus sign may stand before it. -/
def nat64? (cs : List Char) : Option Nat :=
  let digits := match cs with
    | '+' :: ds => ds
    | ds => ds
  (natural? digits).filter (· ≤ maxNat64)

/-- The nearest signed 64-bit integer. -/
def clamp (n : Int) : Int := max minInt64 (min maxInt64 n)

end BraceTemplate.Decimal
