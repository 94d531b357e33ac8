/-!
# The range of numbers

A number may be as long as it likes, but its size must fit a floating-point number with a
significand of 53 bits and an exponent below 1024. Its leading digits are kept as long as they fit
64 bits; the digits after them only count towards its size. The size is the product of the kept
digits and a power of ten, both rounded to 53 bits.
-/

namespace HtmlLint.Json

/-- The number `significand * 10 ^ exponent`. -/
structure Numeral where
  significand : Nat
  exponent : Int
  deriving DecidableEq, Repr

/-- The value of a decimal digit. -/
def digitValue (c : Char) : Nat :=
  c.toNat - '0'.toNat

namespace Numeral

/-- The largest significand that is kept. -/
def maxSignificand : Nat :=
  Nat.pow 2 64 - 1

/-- The numeral of the digits before the point, of which `kept` is the value so far. -/
def ofWhole (kept : Nat) : List Char → Numeral
  | [] => ⟨kept, 0⟩
  | c :: digits =>
    let more := kept * 10 + digitValue c
    if more ≤ maxSignificand then ofWhole more digits else ⟨kept, digits.length + 1⟩

/-- Adds the digits after the point. -/
def withFraction (n : Numeral) : List Char → Numeral
  | [] => n
  | c :: digits =>
    let more := n.significand * 10 + digitValue c
    if more ≤ maxSignificand then withFraction ⟨more, n.exponent - 1⟩ digits else n

/-- Multiplies by a power of ten. -/
def scale (n : Numeral) (power : Int) : Numeral :=
  ⟨n.significand, n.exponent + power⟩

/-- `n` rounded to 53 significant bits, a half going to the even neighbour. -/
def roundTo53Bits (n : Nat) : Nat :=
  let excess := n.log2 + 1 - 53
  let unit := Nat.pow 2 excess
  let low := n / unit
  let remainder := n % unit
  if unit < 2 * remainder || (2 * remainder == unit && low % 2 == 1) then (low + 1) * unit
  else low * unit

/-- The least size that is too large: halfway between the largest number and the next one. -/
def overflowBound : Nat :=
  (Nat.pow 2 54 - 1) * Nat.pow 2 970

/-- The numeral has a finite size. -/
def inRange (n : Numeral) : Bool :=
  if n.significand == 0 || n.exponent < 0 then true
  else if 308 < n.exponent then false
  else roundTo53Bits n.significand * roundTo53Bits (Nat.pow 10 n.exponent.toNat) < overflowBound

end Numeral

end HtmlLint.Json
