import Crossref.Json.Double
import Crossref.Json.Fault

/-!
# Numbers out of place

A table holds no numbers, but a number that is met is read to its end: if it is malformed, or larger
than any double, that is the fault; otherwise its type is. Its value is taken from the digits that
fit in 64 bits; the digits behind them only count their places.
-/

namespace Crossref.Json

/-- The number that a decimal digit writes. -/
def digitValue (c : Char) : Nat := c.toNat - 48

/-- The number that a run of decimal digits writes. -/
def decimal (digits : List Char) : Nat :=
  digits.foldl (fun n c => n * 10 + digitValue c) 0

/-- Appends digits to a number as long as it fits in 64 bits. The digits from the first that does
not fit are left. -/
def appendDigits (n : Nat) : List Char → Nat × List Char
  | [] => (n, [])
  | c :: r =>
    if n * 10 + digitValue c < UInt64.size then appendDigits (n * 10 + digitValue c) r
    else (n, c :: r)

/-- A significand and the power of ten it is to be multiplied by. -/
structure Scaled where
  significand : Nat
  exponent : Int
deriving Repr, DecidableEq

namespace Scaled

/-- The whole part of a number. A digit that does not fit multiplies by ten. -/
def ofWhole (digits : List Char) : Scaled :=
  let (n, left) := appendDigits 0 digits
  ⟨n, left.length⟩

/-- A number with the digits behind its point. A digit that does not fit is dropped. -/
def appendFraction (x : Scaled) (digits : List Char) : Scaled :=
  let (n, left) := appendDigits x.significand digits
  ⟨n, x.exponent - (digits.length - left.length : Nat)⟩

/-- Rounding the significand, the power of ten and their product to doubles ends in infinity. -/
def isTooLarge (x : Scaled) : Bool :=
  if x.significand = 0 ∨ x.exponent < 0 then false
  else if 308 < x.exponent then true
  else
    decide (doubleLimit ≤
      nearestDouble x.significand * nearestDouble (Nat.pow 10 x.exponent.toNat))

/-- The fault of a number that is written well. -/
def fault (x : Scaled) : Fault := if x.isTooLarge then .malformed else .wrongType

end Scaled

/-- The fault of a number, from its exponent on. -/
def exponentFault (x : Scaled) : List Char → Fault
  | c :: r =>
    if c = 'e' ∨ c = 'E' then
      let (sign, r) : Int × List Char :=
        match r with
        | '-' :: r => (-1, r)
        | '+' :: r => (1, r)
        | r => (1, r)
      match r.takeWhile Char.isDigit with
      | [] => if r.isEmpty then .truncated else .malformed
      | ds => Scaled.fault { x with exponent := x.exponent + sign * decimal ds }
    else x.fault
  | [] => x.fault

/-- The fault of a number, from its point on. -/
def fractionFault (x : Scaled) : List Char → Fault
  | '.' :: r =>
    match r.takeWhile Char.isDigit with
    | [] => if r.isEmpty then .truncated else .malformed
    | ds => exponentFault (x.appendFraction ds) (r.dropWhile Char.isDigit)
  | r => exponentFault x r

/-- The fault of a number whose sign is gone. No number has a leading zero. -/
def digitsFault : List Char → Fault
  | [] => .truncated
  | '0' :: r => if r.head?.any Char.isDigit then .malformed else fractionFault ⟨0, 0⟩ r
  | r =>
    match r.takeWhile Char.isDigit with
    | [] => .malformed
    | ds => fractionFault (.ofWhole ds) (r.dropWhile Char.isDigit)

end Crossref.Json
