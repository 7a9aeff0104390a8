import Crossref.Text.Hex
import Crossref.Toml.Text
import Crossref.Toml.Value

/-!
# TOML scalars

A scalar that is no string is all that stands up to a mark of the format; a space that parts a date
and a time belongs to it too. Its first characters tell of which kind it is. Dates, times and
numbers with a fraction must then be written well; of an integer only the places of low lines and a
leading zero are looked at, and whether its characters are digits shows when its number is asked
for.
-/

namespace Crossref.Toml

open Text (hexValue?)

/-! ## Digits -/

def isBinary (c : Char) : Bool := c == '0' || c == '1'

def isOctal (c : Char) : Bool := decide ('0' ≤ c ∧ c ≤ '7')

def isHex (c : Char) : Bool := (hexValue? c).isSome

/-- Every low line stands between two digits. -/
def partsDigits (isDigit : Char → Bool) (s : List Char) : Bool :=
  let pieces := s.splitOn '_'
  pieces.tail.all (fun piece => piece.head?.any isDigit)
    && pieces.dropLast.all fun piece => piece.getLast?.any isDigit

/-- Digits and low lines, and not low lines alone. -/
def isRun (s : List Char) : Bool :=
  s.all (fun c => c.isDigit || c == '_') && s.any Char.isDigit

/-- A zero stands before other characters. -/
def hasLeadingZero (s : List Char) : Bool := s.head? == some '0' && s != ['0']

/-- The number that digits of a base write. -/
def digitsValue (base : Nat) (s : List Char) : Nat :=
  s.foldl (fun n c => n * base + (hexValue? c).getD 0) 0

/-- The number that characters write, if they are digits of a base; low lines do not count. -/
def natural? (base : Nat) (isDigit : Char → Bool) (s : List Char) : Option Nat :=
  let digits := s.filter (· != '_')
  if digits ≠ [] ∧ digits.all isDigit then some (digitsValue base digits) else none

/-! ## Numbers -/

/-- A number without its sign. -/
def unsigned : List Char → List Char
  | '+' :: r => r
  | '-' :: r => r
  | r => r

/-- The decimal integer that characters write, if all behind the sign are digits. -/
def decimal? (s : List Char) : Option Int :=
  (natural? 10 Char.isDigit (unsigned s)).map fun n => if s.head? = some '-' then -(n : Int) else n

/-- The integer that characters behind the mark of a base write. There may be no digit, but nothing
else may stand there. -/
def based? (base : Nat) (isDigit : Char → Bool) (s : List Char) : Option Value :=
  if s.all (fun c => isDigit c || c == '_') && partsDigits isHex s then
    some (.integer ((natural? base isDigit s).map Int.ofNat))
  else none

def isExponentMark (c : Char) : Bool := c == 'e' || c == 'E'

/-- A whole number with a fraction, an exponent, or both. -/
def isFloat (s : List Char) : Bool :=
  let u := unsigned s
  let mantissa := u.takeWhile fun c => !isExponentMark c
  let exponent := u.dropWhile fun c => !isExponentMark c
  let whole := mantissa.takeWhile (· != '.')
  let fraction := mantissa.dropWhile (· != '.')
  isRun whole && !hasLeadingZero whole
    && (fraction.isEmpty || isRun fraction.tail)
    && (exponent.isEmpty || isRun (unsigned exponent.tail))
    && partsDigits Char.isDigit s

/-! ## Dates and times -/

/-- Reads exactly so many decimal digits. -/
def readDecimal (count : Nat) (s : List Char) : Option (Nat × List Char) :=
  let digits := s.take count
  if digits.length = count ∧ digits.all Char.isDigit then
    some (digitsValue 10 digits, s.drop count)
  else none

def isLeapYear (year : Nat) : Bool := year % 4 == 0 && (year % 100 != 0 || year % 400 == 0)

def daysInMonth (year month : Nat) : Nat :=
  if month = 2 then if isLeapYear year then 29 else 28
  else if month = 4 ∨ month = 6 ∨ month = 9 ∨ month = 11 then 30
  else 31

/-- Reads the mark `m`. -/
def readMark (m : Char) : List Char → Option (List Char)
  | [] => none
  | c :: r => if c = m then some r else none

/-- What is left behind a date of the calendar. -/
def afterDate? (s : List Char) : Option (List Char) := do
  let (year, s) ← readDecimal 4 s
  let (month, s) ← readDecimal 2 (← readMark '-' s)
  let (day, s) ← readDecimal 2 (← readMark '-' s)
  if 1 ≤ month ∧ month ≤ 12 ∧ 1 ≤ day ∧ day ≤ daysInMonth year month then some s else none

/-- What is left behind the fraction of a second, if there is one. -/
def afterFraction? : List Char → Option (List Char)
  | '.' :: r => if r.head?.any Char.isDigit then some (r.dropWhile Char.isDigit) else none
  | s => some s

/-- What is left behind a time of day. The seconds may be missing, or 60 for a leap second. -/
def afterTime? (s : List Char) : Option (List Char) := do
  let (hour, s) ← readDecimal 2 s
  let (minute, s) ← readDecimal 2 (← readMark ':' s)
  if 23 < hour ∨ 59 < minute then none
  else
    match s with
    | ':' :: r =>
      let (second, s) ← readDecimal 2 r
      if 60 < second then none else afterFraction? s
    | s => some s

/-- An offset from universal time. -/
def isOffset (s : List Char) : Bool :=
  match s with
  | ['Z'] => true
  | ['z'] => true
  | c :: r =>
    (c == '+' || c == '-') && ((do
      let (hour, r) ← readDecimal 2 r
      let (minute, r) ← readDecimal 2 (← readMark ':' r)
      if hour ≤ 23 ∧ minute ≤ 59 ∧ r = [] then some () else none) : Option Unit).isSome
  | [] => false

/-- A date, a time of day, or both with an offset or without. -/
def isDateTime (s : List Char) : Bool :=
  match afterDate? s with
  | some [] => true
  | some (c :: r) =>
    (c == 'T' || c == 't' || c == ' ')
      && (afterTime? r).any fun rest => rest.isEmpty || isOffset rest
  | none => afterTime? s == some []

/-! ## All of them -/

/-- The value of a scalar that is no word and has no mark of a base. What stands behind its leading
digits tells its kind. -/
def digitScalar? (s : List Char) : Option Value :=
  let u := unsigned s
  let rest := u.dropWhile Char.isDigit
  if rest.head? = some '-' ∨ rest.head? = some ':' then
    if isDateTime s then some (.dateTime (String.ofList s)) else none
  else if rest.contains ' ' then none
  else if rest.any fun c => c == '.' || isExponentMark c then
    if isFloat s then some (.float (String.ofList s)) else none
  else if u = [] ∨ (rest ≠ [] ∧ rest.head? ≠ some '_') then none
  else if hasLeadingZero u || !partsDigits isHex s then none
  else some (.integer (decimal? s))

/-- The value that the characters of a scalar write. -/
def scalar? (s : List Char) : Option Value :=
  if s = ['t', 'r', 'u', 'e'] then some (.boolean true)
  else if s = ['f', 'a', 'l', 's', 'e'] then some (.boolean false)
  else if unsigned s = ['i', 'n', 'f'] ∨ unsigned s = ['n', 'a', 'n'] then
    some (.float (String.ofList s))
  else
    match s with
    | '0' :: 'x' :: r => based? 16 isHex r
    | '0' :: 'o' :: r => based? 8 isOctal r
    | '0' :: 'b' :: r => based? 2 isBinary r
    | s => digitScalar? s

/-- A character that ends a scalar which is no string. -/
def endsScalar (c : Char) : Bool :=
  isSpace c || ['=', ',', '[', ']', '\x7b', '\x7d', '#', '\r', '\n'].contains c

/-- A character that a word of a scalar may begin with. -/
def opensWord (c : Char) : Bool := !(endsScalar c || c == '.' || c == '"' || c == '\'')

/-- Parts a scalar from the rest. Spaces belong to it where another word follows them. -/
def cutScalar : List Char → List Char × List Char
  | [] => ([], [])
  | c :: r =>
    if endsScalar c && !(isSpace c && (afterSpace r).head?.any opensWord) then ([], c :: r)
    else
      let (taken, rest) := cutScalar r
      (c :: taken, rest)

/-- Reads a scalar that is no string. -/
def readScalar (s : List Char) : Reading Value :=
  (scalar? (cutScalar s).1).map fun v => (v, (cutScalar s).2)

end Crossref.Toml
