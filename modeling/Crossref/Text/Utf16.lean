/-!
# Code units and characters

A literal may write a character beyond U+FFFF as two UTF-16 code units, one escape each. What its
elements denote is therefore a list of pieces, and the text is read off the whole list: a high
surrogate followed at once by a low one is one character, and a surrogate that stands alone is
replaced by U+FFFD.
-/

namespace Crossref.Text

/-- The character with the code point `n`, or U+FFFD if no character has it. -/
def scalar (n : Nat) : Char := if n.isValidChar then Char.ofNat n else '\uFFFD'

def isHighSurrogate (u : Nat) : Bool := decide (0xD800 ≤ u ∧ u ≤ 0xDBFF)

def isLowSurrogate (u : Nat) : Bool := decide (0xDC00 ≤ u ∧ u ≤ 0xDFFF)

/-- The code point of a surrogate pair. -/
def pairCode (high low : Nat) : Nat := 0x10000 + (high - 0xD800) * 0x400 + (low - 0xDC00)

/-- A pair never leaves the range of code points. -/
theorem pairCode_le {high low : Nat} (hh : isHighSurrogate high = true)
    (hl : isLowSurrogate low = true) : pairCode high low ≤ 0x10FFFF := by
  simp only [isHighSurrogate, isLowSurrogate, decide_eq_true_eq] at hh hl
  unfold pairCode
  omega

/-- What one element of a literal denotes: a character, a code unit, or nothing. -/
inductive Piece where
  | char (c : Char)
  | unit (u : Nat)
  | gap
deriving Repr, DecidableEq

/-- The text that a list of pieces denotes. A gap contributes nothing, yet parts the units around
it. -/
def textOf : List Piece → List Char
  | [] => []
  | .char c :: ps => c :: textOf ps
  | .gap :: ps => textOf ps
  | .unit u :: .unit v :: ps =>
    if isHighSurrogate u && isLowSurrogate v then scalar (pairCode u v) :: textOf ps
    else scalar u :: textOf (.unit v :: ps)
  | .unit u :: ps => scalar u :: textOf ps

end Crossref.Text
