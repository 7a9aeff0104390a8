import Crossref.Text.Hex
import Crossref.Text.Utf16
import Crossref.Script.Fault

/-!
# String literals

A literal stands in single or double quotes and on one line, but a backslash at the end of a line
continues it. Each element denotes a piece of text (`Text.Piece`): a character, a UTF-16 code unit
(`\uHHHH`), or nothing (a continuation). A backslash before any other character denotes that
character.
-/

namespace Crossref.Script

open Text (Piece scalar textOf readHex hexNumber? suffix_of_readHex)

/-- The code point that the digits of `\u{...}` write: 32 bits at most, with at most one `+`. -/
def codePoint? (digits : List Char) : Option Nat :=
  (hexNumber? (match digits with
    | '+' :: r => r
    | r => r)).filter (· < UInt32.size)

/-- Reads exactly `count` digits; a failure lies at the first of them. -/
def readDigits (count : Nat) (s : List Char) : Reading Nat :=
  match readHex count 0 s with
  | .ok (n, r) => .ok (n, r)
  | .error t => .error ⟨.missingHexDigits count t.head?, s⟩

/-- Reads what follows `\u`: four digits, or any number of them in braces. -/
def readUnicode : List Char → Reading Piece
  | '{' :: s =>
    match s.dropWhile (· != '}') with
    | [] => .error ⟨.unterminatedCodePoint, s⟩
    | _ :: r =>
      let digits := s.takeWhile (· != '}')
      match codePoint? digits with
      | some n => .ok (.char (scalar n), r)
      | none => .error ⟨.invalidCodePoint digits, s⟩
  | s =>
    match readDigits 4 s with
    | .ok (n, r) => .ok (.unit n, r)
    | .error f => .error f

/-- The characters that a backslash and a letter write, those with digits apart. -/
def shortEscape? : Char → Option Char
  | 'n' => some '\n'
  | 't' => some '\t'
  | 'r' => some '\r'
  | 'b' => some '\x08'
  | 'f' => some '\x0c'
  | 'v' => some '\x0b'
  | '0' => some '\x00'
  | _ => none

/-- Reads what follows a backslash, whose first character is `c`. -/
def readEscape (c : Char) (r : List Char) : Reading Piece :=
  if c = 'x' then
    match readDigits 2 r with
    | .ok (n, r') => .ok (.char (scalar n), r')
    | .error f => .error f
  else if c = 'u' then readUnicode r
  else if c = '\n' ∨ c = '\u2028' ∨ c = '\u2029' then .ok (.gap, r)
  else if c = '\r' then
    match r with
    | '\n' :: r' => .ok (.gap, r')
    | _ => .ok (.gap, r)
  else .ok (.char ((shortEscape? c).getD c), r)

theorem suffix_of_readDigits {count n : Nat} {s r : List Char}
    (h : readDigits count s = .ok (n, r)) : r <:+ s := by
  unfold readDigits at h
  split at h
  · rename_i hr
    cases h
    exact suffix_of_readHex hr
  · cases h

theorem suffix_of_readUnicode {p : Piece} {s r : List Char}
    (h : readUnicode s = .ok (p, r)) : r <:+ s := by
  unfold readUnicode at h
  split at h
  · rename_i s
    split at h
    · cases h
    · rename_i d r' hd
      dsimp only at h
      split at h
      · cases h
        exact ((List.suffix_cons d r).trans (hd ▸ List.dropWhile_suffix _)).trans
          (List.suffix_cons _ _)
      · cases h
  · split at h
    · rename_i hr
      cases h
      exact suffix_of_readDigits hr
    · cases h

theorem suffix_of_readEscape {c : Char} {p : Piece} {s r : List Char}
    (h : readEscape c s = .ok (p, r)) : r <:+ s := by
  unfold readEscape at h
  split at h
  · split at h
    · rename_i hr
      cases h
      exact suffix_of_readDigits hr
    · cases h
  · split at h
    · exact suffix_of_readUnicode h
    · split at h
      · cases h
        exact List.suffix_refl _
      · split at h
        · split at h
          · cases h
            exact List.suffix_cons _ _
          · cases h
            exact List.suffix_refl _
        · cases h
          exact List.suffix_refl _

/-- Reads the elements up to the closing quote. A literal that has none fails at its opening, which
is `opening`. -/
def readPieces (quote : Char) (opening : List Char) (s : List Char) : Reading (List Piece) :=
  match s with
  | [] => .error ⟨.unterminatedLiteral, opening⟩
  | '\\' :: [] => .error ⟨.unterminatedLiteral, opening⟩
  | '\\' :: c :: r =>
    match _hr : readEscape c r with
    | .error f => .error f
    | .ok (p, r') =>
      match readPieces quote opening r' with
      | .error f => .error f
      | .ok (ps, rest) => .ok (p :: ps, rest)
  | c :: r =>
    if c = '\n' then .error ⟨.unterminatedLiteral, opening⟩
    else if c = quote then .ok ([], r)
    else
      match readPieces quote opening r with
      | .error f => .error f
      | .ok (ps, rest) => .ok (.char c :: ps, rest)
termination_by s.length
decreasing_by
  · have := (suffix_of_readEscape _hr).length_le
    simp only [List.length_cons]
    omega
  · simp

/-- Reads a literal and gives its text. -/
def readLiteral (s : List Char) : Reading String :=
  match s with
  | c :: r =>
    if c = '"' ∨ c = '\'' then
      match readPieces c s r with
      | .ok (ps, rest) => .ok (String.ofList (textOf ps), rest)
      | .error f => .error f
    else .error ⟨.missingLiteral (some c), s⟩
  | [] => .error ⟨.missingLiteral none, []⟩

theorem suffix_of_readPieces {quote : Char} {opening : List Char} {ps : List Piece}
    {s r : List Char} (h : readPieces quote opening s = .ok (ps, r)) : r <:+ s := by
  fun_induction readPieces quote opening s generalizing ps r with
  | case1 => cases h
  | case2 => cases h
  | case3 => cases h
  | case4 => cases h
  | case5 c r' p s' he ps' rest hr ih =>
    cases h
    exact (((ih hr).trans (suffix_of_readEscape he)).trans (List.suffix_cons _ _)).trans
      (List.suffix_cons _ _)
  | case6 => cases h
  | case7 =>
    cases h
    exact List.suffix_cons _ _
  | case8 => cases h
  | case9 c r' _ _ _ _ ps' rest hr ih =>
    cases h
    exact (ih hr).trans (List.suffix_cons _ _)

/-- A literal takes its opening quote at least. -/
theorem suffix_of_readLiteral {t : String} {s r : List Char}
    (h : readLiteral s = .ok (t, r)) : r <:+ s ∧ r.length < s.length := by
  unfold readLiteral at h
  split at h
  · rename_i c u
    split at h
    · split at h
      · rename_i hr
        cases h
        have hs := suffix_of_readPieces hr
        exact ⟨hs.trans (List.suffix_cons c u), Nat.lt_succ_of_le hs.length_le⟩
      · cases h
    · cases h
  · cases h

end Crossref.Script
