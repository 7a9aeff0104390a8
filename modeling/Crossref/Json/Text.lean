import Crossref.Text.Hex
import Crossref.Text.Utf16
import Crossref.Json.Fault

/-!
# JSON strings

A string holds no raw control character. A surrogate that is written as an escape must be one of a
pair.
-/

namespace Crossref.Json

open Text (readHex suffix_of_readHex scalar isHighSurrogate isLowSurrogate pairCode)

/-- The character that a backslash and one more character write. -/
def shortEscape? : Char → Option Char
  | '"' => some '"'
  | '\\' => some '\\'
  | '/' => some '/'
  | 'b' => some '\x08'
  | 'f' => some '\x0c'
  | 'n' => some '\n'
  | 'r' => some '\r'
  | 't' => some '\t'
  | _ => none

/-- Reads the four digits of a code unit. A text with fewer than four bytes left is truncated. -/
def readUnit (s : List Char) : Reading Nat :=
  match readHex 4 0 s with
  | .ok u => .ok u
  | .error _ =>
    .error (if (String.ofList (s.take 4)).utf8ByteSize < 4 then .truncated else .malformed)

/-- Reads the escape of a low surrogate. -/
def readLowUnit : List Char → Reading Nat
  | [] => .error .truncated
  | ['\\'] => .error .truncated
  | '\\' :: 'u' :: r =>
    match readUnit r with
    | .error f => .error f
    | .ok (u, r') => if isLowSurrogate u then .ok (u, r') else .error .malformed
  | _ => .error .malformed

/-- Reads what follows `\u`, and the other half of a pair. -/
def readUnicode (s : List Char) : Reading Char :=
  match readUnit s with
  | .error f => .error f
  | .ok (u, r) =>
    if isLowSurrogate u then .error .malformed
    else if isHighSurrogate u then
      match readLowUnit r with
      | .error f => .error f
      | .ok (v, r') => .ok (scalar (pairCode u v), r')
    else .ok (scalar u, r)

/-- Reads what follows a backslash. -/
def readEscape : List Char → Reading Char
  | [] => .error .truncated
  | c :: r =>
    if c = 'u' then readUnicode r
    else
      match shortEscape? c with
      | some d => .ok (d, r)
      | none => .error .malformed

theorem suffix_of_readUnit {u : Nat} {s r : List Char} (h : readUnit s = .ok (u, r)) : r <:+ s := by
  unfold readUnit at h
  split at h
  · rename_i hr
    cases h
    exact suffix_of_readHex hr
  · cases h

theorem suffix_of_readLowUnit {u : Nat} {s r : List Char}
    (h : readLowUnit s = .ok (u, r)) : r <:+ s := by
  unfold readLowUnit at h
  split at h
  · cases h
  · cases h
  · split at h
    · cases h
    · rename_i hr
      split at h
      · cases h
        exact (suffix_of_readUnit hr).trans
          ((List.suffix_cons _ _).trans (List.suffix_cons _ _))
      · cases h
  · cases h

theorem suffix_of_readUnicode {c : Char} {s r : List Char}
    (h : readUnicode s = .ok (c, r)) : r <:+ s := by
  unfold readUnicode at h
  split at h
  · cases h
  · rename_i hr
    split at h
    · cases h
    · split at h
      · split at h
        · cases h
        · rename_i hl
          obtain ⟨-, rfl⟩ := Prod.mk.inj (Except.ok.inj h)
          exact (suffix_of_readLowUnit hl).trans (suffix_of_readUnit hr)
      · obtain ⟨-, rfl⟩ := Prod.mk.inj (Except.ok.inj h)
        exact suffix_of_readUnit hr

theorem suffix_of_readEscape {c : Char} {s r : List Char}
    (h : readEscape s = .ok (c, r)) : r <:+ s := by
  unfold readEscape at h
  split at h
  · cases h
  · split at h
    · exact (suffix_of_readUnicode h).trans (List.suffix_cons _ _)
    · split at h
      · cases h
        exact List.suffix_cons _ _
      · cases h

/-- Reads the characters of a string up to the closing quote. -/
def readText (s : List Char) : Reading (List Char) :=
  match s with
  | [] => .error .truncated
  | '"' :: r => .ok ([], r)
  | '\\' :: r =>
    match _hr : readEscape r with
    | .error f => .error f
    | .ok (c, r') =>
      match readText r' with
      | .error f => .error f
      | .ok (cs, rest) => .ok (c :: cs, rest)
  | c :: r =>
    if c < ' ' then .error .malformed
    else
      match readText r with
      | .error f => .error f
      | .ok (cs, rest) => .ok (c :: cs, rest)
termination_by s.length
decreasing_by
  · have := (suffix_of_readEscape _hr).length_le
    simp only [List.length_cons]
    omega
  · simp

theorem suffix_of_readText {t s r : List Char} (h : readText s = .ok (t, r)) : r <:+ s := by
  fun_induction readText s generalizing t r with
  | case1 => cases h
  | case2 =>
    cases h
    exact List.suffix_cons _ _
  | case3 => cases h
  | case4 => cases h
  | case5 u c v he cs rest hr ih =>
    cases h
    exact ((ih hr).trans (suffix_of_readEscape he)).trans (List.suffix_cons _ _)
  | case6 => cases h
  | case7 => cases h
  | case8 c u _ _ _ cs rest hr ih =>
    cases h
    exact (ih hr).trans (List.suffix_cons _ _)

end Crossref.Json
