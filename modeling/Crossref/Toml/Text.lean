import Crossref.Text.Hex

/-!
# TOML strings and keys

Strings come in four forms. Basic strings, in double quotes, have escapes; literal strings, in
single quotes, have none. Either may be tripled to span lines, and then a line feed at once behind
the opening is dropped. Line ends inside a string are kept as they are written.
-/

namespace Crossref.Toml

open Text (readHex)

/-- What is read and what is left, if it can be read. -/
abbrev Reading (α : Type) := Option (α × List Char)

/-! ## Spaces, comments and line ends -/

def isSpace (c : Char) : Bool := c == ' ' || c == '\t'

def afterSpace (s : List Char) : List Char := s.dropWhile isSpace

/-- A character that may stand in a comment or a string: no control but the tab. -/
def isPlain (c : Char) : Bool := c == '\t' || (decide (' ' ≤ c) && c != '\x7f')

/-- What is left behind a line end: a line feed, with a carriage return before it or not. -/
def afterNewline? : List Char → Option (List Char)
  | '\n' :: r => some r
  | '\r' :: '\n' :: r => some r
  | _ => none

/-- What is left behind spaces, line ends and comments, if they are well-formed. -/
def afterGaps (inComment : Bool) : List Char → Option (List Char)
  | [] => some []
  | '\n' :: r => afterGaps false r
  | '\r' :: '\n' :: r => afterGaps false r
  | c :: r =>
    if inComment then if isPlain c then afterGaps true r else none
    else if isSpace c then afterGaps false r
    else if c = '#' then afterGaps true r
    else some (c :: r)

/-- What is left behind the rest of a line, which may hold a comment and nothing else. -/
def afterLine (s : List Char) : Option (List Char) :=
  let s := afterSpace s
  let s := if s.head? = some '#' then s.dropWhile isPlain else s
  if s.isEmpty then some [] else afterNewline? s

/-! ## Strings -/

/-- Reads an escaped code point of so many digits. -/
def readCodePoint (digits : Nat) (s : List Char) : Reading Char :=
  match readHex digits 0 s with
  | .ok (n, r) => if n.isValidChar then some (Char.ofNat n, r) else none
  | .error _ => none

/-- Reads what follows a backslash, whose first character is `c`. -/
def readEscape (c : Char) (r : List Char) : Reading Char :=
  match c with
  | 'b' => some ('\x08', r)
  | 't' => some ('\t', r)
  | 'n' => some ('\n', r)
  | 'f' => some ('\x0c', r)
  | 'r' => some ('\r', r)
  | 'e' => some ('\x1b', r)
  | '"' => some ('"', r)
  | '\\' => some ('\\', r)
  | 'x' => readCodePoint 2 r
  | 'u' => readCodePoint 4 r
  | 'U' => readCodePoint 8 r
  | _ => none

theorem suffix_of_readCodePoint {digits : Nat} {c : Char} {s r : List Char}
    (h : readCodePoint digits s = some (c, r)) : r <:+ s := by
  unfold readCodePoint at h
  split at h
  · rename_i hr
    split at h
    · obtain ⟨-, rfl⟩ := Prod.mk.inj (Option.some.inj h)
      exact Text.suffix_of_readHex hr
    · cases h
  · cases h

theorem suffix_of_readEscape {c d : Char} {s r : List Char}
    (h : readEscape c s = some (d, r)) : r <:+ s := by
  unfold readEscape at h
  split at h <;>
    first
    | exact suffix_of_readCodePoint h
    | (obtain ⟨-, rfl⟩ := Prod.mk.inj (Option.some.inj h)
       exact List.suffix_refl _)
    | cases h

/-- Reads the rest of a basic string on one line. -/
def readBasic (s : List Char) : Reading (List Char) :=
  match s with
  | [] => none
  | ['\\'] => none
  | '\\' :: c :: r =>
    match _hr : readEscape c r with
    | none => none
    | some (d, r') => (readBasic r').map fun (t, rest) => (d :: t, rest)
  | c :: r =>
    if c = '"' then some ([], r)
    else if isPlain c then (readBasic r).map fun (t, rest) => (c :: t, rest)
    else none
termination_by s.length
decreasing_by
  · have := (suffix_of_readEscape _hr).length_le
    simp only [List.length_cons]
    omega
  · simp

/-- Reads the rest of a literal string on one line. -/
def readLiteral : List Char → Reading (List Char)
  | [] => none
  | c :: r =>
    if c = '\'' then some ([], r)
    else if isPlain c then (readLiteral r).map fun (t, rest) => (c :: t, rest)
    else none

/-- Reads up to two quotes that belong to a string whose three closing quotes are gone. -/
def readFinalQuotes (quote : Char) : List Char → List Char × List Char
  | [] => ([], [])
  | [c] => if c = quote then ([c], []) else ([], [c])
  | c :: d :: r =>
    if c = quote then if d = quote then ([c, d], r) else ([c], d :: r) else ([], c :: d :: r)

/-- What is left behind spaces and line ends. -/
def afterBlank : List Char → List Char
  | [] => []
  | '\n' :: r => afterBlank r
  | '\r' :: '\n' :: r => afterBlank r
  | c :: r => if isSpace c then afterBlank r else c :: r

/-- What is left behind a backslash at the end of a line: all that is blank up to the next text. -/
def afterContinuation? (s : List Char) : Option (List Char) :=
  (afterNewline? (afterSpace s)).map afterBlank

theorem suffix_of_afterBlank (s : List Char) : afterBlank s <:+ s := by
  fun_induction afterBlank s with
  | case1 => exact List.suffix_refl _
  | case2 r ih => exact ih.trans (List.suffix_cons _ _)
  | case3 r ih => exact ih.trans ((List.suffix_cons _ _).trans (List.suffix_cons _ _))
  | case4 c r _ _ _ ih => exact ih.trans (List.suffix_cons _ _)
  | case5 => exact List.suffix_refl _

theorem suffix_of_afterNewline? {s r : List Char} (h : afterNewline? s = some r) : r <:+ s := by
  unfold afterNewline? at h
  split at h
  · cases h
    exact List.suffix_cons _ _
  · cases h
    exact (List.suffix_cons _ _).trans (List.suffix_cons _ _)
  · cases h

theorem suffix_of_afterContinuation? {s r : List Char}
    (h : afterContinuation? s = some r) : r <:+ s := by
  obtain ⟨u, hu, rfl⟩ := Option.map_eq_some_iff.1 h
  exact ((suffix_of_afterBlank u).trans (suffix_of_afterNewline? hu)).trans
    (List.dropWhile_suffix _)

/-- Reads the rest of a basic string that may span lines. -/
def readBasicLines (s : List Char) : Reading (List Char) :=
  match s with
  | [] => none
  | '"' :: '"' :: '"' :: r => some (readFinalQuotes '"' r)
  | '\r' :: '\n' :: r => (readBasicLines r).map fun (t, rest) => ('\r' :: '\n' :: t, rest)
  | ['\\'] => none
  | '\\' :: c :: r =>
    match _hc : afterContinuation? (c :: r) with
    | some r' => readBasicLines r'
    | none =>
      match _hr : readEscape c r with
      | none => none
      | some (d, r') => (readBasicLines r').map fun (t, rest) => (d :: t, rest)
  | c :: r =>
    if isPlain c || c == '\n' then (readBasicLines r).map fun (t, rest) => (c :: t, rest) else none
termination_by s.length
decreasing_by
  · simp only [List.length_cons]
    omega
  · have := (suffix_of_afterContinuation? _hc).length_le
    simp only [List.length_cons] at *
    omega
  · have := (suffix_of_readEscape _hr).length_le
    simp only [List.length_cons]
    omega
  · simp

/-- Reads the rest of a literal string that may span lines. -/
def readLiteralLines : List Char → Reading (List Char)
  | [] => none
  | '\'' :: '\'' :: '\'' :: r => some (readFinalQuotes '\'' r)
  | '\r' :: '\n' :: r => (readLiteralLines r).map fun (t, rest) => ('\r' :: '\n' :: t, rest)
  | c :: r =>
    if isPlain c || c == '\n' then (readLiteralLines r).map fun (t, rest) => (c :: t, rest)
    else none

/-- Reads a string of any form. -/
def readString : List Char → Reading (List Char)
  | '"' :: '"' :: '"' :: r => readBasicLines ((afterNewline? r).getD r)
  | '"' :: r => readBasic r
  | '\'' :: '\'' :: '\'' :: r => readLiteralLines ((afterNewline? r).getD r)
  | '\'' :: r => readLiteral r
  | _ => none

/-! ## Keys -/

def isBareChar (c : Char) : Bool := c.isAlphanum || c == '_' || c == '-'

/-- Reads one part of a key: bare, or a string on one line. -/
def readKey : List Char → Reading String
  | '"' :: r => (readBasic r).map fun (t, rest) => (String.ofList t, rest)
  | '\'' :: r => (readLiteral r).map fun (t, rest) => (String.ofList t, rest)
  | s =>
    if (s.takeWhile isBareChar).isEmpty then none
    else some (String.ofList (s.takeWhile isBareChar), s.dropWhile isBareChar)

/-- Reads the parts of a dotted key; spaces may stand around its dots. -/
def readKeyParts (s : List Char) : Reading (List String) :=
  match readKey s with
  | none => none
  | some (key, r) =>
    match afterSpace r with
    | '.' :: r' =>
      if _h : r'.length < s.length then
        (readKeyParts (afterSpace r')).map fun (keys, rest) => (key :: keys, rest)
      else none
    | _ => some ([key], r)
termination_by s.length
decreasing_by
  have : (afterSpace r').length ≤ r'.length := (List.dropWhile_suffix _).length_le
  omega

/-- A dotted key has at most so many parts. -/
def keyLimit : Nat := 80

/-- Reads a dotted key. -/
def readKeyPath (s : List Char) : Reading (List String) :=
  (readKeyParts s).filter fun (keys, _) => keys.length ≤ keyLimit

end Crossref.Toml
