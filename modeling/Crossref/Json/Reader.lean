import Crossref.Index
import Crossref.Markup
import Crossref.Json.Number
import Crossref.Json.Text

/-!
# JSON tables

A table may also come as a JSON object whose members are lists of strings. A member name that is
repeated keeps its first place and its last list, as in any index.
-/

namespace Crossref.Json

/-- The four characters that may stand between the parts of a JSON text. -/
def isSpace (c : Char) : Bool := c == ' ' || c == '\t' || c == '\n' || c == '\r'

def afterSpace (s : List Char) : List Char := s.dropWhile isSpace

theorem afterSpace_suffix (s : List Char) : afterSpace s <:+ s := List.dropWhile_suffix _

/-- The fault of a text in which the constant with the letters `word` should stand. -/
def constantFault : (word text : List Char) → Fault
  | [], _ => .wrongType
  | _ :: _, [] => .truncated
  | c :: word, d :: s => if c = d then constantFault word s else .malformed

/-- The fault of a text that begins with another value than is needed. Lists and objects count by
their bracket alone. -/
def valueFault : List Char → Fault
  | [] => .truncated
  | c :: r =>
    if c = 'n' then constantFault ['u', 'l', 'l'] r
    else if c = 't' then constantFault ['r', 'u', 'e'] r
    else if c = 'f' then constantFault ['a', 'l', 's', 'e'] r
    else if c = '-' then digitsFault r
    else if c.isDigit then digitsFault (c :: r)
    else if c = '"' then
      match readText r with
      | .error f => f
      | .ok _ => .wrongType
    else if c = '[' ∨ c = '\x7b' then .wrongType
    else .malformed

/-- What stands between two elements of a list or two members of an object: the closing bracket, or
a comma and the beginning of one more. -/
inductive Link where
  | close (rest : List Char)
  | more (rest : List Char)

/-- Reads what follows an element. A comma in front of the closing bracket is malformed. -/
def readLink (close : Char) (s : List Char) : Except Fault Link :=
  match afterSpace s with
  | [] => .error .truncated
  | c :: r =>
    if c = close then .ok (.close r)
    else if c = ',' then
      match afterSpace r with
      | [] => .error .truncated
      | d :: r' => if d = close then .error .malformed else .ok (.more (d :: r'))
    else .error .malformed

/-- Reads a string. -/
def readString : List Char → Reading String
  | '"' :: r =>
    match readText r with
    | .error f => .error f
    | .ok (t, r') => .ok (String.ofList t, r')
  | s => .error (valueFault s)

theorem suffix_of_readString {t : String} {s r : List Char} (h : readString s = .ok (t, r)) :
    r <:+ s ∧ r.length < s.length := by
  unfold readString at h
  split at h
  · split at h
    · cases h
    · rename_i hr
      cases h
      have hs := suffix_of_readText hr
      exact ⟨hs.trans (List.suffix_cons _ _), Nat.lt_succ_of_le hs.length_le⟩
  · cases h

theorem suffix_of_readLink {close : Char} {s r : List Char} {k : Link}
    (h : readLink close s = .ok k) (hk : k = .close r ∨ k = .more r) : r <:+ s := by
  have hs := afterSpace_suffix s
  unfold readLink at h
  split at h
  · cases h
  · rename_i c t ht
    have hc : t <:+ s := (List.suffix_cons c t).trans (ht ▸ hs)
    split at h
    · cases h
      rcases hk with hk | hk <;> cases hk
      exact hc
    · split at h
      · split at h
        · cases h
        · rename_i d u hu
          split at h
          · cases h
          · cases h
            rcases hk with hk | hk <;> cases hk
            exact (hu ▸ afterSpace_suffix t).trans hc
      · cases h

/-- Reads the elements of a list that has some. -/
def readElements (s : List Char) : Reading (List Markup) :=
  match _ht : readString s with
  | .error f => .error f
  | .ok (t, r) =>
    match _hk : readLink ']' r with
    | .error f => .error f
    | .ok (.close r') => .ok ([⟨t⟩], r')
    | .ok (.more r') =>
      match readElements r' with
      | .error f => .error f
      | .ok (ts, rest) => .ok (⟨t⟩ :: ts, rest)
termination_by s.length
decreasing_by
  have h1 := (suffix_of_readString _ht).2
  have h2 := (suffix_of_readLink _hk (Or.inr rfl)).length_le
  omega

/-- Reads a list of strings. -/
def readList : List Char → Reading (List Markup)
  | '[' :: r =>
    match afterSpace r with
    | ']' :: r' => .ok ([], r')
    | r' => readElements r'
  | s => .error (valueFault s)

/-- Reads one member of an object. -/
def readMember (s : List Char) : Reading (String × List Markup) :=
  match s with
  | '"' :: r =>
    match readText r with
    | .error f => .error f
    | .ok (name, r) =>
      match afterSpace r with
      | [] => .error .truncated
      | ':' :: r =>
        match readList (afterSpace r) with
        | .error f => .error f
        | .ok (list, r) => .ok ((String.ofList name, list), r)
      | _ => .error .malformed
  | _ => .error .malformed

theorem suffix_of_readElements {ts : List Markup} {s r : List Char}
    (h : readElements s = .ok (ts, r)) : r <:+ s := by
  fun_induction readElements s generalizing ts r with
  | case1 => cases h
  | case2 => cases h
  | case3 s t u ht v hk =>
    cases h
    exact (suffix_of_readLink hk (Or.inl rfl)).trans (suffix_of_readString ht).1
  | case4 => cases h
  | case5 s t u ht v hk vs rest hr ih =>
    cases h
    exact ((ih hr).trans (suffix_of_readLink hk (Or.inr rfl))).trans (suffix_of_readString ht).1

theorem suffix_of_readList {ts : List Markup} {s r : List Char}
    (h : readList s = .ok (ts, r)) : r <:+ s := by
  unfold readList at h
  split at h
  · rename_i u
    have hu := afterSpace_suffix u
    split at h
    · rename_i v hv
      cases h
      exact ((List.suffix_cons ']' _).trans (hv ▸ hu)).trans (List.suffix_cons _ _)
    · exact ((suffix_of_readElements h).trans hu).trans (List.suffix_cons _ _)
  · cases h

theorem suffix_of_readMember {m : String × List Markup} {s r : List Char}
    (h : readMember s = .ok (m, r)) : r <:+ s ∧ r.length < s.length := by
  unfold readMember at h
  split at h
  · rename_i u
    split at h
    · cases h
    · rename_i name v hv
      have hs := afterSpace_suffix v
      split at h
      · cases h
      · rename_i w hw
        split at h
        · cases h
        · rename_i list x hx
          cases h
          have hr := ((suffix_of_readList hx).trans (afterSpace_suffix w)).trans
            (((List.suffix_cons ':' w).trans (hw ▸ hs)).trans (suffix_of_readText hv))
          exact ⟨hr.trans (List.suffix_cons _ _), Nat.lt_succ_of_le hr.length_le⟩
      · cases h
  · cases h

/-- Reads the members of an object that has some. -/
def readMembers (s : List Char) : Reading (List (String × List Markup)) :=
  match _hm : readMember s with
  | .error f => .error f
  | .ok (m, r) =>
    match _hk : readLink '\x7d' r with
    | .error f => .error f
    | .ok (.close r') => .ok ([m], r')
    | .ok (.more r') =>
      match readMembers r' with
      | .error f => .error f
      | .ok (ms, rest) => .ok (m :: ms, rest)
termination_by s.length
decreasing_by
  have h1 := (suffix_of_readMember _hm).2
  have h2 := (suffix_of_readLink _hk (Or.inr rfl)).length_le
  omega

/-- Reads an object of lists. -/
def readObject : List Char → Reading (List (String × List Markup))
  | '\x7b' :: r =>
    match afterSpace r with
    | [] => .error .truncated
    | '\x7d' :: r' => .ok ([], r')
    | r' => readMembers r'
  | s => .error (valueFault s)

/-- Reads the members of a whole text, in their order. -/
def readTable (s : List Char) : Except Fault (List (String × List Markup)) :=
  match readObject (afterSpace s) with
  | .error f => .error f
  | .ok (ms, r) => if (afterSpace r).isEmpty then .ok ms else .error .malformed

/-- The table of a JSON text, or the fault met first. -/
def read (source : String) : Except Fault (Index Markup) :=
  match readTable source.toList with
  | .ok ms => .ok (.ofList ms)
  | .error f => .error f

end Crossref.Json
