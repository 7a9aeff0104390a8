import Crossref.Markup
import Crossref.Script.Literal
import Crossref.Script.Token

/-!
# Assignments

`implementors["unit"] = ["descriptor", ...];` gives a unit its list. The list may end in a comma,
and the final semicolon may be missing.
-/

namespace Crossref.Script

structure Assignment where
  unit : String
  implementors : List Markup
deriving Repr, DecidableEq

/-- Reads the mark `m`, with trivia before it. -/
def readMark (m : Char) (s : List Char) : Except Failure (List Char) :=
  match afterTrivia s with
  | [] => .error ⟨.missingMark m none, []⟩
  | c :: r => if c = m then .ok r else .error ⟨.missingMark m (some c), c :: r⟩

/-- Skips one semicolon, with trivia before it, if there is one. -/
def afterSemicolon (s : List Char) : List Char :=
  match afterTrivia s with
  | ';' :: r => r
  | r => r

/-- Reads descriptors up to the closing bracket. -/
def readList (s : List Char) : Reading (List Markup) :=
  match _hs : afterTrivia s with
  | ']' :: r => .ok ([], r)
  | t =>
    match _ht : readLiteral t with
    | .error f => .error f
    | .ok (x, r) =>
      match _hr : afterTrivia r with
      | ',' :: r' =>
        match readList r' with
        | .error f => .error f
        | .ok (xs, rest) => .ok (⟨x⟩ :: xs, rest)
      | ']' :: r' => .ok ([⟨x⟩], r')
      | u => .error ⟨.unfinishedList u.head?, u⟩
termination_by s.length
decreasing_by
  have h1 := (afterTrivia_suffix s).length_le
  have h2 := (suffix_of_readLiteral _ht).2
  have h3 := (afterTrivia_suffix r).length_le
  rw [_hr, List.length_cons] at h3
  rw [_hs] at h1
  omega

/-- Reads an assignment behind its beginning `implementors[`. -/
def readAssignment (s : List Char) : Except Failure (Assignment × List Char) := do
  let (unit, r) ← readLiteral (afterTrivia s)
  let r ← readMark ']' r
  let r ← readMark '=' r
  let r ← readMark '[' r
  let (implementors, r) ← readList r
  return (⟨unit, implementors⟩, afterSemicolon r)

/-! ## What is left is the end of the text -/

theorem suffix_of_readMark {m : Char} {s r : List Char} (h : readMark m s = .ok r) : r <:+ s := by
  have hs := afterTrivia_suffix s
  unfold readMark at h
  split at h
  · cases h
  · rename_i c t ht
    split at h
    · cases h
      exact (List.suffix_cons c r).trans (ht ▸ hs)
    · cases h

theorem afterSemicolon_suffix (s : List Char) : afterSemicolon s <:+ s := by
  have hs := afterTrivia_suffix s
  unfold afterSemicolon
  split
  · rename_i t ht
    exact (List.suffix_cons ';' t).trans (ht ▸ hs)
  · exact hs

theorem suffix_of_readList {xs : List Markup} {s r : List Char}
    (h : readList s = .ok (xs, r)) : r <:+ s := by
  fun_induction readList s generalizing xs r with
  | case1 s t hs =>
    cases h
    exact (List.suffix_cons ']' t).trans (hs ▸ afterTrivia_suffix s)
  | case2 => cases h
  | case3 => cases h
  | case4 s x u v hu ys rest hv _ ht ih =>
    cases h
    have h1 := (List.suffix_cons ',' v).trans (hu ▸ afterTrivia_suffix u)
    exact (((ih hv).trans h1).trans (suffix_of_readLiteral ht).1).trans (afterTrivia_suffix s)
  | case5 s x u v hu _ ht =>
    cases h
    have h1 := (List.suffix_cons ']' v).trans (hu ▸ afterTrivia_suffix u)
    exact (h1.trans (suffix_of_readLiteral ht).1).trans (afterTrivia_suffix s)
  | case6 => cases h

/-- An assignment takes the literal of its unit at least. -/
theorem suffix_of_readAssignment {a : Assignment} {s r : List Char}
    (h : readAssignment s = .ok (a, r)) : r <:+ s ∧ r.length < s.length := by
  obtain ⟨⟨unit, r₁⟩, h₁, h⟩ := bind_eq_ok.1 h
  obtain ⟨r₂, h₂, h⟩ := bind_eq_ok.1 h
  obtain ⟨r₃, h₃, h⟩ := bind_eq_ok.1 h
  obtain ⟨r₄, h₄, h⟩ := bind_eq_ok.1 h
  obtain ⟨⟨xs, r₅⟩, h₅, h⟩ := bind_eq_ok.1 h
  cases h
  have hr := (afterSemicolon_suffix r₅).trans <| (suffix_of_readList h₅).trans <|
    (suffix_of_readMark h₄).trans <| (suffix_of_readMark h₃).trans (suffix_of_readMark h₂)
  have hs := afterTrivia_suffix s
  have ⟨h₀, hlt⟩ := suffix_of_readLiteral h₁
  exact ⟨hr.trans (h₀.trans hs), Nat.lt_of_lt_of_le
    (Nat.lt_of_le_of_lt hr.length_le hlt) hs.length_le⟩

end Crossref.Script
