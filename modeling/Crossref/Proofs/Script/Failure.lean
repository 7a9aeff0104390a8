import Crossref.Script.Page

/-!
# Where reading fails

A reader that fails names a place in the text that it was given: what is left
there is an end of that text. There is one lemma for each reader, and each of
them cites those of the readers it calls. An unterminated literal fails at its
opening quote, so the readers of its elements are told that place.
-/

namespace Crossref.Script

open Text (Piece)

/-! ## Literals -/

theorem rest_of_readDigits {count : Nat} {s : List Char} {f : Failure}
    (h : readDigits count s = .error f) : f.rest = s := by
  unfold readDigits at h
  split at h
  · cases h
  · cases h
    rfl

theorem rest_suffix_of_readUnicode {s : List Char} {f : Failure} (h : readUnicode s = .error f) :
    f.rest <:+ s := by
  unfold readUnicode at h
  split at h
  · split at h
    · cases h
      exact List.suffix_cons _ _
    · dsimp only at h
      split at h
      · cases h
      · cases h
        exact List.suffix_cons _ _
  · split at h
    · cases h
    · rename_i hread
      cases h
      exact rest_of_readDigits hread ▸ List.suffix_rfl

theorem rest_suffix_of_readEscape {c : Char} {s : List Char} {f : Failure}
    (h : readEscape c s = .error f) : f.rest <:+ s := by
  unfold readEscape at h
  split at h
  · split at h
    · cases h
    · rename_i hread
      cases h
      exact rest_of_readDigits hread ▸ List.suffix_rfl
  · split at h
    · exact rest_suffix_of_readUnicode h
    · split at h
      · cases h
      · split at h
        · split at h <;> cases h
        · cases h

theorem rest_suffix_of_readPieces {quote : Char} {opening s : List Char} {f : Failure}
    (hs : s <:+ opening) (h : readPieces quote opening s = .error f) : f.rest <:+ opening := by
  fun_induction readPieces quote opening s generalizing f with
  | case1 =>
      cases h
      exact List.suffix_refl _
  | case2 =>
      cases h
      exact List.suffix_refl _
  | case3 c r g hg =>
      cases h
      have hr : r <:+ '\\' :: c :: r := (List.suffix_cons c r).trans (List.suffix_cons _ _)
      exact (rest_suffix_of_readEscape hg).trans (hr.trans hs)
  | case4 c r p r' hp g hg ih =>
      cases h
      have hr : r <:+ '\\' :: c :: r := (List.suffix_cons c r).trans (List.suffix_cons _ _)
      exact ih ((suffix_of_readEscape hp).trans (hr.trans hs)) hg
  | case5 => cases h
  | case6 =>
      cases h
      exact List.suffix_refl _
  | case7 => cases h
  | case8 c r _ _ _ _ g hg ih =>
      cases h
      exact ih ((List.suffix_cons c r).trans hs) hg
  | case9 => cases h

theorem rest_suffix_of_readLiteral {s : List Char} {f : Failure} (h : readLiteral s = .error f) :
    f.rest <:+ s := by
  unfold readLiteral at h
  split at h
  · rename_i c r
    split at h
    · split at h
      · cases h
      · rename_i hread
        cases h
        exact rest_suffix_of_readPieces (List.suffix_cons c r) hread
    · cases h
      exact List.suffix_refl _
  · cases h
    exact List.suffix_refl _

/-! ## Assignments -/

/-- Of two readings in a row the first or the second fails. -/
theorem bind_eq_error {α β : Type} {x : Except Failure α} {g : α → Except Failure β}
    {f : Failure} : (x >>= g) = .error f ↔ x = .error f ∨ ∃ a, x = .ok a ∧ g a = .error f := by
  cases x <;> simp [bind, Except.bind]

theorem rest_suffix_of_readMark {m : Char} {s : List Char} {f : Failure}
    (h : readMark m s = .error f) : f.rest <:+ s := by
  have hs := afterTrivia_suffix s
  unfold readMark at h
  split at h
  · cases h
    exact List.nil_suffix
  · rename_i ht
    split at h
    · cases h
    · cases h
      exact ht ▸ hs

theorem rest_suffix_of_readList {s : List Char} {f : Failure} (h : readList s = .error f) :
    f.rest <:+ s := by
  fun_induction readList s generalizing f with
  | case1 => cases h
  | case2 s _ g hg =>
      cases h
      exact (rest_suffix_of_readLiteral hg).trans (afterTrivia_suffix s)
  | case3 s x u v hu g hg _ ht ih =>
      cases h
      have hv : v <:+ u := (List.suffix_cons ',' v).trans (hu ▸ afterTrivia_suffix u)
      exact (ih hg).trans (hv.trans ((suffix_of_readLiteral ht).1.trans (afterTrivia_suffix s)))
  | case4 => cases h
  | case5 => cases h
  | case6 s x u _ ht =>
      cases h
      exact (afterTrivia_suffix u).trans ((suffix_of_readLiteral ht).1.trans (afterTrivia_suffix s))

theorem rest_suffix_of_readAssignment {s : List Char} {f : Failure}
    (h : readAssignment s = .error f) : f.rest <:+ s := by
  have hs := afterTrivia_suffix s
  rcases bind_eq_error.mp h with h | ⟨⟨unit, r₁⟩, h₁, h⟩
  · exact (rest_suffix_of_readLiteral h).trans hs
  have hr₁ := (suffix_of_readLiteral h₁).1.trans hs
  rcases bind_eq_error.mp h with h | ⟨r₂, h₂, h⟩
  · exact (rest_suffix_of_readMark h).trans hr₁
  have hr₂ := (suffix_of_readMark h₂).trans hr₁
  rcases bind_eq_error.mp h with h | ⟨r₃, h₃, h⟩
  · exact (rest_suffix_of_readMark h).trans hr₂
  have hr₃ := (suffix_of_readMark h₃).trans hr₂
  rcases bind_eq_error.mp h with h | ⟨r₄, h₄, h⟩
  · exact (rest_suffix_of_readMark h).trans hr₃
  have hr₄ := (suffix_of_readMark h₄).trans hr₃
  rcases bind_eq_error.mp h with h | ⟨⟨list, r₅⟩, h₅, h⟩
  · exact (rest_suffix_of_readList h).trans hr₄
  · cases h

/-! ## The whole table -/

theorem rest_suffix_of_readAssignments {strict : Bool} {s : List Char} {f : Failure}
    (h : readAssignments strict s = .error f) : f.rest <:+ s := by
  fun_induction readAssignments strict s generalizing f with
  | case1 => cases h
  | case2 s c t hs u hu g hg =>
      cases h
      have hu' := (Token.takeAll?_suffix hu).trans (hs ▸ afterTrivia_suffix s)
      exact (rest_suffix_of_readAssignment hg).trans hu'
  | case3 s c t hs u hu a v ha g hg ih =>
      cases h
      have hu' := (Token.takeAll?_suffix hu).trans (hs ▸ afterTrivia_suffix s)
      exact (ih hg).trans ((suffix_of_readAssignment ha).1.trans hu')
  | case4 => cases h
  | case5 => cases h
  | case6 s c t hs =>
      cases h
      exact hs ▸ afterTrivia_suffix s
  | case7 s c t hs _ _ _ ih =>
      exact (ih h).trans ((afterStatement_suffix (c :: t)).trans (hs ▸ afterTrivia_suffix s))

end Crossref.Script
