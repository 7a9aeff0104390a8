import Crossref.Proofs.Script.Failure
import Crossref.Proofs.Script.Grammar
import Crossref.Proofs.Text.Position

/-!
# Strict and lenient reading

The two modes read a source in step until a strict reader misses the
declaration, or meets a statement that it does not know. There the strict run
ends, and whatever fails in the lenient one fails further on (`Kept`). The main
statement, `lenient_read_of_strict_read`, draws the consequences for whole
sources: strictness only removes acceptance, it never reports a place behind the
lenient one, and every other fault is the same in both modes.
-/

namespace Crossref.Script

open Text (Position)

/-- The faults that only strict readers find. -/
def Fault.isStrictOnly : Fault → Bool
  | missingDeclaration _ => true
  | unexpectedStatement _ => true
  | _ => false

/-- How a strict and a lenient run of one text compare: they end alike, or the
strict one ends first, at a fault that only strict readers find. -/
inductive Kept {α : Type} : (strict lenient : Except Failure α) → Prop where
  | alike (outcome : Except Failure α) : Kept outcome outcome
  | ahead {f : Failure} {lenient : Except Failure α} (hfault : f.fault.isStrictOnly = true)
      (hlater : ∀ g, lenient = .error g → g.rest <:+ f.rest) : Kept (.error f) lenient

/-- Runs in step stay in step when they go on alike. -/
theorem Kept.map {α β : Type} {strict lenient : Except Failure α} (h : Kept strict lenient)
    (next : α → β) : Kept (strict.map next) (lenient.map next) := by
  cases h with
  | alike => exact .alike _
  | ahead hfault hlater =>
      refine .ahead hfault fun g hg => hlater g ?_
      cases lenient with
      | error e => cases hg; rfl
      | ok a => cases hg

theorem readAssignments_kept (s : List Char) :
    Kept (readAssignments true s) (readAssignments false s) := by
  generalize hstrict : true = strict
  fun_induction readAssignments strict s with
  | case1 s hs =>
      rw [readAssignments_of_end false hs]
      exact .alike _
  | case2 s c t hs u hu f hf =>
      rw [readAssignments_of_head hs hu, hf]
      exact .alike _
  | case3 s c t hs u hu a v ha f hf ih =>
      rw [readAssignments_of_head hs hu, ha]
      have hkept := ih.map (a :: ·)
      rw [hf] at hkept
      exact hkept
  | case4 s c t hs u hu a v ha as has ih =>
      rw [readAssignments_of_head hs hu, ha]
      have hkept := ih.map (a :: ·)
      rw [has] at hkept
      exact hkept
  | case5 s c t hs hnone hend =>
      rw [readAssignments_of_endsTable false (hs ▸ hend)]
      exact .alike _
  | case6 s c t hs hnone hend hmode =>
      rw [readAssignments_of_unknown false hs hnone (Bool.eq_false_iff.mpr hend)]
      refine .ahead rfl fun g hg => ?_
      exact (rest_suffix_of_readAssignments hg).trans (afterStatement_suffix (c :: t))
  | case7 s c t hs hnone hend hmode ih => exact absurd hstrict.symm hmode

theorem readScript_kept (s : List Char) : Kept (readScript true s) (readScript false s) := by
  unfold readScript
  dsimp only
  split
  · exact readAssignments_kept _
  · rw [if_pos rfl, if_neg Bool.false_ne_true]
    exact .ahead rfl fun g hg => rest_suffix_of_readAssignments hg

/-- What a strict reader accepts a lenient one reads as the same table. -/
theorem read_false_of_read_true {source : String} {t : Index Markup}
    (h : read true source = .ok t) : read false source = .ok t := by
  have hkept := readScript_kept source.toList
  unfold read at h ⊢
  generalize readScript true source.toList = strict at hkept h
  generalize readScript false source.toList = lenient at hkept ⊢
  cases hkept with
  | alike => exact h
  | ahead => cases h

/-- Strictness only removes acceptance. What a strict reader accepts a lenient
one reads as the same table; where a lenient reader fails a strict one fails, at
the same place or before it; and where a strict reader fails, with a fault that
is not one of its own, a lenient one fails with the same fault at the same
place. -/
theorem lenient_read_of_strict_read (source : String) :
    (∀ t, read true source = .ok t → read false source = .ok t) ∧
      (∀ e, read false source = .error e →
        ∃ e', read true source = .error e' ∧ e'.position ≤ e.position) ∧
      (∀ e, read true source = .error e → (∀ x, e.fault ≠ .missingDeclaration x) →
        (∀ x, e.fault ≠ .unexpectedStatement x) → read false source = .error e) := by
  have hkept := readScript_kept source.toList
  unfold read
  generalize readScript true source.toList = strict at hkept ⊢
  generalize readScript false source.toList = lenient at hkept ⊢
  cases hkept with
  | alike =>
      refine ⟨fun t ht => ht, fun e he => ⟨e, he, Position.le_refl _⟩, fun e he _ _ => he⟩
  | @ahead f lenient hfault hlater =>
      refine ⟨?_, ?_, ?_⟩
      · intro t ht
        cases ht
      · intro e he
        cases lenient with
        | ok as => cases he
        | error g =>
            cases he
            exact ⟨_, rfl, Position.ofRest_le _ (hlater g rfl).length_le⟩
      · intro e he hdecl hstatement
        cases he
        cases f with
        | mk fault rest =>
            cases fault with
            | missingDeclaration x => exact absurd rfl (hdecl x)
            | unexpectedStatement x => exact absurd rfl (hstatement x)
            | _ => cases hfault

/-- A page that both modes accept, one that the strict mode gives up a line
earlier, and one that fails alike. -/
theorem lenient_read_of_strict_read_parted :
    let page := "var implementors = \x7b\x7d; implementors['a'] = ['x'];"
    let unknown := "var implementors = \x7b\x7d;\nf();\nimplementors['a'] = [1];"
    let broken := "var implementors = \x7b\x7d; implementors['a' = [];"
    read true page = .ok (.ofList [("a", [⟨"x"⟩])]) ∧
      read false page = .ok (.ofList [("a", [⟨"x"⟩])]) ∧
      read false unknown = .error ⟨⟨3, 22⟩, .missingLiteral (some '1')⟩ ∧
      (∃ e, read true unknown = .error e ∧ e.position ≤ ⟨3, 22⟩) ∧
      read true broken = .error ⟨⟨1, 41⟩, .missingMark ']' (some '=')⟩ ∧
      read false broken = .error ⟨⟨1, 41⟩, .missingMark ']' (some '=')⟩ := by
  intro page unknown broken
  have hpage : read true page = .ok (.ofList [("a", [⟨"x"⟩])]) := by decide +kernel
  have hunknown : read false unknown = .error ⟨⟨3, 22⟩, .missingLiteral (some '1')⟩ := by
    decide +kernel
  have hbroken : read true broken = .error ⟨⟨1, 41⟩, .missingMark ']' (some '=')⟩ := by
    decide +kernel
  exact ⟨hpage, (lenient_read_of_strict_read page).1 _ hpage, hunknown,
    (lenient_read_of_strict_read unknown).2.1 _ hunknown, hbroken,
    (lenient_read_of_strict_read broken).2.2 _ hbroken (by simp) (by simp)⟩

end Crossref.Script
