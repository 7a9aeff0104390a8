import Mathlib.Data.List.Induction
import Crossref.Text.Position

/-!
# The order of places

Places are ordered as lines are read: by the line, and within a line by the
column. Reading on never goes back (`Position.after_le_append`), so of two
places in one source the one with less text left is not before the other
(`Position.ofRest_le`).

A place is told by an offset into the source: the line feeds before it are
counted, and the characters behind the last of them (`Position.IsAt`). Since every
character moves the place on, no two offsets have the same place
(`Position.IsAt.unique`).
-/

namespace Crossref.Text.Position

instance : LE Position :=
  ⟨fun p q => p.line < q.line ∨ p.line = q.line ∧ p.column ≤ q.column⟩

theorem le_iff {p q : Position} :
    p ≤ q ↔ p.line < q.line ∨ p.line = q.line ∧ p.column ≤ q.column := Iff.rfl

theorem le_refl (p : Position) : p ≤ p := Or.inr ⟨rfl, Nat.le_refl _⟩

theorem le_trans {p q r : Position} (h₁ : p ≤ q) (h₂ : q ≤ r) : p ≤ r := by
  rw [le_iff] at *
  omega

theorem le_next (p : Position) (c : Char) : p ≤ p.next c := by
  unfold next
  split
  · exact Or.inl (Nat.lt_succ_self _)
  · exact Or.inr ⟨rfl, Nat.le_succ _⟩

theorem le_foldl_next (p : Position) (s : List Char) : p ≤ s.foldl next p := by
  induction s generalizing p with
  | nil => exact le_refl p
  | cons c s ih => exact le_trans (le_next p c) (ih (p.next c))

theorem after_le_append (s t : List Char) : after s ≤ after (s ++ t) := by
  unfold after
  rw [List.foldl_append]
  exact le_foldl_next _ t

/-- The less is left, the further on the place is. -/
theorem ofRest_le (source : List Char) {r s : List Char} (h : r.length ≤ s.length) :
    ofRest source s ≤ ofRest source r := by
  have hle : source.length - s.length ≤ source.length - r.length := by omega
  obtain ⟨t, ht⟩ := List.take_prefix_take_left hle (l := source)
  unfold ofRest
  rw [← ht]
  exact after_le_append _ t

/-! ## Offsets -/

/-- The place of the character with this offset, or of the end of the source. -/
structure IsAt (p : Position) (source : List Char) (offset : Nat) : Prop where
  inside : offset ≤ source.length
  line : p.line = 1 + (source.take offset).count '\n'
  column : p.column = 1 + ((source.take offset).reverse.takeWhile (· != '\n')).length

theorem line_after (s : List Char) : (after s).line = 1 + s.count '\n' := by
  induction s using List.reverseRecOn with
  | nil => rfl
  | append_singleton s c ih =>
      rw [after, List.foldl_append, List.foldl_cons, List.foldl_nil, ← after, next,
        List.count_append, ← Nat.add_assoc, ← ih]
      by_cases hc : c = '\n'
      · rw [if_pos hc, hc, List.count_singleton_self]
      · rw [if_neg hc, List.count_singleton, if_neg (by simpa using hc)]
        rfl

theorem column_after (s : List Char) :
    (after s).column = 1 + (s.reverse.takeWhile (· != '\n')).length := by
  induction s using List.reverseRecOn with
  | nil => rfl
  | append_singleton s c ih =>
      rw [after, List.foldl_append, List.foldl_cons, List.foldl_nil, ← after, next,
        List.reverse_append, List.reverse_singleton, List.singleton_append]
      by_cases hc : c = '\n'
      · rw [if_pos hc, hc, List.takeWhile_cons_of_neg (by decide), List.length_nil]
      · rw [if_neg hc, List.takeWhile_cons_of_pos (by simpa using hc), List.length_cons,
          ← Nat.add_assoc, ← ih]

theorem isAt_iff {p : Position} {source : List Char} {offset : Nat} :
    p.IsAt source offset ↔ offset ≤ source.length ∧ p = after (source.take offset) := by
  constructor
  · rintro ⟨hinside, hline, hcolumn⟩
    refine ⟨hinside, ?_⟩
    cases p
    cases hafter : after (source.take offset)
    simp only [← line_after, ← column_after, hafter] at hline hcolumn
    rw [hline, hcolumn]
  · rintro ⟨hinside, rfl⟩
    exact ⟨hinside, line_after _, column_after _⟩

theorem not_next_le (p : Position) (c : Char) : ¬ p.next c ≤ p := by
  rw [le_iff, next]
  split <;> simp

theorem after_append_cons_ne (s : List Char) (c : Char) (t : List Char) :
    after (s ++ c :: t) ≠ after s := by
  intro h
  have hle : (after s).next c ≤ after (s ++ c :: t) := by
    change _ ≤ (s ++ c :: t).foldl next start
    rw [List.foldl_append, List.foldl_cons]
    exact le_foldl_next _ t
  exact not_next_le (after s) c (h ▸ hle)

theorem IsAt.le {p : Position} {source : List Char} {m n : Nat} (hm : p.IsAt source m)
    (hn : p.IsAt source n) : m ≤ n := by
  rw [isAt_iff] at hm hn
  rcases Nat.lt_or_ge n m with hlt | hle
  · obtain ⟨t, ht⟩ := List.take_prefix_take_left (Nat.le_of_lt hlt) (l := source)
    cases t with
    | nil =>
        -- the longer of the two texts is the shorter one
        have hlength := congrArg List.length ht
        rw [List.append_nil, List.length_take, List.length_take] at hlength
        omega
    | cons c t => exact absurd (ht ▸ hm.2.symm.trans hn.2) (after_append_cons_ne _ c t)
  · exact hle

/-- No two offsets have the same place. -/
theorem IsAt.unique {p : Position} {source : List Char} {m n : Nat} (hm : p.IsAt source m)
    (hn : p.IsAt source n) : m = n :=
  Nat.le_antisymm (hm.le hn) (hn.le hm)

theorem isAt_ofRest (source rest : List Char) :
    (ofRest source rest).IsAt source (source.length - rest.length) :=
  isAt_iff.mpr ⟨Nat.sub_le _ _, rfl⟩

end Crossref.Text.Position
