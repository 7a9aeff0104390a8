import Crossref.Text.Blank
import Crossref.Text.Word

/-!
# Blank and word characters are apart

No character is both, so a token never begins with a blank. The two classes are tables, and the
ranges of the one are compared with those of the other (`apart`).
-/

namespace Crossref.Text

/-- No range of one table meets a range of the other. -/
def apart (ranges ranges' : List (Nat × Nat)) : Bool :=
  ranges.all fun r => ranges'.all fun r' => r.2.blt r'.1 || r'.2.blt r.1

theorem inRanges_eq_false_of_apart {ranges ranges' : List (Nat × Nat)}
    (h : apart ranges ranges' = true) {c : Char} (hc : inRanges ranges c = true) :
    inRanges ranges' c = false := by
  obtain ⟨r, hr, hin⟩ := List.any_eq_true.mp hc
  refine List.any_eq_false.mpr fun r' hr' => ?_
  have hapart := List.all_eq_true.mp (List.all_eq_true.mp h r hr) r' hr'
  simp only [Bool.or_eq_true, Nat.blt_eq, decide_eq_true_eq] at hapart hin ⊢
  omega

theorem apart_blank_alphanumeric : apart blankRanges alphanumericRanges = true := by
  decide +kernel

theorem le_toNat_of_isAlphanum {c : Char} (h : c.isAlphanum = true) : 48 ≤ c.toNat := by
  rcases Bool.or_eq_true_iff.mp h with halpha | hdigit
  · rcases Bool.or_eq_true_iff.mp halpha with hupper | hlower
    · have hle : 'A'.val ≤ c.val := (of_decide_eq_true hupper).1
      exact Nat.le_trans (by decide) (UInt32.le_iff_toNat_le.mp hle)
    · have hle : 'a'.val ≤ c.val := of_decide_eq_true (Bool.and_eq_true_iff.mp hlower).1
      exact Nat.le_trans (by decide) (UInt32.le_iff_toNat_le.mp hle)
  · have hle : '0'.val ≤ c.val := of_decide_eq_true (Bool.and_eq_true_iff.mp hdigit).1
    exact UInt32.le_iff_toNat_le.mp hle

/-- Of the ASCII characters, the blank ones stand in front of the digits and the letters. -/
theorem toNat_lt_of_isBlank {c : Char} (h : isBlank c = true) (hlow : c.toNat < 0x80) :
    c.toNat < 48 := by
  obtain ⟨r, hr, hin⟩ := List.any_eq_true.mp h
  have hsmall : ∀ r ∈ blankRanges, r.1 < 0x80 → r.2 < 48 := by decide
  rw [decide_eq_true_eq] at hin
  have hend := hsmall r hr (by omega)
  omega

theorem isAlphanumeric_of_isBlank {c : Char} (h : isBlank c = true) :
    isAlphanumeric c = false := by
  unfold isAlphanumeric
  split
  · rename_i hlow
    refine eq_false_of_ne_true fun halphanum => ?_
    have hlt := toNat_lt_of_isBlank h hlow
    have hle := le_toNat_of_isAlphanum halphanum
    omega
  · exact inRanges_eq_false_of_apart apart_blank_alphanumeric h

theorem isWordChar_of_isBlank {c : Char} (h : isBlank c = true) : isWordChar c = false := by
  have hne {d : Char} (hd : isBlank d = false) : (c == d) = false := by
    rw [beq_eq_false_iff_ne]
    rintro rfl
    rw [h] at hd
    cases hd
  rw [isWordChar, isAlphanumeric_of_isBlank h, hne (by decide), hne (by decide)]
  rfl

end Crossref.Text
