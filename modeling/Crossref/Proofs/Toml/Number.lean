import Mathlib.Data.List.Basic
import Crossref.Toml.Scalar

/-!
# Decimal numbers

A number written with decimal digits is read as it is written
(`scalar?_toDigits`): its digits are no word, have no mark of a base, no zero in
front of them and nothing behind them that would make them a date or a fraction.
-/

namespace Crossref.Toml

variable {c : Char} {s : List Char}

/-- A word is cut off where a character ends it that no word may follow. -/
theorem cutScalar_append_of {w : List Char} (hw : ∀ c ∈ w, endsScalar c = false)
    (hc : endsScalar c = true) (hspace : isSpace c = false) (r : List Char) :
    cutScalar (w ++ c :: r) = (w, c :: r) := by
  induction w with
  | nil => simp [cutScalar, hc, hspace]
  | cons d w ih =>
      have hd := hw d List.mem_cons_self
      rw [List.cons_append, cutScalar, hd, ih fun c hc => hw c (List.mem_cons_of_mem _ hc)]
      rfl

theorem endsScalar_of_isDigit (h : c.isDigit = true) : endsScalar c = false := by
  have hne (d : Char) (hd : d.isDigit = false) : c ≠ d := by
    rintro rfl
    rw [h] at hd
    cases hd
  simp [endsScalar, isSpace, hne]

theorem eq_zero_of_digitChar : ∀ {n : Nat}, n < 10 → Nat.digitChar n = '0' → n = 0 := by
  decide

/-- No number is written with a zero in front. -/
theorem head?_toDigits {n : Nat} (h : (Nat.toDigits 10 n).head? = some '0') : n = 0 := by
  induction n using Nat.strongRecOn with
  | ind n ih =>
      rw [Nat.toDigits_eq_if (by decide)] at h
      by_cases hlt : n < 10
      · rw [if_pos hlt] at h
        exact eq_zero_of_digitChar hlt (Option.some.inj h)
      · rw [if_neg hlt, List.head?_append_of_ne_nil _ Nat.toDigits_ne_nil] at h
        have hzero := ih (n / 10) (by omega) h
        omega

theorem hexValue?_of_isDigit (h : c.isDigit = true) : Text.hexValue? c = some (c.toNat - 48) := by
  rw [Text.hexValue?, if_pos]
  simpa [Char.isDigit, Char.le_def] using h

theorem digitsValue_eq_ofDigitChars (hs : ∀ c ∈ s, c.isDigit = true) :
    digitsValue 10 s = Nat.ofDigitChars 10 s 0 := by
  rw [digitsValue, Nat.ofDigitChars_eq_foldl]
  refine List.foldl_ext _ _ _ fun high c hc => ?_
  rw [hexValue?_of_isDigit (hs c hc), Option.getD_some, Nat.mul_comm]
  rfl

/-! What follows holds of any digits without a zero in front. -/

section

variable (hs : ∀ c ∈ s, c.isDigit = true)
include hs

theorem not_mem_digits (hc : c.isDigit = false) : c ∉ s := by
  intro hmem
  rw [hs c hmem] at hc
  cases hc

theorem unsigned_digits : unsigned s = s := by
  unfold unsigned
  split
  · exact absurd List.mem_cons_self (not_mem_digits hs (by decide : '+'.isDigit = false))
  · exact absurd List.mem_cons_self (not_mem_digits hs (by decide : '-'.isDigit = false))
  · rfl

theorem decimal?_digits (hne : s ≠ []) : decimal? s = some (digitsValue 10 s : Int) := by
  have hfilter : s.filter (· != '_') = s := by
    refine List.filter_eq_self.mpr fun c hc => ?_
    rw [bne_iff_ne]
    rintro rfl
    exact not_mem_digits hs (by decide) hc
  have hhead : s.head? ≠ some '-' := fun h =>
    not_mem_digits hs (by decide) (List.mem_of_mem_head? h)
  rw [decimal?, unsigned_digits hs, natural?, hfilter, if_pos ⟨hne, List.all_eq_true.mpr hs⟩]
  simp [hhead]

theorem digitScalar?_digits (hne : s ≠ []) (hzero : hasLeadingZero s = false) :
    digitScalar? s = some (.integer (some (digitsValue 10 s))) := by
  have hrest : s.dropWhile Char.isDigit = [] := by
    have h : (s ++ []).dropWhile Char.isDigit = [].dropWhile Char.isDigit :=
      List.dropWhile_append_of_pos hs
    rwa [List.append_nil] at h
  have hparts : partsDigits isHex s = true := by
    rw [partsDigits, List.splitOn_eq_singleton (not_mem_digits hs (by decide))]
    rfl
  rw [digitScalar?]
  simp [unsigned_digits hs, hrest, hne, hzero, hparts, decimal?_digits hs hne]

theorem scalar?_digits (hne : s ≠ []) (hzero : hasLeadingZero s = false) :
    scalar? s = some (.integer (some (digitsValue 10 s))) := by
  have hword (c : Char) (w : List Char) (hc : c.isDigit = false) : s ≠ c :: w := by
    rintro rfl
    exact not_mem_digits hs hc List.mem_cons_self
  have hmark (c d : Char) (w : List Char) (hc : d.isDigit = false) : s ≠ c :: d :: w := by
    rintro rfl
    exact not_mem_digits hs hc (List.mem_cons_of_mem _ List.mem_cons_self)
  rw [scalar?, if_neg (hword _ _ (by decide)), if_neg (hword _ _ (by decide)), unsigned_digits hs,
    if_neg (not_or.mpr ⟨hword _ _ (by decide), hword _ _ (by decide)⟩)]
  · exact digitScalar?_digits hs hne hzero
  · exact fun w h => hmark _ _ w (by decide) h
  · exact fun w h => hmark _ _ w (by decide) h
  · exact fun w h => hmark _ _ w (by decide) h

end

/-- A count is read as it is written. -/
theorem scalar?_toDigits (n : Nat) :
    scalar? (Nat.toDigits 10 n) = some (.integer (some n)) := by
  have hs : ∀ c ∈ Nat.toDigits 10 n, c.isDigit = true := fun c hc =>
    Nat.isDigit_of_mem_toDigits (by decide) (by decide) hc
  have hzero : hasLeadingZero (Nat.toDigits 10 n) = false := by
    rw [hasLeadingZero]
    by_cases hhead : (Nat.toDigits 10 n).head? = some '0'
    · rw [head?_toDigits hhead]
      rfl
    · rw [beq_false_of_ne hhead]
      rfl
  rw [scalar?_digits hs Nat.toDigits_ne_nil hzero, digitsValue_eq_ofDigitChars hs,
    Nat.ofDigitChars_ten_toDigits]

end Crossref.Toml
