import Mathlib.Data.List.Induction
import Crossref.Text.Hex

/-!
# Runs of hexadecimal digits

`readHex_eq_ok_iff`: reading a fixed count of digits succeeds exactly where that
many of them stand, and gives the number that they write. What a run of digits
in either case writes is `HexDigit.number` (`hexNumber?_digits`).
-/

namespace Crossref.Text

/-- A digit that is written is read as what it stands for. -/
theorem hexValue?_digitChar {n : Nat} (h : n < 16) : hexValue? (Nat.digitChar n) = some n := by
  revert n
  decide

/-- Digits appended to the number `high`. -/
def appendHex? (high : Nat) (digits : List Char) : Option Nat :=
  digits.foldlM (fun high c => (hexValue? c).map (high * 16 + ·)) high

theorem appendHex?_cons (high : Nat) (c : Char) (ds : List Char) :
    appendHex? high (c :: ds) = (hexValue? c).bind fun d => appendHex? (high * 16 + d) ds := by
  unfold appendHex?
  rw [List.foldlM_cons]
  cases hexValue? c <;> rfl

theorem hexNumber?_of_ne_nil {ds : List Char} (h : ds ≠ []) :
    hexNumber? ds = appendHex? 0 ds := by
  rw [hexNumber?, if_neg h]
  rfl

theorem isSome_hexValue?_of_appendHex? {high n : Nat} {ds : List Char}
    (h : appendHex? high ds = some n) : ∀ c ∈ ds, (hexValue? c).isSome = true := by
  induction ds generalizing high with
  | nil => exact fun c hc => absurd hc List.not_mem_nil
  | cons d ds ih =>
      rw [appendHex?_cons] at h
      obtain ⟨x, hx, h⟩ := Option.bind_eq_some_iff.mp h
      intro c hc
      rcases List.mem_cons.mp hc with rfl | hc
      · rw [hx, Option.isSome_some]
      · exact ih h c hc

/-- What writes a number is digits throughout. -/
theorem isSome_hexValue?_of_hexNumber? {n : Nat} {ds : List Char} (h : hexNumber? ds = some n) :
    ∀ c ∈ ds, (hexValue? c).isSome = true := by
  by_cases hne : ds = []
  · rw [hexNumber?, if_pos hne] at h
    cases h
  · rw [hexNumber?_of_ne_nil hne] at h
    exact isSome_hexValue?_of_appendHex? h

theorem readHex_eq_ok_iff_append {count high n : Nat} {s r : List Char} :
    readHex count high s = .ok (n, r) ↔
      ∃ ds, ds.length = count ∧ s = ds ++ r ∧ appendHex? high ds = some n := by
  induction count generalizing high s with
  | zero =>
      simp only [readHex, List.length_eq_zero_iff, exists_eq_left, List.nil_append]
      constructor
      · intro h
        cases h
        exact ⟨rfl, rfl⟩
      · rintro ⟨rfl, h⟩
        cases h
        rfl
  | succ count ih =>
      cases s with
      | nil =>
          refine ⟨fun h => (nomatch h), ?_⟩
          rintro ⟨ds, hlen, hs, -⟩
          cases ds with
          | nil => cases hlen
          | cons d ds => cases hs
      | cons c s =>
          rw [readHex]
          constructor
          · intro h
            split at h
            · rename_i d hd
              obtain ⟨ds, hlen, rfl, hn⟩ := ih.mp h
              refine ⟨c :: ds, by rw [List.length_cons, hlen], rfl, ?_⟩
              rw [appendHex?_cons, hd]
              exact hn
            · cases h
          · rintro ⟨ds, hlen, hs, hn⟩
            cases ds with
            | nil => cases hlen
            | cons d ds =>
                obtain ⟨rfl, rfl⟩ := List.cons.inj hs
                rw [appendHex?_cons] at hn
                obtain ⟨x, hx, hn⟩ := Option.bind_eq_some_iff.mp hn
                rw [hx]
                exact ih.mpr ⟨ds, Nat.succ.inj hlen, rfl, hn⟩

theorem readHex_eq_ok_iff {count n : Nat} (hcount : count ≠ 0) {s r : List Char} :
    readHex count 0 s = .ok (n, r) ↔
      ∃ ds, ds.length = count ∧ s = ds ++ r ∧ hexNumber? ds = some n := by
  rw [readHex_eq_ok_iff_append]
  refine exists_congr fun ds => and_congr_right fun hlen => ?_
  have hne : ds ≠ [] := fun h => hcount (by rw [← hlen, h]; rfl)
  rw [hexNumber?_of_ne_nil hne]

/-- A number below 256 is written with as many zeros as it takes to fill four digits. -/
theorem hexNumber?_digitChars {n : Nat} (h : n < 256) :
    hexNumber? ['0', '0', Nat.digitChar (n / 16), Nat.digitChar (n % 16)] = some n := by
  have hzero : hexValue? '0' = some 0 := by decide
  have hhigh : n / 16 < 16 := by omega
  have hlow : n % 16 < 16 := by omega
  have hsum : n / 16 * 16 + n % 16 = n := by omega
  rw [hexNumber?_of_ne_nil (List.cons_ne_nil _ _)]
  simp only [appendHex?_cons, hzero, hexValue?_digitChar hhigh, hexValue?_digitChar hlow,
    Option.bind_some, Nat.zero_mul, Nat.zero_add, hsum]
  rfl

/-! ## Digits in either case -/

/-- A digit as it is written: its value, and the case of a letter. -/
structure HexDigit where
  value : Fin 16
  upper : Bool
deriving Repr, DecidableEq

namespace HexDigit

def char (d : HexDigit) : Char :=
  if d.upper then (Nat.digitChar d.value).toUpper else Nat.digitChar d.value

/-- The number that digits write, the first of them the highest. -/
def number (ds : List HexDigit) : Nat := ds.foldl (fun high d => high * 16 + d.value.val) 0

theorem hexValue?_char (d : HexDigit) : hexValue? d.char = some d.value.val := by
  obtain ⟨value, upper⟩ := d
  revert value upper
  decide

theorem appendHex?_digits (high : Nat) (ds : List HexDigit) :
    appendHex? high (ds.map char) =
      some (ds.foldl (fun high d => high * 16 + d.value.val) high) := by
  induction ds generalizing high with
  | nil => rfl
  | cons d ds ih => rw [List.map_cons, appendHex?_cons, hexValue?_char, Option.bind_some, ih]; rfl

theorem hexNumber?_digits {ds : List HexDigit} (h : ds ≠ []) :
    hexNumber? (ds.map char) = some (number ds) := by
  rw [hexNumber?_of_ne_nil (List.map_eq_nil_iff.not.mpr h), appendHex?_digits]
  rfl

theorem number_concat (ds : List HexDigit) (d : HexDigit) :
    number (ds ++ [d]) = number ds * 16 + d.value.val := by
  rw [number, List.foldl_append]
  rfl

/-- So many digits write a number with so many places. -/
theorem number_lt (ds : List HexDigit) : number ds < Nat.pow 16 ds.length := by
  induction ds using List.reverseRecOn with
  | nil => decide
  | append_singleton ds d ih =>
      have hd := d.value.isLt
      rw [number_concat, List.length_append, List.length_singleton]
      change _ < Nat.pow 16 ds.length * 16
      omega

end HexDigit

end Crossref.Text
