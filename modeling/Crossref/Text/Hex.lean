/-!
# Hexadecimal digits

Digits of either case are read; lower-case digits are written.
-/

namespace Crossref.Text

/-- The value of a hexadecimal digit, `none` for any other character. -/
def hexValue? (c : Char) : Option Nat :=
  if '0' ≤ c ∧ c ≤ '9' then some (c.toNat - 48)
  else if 'a' ≤ c ∧ c ≤ 'f' then some (c.toNat - 87)
  else if 'A' ≤ c ∧ c ≤ 'F' then some (c.toNat - 55)
  else none

theorem hexValue?_lt {c : Char} {d : Nat} (h : hexValue? c = some d) : d < 16 := by
  unfold hexValue? at h
  split at h
  · rename_i hc
    have h1 : c.toNat ≤ 57 := hc.2
    have := Option.some.inj h
    omega
  · split at h
    · rename_i hc
      have h1 : c.toNat ≤ 102 := hc.2
      have := Option.some.inj h
      omega
    · split at h
      · rename_i hc
        have h1 : c.toNat ≤ 70 := hc.2
        have := Option.some.inj h
        omega
      · cases h

/-- Reads exactly `count` digits on top of `high`; fails at the first character that is none. -/
def readHex : (count high : Nat) → List Char → Except (List Char) (Nat × List Char)
  | 0, high, s => .ok (high, s)
  | _ + 1, _, [] => .error []
  | count + 1, high, c :: s =>
    match hexValue? c with
    | some d => readHex count (high * 16 + d) s
    | none => .error (c :: s)

/-- The number that a run of digits writes, if it is not empty and all are digits. -/
def hexNumber? (digits : List Char) : Option Nat :=
  if digits = [] then none
  else digits.foldlM (fun high c => (hexValue? c).map (high * 16 + ·)) 0

/-- The lower-case digits of a number, without leading zeros. -/
def hexDigits (n : Nat) : List Char := Nat.toDigits 16 n

theorem suffix_of_readHex {count high n : Nat} {s r : List Char}
    (h : readHex count high s = .ok (n, r)) : r <:+ s := by
  fun_induction readHex count high s with
  | case1 =>
    cases h
    exact List.suffix_refl _
  | case2 => cases h
  | case3 _ _ _ _ _ _ ih => exact (ih h).trans (List.suffix_cons _ _)
  | case4 => cases h

end Crossref.Text
