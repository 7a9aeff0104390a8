import Crossref.Text.Utf16

/-!
# UTF-16

`Utf16 us t`: the code units `us` decode to the text `t`, where a surrogate that
belongs to no pair is replaced by U+FFFD. Every list of code units decodes to
one text, and a run of units among other pieces denotes that text, whatever
stands behind the run (`textOf_units`).
-/

namespace Crossref.Text

theorem isHighSurrogate_iff {u : Nat} : isHighSurrogate u = true ↔ 0xD800 ≤ u ∧ u ≤ 0xDBFF :=
  decide_eq_true_iff

theorem isLowSurrogate_iff {u : Nat} : isLowSurrogate u = true ↔ 0xDC00 ≤ u ∧ u ≤ 0xDFFF :=
  decide_eq_true_iff

/-- The code units that write a character: itself, or a pair of surrogates. -/
def unitsOf (c : Char) : List Nat :=
  if c.toNat < 0x10000 then [c.toNat]
  else [0xD800 + (c.toNat - 0x10000) / 0x400, 0xDC00 + (c.toNat - 0x10000) % 0x400]

/-- Code units and the text that they decode to. -/
inductive Utf16 : List Nat → List Char → Prop where
  | nil : Utf16 [] []
  | char {c : Char} {us : List Nat} {t : List Char} (h : Utf16 us t) :
      Utf16 (unitsOf c ++ us) (c :: t)
  | unpaired {u : Nat} {us : List Nat} {t : List Char} (hu : 0xD800 ≤ u ∧ u ≤ 0xDFFF)
      (hpair : isHighSurrogate u = true → ∀ v ∈ us.head?, isLowSurrogate v = false)
      (h : Utf16 us t) : Utf16 (u :: us) ('\uFFFD' :: t)

/-! ## Characters and code points -/

theorem scalar_toNat (c : Char) : scalar c.toNat = c := by
  have hvalid : c.toNat.isValidChar := c.valid
  rw [scalar, if_pos hvalid]
  exact Char.ofNat_toNat c

theorem scalar_surrogate {u : Nat} (h : 0xD800 ≤ u ∧ u ≤ 0xDFFF) : scalar u = '\uFFFD' := by
  have hinvalid : ¬u.isValidChar := by
    unfold Nat.isValidChar
    omega
  rw [scalar, if_neg hinvalid]

theorem exists_toNat {n : Nat} (h : n.isValidChar) : ∃ c : Char, c.toNat = n :=
  ⟨Char.ofNatAux n h, rfl⟩

theorem unitsOf_small {c : Char} (h : c.toNat < 0x10000) : unitsOf c = [c.toNat] := if_pos h

theorem unitsOf_eq_pair {c : Char} {u v : Nat} (hu : isHighSurrogate u = true)
    (hv : isLowSurrogate v = true) (hc : c.toNat = pairCode u v) : unitsOf c = [u, v] := by
  rw [isHighSurrogate_iff] at hu
  rw [isLowSurrogate_iff] at hv
  unfold pairCode at hc
  have hlarge : ¬c.toNat < 0x10000 := by omega
  have hhigh : 0xD800 + (c.toNat - 0x10000) / 0x400 = u := by omega
  have hlow : 0xDC00 + (c.toNat - 0x10000) % 0x400 = v := by omega
  rw [unitsOf, if_neg hlarge, hhigh, hlow]

/-- A character is no surrogate, and beyond the small ones it is that of a pair. -/
theorem unitsOf_cases (c : Char) :
    (unitsOf c = [c.toNat] ∧ isHighSurrogate c.toNat = false) ∨
      ∃ u v, unitsOf c = [u, v] ∧ isHighSurrogate u = true ∧ isLowSurrogate v = true ∧
        pairCode u v = c.toNat := by
  have hvalid : c.toNat < 0xD800 ∨ (0xDFFF < c.toNat ∧ c.toNat < 0x110000) := c.valid
  by_cases hsmall : c.toNat < 0x10000
  · refine .inl ⟨unitsOf_small hsmall, Bool.eq_false_iff.mpr fun h => ?_⟩
    rw [isHighSurrogate_iff] at h
    omega
  · refine .inr ⟨_, _, if_neg hsmall, isHighSurrogate_iff.mpr (by omega),
      isLowSurrogate_iff.mpr (by omega), ?_⟩
    unfold pairCode
    omega

/-! ## Decoding -/

/-- One more unit, if it does not begin a pair. -/
theorem Utf16.single {u : Nat} {us : List Nat} {t : List Char} (hu : u < 0x10000)
    (hpair : isHighSurrogate u = true → ∀ v ∈ us.head?, isLowSurrogate v = false)
    (h : Utf16 us t) : ∃ c, Utf16 (u :: us) (c :: t) := by
  by_cases hvalid : u.isValidChar
  · obtain ⟨c, rfl⟩ := exists_toNat hvalid
    have hc := Utf16.char (c := c) h
    rw [unitsOf_small hu] at hc
    exact ⟨c, hc⟩
  · have hsurrogate : 0xD800 ≤ u ∧ u ≤ 0xDFFF := by
      unfold Nat.isValidChar at hvalid
      omega
    exact ⟨_, .unpaired hsurrogate hpair h⟩

theorem Utf16.pair {u v : Nat} {us : List Nat} {t : List Char} (hu : isHighSurrogate u = true)
    (hv : isLowSurrogate v = true) (h : Utf16 us t) : ∃ c, Utf16 (u :: v :: us) (c :: t) := by
  have hvalid : (pairCode u v).isValidChar := by
    have hle := pairCode_le hu hv
    unfold pairCode Nat.isValidChar at *
    omega
  obtain ⟨c, hc⟩ := exists_toNat hvalid
  have hunits := Utf16.char (c := c) h
  rw [unitsOf_eq_pair hu hv hc] at hunits
  exact ⟨c, hunits⟩

/-- Any code units decode. -/
theorem exists_utf16 : ∀ {us : List Nat}, (∀ u ∈ us, u < 0x10000) → ∃ t, Utf16 us t
  | [], _ => ⟨[], .nil⟩
  | u :: us, hus => by
      by_cases hpair : isHighSurrogate u = true ∧ ∃ v ∈ us.head?, isLowSurrogate v = true
      · -- A pair is taken whole, so the units behind both are decoded first.
        obtain ⟨hu, v, hhead, hv⟩ := hpair
        obtain ⟨us, rfl⟩ := List.head?_eq_some_iff.mp hhead
        obtain ⟨t, ht⟩ := exists_utf16 fun w hw =>
          hus w (List.mem_cons_of_mem u (List.mem_cons_of_mem v hw))
        obtain ⟨c, hc⟩ := ht.pair hu hv
        exact ⟨_, hc⟩
      · obtain ⟨t, ht⟩ := exists_utf16 fun v hv => hus v (List.mem_cons_of_mem u hv)
        obtain ⟨c, hc⟩ := ht.single (hus u List.mem_cons_self)
          fun hu v hv => eq_false_of_ne_true fun hlow => hpair ⟨hu, v, hv, hlow⟩
        exact ⟨_, hc⟩
termination_by us => us.length

/-- A unit that does not begin a pair denotes its own character. -/
theorem textOf_alone {u : Nat} {ps : List Piece}
    (h : isHighSurrogate u = true → ∀ v qs, ps = .unit v :: qs → isLowSurrogate v = false) :
    textOf (.unit u :: ps) = scalar u :: textOf ps := by
  cases ps with
  | nil => rfl
  | cons p ps =>
      cases p with
      | char c => rfl
      | gap => rfl
      | unit v =>
          have hpair : ¬(isHighSurrogate u && isLowSurrogate v) = true := fun hp => by
            obtain ⟨hu, hv⟩ := (Bool.and_eq_true _ _).mp hp
            exact absurd hv (by simp [h hu v ps rfl])
          rw [textOf, if_neg hpair]

theorem textOf_unit {u : Nat} (h : isHighSurrogate u = false) (ps : List Piece) :
    textOf (.unit u :: ps) = scalar u :: textOf ps :=
  textOf_alone fun hu => absurd (h.symm.trans hu) Bool.false_ne_true

theorem textOf_pair {u v : Nat} (hu : isHighSurrogate u = true) (hv : isLowSurrogate v = true)
    (ps : List Piece) :
    textOf (.unit u :: .unit v :: ps) = scalar (pairCode u v) :: textOf ps := by
  rw [textOf, hu, hv]
  rfl

/-- The units of a character denote it, whatever stands behind them. -/
theorem textOf_unitsOf (c : Char) (ps : List Piece) :
    textOf ((unitsOf c).map .unit ++ ps) = c :: textOf ps := by
  rcases unitsOf_cases c with ⟨hone, hhigh⟩ | ⟨u, v, htwo, hu, hv, hcode⟩
  · rw [hone, List.map_singleton, List.singleton_append,
      textOf_unit hhigh, scalar_toNat]
  · rw [htwo]
    exact (textOf_pair hu hv ps).trans (by rw [hcode, scalar_toNat])

/-- A run of units denotes what they decode to, if the run ends where other pieces
begin. -/
theorem textOf_units {us : List Nat} {t : List Char} (h : Utf16 us t) {ps : List Piece}
    (hend : ∀ v qs, ps ≠ .unit v :: qs) : textOf (us.map .unit ++ ps) = t ++ textOf ps := by
  induction h with
  | nil => rfl
  | @char c us t _ ih => rw [List.map_append, List.append_assoc, textOf_unitsOf, ih]; rfl
  | @unpaired u us t hu hpair _ ih =>
      rw [List.map_cons, List.cons_append, textOf_alone, ih, scalar_surrogate hu]
      · rfl
      · intro hhigh v qs hqs
        cases us with
        | nil => exact absurd hqs (hend v qs)
        | cons w us =>
            obtain ⟨hw, -⟩ := List.cons.inj hqs
            exact hpair hhigh v (congrArg some (Piece.unit.inj hw))

/-- Of two high surrogates in front of a low one, the first is alone. -/
example : textOf [.unit 0xD83D, .unit 0xD83D, .unit 0xDE00, .unit 0xDE00, .gap] =
    ['\uFFFD', '😀', '\uFFFD'] := by decide

end Crossref.Text
