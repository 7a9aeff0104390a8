/-!
# Offsets in bytes

A scanner counts the bytes of the encoded text. Not every count is a place in it: `cutAt? s n` has
the text before and behind the offset `n` exactly where `n` lies within the text and on the boundary
of its characters (`cutAt?_eq_some_iff`), which are the valid offsets of core's strings
(`isValid_iff_isSome_cutAt?`).

The reader proper counts nothing and knows a place by the text that is left there. `place source s`
is the offset of that place; on the ends of one source it grows as they shrink (`place_lt_place`).
-/

namespace Crossref.Text

/-- The number of bytes that encode the text. -/
def bytes : List Char → Nat
  | [] => 0
  | c :: s => c.utf8Size + bytes s

@[simp] theorem bytes_nil : bytes [] = 0 := rfl

@[simp] theorem bytes_cons (c : Char) (s : List Char) : bytes (c :: s) = c.utf8Size + bytes s := rfl

@[simp] theorem bytes_append (s t : List Char) : bytes (s ++ t) = bytes s + bytes t := by
  induction s with
  | nil => rw [List.nil_append, bytes_nil, Nat.zero_add]
  | cons c s ih => rw [List.cons_append, bytes_cons, bytes_cons, ih, Nat.add_assoc]

theorem bytes_eq_utf8ByteSize (s : String) : bytes s.toList = s.utf8ByteSize := by
  rw [← String.ofList_toList (s := s), String.toList_ofList]
  generalize s.toList = cs
  induction cs with
  | nil => rfl
  | cons c cs ih =>
      have hcons : String.ofList (c :: cs) = String.singleton c ++ String.ofList cs := by
        rw [← String.toList_inj]
        simp
      rw [hcons, String.utf8ByteSize_append, String.utf8ByteSize_singleton, bytes_cons, ih]

/-- The text before and behind the offset `n`, unless that lies outside or within a character. -/
def cutAt? : List Char → Nat → Option (List Char × List Char)
  | s, 0 => some ([], s)
  | [], _ + 1 => none
  | c :: s, n + 1 =>
    if c.utf8Size ≤ n + 1 then
      (cutAt? s (n + 1 - c.utf8Size)).map fun (before, behind) => (c :: before, behind)
    else none

theorem cutAt?_eq_some_iff {s before behind : List Char} {n : Nat} :
    cutAt? s n = some (before, behind) ↔ s = before ++ behind ∧ n = bytes before := by
  fun_induction cutAt? s n generalizing before with
  | case1 s =>
      constructor
      · rintro ⟨⟩
        exact ⟨rfl, rfl⟩
      · rintro ⟨rfl, hn⟩
        cases before with
        | nil => rfl
        | cons c before =>
            have := c.utf8Size_pos
            rw [bytes_cons] at hn
            omega
  | case2 n =>
      constructor
      · rintro ⟨⟩
      · rintro ⟨hs, hn⟩
        obtain ⟨rfl, rfl⟩ := List.append_eq_nil_iff.mp hs.symm
        cases hn
  | case3 c s n hc ih =>
      rw [Option.map_eq_some_iff]
      constructor
      · rintro ⟨⟨before', behind'⟩, hcut, he⟩
        cases he
        obtain ⟨rfl, hn⟩ := ih.mp hcut
        refine ⟨rfl, ?_⟩
        rw [bytes_cons]
        omega
      · rintro ⟨hs, hn⟩
        cases before with
        | nil => cases hn
        | cons d before =>
            obtain ⟨rfl, rfl⟩ := List.cons.inj hs
            rw [bytes_cons] at hn
            exact ⟨(before, behind), ih.mpr ⟨rfl, by omega⟩, rfl⟩
  | case4 c s n hc =>
      constructor
      · rintro ⟨⟩
      · rintro ⟨hs, hn⟩
        cases before with
        | nil => cases hn
        | cons d before =>
            obtain ⟨rfl, -⟩ := List.cons.inj hs
            rw [bytes_cons] at hn
            omega

/-- The offsets that cut a string are its valid positions. -/
theorem isValid_iff_isSome_cutAt? {s : String} {n : Nat} :
    (String.Pos.Raw.mk n).IsValid s ↔ (cutAt? s.toList n).isSome = true := by
  rw [String.Pos.Raw.isValid_iff_exists_append, Option.isSome_iff_exists]
  constructor
  · rintro ⟨before, behind, rfl, hn⟩
    refine ⟨(before.toList, behind.toList), cutAt?_eq_some_iff.mpr ⟨String.toList_append, ?_⟩⟩
    rw [bytes_eq_utf8ByteSize]
    exact congrArg String.Pos.Raw.byteIdx hn
  · rintro ⟨⟨before, behind⟩, hcut⟩
    obtain ⟨hs, rfl⟩ := cutAt?_eq_some_iff.mp hcut
    refine ⟨String.ofList before, String.ofList behind, ?_, ?_⟩
    · rw [← String.toList_inj, String.toList_append, String.toList_ofList, String.toList_ofList, hs]
    · rw [← String.toList_ofList (l := before), bytes_eq_utf8ByteSize, String.ofList_toList]
      rfl

/-! ## The place of what is left -/

/-- The offset at which `s` is left of the source. -/
def place (source s : List Char) : Nat := bytes (source.take (source.length - s.length))

theorem take_of_suffix {source before s : List Char} (h : source = before ++ s) :
    source.take (source.length - s.length) = before := by
  rw [h, List.length_append, Nat.add_sub_cancel, List.take_left]

theorem place_append (before s : List Char) : place (before ++ s) s = bytes before := by
  rw [place, take_of_suffix rfl]

@[simp] theorem place_self (source : List Char) : place source source = 0 := by
  rw [place, Nat.sub_self, List.take_zero, bytes_nil]

@[simp] theorem place_nil (source : List Char) : place source [] = bytes source := by
  rw [place, List.length_nil, Nat.sub_zero, List.take_length]

theorem cutAt?_place {source s : List Char} (h : s <:+ source) :
    cutAt? source (place source s) = some (source.take (source.length - s.length), s) := by
  obtain ⟨before, rfl⟩ := h
  rw [take_of_suffix rfl, place_append]
  exact cutAt?_eq_some_iff.mpr ⟨rfl, rfl⟩

/-- Behind the next characters the offset is larger by their bytes. -/
theorem place_add {source t s : List Char} (h : t ++ s <:+ source) :
    place source (t ++ s) + bytes t = place source s := by
  obtain ⟨before, rfl⟩ := h
  rw [place_append, ← List.append_assoc, place_append, bytes_append]

theorem bytes_pos {s : List Char} (h : s ≠ []) : 0 < bytes s := by
  cases s with
  | nil => exact absurd rfl h
  | cons c s =>
      have := c.utf8Size_pos
      rw [bytes_cons]
      omega

/-- Where less is left, the offset is larger. -/
theorem place_lt_place {source s r : List Char} (hs : s <:+ source) (hr : r <:+ source)
    (hlt : r.length < s.length) : place source s < place source r := by
  obtain ⟨t, rfl⟩ := List.suffix_of_suffix_length_le hr hs (Nat.le_of_lt hlt)
  have ht : t ≠ [] := by
    rintro rfl
    exact Nat.lt_irrefl _ hlt
  have := bytes_pos ht
  rw [← place_add hs]
  omega

end Crossref.Text
