import Crossref.Text.Utf8

/-!
# The order of bytes

Texts are ordered by their characters, and the bytes that encode them keep the
order (`lex_encodeUtf8`). Of two characters the smaller one has the smaller
leading byte, or they agree in their first bytes and it is smaller in the next
one (`partsBelow_utf8EncodeChar`); in either case the rest of the text does not
matter.

A byte that is a character of its own stands for nothing else
(`mem_of_mem_encodeUtf8`).
-/

namespace Crossref.Text

open String (utf8EncodeChar utf8EncodeChar_ne_nil)

/-- Neither list goes on where the other ends: they part at some place, and `u`
is below `v` there. -/
def PartsBelow (u v : List UInt8) : Prop :=
  ∃ p x y u' v', x < y ∧ u = p ++ x :: u' ∧ v = p ++ y :: v'

theorem PartsBelow.lex {u v : List UInt8} (h : PartsBelow u v) (s t : List UInt8) :
    List.Lex (· < ·) (u ++ s) (v ++ t) := by
  obtain ⟨p, x, y, u', v', hlt, rfl, rfl⟩ := h
  induction p with
  | nil => exact .rel hlt
  | cons b p ih => exact .cons ih

/-- If the first bytes do not decide, what follows must. -/
theorem partsBelow_cons {m n : Nat} {u v : List UInt8} (hn : n < 256) (hle : m ≤ n)
    (h : m = n → PartsBelow u v) : PartsBelow (UInt8.ofNat m :: u) (UInt8.ofNat n :: v) := by
  rcases Nat.lt_or_eq_of_le hle with hlt | rfl
  · refine ⟨[], _, _, u, v, ?_, rfl, rfl⟩
    rw [UInt8.lt_iff_toNat_lt]
    simp only [UInt8.toNat_ofNat']
    omega
  · obtain ⟨p, x, y, u', v', hlt, rfl, rfl⟩ := h rfl
    exact ⟨_ :: p, x, y, u', v', hlt, rfl, rfl⟩

/-- Characters of more bytes have greater leading bytes; those of equally many
bytes are compared digit by digit. -/
theorem partsBelow_utf8EncodeChar {c d : Char} (h : c < d) :
    PartsBelow (utf8EncodeChar c) (utf8EncodeChar d) := by
  have hlt : c.val.toNat < d.val.toNat := h
  have hd : d.val.toNat < 0x110000 := by
    have hvalid := d.valid
    simp only [UInt32.isValidChar, Nat.isValidChar] at hvalid
    omega
  unfold utf8EncodeChar
  generalize c.val.toNat = m at hlt
  generalize d.val.toNat = n at hlt hd
  dsimp only
  split
  · split
    · exact partsBelow_cons (by omega) (by omega) fun heq => by omega
    · split
      · exact partsBelow_cons (by omega) (by omega) fun heq => by omega
      · split <;> exact partsBelow_cons (by omega) (by omega) fun heq => by omega
  · split
    · split
      · omega
      · split
        · exact partsBelow_cons (by omega) (by omega) fun _ =>
            partsBelow_cons (by omega) (by omega) fun heq => by omega
        · split <;> exact partsBelow_cons (by omega) (by omega) fun heq => by omega
    · split
      · split
        · omega
        · split
          · omega
          · split
            · exact partsBelow_cons (by omega) (by omega) fun _ =>
                partsBelow_cons (by omega) (by omega) fun _ =>
                  partsBelow_cons (by omega) (by omega) fun heq => by omega
            · exact partsBelow_cons (by omega) (by omega) fun heq => by omega
      · split
        · omega
        · split
          · omega
          · split
            · omega
            · exact partsBelow_cons (by omega) (by omega) fun _ =>
                partsBelow_cons (by omega) (by omega) fun _ =>
                  partsBelow_cons (by omega) (by omega) fun _ =>
                    partsBelow_cons (by omega) (by omega) fun heq => by omega

theorem encodeUtf8_eq_flatMap (s : String) : encodeUtf8 s = s.toList.flatMap utf8EncodeChar := by
  rw [encodeUtf8, ← String.utf8Encode_toList, List.utf8Encode, List.toList_data_toByteArray]

theorem encodeUtf8_append (s t : String) : encodeUtf8 (s ++ t) = encodeUtf8 s ++ encodeUtf8 t := by
  simp only [encodeUtf8_eq_flatMap, String.toList_append, List.flatMap_append]

theorem lex_flatMap_utf8EncodeChar {s t : List Char} (h : List.Lex (· < ·) s t) :
    List.Lex (· < ·) (s.flatMap utf8EncodeChar) (t.flatMap utf8EncodeChar) := by
  induction h with
  | @nil c t =>
      obtain ⟨b, bs, hbs⟩ := List.exists_cons_of_ne_nil (utf8EncodeChar_ne_nil (c := c))
      rw [List.flatMap_nil, List.flatMap_cons, hbs]
      exact .nil
  | rel hlt =>
      rw [List.flatMap_cons, List.flatMap_cons]
      exact (partsBelow_utf8EncodeChar hlt).lex _ _
  | @cons c s t _ ih =>
      rw [List.flatMap_cons, List.flatMap_cons]
      induction utf8EncodeChar c with
      | nil => exact ih
      | cons b bs ih' => exact .cons ih'

/-- The bytes of a smaller text are smaller. -/
theorem lex_encodeUtf8 {a b : String} (h : a < b) :
    List.Lex (· < ·) (encodeUtf8 a) (encodeUtf8 b) := by
  rw [encodeUtf8_eq_flatMap, encodeUtf8_eq_flatMap]
  exact lex_flatMap_utf8EncodeChar (String.lt_iff.mp h)

/-! ## Characters of one byte -/

/-- All bytes of a character of several bytes are above those of one byte. -/
theorem eq_of_mem_utf8EncodeChar {c d : Char} (hc : c.toNat < 128)
    (h : UInt8.ofNat c.toNat ∈ utf8EncodeChar d) : c = d := by
  refine Char.toNat_inj.mp ?_
  change _ = d.val.toNat
  unfold utf8EncodeChar at h
  generalize d.val.toNat = n at h
  generalize c.toNat = m at h hc
  have hbyte : ∀ k, UInt8.ofNat m = UInt8.ofNat k → m = k % 256 := fun k hk => by
    have htoNat := congrArg UInt8.toNat hk
    simp only [UInt8.toNat_ofNat'] at htoNat
    omega
  dsimp only at h
  split at h
  · have := hbyte _ (List.mem_singleton.mp h)
    omega
  · split at h
    · simp only [List.mem_cons, List.not_mem_nil, or_false] at h
      rcases h with h | h <;> have := hbyte _ h <;> omega
    · split at h
      · simp only [List.mem_cons, List.not_mem_nil, or_false] at h
        rcases h with h | h | h <;> have := hbyte _ h <;> omega
      · simp only [List.mem_cons, List.not_mem_nil, or_false] at h
        rcases h with h | h | h | h <;> have := hbyte _ h <;> omega

theorem mem_of_mem_encodeUtf8 {c : Char} (hc : c.toNat < 128) {s : String}
    (h : UInt8.ofNat c.toNat ∈ encodeUtf8 s) : c ∈ s.toList := by
  rw [encodeUtf8_eq_flatMap, List.mem_flatMap] at h
  obtain ⟨d, hd, hbyte⟩ := h
  rwa [eq_of_mem_utf8EncodeChar hc hbyte]

theorem encodeUtf8_inj {s t : String} : encodeUtf8 s = encodeUtf8 t ↔ s = t := by
  refine ⟨fun h => ?_, fun h => h ▸ rfl⟩
  have hback := congrArg decodeUtf8? h
  rw [decodeUtf8?_encodeUtf8, decodeUtf8?_encodeUtf8] at hback
  exact Option.some.inj hback

theorem encodeUtf8_of_decodeUtf8? {bytes : List UInt8} {s : String}
    (h : decodeUtf8? bytes = some s) : encodeUtf8 s = bytes := by
  unfold decodeUtf8? String.fromUTF8? at h
  split at h
  · cases h
    simp [encodeUtf8, String.fromUTF8]
  · cases h

end Crossref.Text
