/-!
# Bytes and text

Names and files are strings of bytes; those that are well-formed UTF-8 are text. Of others, the
well-formed parts can still be shown.
-/

namespace Crossref.Text

/-- The text that bytes encode, if they are well-formed. -/
def decodeUtf8? (bytes : List UInt8) : Option String := String.fromUTF8? ⟨bytes.toArray⟩

def encodeUtf8 (s : String) : List UInt8 := s.toByteArray.data.toList

@[simp] theorem decodeUtf8?_encodeUtf8 (s : String) : decodeUtf8? (encodeUtf8 s) = some s := by
  have h : (ByteArray.mk (encodeUtf8 s).toArray) = s.toByteArray := by simp [encodeUtf8]
  unfold decodeUtf8? String.fromUTF8?
  rw [h, dif_pos s.isValidUTF8]
  rfl

/-! ## Ill-formed bytes -/

/-- The ranges that the bytes behind a leading byte keep to, one after the other. Only the second
byte of a character may be held to less than all continuation bytes: this rules out long forms,
surrogates and what lies beyond the last code point. -/
def continuationRanges (lead : UInt8) : List (UInt8 × UInt8) :=
  let all : UInt8 × UInt8 := (0x80, 0xbf)
  if lead < 0xc2 then []
  else if lead < 0xe0 then [all]
  else if lead = 0xe0 then [(0xa0, 0xbf), all]
  else if lead = 0xed then [(0x80, 0x9f), all]
  else if lead < 0xf0 then [all, all]
  else if lead = 0xf0 then [(0x90, 0xbf), all, all]
  else if lead < 0xf4 then [all, all, all]
  else if lead = 0xf4 then [(0x80, 0x8f), all, all]
  else []

/-- Takes bytes as long as each keeps to its range. -/
def takeWithin : List (UInt8 × UInt8) → List UInt8 → List UInt8 × List UInt8
  | (low, high) :: ranges, b :: r =>
    if low ≤ b ∧ b ≤ high then
      let (taken, rest) := takeWithin ranges r
      (b :: taken, rest)
    else ([], b :: r)
  | _, r => ([], r)

theorem length_takeWithin_le (ranges : List (UInt8 × UInt8)) (bytes : List UInt8) :
    (takeWithin ranges bytes).2.length ≤ bytes.length := by
  fun_induction takeWithin ranges bytes with
  | case1 low high ranges b r _ taken rest h ih =>
    rw [h] at ih
    exact Nat.le_succ_of_le ih
  | case2 => exact Nat.le_refl _
  | case3 => exact Nat.le_refl _

/-- Text for people. A byte and the longest run behind it that could go on to a character are one
part; a part that is no character becomes U+FFFD. -/
def decodeLossy (bytes : List UInt8) : String :=
  match bytes with
  | [] => ""
  | b :: r =>
    let part := takeWithin (continuationRanges b) r
    (decodeUtf8? (b :: part.1)).getD "\uFFFD" ++ decodeLossy part.2
termination_by bytes.length
decreasing_by
  have := length_takeWithin_le (continuationRanges b) r
  simp only [List.length_cons]
  omega

end Crossref.Text
