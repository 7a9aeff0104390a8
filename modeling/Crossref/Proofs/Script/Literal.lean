import Mathlib.Data.List.TakeWhile
import Crossref.Script.Literal
import Crossref.Proofs.Script.Token
import Crossref.Proofs.Text.Hex

/-!
# String literals as a grammar

`Literal s text r`: a literal that denotes `text` stands at the beginning of
`s`, and `r` follows. Between its quotes stand elements, each of them a raw
character or a backslash with what `Escape` allows behind it. The elements are
read one after the other and in one way only, which `readLiteral_eq_ok_iff`
sums up: reading succeeds exactly where a literal stands.
-/

namespace Crossref.Script

open Text (Piece scalar textOf hexNumber? hexValue? appendHex? readHex readHex_eq_ok_iff
  hexNumber?_of_ne_nil appendHex?_cons)

/-- The characters behind a backslash that do not stand for themselves, those
with a short escape apart. -/
def isSpecialEscape (c : Char) : Bool :=
  c == 'x' || c == 'u' || c == '\n' || c == '\r' || c == '\u2028' || c == '\u2029'

/-- What may follow a backslash, the piece that it denotes, and what is left. -/
inductive Escape : List Char → Piece → List Char → Prop where
  | short {c d : Char} {r : List Char} (h : shortEscape? c = some d) :
      Escape (c :: r) (.char d) r
  | byte {ds r : List Char} {n : Nat} (hlen : ds.length = 2) (h : hexNumber? ds = some n) :
      Escape ('x' :: (ds ++ r)) (.char (scalar n)) r
  | unit {ds r : List Char} {n : Nat} (hlen : ds.length = 4) (h : hexNumber? ds = some n) :
      Escape ('u' :: (ds ++ r)) (.unit n) r
  | codePoint {ds r : List Char} {n : Nat} (hclose : '}' ∉ ds) (h : codePoint? ds = some n) :
      Escape ('u' :: '{' :: (ds ++ '}' :: r)) (.char (scalar n)) r
  | continuation {c : Char} {r : List Char} (h : c = '\n' ∨ c = '\u2028' ∨ c = '\u2029') :
      Escape (c :: r) .gap r
  | carriageReturn {r : List Char} (h : ∀ s, r ≠ '\n' :: s) : Escape ('\r' :: r) .gap r
  | carriageReturnFeed {r : List Char} : Escape ('\r' :: '\n' :: r) .gap r
  | itself {c : Char} {r : List Char} (hshort : shortEscape? c = none)
      (hspecial : isSpecialEscape c = false) : Escape (c :: r) (.char c) r

/-- The elements of a literal up to its closing quote, and what is left behind it. -/
inductive Elements (quote : Char) : List Char → List Piece → List Char → Prop where
  | close (r : List Char) : Elements quote (quote :: r) [] r
  | raw {c : Char} {s r : List Char} {ps : List Piece} (hquote : c ≠ quote) (hback : c ≠ '\\')
      (hfeed : c ≠ '\n') (h : Elements quote s ps r) : Elements quote (c :: s) (.char c :: ps) r
  | escape {s u r : List Char} {p : Piece} {ps : List Piece} (he : Escape s p u)
      (h : Elements quote u ps r) : Elements quote ('\\' :: s) (p :: ps) r

inductive Literal : List Char → String → List Char → Prop where
  | quoted {quote : Char} {s r : List Char} {ps : List Piece}
      (hquote : quote = '"' ∨ quote = '\'') (h : Elements quote s ps r) :
      Literal (quote :: s) (String.ofList (textOf ps)) r

/-! ## Escapes -/

theorem readDigits_eq_ok_iff {count n : Nat} (hcount : count ≠ 0) {s r : List Char} :
    readDigits count s = .ok (n, r) ↔
      ∃ ds, ds.length = count ∧ s = ds ++ r ∧ hexNumber? ds = some n := by
  rw [← readHex_eq_ok_iff hcount]
  unfold readDigits
  split
  · rename_i hread
    rw [hread]
    simp
  · rename_i hread
    rw [hread]
    simp

/-- Digits do not begin with a brace. -/
theorem ne_brace_of_hexNumber? {c : Char} {ds : List Char} {n : Nat}
    (h : hexNumber? (c :: ds) = some n) : c ≠ '{' := by
  rintro rfl
  rw [hexNumber?_of_ne_nil (List.cons_ne_nil _ _), appendHex?_cons] at h
  cases h

theorem readUnicode_digits {c : Char} (hc : c ≠ '{') (s : List Char) :
    readUnicode (c :: s) =
      match readDigits 4 (c :: s) with
      | .ok (n, r) => .ok (.unit n, r)
      | .error f => .error f := by
  unfold readUnicode
  split
  · rename_i t he
    exact absurd (List.head_eq_of_cons_eq he) hc
  · rfl

/-- What closed braces make of their content. -/
theorem readUnicode_closed {ds : List Char} (hclose : '}' ∉ ds) (r : List Char) :
    readUnicode ('{' :: (ds ++ '}' :: r)) =
      match codePoint? ds with
      | some n => .ok (.char (scalar n), r)
      | none => .error ⟨.invalidCodePoint ds, ds ++ '}' :: r⟩ := by
  have hall : ∀ c ∈ ds, (c != '}') = true := fun c hc => by
    simpa using fun he : c = '}' => hclose (he ▸ hc)
  have hdrop : (ds ++ '}' :: r).dropWhile (· != '}') = '}' :: r := by
    rw [List.dropWhile_append_of_pos hall, List.dropWhile_cons_of_neg (by simp)]
  have htake : (ds ++ '}' :: r).takeWhile (· != '}') = ds := by
    rw [List.takeWhile_append_of_pos hall, List.takeWhile_cons_of_neg (by simp), List.append_nil]
  unfold readUnicode
  cases hcode : codePoint? ds <;> simp only [hdrop, htake, hcode]

theorem readUnicode_unclosed {s : List Char} (h : '}' ∉ s) :
    readUnicode ('{' :: s) = .error ⟨.unterminatedCodePoint, s⟩ := by
  have hdrop : s.dropWhile (· != '}') = [] := List.dropWhile_eq_nil_iff.mpr fun c hc => by
    simpa using fun he : c = '}' => h (he ▸ hc)
  unfold readUnicode
  simp only [hdrop]

theorem readUnicode_braces {ds r : List Char} {n : Nat} (hclose : '}' ∉ ds)
    (h : codePoint? ds = some n) :
    readUnicode ('{' :: (ds ++ '}' :: r)) = .ok (.char (scalar n), r) := by
  rw [readUnicode_closed hclose, h]

theorem escape_of_readUnicode {s r : List Char} {p : Piece} (h : readUnicode s = .ok (p, r)) :
    Escape ('u' :: s) p r := by
  unfold readUnicode at h
  split at h
  · rename_i s
    split at h
    · cases h
    · rename_i d t hd
      have hbrace : d = '}' := by
        have := List.head?_dropWhile_not (fun c => c != '}') s
        rw [hd] at this
        simpa using this
      have hclose : '}' ∉ s.takeWhile (fun c => c != '}') := fun hm => by
        have := List.mem_takeWhile_imp hm
        simp at this
      have hs : s = s.takeWhile (fun c => c != '}') ++ '}' :: t := by
        subst hbrace
        rw [← hd, List.takeWhile_append_dropWhile]
      dsimp only at h
      split at h
      · rename_i n hn
        cases h
        rw [hs]
        exact .codePoint hclose hn
      · cases h
  · split at h
    · rename_i hread
      cases h
      obtain ⟨ds, hlen, rfl, hn⟩ := (readDigits_eq_ok_iff (by decide)).mp hread
      exact .unit hlen hn
    · cases h

theorem escape_of_readEscape {c : Char} {s r : List Char} {p : Piece}
    (h : readEscape c s = .ok (p, r)) : Escape (c :: s) p r := by
  unfold readEscape at h
  split at h
  · rename_i hx
    subst hx
    split at h
    · rename_i hread
      cases h
      obtain ⟨ds, hlen, rfl, hn⟩ := (readDigits_eq_ok_iff (by decide)).mp hread
      exact .byte hlen hn
    · cases h
  · rename_i hx
    split at h
    · rename_i hu
      subst hu
      exact escape_of_readUnicode h
    · rename_i hu
      split at h
      · rename_i hline
        cases h
        exact .continuation hline
      · rename_i hline
        split at h
        · rename_i hcr
          subst hcr
          split at h
          · cases h
            exact .carriageReturnFeed
          · rename_i hfeed
            cases h
            exact .carriageReturn hfeed
        · rename_i hcr
          cases h
          cases hshort : shortEscape? c with
          | some d => exact .short hshort
          | none =>
              refine .itself hshort ?_
              rw [not_or, not_or] at hline
              simp [isSpecialEscape, hx, hu, hcr, hline]

theorem readEscape_of_escape {c : Char} {s r : List Char} {p : Piece}
    (h : Escape (c :: s) p r) : readEscape c s = .ok (p, r) := by
  cases h with
  | short h =>
      unfold shortEscape? at h
      split at h <;> cases h <;> rfl
  | @byte ds _ n hlen h =>
      have hread : readDigits 2 (ds ++ r) = .ok (n, r) :=
        (readDigits_eq_ok_iff (by decide)).mpr ⟨ds, hlen, rfl, h⟩
      unfold readEscape
      rw [if_pos rfl, hread]
  | @unit ds _ n hlen h =>
      have hread : readDigits 4 (ds ++ r) = .ok (n, r) :=
        (readDigits_eq_ok_iff (by decide)).mpr ⟨ds, hlen, rfl, h⟩
      cases ds with
      | nil => cases hlen
      | cons d ds =>
          unfold readEscape
          rw [if_neg (by decide), if_pos rfl]
          rw [List.cons_append] at hread ⊢
          rw [readUnicode_digits (ne_brace_of_hexNumber? h), hread]
  | codePoint hclose h =>
      unfold readEscape
      rw [if_neg (by decide), if_pos rfl, readUnicode_braces hclose h]
  | continuation h => rcases h with rfl | rfl | rfl <;> rfl
  | carriageReturn h =>
      unfold readEscape
      rw [if_neg (by decide), if_neg (by decide), if_neg (by decide), if_pos rfl]
      split
      · rename_i t
        exact absurd rfl (h t)
      · rfl
  | carriageReturnFeed => rfl
  | itself hshort hspecial =>
      simp only [isSpecialEscape, Bool.or_eq_false_iff, beq_eq_false_iff_ne] at hspecial
      obtain ⟨⟨⟨⟨⟨hx, hu⟩, hn⟩, hr⟩, hls⟩, hps⟩ := hspecial
      unfold readEscape
      rw [if_neg hx, if_neg hu, if_neg (by simp [hn, hls, hps]), if_neg hr, hshort]
      rfl

theorem readEscape_eq_ok_iff {c : Char} {s r : List Char} {p : Piece} :
    readEscape c s = .ok (p, r) ↔ Escape (c :: s) p r :=
  ⟨escape_of_readEscape, readEscape_of_escape⟩

/-! ## Elements and literals -/

theorem readPieces_raw {c quote : Char} (hquote : c ≠ quote) (hback : c ≠ '\\')
    (hfeed : c ≠ '\n') (opening s : List Char) :
    readPieces quote opening (c :: s) =
      (readPieces quote opening s).map fun (ps, r) => (.char c :: ps, r) := by
  rw [readPieces, if_neg hfeed, if_neg hquote]
  · cases readPieces quote opening s <;> rfl
  · exact fun hc => absurd hc hback
  · exact fun _ _ hc => absurd hc hback

theorem readPieces_close {quote : Char} (hback : quote ≠ '\\') (hfeed : quote ≠ '\n')
    (opening s : List Char) : readPieces quote opening (quote :: s) = .ok ([], s) := by
  rw [readPieces, if_neg hfeed, if_pos rfl]
  · exact fun hc => absurd hc hback
  · exact fun _ _ hc => absurd hc hback

theorem readPieces_escape {t u : List Char} {p : Piece} (h : Escape t p u) (quote : Char)
    (opening : List Char) :
    readPieces quote opening ('\\' :: t) =
      (readPieces quote opening u).map fun (ps, r) => (p :: ps, r) := by
  cases t with
  | nil => cases h
  | cons c s =>
      have hread := readEscape_of_escape h
      rw [readPieces]
      split
      · rename_i hf
        rw [hread] at hf
        cases hf
      · rename_i hp
        rw [hread] at hp
        cases hp
        cases readPieces quote opening u <;> rfl

theorem readPieces_escape_error {c : Char} {s : List Char} {f : Failure}
    (h : readEscape c s = .error f) (quote : Char) (opening : List Char) :
    readPieces quote opening ('\\' :: c :: s) = .error f := by
  rw [readPieces]
  split
  · rename_i hf
    rw [h] at hf
    cases hf
    rfl
  · rename_i hp
    rw [h] at hp
    cases hp

theorem elements_of_readPieces {quote : Char} {opening s r : List Char} {ps : List Piece}
    (h : readPieces quote opening s = .ok (ps, r)) : Elements quote s ps r := by
  fun_induction readPieces quote opening s generalizing ps r with
  | case1 => cases h
  | case2 => cases h
  | case3 => cases h
  | case4 => cases h
  | case5 c t p u he ps' rest hr ih =>
      cases h
      exact .escape (escape_of_readEscape he) (ih hr)
  | case6 => cases h
  | case7 =>
      cases h
      exact .close _
  | case8 => cases h
  | case9 c t hlast hback hfeed hquote ps' rest hr ih =>
      cases h
      refine .raw hquote (fun hc => ?_) hfeed (ih hr)
      cases t with
      | nil => exact hlast hc rfl
      | cons d t => exact hback d t hc rfl

theorem readPieces_of_elements {quote : Char} (hq : quote = '"' ∨ quote = '\'')
    (opening : List Char) {s r : List Char} {ps : List Piece} (h : Elements quote s ps r) :
    readPieces quote opening s = .ok (ps, r) := by
  have hne : quote ≠ '\\' ∧ quote ≠ '\n' := by rcases hq with rfl | rfl <;> decide
  induction h with
  | close r => exact readPieces_close hne.1 hne.2 opening r
  | raw hquote hback hfeed _ ih =>
      rw [readPieces_raw hquote hback hfeed, ih]
      rfl
  | escape he _ ih =>
      rw [readPieces_escape he, ih]
      rfl

theorem readLiteral_eq_ok_iff {s r : List Char} {text : String} :
    readLiteral s = .ok (text, r) ↔ Literal s text r := by
  constructor
  · intro h
    unfold readLiteral at h
    split at h
    · split at h
      · rename_i hquote
        split at h
        · rename_i hread
          cases h
          exact .quoted hquote (elements_of_readPieces hread)
        · cases h
      · cases h
    · cases h
  · intro h
    cases h with
    | quoted hquote h =>
        unfold readLiteral
        simp only [if_pos hquote, readPieces_of_elements hquote _ h]

/-- No trivia begins where a literal stands. -/
theorem Literal.solid {s r : List Char} {text : String} (h : Literal s text r) :
    afterTrivia s = s := by
  cases h with
  | quoted hquote _ => exact afterTrivia_of_isSolid (by rcases hquote with rfl | rfl <;> decide) _

end Crossref.Script
