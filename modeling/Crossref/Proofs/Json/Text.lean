import Crossref.Json.Text
import Crossref.Proofs.Text.Hex

/-!
# JSON strings as a grammar

`Chars u t` says that `u`, between double quotes, is a JSON string that denotes
`t`. `readText_eq_ok_iff` is the main statement: behind an opening quote, reading
succeeds exactly where such characters and a closing quote stand.
-/

namespace Crossref.Json

open Text (scalar isHighSurrogate isLowSurrogate pairCode hexNumber? readHex readHex_eq_ok_iff)

/-- What stands between the quotes of a string, and the text that it denotes. A
code unit that is half of a pair is written with its other half. -/
inductive Chars : List Char → List Char → Prop where
  | nil : Chars [] []
  | raw {c : Char} {u t : List Char} (hquote : c ≠ '"') (hback : c ≠ '\\') (hctrl : ¬ c < ' ')
      (h : Chars u t) : Chars (c :: u) (c :: t)
  | short {x c : Char} {u t : List Char} (hx : shortEscape? x = some c) (h : Chars u t) :
      Chars ('\\' :: x :: u) (c :: t)
  | unit {ds u t : List Char} {n : Nat} (hlen : ds.length = 4) (hn : hexNumber? ds = some n)
      (hlow : isLowSurrogate n = false) (hhigh : isHighSurrogate n = false) (h : Chars u t) :
      Chars ('\\' :: 'u' :: (ds ++ u)) (scalar n :: t)
  | pair {ds es u t : List Char} {m n : Nat} (hds : ds.length = 4) (hm : hexNumber? ds = some m)
      (hes : es.length = 4) (hn : hexNumber? es = some n) (hhigh : isHighSurrogate m = true)
      (hlow : isLowSurrogate n = true) (h : Chars u t) :
      Chars ('\\' :: 'u' :: (ds ++ '\\' :: 'u' :: (es ++ u))) (scalar (pairCode m n) :: t)

/-! ## Code units -/

theorem readUnit_eq_ok_iff {s r : List Char} {n : Nat} :
    readUnit s = .ok (n, r) ↔ ∃ ds, ds.length = 4 ∧ s = ds ++ r ∧ hexNumber? ds = some n := by
  rw [← readHex_eq_ok_iff (by decide)]
  unfold readUnit
  split
  · rename_i hread
    rw [hread, Except.ok.injEq, Except.ok.injEq]
  · rename_i hread
    rw [hread]
    exact ⟨fun h => (nomatch h), fun h => (nomatch h)⟩

theorem readLowUnit_eq_ok_iff {s r : List Char} {n : Nat} :
    readLowUnit s = .ok (n, r) ↔
      ∃ ds, ds.length = 4 ∧ s = '\\' :: 'u' :: (ds ++ r) ∧ hexNumber? ds = some n ∧
        isLowSurrogate n = true := by
  constructor
  · intro h
    unfold readLowUnit at h
    split at h
    · cases h
    · cases h
    · split at h
      · cases h
      · rename_i hread
        split at h
        · rename_i hlow
          cases h
          obtain ⟨ds, hlen, rfl, hn⟩ := readUnit_eq_ok_iff.mp hread
          exact ⟨ds, hlen, rfl, hn, hlow⟩
        · cases h
    · cases h
  · rintro ⟨ds, hlen, rfl, hn, hlow⟩
    unfold readLowUnit
    simp only [readUnit_eq_ok_iff.mpr ⟨ds, hlen, rfl, hn⟩, if_pos hlow]

theorem isLowSurrogate_of_high {n : Nat} (h : isHighSurrogate n = true) :
    isLowSurrogate n = false := by
  simp only [isHighSurrogate, isLowSurrogate, decide_eq_true_eq, decide_eq_false_iff_not] at *
  omega

/-! ## Escapes -/

theorem chars_of_readUnicode {s r : List Char} {c : Char} (h : readUnicode s = .ok (c, r)) :
    ∃ v, s = v ++ r ∧ ∀ u t, Chars u t → Chars ('\\' :: 'u' :: (v ++ u)) (c :: t) := by
  unfold readUnicode at h
  split at h
  · cases h
  · rename_i n s hread
    obtain ⟨ds, hds, rfl, hn⟩ := readUnit_eq_ok_iff.mp hread
    split at h
    · cases h
    · rename_i hlow
      split at h
      · rename_i hhigh
        split at h
        · cases h
        · rename_i hlast
          obtain ⟨rfl, rfl⟩ := Prod.mk.inj (Except.ok.inj h)
          obtain ⟨es, hes, rfl, hm, hlow⟩ := readLowUnit_eq_ok_iff.mp hlast
          refine ⟨ds ++ '\\' :: 'u' :: es, by simp, fun u t hu => ?_⟩
          have hpair := Chars.pair hds hn hes hm hhigh hlow hu
          simpa only [List.append_assoc, List.cons_append] using hpair
      · rename_i hhigh
        obtain ⟨rfl, rfl⟩ := Prod.mk.inj (Except.ok.inj h)
        refine ⟨ds, rfl, fun u t hu => ?_⟩
        exact .unit hds hn (Bool.eq_false_iff.mpr hlow) (Bool.eq_false_iff.mpr hhigh) hu

/-- An escape that is read is one of the grammar, whatever characters follow it. -/
theorem chars_of_readEscape {s r : List Char} {c : Char} (h : readEscape s = .ok (c, r)) :
    ∃ v, s = v ++ r ∧ ∀ u t, Chars u t → Chars ('\\' :: (v ++ u)) (c :: t) := by
  unfold readEscape at h
  split at h
  · cases h
  · rename_i x s
    split at h
    · rename_i hx
      subst hx
      obtain ⟨v, rfl, hv⟩ := chars_of_readUnicode h
      exact ⟨'u' :: v, rfl, hv⟩
    · split at h
      · rename_i hx
        cases h
        exact ⟨[x], rfl, fun u t hu => .short hx hu⟩
      · cases h

theorem readEscape_short {x c : Char} (hx : shortEscape? x = some c) (r : List Char) :
    readEscape (x :: r) = .ok (c, r) := by
  have hu : x ≠ 'u' := fun he => by subst he; cases hx
  unfold readEscape
  simp only [if_neg hu, hx]

theorem readEscape_unit {ds : List Char} {n : Nat} (hlen : ds.length = 4)
    (hn : hexNumber? ds = some n) (hlow : isLowSurrogate n = false)
    (hhigh : isHighSurrogate n = false) (r : List Char) :
    readEscape ('u' :: (ds ++ r)) = .ok (scalar n, r) := by
  unfold readEscape readUnicode
  simp [readUnit_eq_ok_iff.mpr ⟨ds, hlen, rfl, hn⟩, hlow, hhigh]

theorem readEscape_pair {ds es : List Char} {m n : Nat} (hds : ds.length = 4)
    (hm : hexNumber? ds = some m) (hes : es.length = 4) (hn : hexNumber? es = some n)
    (hhigh : isHighSurrogate m = true) (hlow : isLowSurrogate n = true) (r : List Char) :
    readEscape ('u' :: (ds ++ '\\' :: 'u' :: (es ++ r))) = .ok (scalar (pairCode m n), r) := by
  have hlast : readLowUnit ('\\' :: 'u' :: (es ++ r)) = .ok (n, r) :=
    readLowUnit_eq_ok_iff.mpr ⟨es, hes, rfl, hn, hlow⟩
  unfold readEscape readUnicode
  simp [readUnit_eq_ok_iff.mpr ⟨ds, hds, rfl, hm⟩, isLowSurrogate_of_high hhigh, hhigh, hlast]

/-! ## Strings -/

theorem chars_of_readText {s t r : List Char} (h : readText s = .ok (t, r)) :
    ∃ u, s = u ++ '"' :: r ∧ Chars u t := by
  fun_induction readText s generalizing t r with
  | case1 => cases h
  | case2 =>
      cases h
      exact ⟨[], rfl, .nil⟩
  | case3 => cases h
  | case4 => cases h
  | case5 v c w he cs rest hr ih =>
      cases h
      obtain ⟨x, rfl, hx⟩ := chars_of_readEscape he
      obtain ⟨u, rfl, hu⟩ := ih hr
      exact ⟨'\\' :: (x ++ u), by simp, hx u _ hu⟩
  | case6 => cases h
  | case7 => cases h
  | case8 c v hquote hback hctrl cs rest hr ih =>
      cases h
      obtain ⟨u, rfl, hu⟩ := ih hr
      exact ⟨c :: u, rfl, .raw hquote hback hctrl hu⟩

theorem readText_escape {s v r t : List Char} {c : Char} (he : readEscape s = .ok (c, v))
    (h : readText v = .ok (t, r)) : readText ('\\' :: s) = .ok (c :: t, r) := by
  rw [readText]
  split
  · rename_i hf
    rw [he] at hf
    cases hf
  · rename_i hok
    rw [he] at hok
    cases hok
    rw [h]

theorem readText_of_chars {u t : List Char} (h : Chars u t) (r : List Char) :
    readText (u ++ '"' :: r) = .ok (t, r) := by
  induction h with
  | nil => rw [List.nil_append, readText]
  | raw hquote hback hctrl _ ih =>
      rw [List.cons_append, readText, if_neg hctrl, ih]
      · exact hquote
      · exact hback
  | short hx _ ih => exact readText_escape (readEscape_short hx _) ih
  | unit hlen hn hlow hhigh _ ih =>
      rw [List.cons_append, List.cons_append, List.append_assoc]
      exact readText_escape (readEscape_unit hlen hn hlow hhigh _) ih
  | pair hds hm hes hn hhigh hlow _ ih =>
      simp only [List.cons_append, List.append_assoc]
      exact readText_escape (readEscape_pair hds hm hes hn hhigh hlow _) ih

theorem readText_eq_ok_iff {s t r : List Char} :
    readText s = .ok (t, r) ↔ ∃ u, s = u ++ '"' :: r ∧ Chars u t := by
  refine ⟨chars_of_readText, ?_⟩
  rintro ⟨u, rfl, hu⟩
  exact readText_of_chars hu r

end Crossref.Json
