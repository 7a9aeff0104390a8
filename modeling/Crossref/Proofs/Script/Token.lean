import Crossref.Script.Assignment
import Crossref.Proofs.Script.Trivia

/-!
# Tokens as a grammar

`Sequence ts s r` says that the tokens `ts` stand at the beginning of `s`, with
trivia between them, and that `r` follows. `takeAll?_eq_some_iff` is the main
statement: taking a sequence succeeds exactly where it stands, and leaves what
follows it. It holds for tokens that cannot be mistaken for trivia (`Solid`), as
all tokens of a page are.
-/

namespace Crossref.Script

open Text (isBlank isWordChar stripLead? stripLead?_eq_some_iff)

/-- The token stands at the beginning of `s`, and `r` follows. A word does not
stand where it could go on. -/
def Token.Stands : Token → List Char → List Char → Prop
  | .word w, s, r => s = w ++ r ∧ ∀ c ∈ r.head?, isWordChar c = false
  | .mark m, s, r => s = m ++ r

inductive Sequence : List Token → List Char → List Char → Prop where
  | last {t : Token} {s r : List Char} (h : t.Stands s r) : Sequence [t] s r
  | more {t t' : Token} {ts : List Token} {s u v r : List Char} (h : t.Stands s u)
      (htrivia : Trivia u v) (hrest : Sequence (t' :: ts) v r) : Sequence (t :: t' :: ts) s r

/-- No trivia begins with this character. -/
def isSolid (c : Char) : Bool := !isBlank c && c != '/'

/-- No trivia begins where this token stands. -/
def Token.isSolid (t : Token) : Bool := t.text.head?.any Script.isSolid

theorem afterTrivia_of_isSolid {c : Char} (hc : isSolid c = true) (s : List Char) :
    afterTrivia (c :: s) = c :: s := by
  simp only [isSolid, Bool.and_eq_true, Bool.not_eq_true', bne_iff_ne] at hc
  exact afterTrivia_solid hc.1 hc.2 s

namespace Token

theorem Stands.word {w r : List Char} {c : Char} (hc : isWordChar c = false) :
    (Token.word w).Stands (w ++ c :: r) (c :: r) := by
  refine ⟨rfl, fun d hd => ?_⟩
  cases hd
  exact hc

theorem take?_eq_some_iff {t : Token} {s r : List Char} :
    t.take? s = some r ↔ t.Stands s r := by
  cases t with
  | word w =>
      simp only [take?, Stands, Option.filter_eq_some_iff, stripLead?_eq_some_iff]
      refine and_congr_right fun _ => ?_
      cases r with
      | nil => simp
      | cons c r => simp
  | mark m => exact stripLead?_eq_some_iff

theorem takeAll?_cons_cons (t t' : Token) (ts : List Token) (s : List Char) :
    takeAll? (t :: t' :: ts) s =
      (t.take? s).bind fun r => takeAll? (t' :: ts) (afterTrivia r) := by
  rw [takeAll?]
  exact List.cons_ne_nil t' ts

theorem takeAll?_of_head_none {t : Token} {s : List Char} (h : t.take? s = none)
    (ts : List Token) : takeAll? (t :: ts) s = none := by
  cases ts with
  | nil => exact h
  | cons t' ts =>
      rw [takeAll?_cons_cons, h]
      rfl

theorem Stands.solid {t : Token} {s r : List Char} (h : t.Stands s r) (ht : t.isSolid = true) :
    afterTrivia s = s := by
  have hs : s = t.text ++ r := by
    cases t with
    | word w => exact h.1
    | mark m => exact h
  unfold isSolid at ht
  cases htext : t.text with
  | nil => rw [htext] at ht; cases ht
  | cons c w =>
      rw [htext] at ht
      rw [hs, htext]
      exact afterTrivia_of_isSolid (by simpa using ht) (w ++ r)

end Token

/-- A sequence with no trivia at the beginning of any of its tokens. -/
def Solid (ts : List Token) : Prop := ts ≠ [] ∧ ∀ t ∈ ts, t.isSolid = true

instance (ts : List Token) : Decidable (Solid ts) :=
  inferInstanceAs (Decidable (ts ≠ [] ∧ ∀ t ∈ ts, t.isSolid = true))

theorem Solid.tail {t t' : Token} {ts : List Token} (h : Solid (t :: t' :: ts)) :
    Solid (t' :: ts) :=
  ⟨List.cons_ne_nil t' ts, fun x hx => h.2 x (List.mem_cons_of_mem t hx)⟩

theorem Sequence.solid {ts : List Token} {s r : List Char} (h : Sequence ts s r)
    (hts : Solid ts) : afterTrivia s = s := by
  cases h with
  | last h => exact h.solid (hts.2 _ List.mem_cons_self)
  | more h _ _ => exact h.solid (hts.2 _ List.mem_cons_self)

theorem takeAll?_eq_some_iff {ts : List Token} (hts : Solid ts) {s r : List Char} :
    Token.takeAll? ts s = some r ↔ Sequence ts s r := by
  induction ts generalizing s with
  | nil => exact absurd rfl hts.1
  | cons t ts ih =>
      cases ts with
      | nil =>
          rw [Token.takeAll?, Token.take?_eq_some_iff]
          exact ⟨.last, fun h => by cases h; assumption⟩
      | cons t' ts =>
          rw [Token.takeAll?, Option.bind_eq_some_iff]
          · simp only [Token.take?_eq_some_iff, ih hts.tail]
            constructor
            · rintro ⟨u, hu, hseq⟩
              exact .more hu (trivia_afterTrivia u) hseq
            · intro h
              cases h with
              | more hu htrivia hseq =>
                  rw [trivia_iff_of_solid (hseq.solid hts.tail)] at htrivia
                  exact ⟨_, hu, htrivia ▸ hseq⟩
          · exact fun h => List.cons_ne_nil t' ts h

theorem takeAll?_eq_none_iff {ts : List Token} (hts : Solid ts) {s : List Char} :
    Token.takeAll? ts s = none ↔ ∀ r, ¬ Sequence ts s r := by
  simp only [Option.eq_none_iff_forall_ne_some, Ne, takeAll?_eq_some_iff hts]

/-! ## The sequences of a page -/

theorem solid_wrapperHead : Solid wrapperHead := by decide

theorem solid_wrapperTail : Solid wrapperTail := by decide

theorem solid_declaration : Solid declaration := by decide

theorem solid_assignmentHead : Solid assignmentHead := by decide

theorem solid_registration : Solid registration := by decide

/-! ## Single marks -/

/-- A mark is read exactly where it stands behind trivia. -/
theorem readMark_eq_ok_iff {m : Char} (hm : isSolid m = true) {s r : List Char} :
    readMark m s = .ok r ↔ Trivia s (m :: r) := by
  rw [trivia_iff_of_solid (afterTrivia_of_isSolid hm r)]
  unfold readMark
  split
  · rename_i hs
    simp [hs]
  · rename_i c t hs
    rw [hs]
    split
    · rename_i hc
      simp [hc]
    · rename_i hc
      simp [hc]

theorem afterSemicolon_of_present {s r : List Char} (h : afterTrivia s = ';' :: r) :
    afterSemicolon s = r := by
  unfold afterSemicolon
  rw [h]
  rfl

theorem afterSemicolon_of_absent {s : List Char} (h : ∀ r, afterTrivia s ≠ ';' :: r) :
    afterSemicolon s = afterTrivia s := by
  unfold afterSemicolon
  split
  · rename_i r hr
    exact absurd hr (h r)
  · rfl

/-- An optional semicolon, with trivia before it. -/
inductive Semicolon : List Char → List Char → Prop where
  | present {s r : List Char} (h : Trivia s (';' :: r)) : Semicolon s r
  | absent (s : List Char) : Semicolon s s

end Crossref.Script
