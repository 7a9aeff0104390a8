import Crossref.Script.Statement
import Crossref.Proofs.Script.Trivia

/-!
# Unknown statements as a grammar

`Skipped depth s r`: behind `depth` open brackets the text `s` brings an unknown
statement to its end, and `r` follows. The relation knows only closed strings,
closed comments and brackets that match by their number. Skipping ends exactly
where such a statement ends (`Skipped.afterStatementAt_eq`); what it makes of
unclosed parts, the relation leaves open.

There is one lemma for each step of skipping. Trivia is passed over at any depth
(`afterStatementAt_afterTrivia`), as every part of it is a comment or plain.
-/

namespace Crossref.Script

open Text (isBlank)

/-! ## The grammar -/

/-- A closed comment. A line comment leaves its line feed. -/
inductive Comment : List Char → List Char → Prop where
  | line {body r : List Char} (hb : '\n' ∉ body) :
      Comment ('/' :: '/' :: (body ++ '\n' :: r)) ('\n' :: r)
  | block {body r : List Char} (hb : ¬ ['*', '/'] <:+: body) :
      Comment ('/' :: '*' :: (body ++ '*' :: '/' :: r)) r

/-- A string behind its opening quote, up to its closing one. A backslash takes
the next character along; only back-quoted strings span lines. -/
inductive QuotedText (quote : Char) : List Char → List Char → Prop where
  | close (r : List Char) : QuotedText quote (quote :: r) r
  | escaped {c : Char} {s r : List Char} (h : QuotedText quote s r) :
      QuotedText quote ('\\' :: c :: s) r
  | raw {c : Char} {s r : List Char} (hquote : c ≠ quote) (hback : c ≠ '\\')
      (hfeed : c = '\n' → quote = '\x60') (h : QuotedText quote s r) : QuotedText quote (c :: s) r

/-- Neither a quote nor a bracket. -/
def isPlain (c : Char) : Bool := !isQuote c && !isOpening c && !isClosing c

/-- A statement from a place with `depth` open brackets to its end: the first
semicolon outside all brackets, or the first brace that closes the last open
bracket, with a semicolon directly behind it. -/
inductive Skipped : Nat → List Char → List Char → Prop where
  | semicolon (r : List Char) : Skipped 0 (';' :: r) r
  | brace {r : List Char} (h : r.head? ≠ some ';') : Skipped 1 ('}' :: r) r
  | braceSemicolon (r : List Char) : Skipped 1 ('}' :: ';' :: r) r
  | comment {depth : Nat} {s u r : List Char} (hc : Comment s u) (h : Skipped depth u r) :
      Skipped depth s r
  | quoted {depth : Nat} {quote : Char} {s u r : List Char} (hq : isQuote quote = true)
      (hs : QuotedText quote s u) (h : Skipped depth u r) : Skipped depth (quote :: s) r
  | opening {depth : Nat} {c : Char} {s r : List Char} (hc : isOpening c = true)
      (h : Skipped (depth + 1) s r) : Skipped depth (c :: s) r
  | closing {depth : Nat} {c : Char} {s r : List Char} (hc : isClosing c = true)
      (hends : ¬ (depth = 0 ∧ c = '}')) (h : Skipped depth s r) : Skipped (depth + 1) (c :: s) r
  | other {depth : Nat} {c : Char} {s r : List Char} (hc : isPlain c = true)
      (hcomment : startsComment (c :: s) = false) (hends : ¬ (c = ';' ∧ depth = 0))
      (h : Skipped depth s r) : Skipped depth (c :: s) r

/-! ## Steps of skipping -/

theorem afterStatementAt_comment (depth : Nat) {s : List Char} (h : startsComment s = true) :
    afterStatementAt depth s = afterStatementAt depth (afterTrivia s) := by
  cases s with
  | nil => cases h
  | cons c s => rw [afterStatementAt, dif_pos h]

theorem isQuote_iff {c : Char} : isQuote c = true ↔ c = '"' ∨ c = '\'' ∨ c = '\x60' := by
  simp only [isQuote, Bool.or_eq_true, beq_iff_eq, or_assoc]

theorem isOpening_iff {c : Char} : isOpening c = true ↔ c = '(' ∨ c = '[' ∨ c = '{' := by
  simp only [isOpening, Bool.or_eq_true, beq_iff_eq, or_assoc]

theorem isClosing_iff {c : Char} : isClosing c = true ↔ c = ')' ∨ c = ']' ∨ c = '}' := by
  simp only [isClosing, Bool.or_eq_true, beq_iff_eq, or_assoc]

theorem afterStatementAt_quote (depth : Nat) {quote : Char} (hq : isQuote quote = true)
    (s : List Char) :
    afterStatementAt depth (quote :: s) = afterStatementAt depth (afterQuoted quote s) := by
  have hslash : quote ≠ '/' := by rcases isQuote_iff.mp hq with rfl | rfl | rfl <;> decide
  rw [afterStatementAt, startsComment_of_ne_slash hslash, dif_neg Bool.false_ne_true, if_pos hq]

theorem afterStatementAt_opening (depth : Nat) {c : Char} (hc : isOpening c = true)
    (s : List Char) : afterStatementAt depth (c :: s) = afterStatementAt (depth + 1) s := by
  have hslash : c ≠ '/' := by rcases isOpening_iff.mp hc with rfl | rfl | rfl <;> decide
  have hquote : isQuote c ≠ true := by rcases isOpening_iff.mp hc with rfl | rfl | rfl <;> decide
  rw [afterStatementAt, startsComment_of_ne_slash hslash, dif_neg Bool.false_ne_true,
    if_neg hquote, if_pos hc]

/-- What a closing bracket does to a statement, or to the text before it. -/
theorem afterStatementAt_bracket (depth : Nat) {c : Char} (hc : isClosing c = true)
    (s : List Char) :
    afterStatementAt depth (c :: s) =
      if depth = 0 then c :: s
      else if depth = 1 ∧ c = '}' then if s.head? = some ';' then s.tail else s
      else afterStatementAt (depth - 1) s := by
  have hslash : c ≠ '/' := by rcases isClosing_iff.mp hc with rfl | rfl | rfl <;> decide
  have hquote : isQuote c ≠ true := by rcases isClosing_iff.mp hc with rfl | rfl | rfl <;> decide
  have hopen : isOpening c ≠ true := by rcases isClosing_iff.mp hc with rfl | rfl | rfl <;> decide
  rw [afterStatementAt, startsComment_of_ne_slash hslash, dif_neg Bool.false_ne_true,
    if_neg hquote, if_neg hopen, if_pos hc]

theorem afterStatementAt_closing {depth : Nat} {c : Char} (hc : isClosing c = true)
    (hends : ¬ (depth = 0 ∧ c = '}')) (s : List Char) :
    afterStatementAt (depth + 1) (c :: s) = afterStatementAt depth s := by
  rw [afterStatementAt_bracket _ hc, if_neg (Nat.succ_ne_zero depth), if_neg (by simpa using hends),
    Nat.add_sub_cancel]

theorem afterStatementAt_plain {depth : Nat} {c : Char} {s : List Char} (hc : isPlain c = true)
    (hcomment : startsComment (c :: s) = false) (hends : ¬ (c = ';' ∧ depth = 0)) :
    afterStatementAt depth (c :: s) = afterStatementAt depth s := by
  simp only [isPlain, Bool.and_eq_true, Bool.not_eq_true'] at hc
  obtain ⟨⟨hquote, hopen⟩, hclose⟩ := hc
  rw [afterStatementAt, hcomment, hquote, hopen, hclose]
  simp only [Bool.false_eq_true, dite_false, if_false, if_neg hends]

theorem afterStatementAt_semicolon (s : List Char) : afterStatementAt 0 (';' :: s) = s := by
  rw [afterStatementAt, startsComment_of_ne_slash (by decide), dif_neg Bool.false_ne_true,
    if_neg (by decide), if_neg (by decide), if_neg (by decide), if_pos ⟨rfl, rfl⟩]

/-! ## Trivia within statements -/

theorem isPlain_of_isBlank {c : Char} (h : isBlank c = true) : isPlain c = true := by
  have hne {d : Char} (hd : isBlank d = false) : c ≠ d := fun he => by
    rw [he, hd] at h
    cases h
  have hquote : isQuote c = false := by
    rw [Bool.eq_false_iff, Ne, isQuote_iff, not_or, not_or]
    exact ⟨hne (by decide), hne (by decide), hne (by decide)⟩
  have hopen : isOpening c = false := by
    rw [Bool.eq_false_iff, Ne, isOpening_iff, not_or, not_or]
    exact ⟨hne (by decide), hne (by decide), hne (by decide)⟩
  have hclose : isClosing c = false := by
    rw [Bool.eq_false_iff, Ne, isClosing_iff, not_or, not_or]
    exact ⟨hne (by decide), hne (by decide), hne (by decide)⟩
  rw [isPlain, hquote, hopen, hclose]
  rfl

theorem afterStatementAt_afterTrivia (depth : Nat) (s : List Char) :
    afterStatementAt depth (afterTrivia s) = afterStatementAt depth s := by
  induction s with
  | nil => rfl
  | cons c s ih =>
      cases hcomment : startsComment (c :: s) with
      | true => exact (afterStatementAt_comment depth hcomment).symm
      | false =>
          cases hblank : isBlank c with
          | false => rw [afterTrivia_of_not_starts hblank hcomment]
          | true =>
              have hsemi : c ≠ ';' := by rintro rfl; revert hblank; decide
              rw [afterTrivia_blank hblank, ih,
                afterStatementAt_plain (isPlain_of_isBlank hblank) hcomment fun h => hsemi h.1]

theorem Trivia.afterStatementAt_eq {s r : List Char} (h : Trivia s r) (depth : Nat) :
    afterStatementAt depth s = afterStatementAt depth r := by
  rw [← afterStatementAt_afterTrivia depth s, h.afterTrivia_eq, afterStatementAt_afterTrivia]

/-! ## Whole statements -/

theorem Comment.trivia {s r : List Char} (h : Comment s r) : Trivia s r := by
  cases h with
  | line hb => exact .line hb (.none _)
  | block hb => exact .block hb (.none _)

theorem QuotedText.afterQuoted_eq {quote : Char} (hq : isQuote quote = true) {s r : List Char}
    (h : QuotedText quote s r) : afterQuoted quote s = r := by
  have hback : quote ≠ '\\' := by rcases isQuote_iff.mp hq with rfl | rfl | rfl <;> decide
  induction h with
  | close r =>
      rw [afterQuoted, if_pos (Or.inl rfl)]
      · exact fun he => absurd he hback
      · exact fun _ _ he => absurd he hback
  | escaped _ ih => rw [afterQuoted, ih]
  | raw hquote hb hfeed _ ih =>
      rw [afterQuoted, if_neg, ih]
      · rintro (he | ⟨he, hne⟩)
        · exact hquote he
        · exact hne (hfeed he)
      · exact fun he => absurd he hb
      · exact fun _ _ he => absurd he hb

theorem Skipped.ne_nil {depth : Nat} {s r : List Char} (h : Skipped depth s r) : s ≠ [] := by
  cases h with
  | comment hc _ => cases hc <;> exact List.cons_ne_nil _ _
  | _ => exact List.cons_ne_nil _ _

/-- Skipping ends where the statement ends. -/
theorem Skipped.afterStatementAt_eq {depth : Nat} {s r : List Char} (h : Skipped depth s r) :
    afterStatementAt depth s = r := by
  induction h with
  | semicolon r => exact afterStatementAt_semicolon r
  | brace h =>
      rw [afterStatementAt_bracket 1 (by decide), if_neg Nat.one_ne_zero, if_pos ⟨rfl, rfl⟩,
        if_neg h]
  | braceSemicolon r =>
      rw [afterStatementAt_bracket 1 (by decide), if_neg Nat.one_ne_zero, if_pos ⟨rfl, rfl⟩]
      exact if_pos rfl
  | comment hc _ ih => rw [hc.trivia.afterStatementAt_eq, ih]
  | quoted hq hs _ ih => rw [afterStatementAt_quote _ hq, hs.afterQuoted_eq hq, ih]
  | opening hc _ ih => rw [afterStatementAt_opening _ hc, ih]
  | closing hc hends _ ih => rw [afterStatementAt_closing hc hends, ih]
  | other hc hcomment hends _ ih => rw [afterStatementAt_plain hc hcomment hends, ih]

end Crossref.Script
