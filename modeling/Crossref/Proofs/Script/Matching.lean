import Crossref.Proofs.Script.Simulation
import Crossref.Proofs.Text.Word

/-!
# Skipping goes as far as it can, matching is all or nothing

Trivia is skipped down to a place that is `Bare`: the end, or a character that begins none. Hence
the gaps between the tokens of a sequence that is taken are the whole trivia that stands there
(`Laid`). `Sequence` lets a gap end anywhere in its trivia; for tokens that have a character that
makes no difference, since none of them begins with trivia (`laid_iff_sequence`).

`skipping_and_matching` is the main statement. It is about any tokens whose characters are of one
kind (`TokenText`), and says at which offset the scanner is left, after a match and without one.
-/

namespace Crossref.Script

open Text (bytes place place_append isBlank isWordChar isWordChar_of_isBlank)

/-! ## Bare places -/

/-- Neither a blank stands here nor the beginning of a comment. -/
def Bare (s : List Char) : Prop :=
  ∀ c r, s = c :: r → isBlank c = false ∧ startsComment s = false

theorem bare_iff {s : List Char} : Bare s ↔ afterTrivia s = s := by
  cases s with
  | nil =>
      refine ⟨fun _ => rfl, fun _ c r h => ?_⟩
      cases h
  | cons c s =>
      constructor
      · intro h
        obtain ⟨hblank, hcomment⟩ := h c s rfl
        exact afterTrivia_of_not_starts hblank hcomment
      · rintro h d r ⟨⟩
        refine ⟨eq_false_of_ne_true fun hblank => ?_, eq_false_of_ne_true fun hcomment => ?_⟩
        · have hlength := (afterTrivia_suffix s).length_le
          rw [afterTrivia_blank hblank] at h
          rw [h, List.length_cons] at hlength
          omega
        · have hlength := length_afterTrivia_lt hcomment
          rw [h] at hlength
          exact Nat.lt_irrefl _ hlength

theorem bare_afterTrivia (s : List Char) : Bare (afterTrivia s) :=
  bare_iff.mpr (afterTrivia_afterTrivia s)

/-! ## Tokens in their order -/

/-- The tokens stand at the beginning of `s`, with all the trivia between them, and `r` follows. -/
inductive Laid : List Token → List Char → List Char → Prop where
  | last {t : Token} {s r : List Char} (h : t.Stands s r) : Laid [t] s r
  | more {t t' : Token} {ts : List Token} {s u v r : List Char} (h : t.Stands s u)
      (hgap : Trivia u v) (hbare : Bare v) (hrest : Laid (t' :: ts) v r) :
      Laid (t :: t' :: ts) s r

theorem takeAll?_eq_some_iff_laid {t : Token} {ts : List Token} {s r : List Char} :
    Token.takeAll? (t :: ts) s = some r ↔ Laid (t :: ts) s r := by
  induction ts generalizing t s with
  | nil =>
      rw [Token.takeAll?, Token.take?_eq_some_iff]
      refine ⟨.last, fun h => ?_⟩
      cases h
      assumption
  | cons t' ts ih =>
      rw [Token.takeAll?_cons_cons, Option.bind_eq_some_iff]
      simp only [Token.take?_eq_some_iff, ih]
      constructor
      · rintro ⟨u, hu, hrest⟩
        exact .more hu (trivia_afterTrivia u) (bare_afterTrivia u) hrest
      · intro h
        cases h with
        | more hu hgap hbare hrest =>
            rw [trivia_iff_of_solid (bare_iff.mp hbare)] at hgap
            exact ⟨_, hu, hgap ▸ hrest⟩

theorem Laid.sequence {ts : List Token} {s r : List Char} (h : Laid ts s r) :
    Sequence ts s r := by
  induction h with
  | last h => exact .last h
  | more h hgap _ _ ih => exact .more h hgap ih

/-- Where no trivia begins at the later tokens, their gaps cannot end early. -/
theorem laid_iff_sequence {t : Token} {ts : List Token} (hts : ∀ x ∈ ts, x.isSolid = true)
    {s r : List Char} : Laid (t :: ts) s r ↔ Sequence (t :: ts) s r := by
  refine ⟨Laid.sequence, fun h => ?_⟩
  induction ts generalizing t s with
  | nil =>
      cases h with
      | last h => exact .last h
  | cons t' ts ih =>
      cases h with
      | more h hgap hrest =>
          have hsolid : Solid (t' :: ts) := ⟨List.cons_ne_nil t' ts, hts⟩
          refine .more h hgap (bare_iff.mpr (hrest.solid hsolid)) (ih ?_ hrest)
          exact fun x hx => hts x (List.mem_cons_of_mem t' hx)

/-! ## Characters of one kind -/

/-- Word characters only, or marks: neither word characters nor blanks nor slashes. -/
def IsTokenText (text : List Char) : Prop :=
  (∀ c ∈ text, isWordChar c = true) ∨
    ∀ c ∈ text, isWordChar c = false ∧ isBlank c = false ∧ c ≠ '/'

instance (text : List Char) : Decidable (IsTokenText text) :=
  @instDecidableOr _ _ (List.decidableBAll _ text) (List.decidableBAll _ text)

theorem Token.text_ofText (text : List Char) : (Token.ofText text).text = text := by
  unfold Token.ofText
  split <;> rfl

/-- The characters of a token. -/
structure TokenText where
  text : List Char
  kind : IsTokenText text

namespace TokenText

def token (t : TokenText) : Token := .ofText t.text

theorem isSolid_token (t : TokenText) (h : t.text ≠ []) : t.token.isSolid = true := by
  obtain ⟨text, hkind⟩ := t
  cases text with
  | nil => exact absurd rfl h
  | cons c text =>
      have hsolid : isSolid c = true := by
        rw [isSolid, Bool.and_eq_true, Bool.not_eq_true', bne_iff_ne]
        rcases hkind with hword | hmark
        · have hc := hword c List.mem_cons_self
          refine ⟨eq_false_of_ne_true fun hblank => ?_, ?_⟩
          · rw [isWordChar_of_isBlank hblank] at hc
            cases hc
          · rintro rfl
            revert hc
            decide
        · exact (hmark c List.mem_cons_self).2
      have htext : (Token.ofText (c :: text)).text = c :: text := Token.text_ofText _
      rw [token, Token.isSolid, htext]
      exact hsolid

end TokenText

/-- The sequences that a page is recognised by. -/
def pageSequences : List (List Token) :=
  [wrapperHead, declaration, assignmentHead, registration, wrapperTail]

theorem exists_tokenTexts (ts : List Token)
    (h : ∀ t ∈ ts, t = .ofText t.text ∧ t.text ≠ [] ∧ IsTokenText t.text) :
    ∃ xs : List TokenText, ts = xs.map TokenText.token ∧ ∀ x ∈ xs, x.text ≠ [] := by
  induction ts with
  | nil => exact ⟨[], rfl, fun x hx => absurd hx List.not_mem_nil⟩
  | cons t ts ih =>
      obtain ⟨ht, hne, hkind⟩ := h t List.mem_cons_self
      obtain ⟨xs, rfl, hxs⟩ := ih fun x hx => h x (List.mem_cons_of_mem t hx)
      refine ⟨⟨t.text, hkind⟩ :: xs, ?_, List.forall_mem_cons.mpr ⟨hne, hxs⟩⟩
      exact congrArg (· :: _) ht

/-- All of them are written by characters of one kind, and none of their tokens is empty. -/
theorem tokenTexts_of_page {ts : List Token} (hts : ts ∈ pageSequences) :
    ∃ xs : List TokenText, ts = xs.map TokenText.token ∧ ∀ x ∈ xs, x.text ≠ [] := by
  have hpage : ∀ ts ∈ pageSequences, ∀ t ∈ ts,
      t = .ofText t.text ∧ t.text ≠ [] ∧ IsTokenText t.text := by decide
  exact exists_tokenTexts ts (hpage ts hts)

/-- Skipping takes trivia and leaves none. Matching takes the tokens, in their order and with all
trivia between them, exactly where they stand, and otherwise leaves the scanner where it was. -/
theorem skipping_and_matching (before s : List Char) (first : TokenText)
    (others : List TokenText) :
    let source := before ++ s
    let tokens := (first :: others).map TokenText.token
    let matching := Scan.eatAll ((first :: others).map TokenText.text) source (bytes before)
    (Trivia s (afterTrivia s) ∧ Bare (afterTrivia s) ∧
        afterTrivia (afterTrivia s) = afterTrivia s ∧
        Scan.skipTrivia source (bytes before) = .ok () (place source (afterTrivia s))) ∧
      (∀ r, Token.takeAll? tokens s = some r ↔ Laid tokens s r) ∧
      (∀ r, Laid tokens s r → matching = .ok true (place source r)) ∧
      ((∀ r, ¬ Laid tokens s r) → matching = .ok false (bytes before)) ∧
      ((∀ t ∈ others, t.text ≠ []) → ∀ r, Laid tokens s r ↔ Sequence tokens s r) ∧
      ∀ ts ∈ pageSequences, ∃ xs : List TokenText, ts = xs.map TokenText.token ∧
        ∀ x ∈ xs, x.text ≠ [] := by
  intro source tokens matching
  have hs : s <:+ source := List.suffix_append before s
  have hplace : place source s = bytes before := place_append before s
  have htexts : ((first :: others).map TokenText.text).map Token.ofText = tokens :=
    List.map_map ..
  have hskip := (Scan.gives_skipTrivia hs).2
  have hmatch := (Scan.gives_eatAll hs ((first :: others).map TokenText.text)).2
  rw [hplace] at hskip hmatch
  rw [htexts] at hmatch
  have htake (r : List Char) : Token.takeAll? tokens s = some r ↔ Laid tokens s r :=
    takeAll?_eq_some_iff_laid
  refine ⟨⟨trivia_afterTrivia s, bare_afterTrivia s, afterTrivia_afterTrivia s, hskip⟩, htake,
    fun r hr => ?_, fun hnone => ?_, fun hne r => laid_iff_sequence ?_,
    fun _ => tokenTexts_of_page⟩
  · rw [(htake r).mpr hr] at hmatch
    exact hmatch
  · have htaken : Token.takeAll? tokens s = none :=
      Option.eq_none_iff_forall_ne_some.mpr fun r hr => hnone r ((htake r).mp hr)
    rw [htaken] at hmatch
    exact hmatch.trans (congrArg _ hplace)
  · intro t ht
    obtain ⟨x, hx, rfl⟩ := List.mem_map.mp ht
    exact x.isSolid_token (hne x hx)

/-- Behind a comment, in a source with a character of two bytes. -/
theorem skipping_and_matching_comment :
    (∀ t ∈ [(⟨['('], by decide⟩ : TokenText)], t.text ≠ []) ∧
      Sequence [.word ['i', 'f'], .mark ['(']] "if /*a*/ (x".toList ['x'] ∧
      Scan.eatAll [['i', 'f'], ['(']] "éif /*a*/ (x".toList 2 = .ok true 12 := by
  have hne : ∀ t ∈ [(⟨['('], by decide⟩ : TokenText)], t.text ≠ [] := by decide
  obtain ⟨-, htake, hmatch, -, hsequence, -⟩ := skipping_and_matching ['é']
    "if /*a*/ (x".toList ⟨['i', 'f'], by decide⟩ [⟨['('], by decide⟩]
  have hlaid := (htake ['x']).mp (by decide)
  exact ⟨hne, (hsequence hne ['x']).mp hlaid, hmatch ['x'] hlaid⟩

end Crossref.Script
