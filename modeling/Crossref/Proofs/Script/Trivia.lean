import Crossref.Script.Trivia

/-!
# Trivia as a grammar

`Trivia s r` says that `s` is trivia and then `r`: blank characters and comments
in any number, none of them looked for in a fixed order. The relation may stop
anywhere between two of them; skipping (`afterTrivia`) goes as far as it can.
`trivia_afterTrivia` and `Trivia.afterTrivia_eq` tie the two: skipping is a way
through the grammar, and every way through leads to where skipping leads.
-/

namespace Crossref.Script

open Text (isBlank)

/-- `s` is trivia and then `r`. A line comment leaves its line feed, which is
blank; a comment that nothing closes leaves nothing. -/
inductive Trivia : List Char → List Char → Prop where
  | none (r : List Char) : Trivia r r
  | blank {c : Char} {s r : List Char} (hc : isBlank c = true) (h : Trivia s r) :
      Trivia (c :: s) r
  | line {body s r : List Char} (hb : '\n' ∉ body) (h : Trivia ('\n' :: s) r) :
      Trivia ('/' :: '/' :: (body ++ '\n' :: s)) r
  | lastLine {body : List Char} (hb : '\n' ∉ body) : Trivia ('/' :: '/' :: body) []
  | block {body s r : List Char} (hb : ¬ ['*', '/'] <:+: body) (h : Trivia s r) :
      Trivia ('/' :: '*' :: (body ++ '*' :: '/' :: s)) r
  | openBlock {body : List Char} (hb : ¬ ['*', '/'] <:+: body) :
      Trivia ('/' :: '*' :: body) []

theorem Trivia.trans {s t r : List Char} (h₁ : Trivia s t) (h₂ : Trivia t r) : Trivia s r := by
  induction h₁ with
  | none => exact h₂
  | blank hc _ ih => exact .blank hc (ih h₂)
  | line hb _ ih => exact .line hb (ih h₂)
  | lastLine hb => cases h₂; exact .lastLine hb
  | block hb _ ih => exact .block hb (ih h₂)
  | openBlock hb => cases h₂; exact .openBlock hb

/-! ## Skipping one part of trivia -/

theorem isBlank_slash : isBlank '/' = false := by decide

theorem afterTrivia_blank {c : Char} (hc : isBlank c = true) (s : List Char) :
    afterTrivia (c :: s) = afterTrivia s := by
  have hne : c ≠ '/' := fun he => by rw [he, isBlank_slash] at hc; cases hc
  unfold afterTrivia
  rw [afterZone]
  · rw [if_pos hc]
  · rintro r he -; exact hne he
  · rintro r he -; exact hne he

/-- Where no trivia begins, nothing is skipped. -/
theorem afterTrivia_solid {c : Char} (hc : isBlank c = false) (hs : c ≠ '/') (s : List Char) :
    afterTrivia (c :: s) = c :: s := by
  unfold afterTrivia
  rw [afterZone]
  · rw [hc]; rfl
  · rintro r he -; exact hs he
  · rintro r he -; exact hs he

theorem startsComment_of_ne_slash {c : Char} (hc : c ≠ '/') (s : List Char) :
    startsComment (c :: s) = false := by
  unfold startsComment
  split
  · rename_i he
    exact absurd (List.cons.inj he).1 hc
  · rename_i he
    exact absurd (List.cons.inj he).1 hc
  · rfl

theorem startsComment_cons_cons (c d : Char) (s : List Char) :
    startsComment (c :: d :: s) = (c == '/' && (d == '/' || d == '*')) := by
  unfold startsComment
  split
  · rename_i he
    obtain ⟨rfl, rfl, -⟩ : c = '/' ∧ d = '/' ∧ s = _ := by simpa using he
    rfl
  · rename_i he
    obtain ⟨rfl, rfl, -⟩ : c = '/' ∧ d = '*' ∧ s = _ := by simpa using he
    rfl
  · rename_i hline hblock
    by_cases hc : c = '/'
    · subst hc
      have hd : d ≠ '/' ∧ d ≠ '*' := ⟨fun he => hline s (he ▸ rfl), fun he => hblock s (he ▸ rfl)⟩
      simp [hd]
    · simp [hc]

/-- Where neither a blank nor a comment begins, no trivia does. -/
theorem afterTrivia_of_not_starts {c : Char} {s : List Char} (hblank : isBlank c = false)
    (hcomment : startsComment (c :: s) = false) : afterTrivia (c :: s) = c :: s := by
  unfold afterTrivia
  rw [afterZone]
  · rw [if_neg (by simp [hblank])]
  · rintro r rfl rfl
    cases hcomment
  · rintro r rfl rfl
    cases hcomment

theorem afterZone_line {body : List Char} (hb : '\n' ∉ body) (s : List Char) :
    afterZone .line (body ++ '\n' :: s) = afterZone .between s := by
  induction body with
  | nil => rw [List.nil_append, afterZone, if_pos rfl]
  | cons c body ih =>
      rw [List.mem_cons, not_or] at hb
      rw [List.cons_append, afterZone, if_neg (Ne.symm hb.1), ih hb.2]

theorem afterZone_lastLine {body : List Char} (hb : '\n' ∉ body) : afterZone .line body = [] := by
  induction body with
  | nil => rfl
  | cons c body ih =>
      rw [List.mem_cons, not_or] at hb
      rw [afterZone, if_neg (Ne.symm hb.1), ih hb.2]

/-- A character of a block comment that does not begin the closing mark. -/
theorem afterZone_block_cons {c : Char} {s : List Char} (h : ¬ ['*', '/'] <+: c :: s) :
    afterZone .block (c :: s) = afterZone .block s := by
  rw [afterZone]
  rintro r rfl rfl
  exact h ⟨r, rfl⟩

theorem not_infix_tail {l : List Char} {c : Char} {body : List Char} (h : ¬ l <:+: c :: body) :
    ¬ l <:+: body :=
  fun hi => h (hi.trans (List.suffix_cons c body).isInfix)

theorem afterZone_block {body : List Char} (hb : ¬ ['*', '/'] <:+: body) (s : List Char) :
    afterZone .block (body ++ '*' :: '/' :: s) = afterZone .between s := by
  induction body with
  | nil => rw [List.nil_append, afterZone]
  | cons c body ih =>
      rw [List.cons_append, afterZone_block_cons, ih (not_infix_tail hb)]
      -- the closing mark would lie inside the body, or its star is the body's last character
      rintro ⟨t, ht⟩
      cases body with
      | nil => cases ht
      | cons d body =>
          obtain ⟨rfl, rfl, -⟩ : '*' = c ∧ '/' = d ∧ t = body ++ '*' :: '/' :: s := by
            simpa using ht
          exact hb (List.IsPrefix.isInfix ⟨body, rfl⟩)

theorem afterZone_openBlock {body : List Char} (hb : ¬ ['*', '/'] <:+: body) :
    afterZone .block body = [] := by
  induction body with
  | nil => rfl
  | cons c body ih =>
      rw [afterZone_block_cons (mt List.IsPrefix.isInfix hb), ih (not_infix_tail hb)]

/-! ## Skipping and the grammar -/

/-- All ways through trivia lead to where skipping leads. -/
theorem Trivia.afterTrivia_eq {s r : List Char} (h : Trivia s r) :
    afterTrivia s = afterTrivia r := by
  induction h with
  | none => rfl
  | blank hc _ ih => rw [afterTrivia_blank hc, ih]
  | @line body s r hb _ ih =>
      have hfeed : afterTrivia ('\n' :: s) = afterTrivia s := afterTrivia_blank (by decide) s
      rw [← ih, hfeed]
      exact afterZone_line hb s
  | lastLine hb => exact afterZone_lastLine hb
  | block hb _ ih =>
      rw [← ih]
      exact afterZone_block hb _
  | openBlock hb => exact afterZone_openBlock hb

/-- What skipping from a zone passes over, down to `r`. -/
def Zone.Passes : Zone → List Char → List Char → Prop
  | .between, s, r => Trivia s r
  | .line, s, r =>
      (∃ body t, s = body ++ '\n' :: t ∧ '\n' ∉ body ∧ Trivia ('\n' :: t) r) ∨
        ('\n' ∉ s ∧ r = [])
  | .block, s, r =>
      (∃ body t, s = body ++ '*' :: '/' :: t ∧ ¬ ['*', '/'] <:+: body ∧ Trivia t r) ∨
        (¬ ['*', '/'] <:+: s ∧ r = [])

theorem Zone.Passes.comment_line {s r : List Char} (h : Zone.line.Passes s r) :
    Trivia ('/' :: '/' :: s) r := by
  rcases h with ⟨body, t, rfl, hb, ht⟩ | ⟨hs, rfl⟩
  · exact .line hb ht
  · exact .lastLine hs

theorem Zone.Passes.comment_block {s r : List Char} (h : Zone.block.Passes s r) :
    Trivia ('/' :: '*' :: s) r := by
  rcases h with ⟨body, t, rfl, hb, ht⟩ | ⟨hs, rfl⟩
  · exact .block hb ht
  · exact .openBlock hs

theorem Zone.Passes.line_cons {c : Char} {s r : List Char} (hc : c ≠ '\n')
    (h : Zone.line.Passes s r) : Zone.line.Passes (c :: s) r := by
  rcases h with ⟨body, t, rfl, hb, ht⟩ | ⟨hs, rfl⟩
  · exact Or.inl ⟨c :: body, t, rfl, by simp [hb, Ne.symm hc], ht⟩
  · exact Or.inr ⟨by simp [hs, Ne.symm hc], rfl⟩

theorem not_infix_cons {l : List Char} {c : Char} {body : List Char} (h : ¬ l <+: c :: body)
    (hb : ¬ l <:+: body) : ¬ l <:+: c :: body := fun hi => by
  rcases List.infix_cons_iff.mp hi with hp | hi
  · exact h hp
  · exact hb hi

theorem Zone.Passes.block_cons {c : Char} {s r : List Char} (hc : ¬ ['*', '/'] <+: c :: s)
    (h : Zone.block.Passes s r) : Zone.block.Passes (c :: s) r := by
  rcases h with ⟨body, t, rfl, hb, ht⟩ | ⟨hs, rfl⟩
  · refine Or.inl ⟨c :: body, t, rfl, not_infix_cons (fun hp => hc ?_) hb, ht⟩
    exact hp.trans (List.prefix_append (c :: body) _)
  · exact Or.inr ⟨not_infix_cons hc hs, rfl⟩

theorem passes_afterZone (z : Zone) (s : List Char) : z.Passes s (afterZone z s) := by
  fun_induction afterZone z s with
  | case1 z =>
      cases z with
      | between => exact .none []
      | line => exact Or.inr ⟨List.not_mem_nil, rfl⟩
      | block => exact Or.inr ⟨by simp, rfl⟩
  | case2 r ih => exact ih.comment_line
  | case3 r ih => exact ih.comment_block
  | case4 c r _ _ hc ih => exact .blank hc ih
  | case5 c r => exact .none _
  | case6 r ih => exact Or.inl ⟨[], r, rfl, List.not_mem_nil, .blank (by decide) ih⟩
  | case7 c r hc ih => exact ih.line_cons hc
  | case8 r ih => exact Or.inl ⟨[], r, rfl, by simp, ih⟩
  | case9 c r hc ih =>
      refine ih.block_cons ?_
      rintro ⟨t, ht⟩
      obtain ⟨rfl, rfl⟩ : '*' = c ∧ '/' :: t = r := by simpa using ht
      exact hc t rfl rfl

/-- Skipping is a way through trivia. -/
theorem trivia_afterTrivia (s : List Char) : Trivia s (afterTrivia s) :=
  passes_afterZone .between s

/-- Behind skipped trivia no more of it begins. -/
theorem afterTrivia_afterTrivia (s : List Char) : afterTrivia (afterTrivia s) = afterTrivia s :=
  ((trivia_afterTrivia s).afterTrivia_eq).symm

/-- Down to a place where no trivia begins there is one way only. -/
theorem trivia_iff_of_solid {s r : List Char} (hr : afterTrivia r = r) :
    Trivia s r ↔ afterTrivia s = r :=
  ⟨fun h => h.afterTrivia_eq.trans hr, fun h => h ▸ trivia_afterTrivia s⟩

end Crossref.Script
