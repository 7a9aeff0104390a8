import Crossref.Proofs.Script.Grammar

/-!
# Texts with more behind them

What stands in a text still stands there when text is added behind it, as long
as its end can be seen: a literal has its closing quote, a list its bracket, and
a sequence of tokens a mark at its end. Trivia has no such end. It may go on in
what is added, if all of the text was trivia or half of a comment's opening is
left of it (`Torn`); else it ends where it did (`afterTrivia_append`).
-/

namespace Crossref.Script

open Text (Piece isBlank)

/-! ## Trivia -/

/-- What is left of trivia that the end of the text cuts off. -/
def Torn (s : List Char) : Prop := s = [] ∨ s = ['/']

instance (s : List Char) : Decidable (Torn s) := inferInstanceAs (Decidable (_ ∨ _))

theorem afterZone_append (z : Zone) (s q : List Char) :
    Torn (afterZone z s) ∨ afterZone z (s ++ q) = afterZone z s ++ q := by
  fun_induction afterZone z s with
  | case1 => exact Or.inl (Or.inl rfl)
  | case2 r ih => exact ih
  | case3 r ih => exact ih
  | case4 c r _ _ hc ih =>
      have hskip : afterZone .between (c :: r ++ q) = afterZone .between (r ++ q) :=
        afterTrivia_blank hc (r ++ q)
      rw [hskip]
      exact ih
  | case5 c r hline hblock hc =>
      have hblank : isBlank c = false := Bool.eq_false_iff.mpr hc
      by_cases hslash : c = '/'
      · subst hslash
        cases r with
        | nil => exact Or.inl (Or.inr rfl)
        | cons d r =>
            have hd : d ≠ '/' ∧ d ≠ '*' :=
              ⟨fun he => hline r rfl (he ▸ rfl), fun he => hblock r rfl (he ▸ rfl)⟩
            have hcomment : startsComment ('/' :: d :: (r ++ q)) = false := by
              rw [startsComment_cons_cons]
              simp [hd]
            exact Or.inr (afterTrivia_of_not_starts hblank hcomment)
      · exact Or.inr (afterTrivia_solid hblank hslash (r ++ q))
  | case6 r ih =>
      have hfeed : afterZone .line ('\n' :: (r ++ q)) = afterZone .between (r ++ q) := by
        rw [afterZone, if_pos rfl]
      exact hfeed ▸ ih
  | case7 c r hc ih =>
      have hskip : afterZone .line (c :: r ++ q) = afterZone .line (r ++ q) := by
        rw [List.cons_append, afterZone, if_neg hc]
      exact hskip ▸ ih
  | case8 r ih => exact ih
  | case9 c r hc ih =>
      cases r with
      | nil => exact Or.inl (Or.inl rfl)
      | cons d r =>
          have hskip : afterZone .block (c :: d :: r ++ q) = afterZone .block (d :: r ++ q) := by
            refine afterZone_block_cons ?_
            rintro ⟨t, ht⟩
            obtain ⟨rfl, rfl, -⟩ : '*' = c ∧ '/' = d ∧ t = r ++ q := by simpa using ht
            exact hc r rfl rfl
          exact hskip ▸ ih

theorem afterTrivia_append {s : List Char} (h : ¬ Torn (afterTrivia s)) (q : List Char) :
    afterTrivia (s ++ q) = afterTrivia s ++ q :=
  (afterZone_append .between s q).resolve_left h

theorem Trivia.append {s r : List Char} (h : Trivia s r) (hr : r ≠ []) (q : List Char) :
    Trivia (s ++ q) (r ++ q) := by
  induction h with
  | none r => exact .none _
  | blank hc _ ih => exact .blank hc (ih hr)
  | @line body s r hb _ ih =>
      have hassoc : '/' :: '/' :: (body ++ '\n' :: s) ++ q =
          '/' :: '/' :: (body ++ '\n' :: (s ++ q)) := by simp
      exact hassoc ▸ .line hb (ih hr)
  | lastLine => exact absurd rfl hr
  | @block body s r hb _ ih =>
      have hassoc : '/' :: '*' :: (body ++ '*' :: '/' :: s) ++ q =
          '/' :: '*' :: (body ++ '*' :: '/' :: (s ++ q)) := by simp
      exact hassoc ▸ .block hb (ih hr)
  | openBlock => exact absurd rfl hr

/-- Nothing is no trivia before something. -/
theorem Trivia.ne_nil {s r : List Char} (h : Trivia s r) (hr : r ≠ []) : s ≠ [] := by
  rintro rfl
  cases h
  exact hr rfl

/-! ## Tokens -/

def Token.isMark : Token → Bool
  | .mark _ => true
  | .word _ => false

/-- A mark stands wherever it is written, a word only where something else follows. -/
theorem Token.Stands.append {t : Token} {s r : List Char} (h : t.Stands s r)
    (hr : t.isMark = true ∨ r ≠ []) (q : List Char) : t.Stands (s ++ q) (r ++ q) := by
  cases t with
  | mark m =>
      have hs : s = m ++ r := h
      exact (hs ▸ List.append_assoc m r q :)
  | word w =>
      obtain ⟨rfl, hnext⟩ := h
      refine ⟨List.append_assoc w r q, ?_⟩
      cases r with
      | nil => exact absurd rfl (hr.resolve_left Bool.false_ne_true)
      | cons c r => exact hnext

theorem Token.Stands.eq_append {t : Token} {s r : List Char} (h : t.Stands s r) :
    s = t.text ++ r :=
  eq_append_of_take? (take?_eq_some_iff.mpr h)

theorem Token.Stands.ne_nil {t : Token} {s r : List Char} (h : t.Stands s r)
    (ht : t.isSolid = true) : s ≠ [] := by
  rintro rfl
  obtain ⟨htext, -⟩ := List.append_eq_nil_iff.mp h.eq_append.symm
  rw [Token.isSolid, htext] at ht
  cases ht

theorem Sequence.ne_nil {ts : List Token} {s r : List Char} (h : Sequence ts s r)
    (hts : Solid ts) : s ≠ [] := by
  cases h with
  | last h => exact h.ne_nil (hts.2 _ List.mem_cons_self)
  | more h _ _ => exact h.ne_nil (hts.2 _ List.mem_cons_self)

theorem Sequence.append {ts : List Token} {s r : List Char} (h : Sequence ts s r)
    (hts : Solid ts) (hlast : ∀ t ∈ ts.getLast?, t.isMark = true) (q : List Char) :
    Sequence ts (s ++ q) (r ++ q) := by
  induction h with
  | last h => exact .last (h.append (Or.inl (hlast _ rfl)) q)
  | more h htrivia hrest ih =>
      have hv := hrest.ne_nil hts.tail
      have hu := htrivia.ne_nil hv
      exact .more (h.append (Or.inr hu) q) (htrivia.append hv q) (ih hts.tail hlast)

/-! ## Literals -/

theorem Escape.append {s r : List Char} {p : Piece} (h : Escape s p r) (hr : r ≠ [])
    (q : List Char) : Escape (s ++ q) p (r ++ q) := by
  cases h with
  | short h => exact .short h
  | @byte ds _ n hlen h =>
      rw [List.cons_append, List.append_assoc]
      exact .byte hlen h
  | unit hlen h =>
      rw [List.cons_append, List.append_assoc]
      exact .unit hlen h
  | codePoint hclose h =>
      rw [List.cons_append, List.cons_append, List.append_assoc, List.cons_append]
      exact .codePoint hclose h
  | continuation h => exact .continuation h
  | carriageReturn h =>
      refine .carriageReturn fun t ht => ?_
      cases r with
      | nil => exact hr rfl
      | cons c r => exact h r (by rw [(List.cons.inj ht).1])
  | carriageReturnFeed => exact .carriageReturnFeed
  | itself hshort hspecial => exact .itself hshort hspecial

theorem Elements.ne_nil {quote : Char} {s r : List Char} {ps : List Piece}
    (h : Elements quote s ps r) : s ≠ [] := by
  cases h <;> exact List.cons_ne_nil _ _

theorem Elements.append {quote : Char} {s r : List Char} {ps : List Piece}
    (h : Elements quote s ps r) (q : List Char) : Elements quote (s ++ q) ps (r ++ q) := by
  induction h with
  | close r => exact .close _
  | raw hquote hback hfeed _ ih => exact .raw hquote hback hfeed ih
  | escape he h ih => exact .escape (he.append h.ne_nil q) ih

theorem Literal.append {s r : List Char} {text : String} (h : Literal s text r) (q : List Char) :
    Literal (s ++ q) text (r ++ q) := by
  cases h with
  | quoted hquote h => exact .quoted hquote (h.append q)

theorem Literal.ne_nil {s r : List Char} {text : String} (h : Literal s text r) : s ≠ [] := by
  cases h
  exact List.cons_ne_nil _ _

/-! ## Assignments -/

theorem Items.append {s r : List Char} {list : List Markup} (h : Items s list r) (q : List Char) :
    Items (s ++ q) list (r ++ q) := by
  induction h with
  | close h => exact .close (h.append (List.cons_ne_nil _ _) q)
  | last hs hx h =>
      exact .last (hs.append hx.ne_nil q) (hx.append q) (h.append (List.cons_ne_nil _ _) q)
  | more hs hx hcomma _ ih =>
      exact .more (hs.append hx.ne_nil q) (hx.append q) (hcomma.append (List.cons_ne_nil _ _) q) ih

theorem AssignmentText.append {s r : List Char} {a : Assignment} (h : AssignmentText s a r)
    (q : List Char) : AssignmentText (s ++ q) a (r ++ q) := by
  cases h with
  | mk hhead hspace hunit hclose hequals hopen hlist =>
      exact .mk (hhead.append solid_assignmentHead (by decide) q) (hspace.append hunit.ne_nil q)
        (hunit.append q) (hclose.append (List.cons_ne_nil _ _) q)
        (hequals.append (List.cons_ne_nil _ _) q) (hopen.append (List.cons_ne_nil _ _) q)
        (hlist.append q)

end Crossref.Script
