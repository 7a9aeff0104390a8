import Crossref.Proofs.Script.Extension
import Crossref.Proofs.Script.Statement

/-!
# Pages that are cut off

A page may be cut off behind any of its characters. What is read from the rest,
in either mode, are the first assignments of the page, each of them whole
(`read_cut`); or reading fails.

The proof follows the grammar of the whole page. At each place where the cut may
fall, the part that it falls into either stands before the cut already, and then
it stands there as in the whole page; or it is torn. A torn assignment fails once
its head stands. All other torn parts are passed over as one unknown statement
that runs to the end of the text: no token of a page ends such a statement early
(`Sequence.cut`). So nothing more is read (`Barren`).
-/

namespace Crossref.Script

/-! ## Trivia and tokens -/

/-- Cut trivia is torn, or ends before the cut. -/
theorem Trivia.cut {p q u : List Char} (h : Trivia (p ++ q) u) (hu : afterTrivia u = u) :
    Torn (afterTrivia p) ∨ u = afterTrivia p ++ q := by
  by_cases htorn : Torn (afterTrivia p)
  · exact Or.inl htorn
  · rw [trivia_iff_of_solid hu, afterTrivia_append htorn] at h
    exact Or.inr h.symm

/-- The number of open brackets behind a text, if skipping passes over all its
characters one by one. -/
def depthBehind? (depth : Nat) : List Char → Option Nat
  | [] => some depth
  | c :: s =>
    if isOpening c then depthBehind? (depth + 1) s
    else if isClosing c then
      if depth = 0 ∨ depth = 1 ∧ c = '}' then none else depthBehind? (depth - 1) s
    else if isPlain c ∧ c ≠ ';' ∧ c ≠ '/' then depthBehind? depth s
    else none

/-- Skipping passes over these tokens, up to the mark at their end. -/
def passesOver (depth : Nat) : List Token → Bool
  | [] => false
  | [t] => t.isMark && t.text.length == 1
  | t :: ts => (depthBehind? depth t.text).any fun d => passesOver d ts

theorem afterStatementAt_nil (depth : Nat) : afterStatementAt depth [] = [] := by
  rw [afterStatementAt]

theorem afterStatementAt_of_depthBehind? {depth d : Nat} {s : List Char}
    (h : depthBehind? depth s = some d) (r : List Char) :
    afterStatementAt depth (s ++ r) = afterStatementAt d r := by
  fun_induction depthBehind? depth s with
  | case1 => cases h; rfl
  | case2 depth c s hc ih => rw [List.cons_append, afterStatementAt_opening _ hc, ih h]
  | case3 => cases h
  | case4 depth c s _ hc hends ih =>
      rw [not_or] at hends
      rw [List.cons_append, afterStatementAt_bracket _ hc, if_neg hends.1, if_neg hends.2, ih h]
  | case5 depth c s _ _ hc ih =>
      rw [List.cons_append,
        afterStatementAt_plain hc.1 (startsComment_of_ne_slash hc.2.2 _) fun he => hc.2.1 he.1,
        ih h]
  | case6 => cases h

theorem depthBehind?_append {depth d : Nat} {s t : List Char}
    (h : depthBehind? depth (s ++ t) = some d) : ∃ d', depthBehind? depth s = some d' := by
  fun_induction depthBehind? depth s with
  | case1 depth => exact ⟨depth, rfl⟩
  | case2 depth c s hc ih =>
      rw [List.cons_append, depthBehind?, if_pos hc] at h
      exact ih h
  | case3 depth c s hopen hc hends =>
      rw [List.cons_append, depthBehind?, if_neg hopen, if_pos hc, if_pos hends] at h
      cases h
  | case4 depth c s hopen hc hends ih =>
      rw [List.cons_append, depthBehind?, if_neg hopen, if_pos hc, if_neg hends] at h
      exact ih h
  | case5 depth c s hopen hclose hc ih =>
      rw [List.cons_append, depthBehind?, if_neg hopen, if_neg hclose, if_pos hc] at h
      exact ih h
  | case6 depth c s hopen hclose hc =>
      rw [List.cons_append, depthBehind?, if_neg hopen, if_neg hclose, if_neg hc] at h
      cases h

theorem Torn.afterStatementAt_eq {s : List Char} (h : Torn s) (depth : Nat) :
    afterStatementAt depth s = [] := by
  rcases h with rfl | rfl
  · exact afterStatementAt_nil depth
  · rw [afterStatementAt_plain (by decide) rfl (by simp), afterStatementAt_nil]

theorem Token.Stands.cut {t : Token} {s q : List Char}
    (h : t.Stands (t.text ++ (s ++ q)) (s ++ q)) : t.Stands (t.text ++ s) s := by
  cases t with
  | mark m => rfl
  | word w =>
      refine ⟨rfl, fun c hc => h.2 c ?_⟩
      cases s with
      | nil => cases hc
      | cons d s => exact hc

/-- Cut tokens stand before the cut, or are passed over to the end. -/
theorem Sequence.stands_or_skipped {ts : List Token} {p q r : List Char}
    (h : Sequence ts (p ++ q) r) (hts : Solid ts) {depth : Nat}
    (hpass : passesOver depth ts = true) :
    (∃ r', Sequence ts p r' ∧ r = r' ++ q) ∨ afterStatementAt depth p = [] := by
  generalize hs : p ++ q = s at h
  induction h generalizing p depth with
  | @last t s r h =>
      cases p with
      | nil => exact Or.inr (afterStatementAt_nil depth)
      | cons c p =>
          cases t with
          | word w => cases hpass
          | mark m =>
              obtain ⟨d, rfl⟩ : ∃ d, m = [d] := List.length_eq_one_iff.mp (beq_iff_eq.mp hpass)
              obtain ⟨rfl, rfl⟩ := List.cons.inj (hs.trans h.eq_append)
              exact Or.inl ⟨p, .last rfl, rfl⟩
  | @more t t' ts s u v r h htrivia hrest ih =>
      obtain ⟨d, hd, hpass⟩ := (Option.any_eq_true _ _).mp hpass
      -- the cut falls into the text of the first token, or behind it
      rcases List.append_eq_append_iff.mp (hs.trans h.eq_append) with ⟨y, htext, -⟩ | ⟨y, rfl, rfl⟩
      · obtain ⟨d', hd'⟩ := depthBehind?_append (htext ▸ hd)
        have hskip := afterStatementAt_of_depthBehind? hd' []
        rw [List.append_nil, afterStatementAt_nil] at hskip
        exact Or.inr hskip
      · rw [afterStatementAt_of_depthBehind? hd, ← afterStatementAt_afterTrivia]
        rcases htrivia.cut (hrest.solid hts.tail) with htorn | rfl
        · exact Or.inr (htorn.afterStatementAt_eq d)
        · rcases ih hts.tail hpass rfl with ⟨r', hseq, hr⟩ | hskip
          · exact Or.inl ⟨r', .more (h.eq_append ▸ h).cut (trivia_afterTrivia y) hseq, hr⟩
          · exact Or.inr hskip

/-- Cut tokens stand before the cut, or do not and are passed over to the end. -/
theorem Sequence.cut {ts : List Token} {p q r : List Char} (h : Sequence ts (p ++ q) r)
    (hts : Solid ts) (hlast : ∀ t ∈ ts.getLast?, t.isMark = true)
    (hpass : passesOver 0 ts = true) :
    (∃ r', Sequence ts p r' ∧ r = r' ++ q) ∨
      (Token.takeAll? ts p = none ∧ afterStatementAt 0 p = []) := by
  cases htake : Token.takeAll? ts p with
  | none =>
      have hnot := (takeAll?_eq_none_iff hts).mp htake
      rcases h.stands_or_skipped hts hpass with ⟨r', hseq, -⟩ | hskip
      · exact absurd hseq (hnot r')
      · exact Or.inr ⟨rfl, hskip⟩
  | some r' =>
      have hseq := (takeAll?_eq_some_iff hts).mp htake
      have hwhole := (takeAll?_eq_some_iff hts).mpr (hseq.append hts hlast q)
      rw [(takeAll?_eq_some_iff hts).mpr h] at hwhole
      exact Or.inl ⟨r', hseq, Option.some.inj hwhole⟩

/-! ## Texts without assignments -/

/-- In neither mode is an assignment read from the text. -/
def Barren (s : List Char) : Prop :=
  ∀ strict as, readAssignments strict s = .ok as → as = []

theorem barren_nil : Barren [] := by
  intro strict as h
  rw [readAssignments_of_end strict rfl] at h
  cases h
  rfl

theorem Barren.trivia {s : List Char} (h : Barren (afterTrivia s)) : Barren s := by
  intro strict as has
  exact h strict as ((readAssignments_afterTrivia strict s).trans has)

/-- A text that does not begin with an assignment has those of what skipping leaves. -/
theorem barren_of_afterStatement {c : Char} {s : List Char} (hs : afterTrivia (c :: s) = c :: s)
    (hnone : Token.takeAll? assignmentHead (c :: s) = none)
    (hrest : Barren (afterStatement (c :: s))) : Barren (c :: s) := by
  intro strict as has
  cases hend : endsTable (c :: s) with
  | true =>
      rw [readAssignments_of_endsTable strict (hs.symm ▸ hend)] at has
      cases has
      rfl
  | false =>
      rw [readAssignments_of_unknown strict hs hnone hend] at has
      split at has
      · cases has
      · exact hrest strict as has

theorem barren_of_skipped {s : List Char} (hs : afterTrivia s = s)
    (hnone : Token.takeAll? assignmentHead s = none) (hskip : afterStatementAt 0 s = []) :
    Barren s := by
  cases s with
  | nil => exact barren_nil
  | cons c s =>
      refine barren_of_afterStatement hs hnone ?_
      rw [afterStatement]
      split
      · rename_i hclosing
        rw [afterStatementAt_bracket 0 hclosing, if_pos rfl] at hskip
        cases hskip
      · rw [hskip]
        exact barren_nil

theorem Torn.takeAll?_eq_none {t : Token} {ts : List Token} {s : List Char} (h : Torn s)
    (hts : Solid (t :: ts)) (hne : ¬ t.text <+: ['/']) : Token.takeAll? (t :: ts) s = none := by
  rw [takeAll?_eq_none_iff hts]
  intro r hseq
  rcases h with rfl | rfl
  · exact hseq.ne_nil hts rfl
  · exact hne hseq.starts

theorem Torn.afterTrivia_eq {s : List Char} (h : Torn s) : afterTrivia s = s := by
  rcases h with rfl | rfl <;> rfl

theorem Torn.barren {s : List Char} (h : Torn s) : Barren s :=
  barren_of_skipped h.afterTrivia_eq (h.takeAll?_eq_none solid_assignmentHead (by decide))
    (h.afterStatementAt_eq 0)

/-- Other cut tokens than the head of an assignment stand before the cut, or
nothing is read of them. -/
theorem Sequence.cut_barren {t : Token} {ts : List Token} {p q r : List Char}
    (hp : afterTrivia p = p) (h : Sequence (t :: ts) (p ++ q) r) (hts : Solid (t :: ts))
    (hlast : ∀ t' ∈ (t :: ts).getLast?, t'.isMark = true)
    (hpass : passesOver 0 (t :: ts) = true)
    (hne : ¬ t.text <+: tableName ∧ ¬ tableName <+: t.text) :
    (∃ r', Sequence (t :: ts) p r' ∧ r = r' ++ q) ∨
      (Token.takeAll? (t :: ts) p = none ∧ Barren p) :=
  (h.cut hts hlast hpass).imp_right fun ⟨hnone, hskip⟩ =>
    ⟨hnone, barren_of_skipped hp
      (h.takeAll?_eq_none (List.prefix_append p q) solid_assignmentHead hne) hskip⟩

/-! ## Assignments -/

theorem Trivia.unique {s u u' : List Char} (h : Trivia s u) (h' : Trivia s u')
    (hu : afterTrivia u = u) (hu' : afterTrivia u' = u') : u = u' :=
  ((trivia_iff_of_solid hu).mp h).symm.trans ((trivia_iff_of_solid hu').mp h')

theorem Sequence.unique {ts : List Token} (hts : Solid ts) {s r r' : List Char}
    (h : Sequence ts s r) (h' : Sequence ts s r') : r = r' := by
  rw [← takeAll?_eq_some_iff hts] at h h'
  exact Option.some.inj (h.symm.trans h')

theorem AssignmentText.unique {s r r' : List Char} {a a' : Assignment}
    (h : AssignmentText s a r) (h' : AssignmentText s a' r') : a = a' ∧ r = r' := by
  have hmark {m : Char} (hm : isSolid m = true) {t u u' : List Char} (h : Trivia t (m :: u))
      (h' : Trivia t (m :: u')) : u = u' :=
    (List.cons.inj (h.unique h' (afterTrivia_of_isSolid hm u) (afterTrivia_of_isSolid hm u'))).2
  cases h with
  | mk hhead hspace hunit hclose hequals hopen hlist =>
      cases h' with
      | mk hhead' hspace' hunit' hclose' hequals' hopen' hlist' =>
          obtain rfl := hhead.unique solid_assignmentHead hhead'
          obtain rfl := hspace.unique hspace' hunit.solid hunit'.solid
          rw [← readLiteral_eq_ok_iff] at hunit hunit'
          obtain ⟨rfl, rfl⟩ := Prod.mk.inj (Except.ok.inj (hunit.symm.trans hunit'))
          obtain rfl := hmark (by decide) hclose hclose'
          obtain rfl := hmark (by decide) hequals hequals'
          obtain rfl := hmark (by decide) hopen hopen'
          rw [← readList_eq_ok_iff] at hlist hlist'
          obtain ⟨rfl, rfl⟩ := Prod.mk.inj (Except.ok.inj (hlist.symm.trans hlist'))
          exact ⟨rfl, rfl⟩

/-- A cut assignment stands before the cut, or nothing is read of it. -/
theorem AssignmentText.cut {p q r : List Char} {a : Assignment} (hp : afterTrivia p = p)
    (h : AssignmentText (p ++ q) a r) :
    (∃ r', AssignmentText p a r' ∧ r = r' ++ q) ∨ Barren p := by
  obtain ⟨u, hhead⟩ := h.head
  rcases hhead.cut solid_assignmentHead (by decide) (by decide) with
    ⟨u', hhead', -⟩ | ⟨hnone, hskip⟩
  · -- behind its head an assignment is read, or the whole reading fails
    by_cases hread : ∃ a' w, readAssignment u' = .ok (a', w)
    · obtain ⟨a', w, hread⟩ := hread
      obtain ⟨r', htext, -⟩ := text_of_readAssignment hhead' hread
      obtain ⟨rfl, hr⟩ := h.unique (htext.append q)
      exact Or.inl ⟨r', htext, hr⟩
    · refine Or.inr fun strict as has => ?_
      rw [readAssignments_of_head hp
        ((takeAll?_eq_some_iff solid_assignmentHead).mpr hhead')] at has
      obtain ⟨⟨a', w⟩, ha, -⟩ := bind_eq_ok.mp has
      exact absurd ⟨a', w, ha⟩ hread
  · exact Or.inr (barren_of_skipped hp hnone hskip)

/-- A cut optional semicolon stands before the cut, or nothing follows it there. -/
theorem Semicolon.cut {p q r : List Char} (h : Semicolon (p ++ q) r)
    (hr : ∀ t, afterTrivia r ≠ ';' :: t) :
    (∃ r', r = r' ++ q ∧
      ∀ strict, readAssignments strict (afterSemicolon p) = readAssignments strict r') ∨
      Barren (afterSemicolon p) := by
  by_cases htorn : Torn (afterTrivia p)
  · have hne (t : List Char) : afterTrivia p ≠ ';' :: t := by
      rcases htorn with ht | ht <;> rw [ht] <;> simp
    rw [afterSemicolon_of_absent hne]
    exact Or.inr htorn.barren
  · have happend := afterTrivia_append htorn q
    refine Or.inl ?_
    cases h with
    | present h =>
        have hsemi : afterTrivia (';' :: r) = ';' :: r := afterTrivia_of_isSolid (by decide) r
        rw [trivia_iff_of_solid hsemi, happend] at h
        cases ht : afterTrivia p with
        | nil => exact absurd (Or.inl ht) htorn
        | cons c t =>
            rw [ht] at h
            obtain ⟨rfl, rfl⟩ := List.cons.inj h
            exact ⟨t, rfl, fun strict => by rw [afterSemicolon_of_present ht]⟩
    | absent =>
        have hne (t : List Char) : afterTrivia p ≠ ';' :: t := by
          intro ht
          rw [happend, ht] at hr
          exact hr (t ++ q) rfl
        refine ⟨p, rfl, fun strict => ?_⟩
        rw [afterSemicolon_of_absent hne, readAssignments_afterTrivia]

/-! ## The end of the table -/

theorem Barren.of_closing {c : Char} {s : List Char} (hc : isClosing c = true) (h : Barren s) :
    Barren (c :: s) := by
  have hsolid : afterTrivia (c :: s) = c :: s :=
    afterTrivia_of_isSolid (by rcases isClosing_iff.mp hc with rfl | rfl | rfl <;> decide) s
  have hnone : Token.takeAll? assignmentHead (c :: s) = none := by
    rcases isClosing_iff.mp hc with rfl | rfl | rfl <;> rfl
  refine barren_of_afterStatement hsolid hnone ?_
  rw [afterStatement, if_pos hc]
  exact h

/-- Where the table ends before the cut no assignment follows. -/
theorem barren_of_endsTable {s : List Char} (hs : afterTrivia s = s) (h : endsTable s = true) :
    Barren s := by
  intro strict as has
  rw [readAssignments_of_endsTable strict (hs.symm ▸ h)] at has
  cases has
  rfl

theorem Sequence.cut_registration {p q r : List Char} (hp : afterTrivia p = p)
    (h : Sequence registration (p ++ q) r) : Barren p := by
  rcases h.cut_barren hp solid_registration (by decide) (by decide) (by decide) with
    ⟨r', hseq, -⟩ | ⟨-, hbarren⟩
  · exact barren_of_endsTable hp (endsTable_iff.mpr (Or.inl ⟨r', hseq⟩))
  · exact hbarren

/-- A mark that is not the last token, cut anywhere behind it. -/
theorem Sequence.cut_mark {m c : Char} {t : Token} {ts : List Token} {p q r : List Char}
    (hts : Solid (.mark [m] :: t :: ts)) (h : Sequence (.mark [m] :: t :: ts) (c :: p ++ q) r) :
    c = m ∧ (Torn (afterTrivia p) ∨ Sequence (t :: ts) (afterTrivia p ++ q) r) := by
  cases h with
  | more h htrivia hrest =>
      obtain ⟨rfl, rfl⟩ := List.cons.inj h.eq_append
      refine ⟨rfl, ?_⟩
      rcases htrivia.cut (hrest.solid hts.tail) with htorn | rfl
      · exact Or.inl htorn
      · exact Or.inr hrest

/-- The tail of the wrapper begins with closing brackets, which are passed over
one by one; its last two marks run to the end of the text. -/
theorem Sequence.cut_wrapperTail {p q r : List Char} (hp : afterTrivia p = p)
    (h : Sequence wrapperTail (p ++ q) r) : Barren p := by
  by_cases hend : endsTable p = true
  · exact barren_of_endsTable hp hend
  cases p with
  | nil => exact barren_nil
  | cons c s =>
      obtain ⟨rfl, htorn | h⟩ := h.cut_mark (by decide)
      · exact .of_closing (by decide) (.trivia htorn.barren)
      refine .of_closing (by decide) (.trivia ?_)
      cases hs : afterTrivia s with
      | nil => exact barren_nil
      | cons c t =>
          rw [hs] at h
          obtain ⟨rfl, htorn | h⟩ := h.cut_mark (by decide)
          · exact .of_closing (by decide) (.trivia htorn.barren)
          refine .of_closing (by decide) (.trivia ?_)
          rcases h.cut_barren (afterTrivia_afterTrivia t) (by decide) (by decide) (by decide)
            (by decide) with ⟨r', hseq, -⟩ | ⟨-, hbarren⟩
          · have htrivia : Trivia s (')' :: t) := hs ▸ trivia_afterTrivia s
            have hwhole : Sequence wrapperTail ('}' :: s) r' :=
              .more rfl htrivia (.more rfl (trivia_afterTrivia t) hseq)
            exact absurd (endsTable_iff.mpr (Or.inr ⟨r', hwhole⟩)) hend
          · exact hbarren

/-! ## Pages -/

theorem Barren.prefix_of_read {s : List Char} (h : Barren s) {strict : Bool}
    {as bs : List Assignment} (hread : readAssignments strict s = .ok bs) : bs <+: as := by
  rw [h strict bs hread]
  exact List.nil_prefix

/-- What is read from cut statements are the first assignments among them. -/
theorem Statements.cut {s : List Char} {as : List Assignment} (h : Statements s as)
    {p q : List Char} (hs : s = p ++ q) {strict : Bool} {bs : List Assignment}
    (hread : readAssignments strict p = .ok bs) : bs <+: as := by
  induction h generalizing p bs with
  | ended h =>
      subst hs
      have htorn : Torn (afterTrivia p) := by
        rcases h.cut rfl with htorn | hnil
        · exact htorn
        · exact Or.inl (List.append_eq_nil_iff.mp hnil.symm).1
      exact htorn.barren.trivia.prefix_of_read hread
  | registered h hend =>
      subst hs
      have hbarren : Barren (afterTrivia p) := by
        rcases h.cut (hend.solid solid_registration) with htorn | rfl
        · exact htorn.barren
        · exact hend.cut_registration (afterTrivia_afterTrivia p)
      exact hbarren.trivia.prefix_of_read hread
  | unwrapped h hend =>
      subst hs
      have hbarren : Barren (afterTrivia p) := by
        rcases h.cut (hend.solid solid_wrapperTail) with htorn | rfl
        · exact htorn.barren
        · exact hend.cut_wrapperTail (afterTrivia_afterTrivia p)
      exact hbarren.trivia.prefix_of_read hread
  | @assign s u v w a as h ha hsemi hrest ih =>
      subst hs
      obtain ⟨x, hhead⟩ := ha.head
      have hcut : (∃ r', AssignmentText (afterTrivia p) a r' ∧ v = r' ++ q) ∨
          Barren (afterTrivia p) := by
        rcases h.cut (hhead.solid solid_assignmentHead) with htorn | rfl
        · exact Or.inr htorn.barren
        · exact ha.cut (afterTrivia_afterTrivia p)
      rcases hcut with ⟨r', htext, rfl⟩ | hbarren
      · obtain ⟨y, hy, ha'⟩ := readAssignment_of_text htext
        rw [readAssignments_of_head rfl hy, ha'] at hread
        obtain ⟨⟨a', w'⟩, hfirst, hread⟩ := bind_eq_ok.mp hread
        cases hfirst
        obtain ⟨bs', hbs', hbs⟩ := bind_eq_ok.mp hread
        cases hbs
        refine List.cons_prefix_cons.mpr ⟨rfl, ?_⟩
        rcases hsemi.cut hrest.not_semicolon with ⟨r'', hw, hsame⟩ | hbarren
        · exact ih hw ((hsame strict).symm.trans hbs')
        · exact hbarren.prefix_of_read hbs'
      · exact hbarren.trivia.prefix_of_read hread

/-- Where the declaration does not stand and no assignments follow, none are read. -/
theorem readScript_eq_nil {s u : List Char}
    (hu : afterTrivia ((Token.takeAll? wrapperHead (afterTrivia s)).getD (afterTrivia s)) = u)
    (hnone : Token.takeAll? declaration u = none) (hbarren : Barren u) {strict : Bool}
    {as : List Assignment} (h : readScript strict s = .ok as) : as = [] := by
  unfold readScript at h
  dsimp only at h
  rw [hu, hnone] at h
  dsimp only at h
  split at h
  · cases h
  · exact hbarren strict as h

/-- A cut beginning of a page stands before the cut, or no assignment is read
from what is left of the page. -/
theorem Declared.cut {p q x : List Char} (h : Declared (p ++ q) x) :
    (∃ x', Declared p x' ∧ x = x' ++ q) ∨
      ∀ strict as, readScript strict p = .ok as → as = [] := by
  have hsolid := afterTrivia_afterTrivia p
  have hplain (hwrapper : Token.takeAll? wrapperHead (afterTrivia p) = none)
      (hdecl : Token.takeAll? declaration (afterTrivia p) = none)
      (hbarren : Barren (afterTrivia p)) (strict : Bool) (as : List Assignment) :
      readScript strict p = .ok as → as = [] := by
    refine readScript_eq_nil ?_ hdecl hbarren
    rw [hwrapper, Option.getD_none, hsolid]
  have htorn (ht : Torn (afterTrivia p)) :=
    hplain (ht.takeAll?_eq_none solid_wrapperHead (by decide))
      (ht.takeAll?_eq_none solid_declaration (by decide)) ht.barren
  cases h with
  | wrapped hs hwrapper hv hdecl =>
      rcases hs.cut (hwrapper.solid solid_wrapperHead) with ht | rfl
      · exact Or.inr (htorn ht)
      rcases hwrapper.cut_barren hsolid solid_wrapperHead (by decide) (by decide) (by decide) with
        ⟨v', hwrapper', rfl⟩ | ⟨hnone, hbarren⟩
      · -- the wrapper stands, so the cut falls into what it wraps
        have hinside (hdecl : Token.takeAll? declaration (afterTrivia v') = none)
            (hbarren : Barren (afterTrivia v')) (strict : Bool) (as : List Assignment) :
            readScript strict p = .ok as → as = [] := by
          refine readScript_eq_nil ?_ hdecl hbarren
          rw [(takeAll?_eq_some_iff solid_wrapperHead).mpr hwrapper', Option.getD_some]
        rcases hv.cut (hdecl.solid solid_declaration) with ht | rfl
        · exact Or.inr (hinside (ht.takeAll?_eq_none solid_declaration (by decide)) ht.barren)
        have hsolid' := afterTrivia_afterTrivia v'
        rcases hdecl.cut_barren hsolid' solid_declaration (by decide) (by decide) (by decide) with
          ⟨x', hdecl', hx⟩ | ⟨hnone, hbarren⟩
        · exact Or.inl
            ⟨x', .wrapped (trivia_afterTrivia p) hwrapper' (trivia_afterTrivia v') hdecl', hx⟩
        · exact Or.inr (hinside hnone hbarren)
      · have hp := List.prefix_append (afterTrivia p) q
        have hdecl := hwrapper.takeAll?_eq_none hp solid_declaration (by decide)
        exact Or.inr (hplain hnone hdecl hbarren)
  | plain hs hdecl =>
      rcases hs.cut (hdecl.solid solid_declaration) with ht | rfl
      · exact Or.inr (htorn ht)
      rcases hdecl.cut_barren hsolid solid_declaration (by decide) (by decide) (by decide) with
        ⟨x', hdecl', hx⟩ | ⟨hnone, hbarren⟩
      · exact Or.inl ⟨x', .plain (trivia_afterTrivia p) hdecl', hx⟩
      · have hp := List.prefix_append (afterTrivia p) q
        have hwrapper := hdecl.takeAll?_eq_none hp solid_wrapperHead (by decide)
        exact Or.inr (hplain hwrapper hnone hbarren)

/-- What is read from a page that is cut off are its first assignments. -/
theorem Page.cut {p q : List Char} {as : List Assignment} (h : Page (p ++ q) as) {strict : Bool}
    {bs : List Assignment} (hread : readScript strict p = .ok bs) : bs <+: as := by
  obtain ⟨x, y, hdecl, hsemi, hstatements⟩ := h.declared
  rcases hdecl.cut with ⟨x', hdecl', rfl⟩ | hnil
  · rw [readScript_of_declared hdecl'] at hread
    rcases hsemi.cut hstatements.not_semicolon with ⟨y', hy, hsame⟩ | hbarren
    · exact hstatements.cut hy ((hsame strict).symm.trans hread)
    · exact hbarren.prefix_of_read hread
  · rw [hnil strict bs hread]
    exact List.nil_prefix

/-- A page that a strict reader accepts may be cut off behind any of its
characters: in either mode reading the rest fails, or gives the table of some of
the first assignments of the page. -/
theorem read_cut {source : String} {table : Index Markup} (h : read true source = .ok table) :
    ∃ as, Page source.toList as ∧ Tabulates as table ∧ ∀ n strict,
      let cut := String.ofList (source.toList.take n)
      (∃ e, read strict cut = .error e) ∨
        ∃ k ≤ as.length, ∃ t, read strict cut = .ok t ∧ Tabulates (as.take k) t := by
  obtain ⟨as, hpage, htable⟩ := (strict_read_eq_ok_iff source table).mp h
  refine ⟨as, hpage, htable, fun n strict => ?_⟩
  intro cut
  have hcut : cut.toList = source.toList.take n := String.toList_ofList
  rw [← List.take_append_drop n source.toList, ← hcut] at hpage
  unfold read
  cases hread : readScript strict cut.toList with
  | error f => exact Or.inl ⟨_, rfl⟩
  | ok bs =>
      have hprefix : bs <+: as := hpage.cut hread
      refine Or.inr ⟨bs.length, hprefix.length_le, tabulate bs, rfl, tabulates_iff.mpr ?_⟩
      rw [← List.prefix_iff_eq_take.mp hprefix]

/-- A page of two assignments. Cut off in the name of its table it still has the
first one to a lenient reader; cut off in a descriptor it has none. -/
theorem read_cut_inside_assignment :
    let source := "var implementors = \x7b\x7d;\n" ++
      "implementors['a'] = ['x'];\nimplementors['b'] = ['y'];"
    let table := Index.ofList [("a", [⟨"x"⟩]), ("b", [⟨"y"⟩])]
    read true source = .ok table ∧
      read false (String.ofList (source.toList.take 60)) = .ok (.ofList [("a", [⟨"x"⟩])]) ∧
      read false (String.ofList (source.toList.take 73)) =
        .error ⟨⟨3, 22⟩, .unterminatedLiteral⟩ ∧
      ∃ as, Page source.toList as ∧ Tabulates as table ∧ ∀ n strict,
        let cut := String.ofList (source.toList.take n)
        (∃ e, read strict cut = .error e) ∨
          ∃ k ≤ as.length, ∃ t, read strict cut = .ok t ∧ Tabulates (as.take k) t := by
  intro source table
  have hread : read true source = .ok table := by decide +kernel
  have hword : read false (String.ofList (source.toList.take 60)) =
      .ok (.ofList [("a", [⟨"x"⟩])]) := by decide +kernel
  have hdescriptor : read false (String.ofList (source.toList.take 73)) =
      .error ⟨⟨3, 22⟩, .unterminatedLiteral⟩ := by decide +kernel
  exact ⟨hread, hword, hdescriptor, read_cut hread⟩

end Crossref.Script
