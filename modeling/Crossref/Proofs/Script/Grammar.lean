import Crossref.Script.Page
import Crossref.Proofs.Index
import Crossref.Proofs.Script.Literal

/-!
# The grammar of page scripts

`Page s as` is the grammar of strict pages, from the wrapper down to the
characters, where `as` are the assignments of the page in their order. What
stands behind the registration or the tail of the wrapper is not looked at.
`Tabulates as t` says what table the assignments make: each unit at the place of
its first assignment, with the list of its last.

The main statement, `strict_read_eq_ok_iff`, is that strict reading accepts
exactly the pages of the grammar and gives exactly their tables. Both directions
follow the recursion of the readers; the optional parts are unambiguous because
the first characters of what may follow differ (`Statements.not_semicolon`,
`Sequence.starts`).
-/

namespace Crossref.Script

/-! ## The grammar -/

/-- The descriptors of a list, behind its opening bracket or one of its commas.
The list may end in a comma. -/
inductive Items : List Char → List Markup → List Char → Prop where
  | close {s r : List Char} (h : Trivia s (']' :: r)) : Items s [] r
  | last {s u v r : List Char} {x : String} (hs : Trivia s u) (hx : Literal u x v)
      (h : Trivia v (']' :: r)) : Items s [⟨x⟩] r
  | more {s u v w r : List Char} {x : String} {xs : List Markup} (hs : Trivia s u)
      (hx : Literal u x v) (hcomma : Trivia v (',' :: w)) (h : Items w xs r) :
      Items s (⟨x⟩ :: xs) r

/-- An assignment: `implementors [ unit ] = [ list ]`. -/
inductive AssignmentText : List Char → Assignment → List Char → Prop where
  | mk {s s₁ s₂ s₃ s₄ s₅ s₆ r : List Char} {unit : String} {list : List Markup}
      (hhead : Sequence assignmentHead s s₁) (hspace : Trivia s₁ s₂) (hunit : Literal s₂ unit s₃)
      (hclose : Trivia s₃ (']' :: s₄)) (hequals : Trivia s₄ ('=' :: s₅))
      (hopen : Trivia s₅ ('[' :: s₆)) (hlist : Items s₆ list r) :
      AssignmentText s ⟨unit, list⟩ r

/-- Assignments up to the end of the table. -/
inductive Statements : List Char → List Assignment → Prop where
  | ended {s : List Char} (h : Trivia s []) : Statements s []
  | registered {s u r : List Char} (h : Trivia s u) (hend : Sequence registration u r) :
      Statements s []
  | unwrapped {s u r : List Char} (h : Trivia s u) (hend : Sequence wrapperTail u r) :
      Statements s []
  | assign {s u v w : List Char} {a : Assignment} {as : List Assignment} (h : Trivia s u)
      (ha : AssignmentText u a v) (hsemi : Semicolon v w) (hrest : Statements w as) :
      Statements s (a :: as)

/-- A whole page, with or without the wrapper around it. -/
inductive Page : List Char → List Assignment → Prop where
  | wrapped {s u v w x y : List Char} {as : List Assignment} (hs : Trivia s u)
      (hwrapper : Sequence wrapperHead u v) (hv : Trivia v w) (hdecl : Sequence declaration w x)
      (hsemi : Semicolon x y) (h : Statements y as) : Page s as
  | plain {s w x y : List Char} {as : List Assignment} (hs : Trivia s w)
      (hdecl : Sequence declaration w x) (hsemi : Semicolon x y) (h : Statements y as) : Page s as

/-- The table of assignments: units in the order of their first assignments,
each with the list of its last. -/
structure Tabulates (as : List Assignment) (t : Index Markup) : Prop where
  keys : t.keys = (as.map (·.unit)).eraseDups
  lists : ∀ k, t.get? k = (as.reverse.find? fun a => k == a.unit).map (·.implementors)

theorem lookup_eq_find? (as : List Assignment) (k : String) :
    (as.map fun a => (a.unit, a.implementors)).lookup k =
      (as.find? fun a => k == a.unit).map (·.implementors) := by
  induction as with
  | nil => rfl
  | cons a as ih =>
      rw [List.map_cons, List.lookup_cons, List.find?_cons, ih]
      cases k == a.unit <;> rfl

theorem tabulates_iff {as : List Assignment} {t : Index Markup} :
    Tabulates as t ↔ t = tabulate as := by
  have hkeys : (tabulate as).keys = (as.map (·.unit)).eraseDups := by
    rw [tabulate, Index.keys_ofList, List.map_map]
    rfl
  have hlists (k : String) : (tabulate as).get? k =
      (as.reverse.find? fun a => k == a.unit).map (·.implementors) := by
    rw [tabulate, Index.get?_ofList, ← List.map_reverse, lookup_eq_find?]
  constructor
  · intro h
    exact Index.eq_of_keys_of_get? (h.keys.trans hkeys.symm) fun k =>
      (h.lists k).trans (hlists k).symm
  · rintro rfl
    exact ⟨hkeys, hlists⟩

/-! ## How the parts begin -/

/-- A sequence of tokens begins with the text of its first one. -/
theorem Sequence.starts {t : Token} {ts : List Token} {s r : List Char}
    (h : Sequence (t :: ts) s r) : t.text <+: s := by
  have hstands {u : List Char} (hu : t.Stands s u) : t.text <+: s := by
    cases t with
    | word w => exact ⟨u, hu.1.symm⟩
    | mark m => exact ⟨u, Eq.symm hu⟩
  cases h with
  | last h => exact hstands h
  | more h _ _ => exact hstands h

/-- At one place at most one of two sequences stands whose first tokens differ,
wherever the text may be cut off. -/
theorem Sequence.takeAll?_eq_none {t t' : Token} {ts ts' : List Token} {p s r : List Char}
    (h : Sequence (t :: ts) s r) (hp : p <+: s) (hts : Solid (t' :: ts'))
    (hne : ¬ t.text <+: t'.text ∧ ¬ t'.text <+: t.text) : Token.takeAll? (t' :: ts') p = none := by
  rw [takeAll?_eq_none_iff hts]
  intro r' h'
  exact (List.prefix_or_prefix_of_prefix h.starts (h'.starts.trans hp)).elim hne.1 hne.2

/-! ## Lists -/

theorem Items.trivia {s u r : List Char} {xs : List Markup} (hs : Trivia s u)
    (h : Items u xs r) : Items s xs r := by
  cases h with
  | close h => exact .close (hs.trans h)
  | last h hx hend => exact .last (hs.trans h) hx hend
  | more h hx hcomma hrest => exact .more (hs.trans h) hx hcomma hrest

theorem Literal.ne_bracket {s r : List Char} {text : String} (h : Literal s text r)
    (t : List Char) : s ≠ ']' :: t := by
  cases h with
  | quoted hquote _ =>
      intro he
      obtain ⟨rfl, -⟩ := List.cons.inj he
      rcases hquote with hq | hq <;> cases hq

theorem items_of_readList {s r : List Char} {xs : List Markup} (h : readList s = .ok (xs, r)) :
    Items s xs r := by
  fun_induction readList s generalizing xs r with
  | case1 s t hs =>
      cases h
      exact .close (hs ▸ trivia_afterTrivia s)
  | case2 => cases h
  | case3 => cases h
  | case4 s x u v hu ys rest hr _ ht ih =>
      cases h
      exact .more (trivia_afterTrivia s) (readLiteral_eq_ok_iff.mp ht)
        (hu ▸ trivia_afterTrivia u) (ih hr)
  | case5 s x u v hu _ ht =>
      cases h
      exact .last (trivia_afterTrivia s) (readLiteral_eq_ok_iff.mp ht) (hu ▸ trivia_afterTrivia u)
  | case6 => cases h

theorem readList_close {s r : List Char} (hs : afterTrivia s = ']' :: r) :
    readList s = .ok ([], r) := by
  unfold readList
  split
  · rename_i t ht
    rw [hs] at ht
    cases ht
    rfl
  · rename_i hne
    exact absurd hs (hne r)

theorem readList_of_literal_error {s : List Char} {f : Failure}
    (hopen : ∀ t, afterTrivia s ≠ ']' :: t) (h : readLiteral (afterTrivia s) = .error f) :
    readList s = .error f := by
  unfold readList
  split
  · rename_i t ht
    exact absurd ht (hopen t)
  · split
    · rename_i hf
      rw [h] at hf
      cases hf
      rfl
    · rename_i hok
      rw [h] at hok
      cases hok

/-- Behind an item stands neither a comma nor the closing bracket. -/
theorem readList_unfinished {s u v : List Char} {x : String} (hs : afterTrivia s = u)
    (hx : Literal u x v) (hcomma : ∀ w, afterTrivia v ≠ ',' :: w)
    (hclose : ∀ w, afterTrivia v ≠ ']' :: w) :
    readList s = .error ⟨.unfinishedList (afterTrivia v).head?, afterTrivia v⟩ := by
  have hread := readLiteral_eq_ok_iff.mpr hx
  subst hs
  unfold readList
  split
  · rename_i t ht
    exact absurd ht (hx.ne_bracket t)
  · split
    · rename_i hf
      rw [hread] at hf
      cases hf
    · rename_i hok
      rw [hread] at hok
      cases hok
      split
      · rename_i w hw
        exact absurd hw (hcomma w)
      · rename_i w hw
        exact absurd hw (hclose w)
      · rfl

theorem readList_last {s u v r : List Char} {x : String} (hs : afterTrivia s = u)
    (hx : Literal u x v) (hv : afterTrivia v = ']' :: r) : readList s = .ok ([⟨x⟩], r) := by
  have hread := readLiteral_eq_ok_iff.mpr hx
  subst hs
  unfold readList
  split
  · rename_i t ht
    exact absurd ht (hx.ne_bracket t)
  · split
    · rename_i hf
      rw [hread] at hf
      cases hf
    · rename_i hok
      rw [hread] at hok
      cases hok
      split
      · rename_i hc
        rw [hv] at hc
        cases hc
      · rename_i hc
        rw [hv] at hc
        cases hc
        rfl
      · rename_i hne
        exact absurd hv (hne r)

theorem readList_more {s u v w : List Char} {x : String} (hs : afterTrivia s = u)
    (hx : Literal u x v) (hv : afterTrivia v = ',' :: w) :
    readList s = (readList w).map fun (xs, r) => (⟨x⟩ :: xs, r) := by
  have hread := readLiteral_eq_ok_iff.mpr hx
  subst hs
  rw [readList]
  split
  · rename_i t ht
    exact absurd ht (hx.ne_bracket t)
  · split
    · rename_i hf
      rw [hread] at hf
      cases hf
    · rename_i hok
      rw [hread] at hok
      cases hok
      split
      · rename_i hc
        rw [hv] at hc
        cases hc
        cases readList w <;> rfl
      · rename_i hc
        rw [hv] at hc
        cases hc
      · rename_i hne _
        exact absurd hv (hne w)

theorem readList_eq_ok_iff {s r : List Char} {xs : List Markup} :
    readList s = .ok (xs, r) ↔ Items s xs r := by
  have hbracket (r : List Char) : afterTrivia (']' :: r) = ']' :: r :=
    afterTrivia_of_isSolid (by decide) r
  have hcomma (r : List Char) : afterTrivia (',' :: r) = ',' :: r :=
    afterTrivia_of_isSolid (by decide) r
  refine ⟨items_of_readList, fun h => ?_⟩
  induction h with
  | close h => exact readList_close ((trivia_iff_of_solid (hbracket _)).mp h)
  | last hs hx h =>
      exact readList_last ((trivia_iff_of_solid hx.solid).mp hs) hx
        ((trivia_iff_of_solid (hbracket _)).mp h)
  | more hs hx h _ ih =>
      rw [readList_more ((trivia_iff_of_solid hx.solid).mp hs) hx
        ((trivia_iff_of_solid (hcomma _)).mp h), ih]
      rfl

/-! ## Assignments -/

theorem readAssignment_of_text {s r : List Char} {a : Assignment} (h : AssignmentText s a r) :
    ∃ u, Token.takeAll? assignmentHead s = some u ∧
      readAssignment u = .ok (a, afterSemicolon r) := by
  cases h with
  | mk hhead hspace hunit hclose hequals hopen hlist =>
      refine ⟨_, (takeAll?_eq_some_iff solid_assignmentHead).mpr hhead, ?_⟩
      rw [← (trivia_iff_of_solid hunit.solid).mp hspace] at hunit
      have h₁ := readLiteral_eq_ok_iff.mpr hunit
      have h₂ := (readMark_eq_ok_iff (by decide)).mpr hclose
      have h₃ := (readMark_eq_ok_iff (by decide)).mpr hequals
      have h₄ := (readMark_eq_ok_iff (by decide)).mpr hopen
      have h₅ := readList_eq_ok_iff.mpr hlist
      exact bind_eq_ok.mpr ⟨_, h₁, bind_eq_ok.mpr ⟨_, h₂, bind_eq_ok.mpr ⟨_, h₃,
        bind_eq_ok.mpr ⟨_, h₄, bind_eq_ok.mpr ⟨_, h₅, rfl⟩⟩⟩⟩⟩

theorem text_of_readAssignment {s u w : List Char} {a : Assignment}
    (hhead : Sequence assignmentHead s u) (h : readAssignment u = .ok (a, w)) :
    ∃ r, AssignmentText s a r ∧ w = afterSemicolon r := by
  obtain ⟨⟨unit, r₁⟩, h₁, h⟩ := bind_eq_ok.mp h
  obtain ⟨r₂, h₂, h⟩ := bind_eq_ok.mp h
  obtain ⟨r₃, h₃, h⟩ := bind_eq_ok.mp h
  obtain ⟨r₄, h₄, h⟩ := bind_eq_ok.mp h
  obtain ⟨⟨xs, r₅⟩, h₅, h⟩ := bind_eq_ok.mp h
  cases h
  exact ⟨r₅, .mk hhead (trivia_afterTrivia u) (readLiteral_eq_ok_iff.mp h₁)
    ((readMark_eq_ok_iff (by decide)).mp h₂) ((readMark_eq_ok_iff (by decide)).mp h₃)
    ((readMark_eq_ok_iff (by decide)).mp h₄) (readList_eq_ok_iff.mp h₅), rfl⟩

/-! ## Semicolons -/

theorem Statements.trivia {s u : List Char} {as : List Assignment} (hs : Trivia s u)
    (h : Statements u as) : Statements s as := by
  cases h with
  | ended h => exact .ended (hs.trans h)
  | registered h hend => exact .registered (hs.trans h) hend
  | unwrapped h hend => exact .unwrapped (hs.trans h) hend
  | assign h ha hsemi hrest => exact .assign (hs.trans h) ha hsemi hrest

theorem AssignmentText.head {s r : List Char} {a : Assignment} (h : AssignmentText s a r) :
    ∃ u, Sequence assignmentHead s u := by
  cases h with
  | mk hhead _ _ _ _ _ _ => exact ⟨_, hhead⟩

/-- No statement begins with a semicolon, so an optional one is always skipped. -/
theorem Statements.not_semicolon {s : List Char} {as : List Assignment} (h : Statements s as)
    (r : List Char) : afterTrivia s ≠ ';' :: r := by
  intro hs
  have hbegins {t : Token} {ts : List Token} {u v : List Char} (hu : Trivia s u)
      (hseq : Sequence (t :: ts) u v) (hts : Solid (t :: ts)) :
      t.text <+: ';' :: r := by
    rw [← hs, (trivia_iff_of_solid (hseq.solid hts)).mp hu]
    exact hseq.starts
  cases h with
  | ended h => rw [h.afterTrivia_eq] at hs; cases hs
  | registered h hend =>
      obtain ⟨t, ht⟩ := hbegins h hend solid_registration
      cases ht
  | unwrapped h hend =>
      obtain ⟨t, ht⟩ := hbegins h hend solid_wrapperTail
      cases ht
  | assign h ha _ _ =>
      obtain ⟨v, hhead⟩ := ha.head
      obtain ⟨t, ht⟩ := hbegins h hhead solid_assignmentHead
      cases ht

theorem afterTrivia_afterSemicolon {s w : List Char} {as : List Assignment} (h : Semicolon s w)
    (hw : Statements w as) : afterTrivia (afterSemicolon s) = afterTrivia w := by
  have hsemi : afterTrivia (';' :: w) = ';' :: w := afterTrivia_of_isSolid (by decide) w
  unfold afterSemicolon
  cases h with
  | present h =>
      rw [(trivia_iff_of_solid hsemi).mp h]
      rfl
  | absent =>
      split
      · rename_i r hr
        exact absurd hr (hw.not_semicolon r)
      · exact afterTrivia_afterTrivia s

theorem exists_semicolon {s : List Char} {as : List Assignment}
    (h : Statements (afterSemicolon s) as) : ∃ w, Semicolon s w ∧ Statements w as := by
  unfold afterSemicolon at h
  split at h
  · rename_i r hr
    exact ⟨r, .present (hr ▸ trivia_afterTrivia s), h⟩
  · exact ⟨s, .absent s, h.trivia (trivia_afterTrivia s)⟩

/-! ## Statements -/

theorem endsTable_iff {s : List Char} :
    endsTable s = true ↔ (∃ r, Sequence registration s r) ∨ ∃ r, Sequence wrapperTail s r := by
  simp only [endsTable, Bool.or_eq_true, Option.isSome_iff_exists,
    takeAll?_eq_some_iff solid_registration, takeAll?_eq_some_iff solid_wrapperTail]

/-- What ends the table is no assignment. -/
theorem takeAll?_assignmentHead_of_endsTable {s : List Char} (h : endsTable s = true) :
    Token.takeAll? assignmentHead s = none := by
  rcases endsTable_iff.mp h with ⟨r, hr⟩ | ⟨r, hr⟩
  · exact hr.takeAll?_eq_none List.prefix_rfl solid_assignmentHead (by decide)
  · exact hr.takeAll?_eq_none List.prefix_rfl solid_assignmentHead (by decide)

theorem statements_of_readAssignments {s : List Char} {as : List Assignment}
    (h : readAssignments true s = .ok as) : Statements s as := by
  generalize hstrict : true = strict at h
  fun_induction readAssignments strict s generalizing as with
  | case1 s hs =>
      cases h
      exact .ended (hs ▸ trivia_afterTrivia s)
  | case2 => cases h
  | case3 => cases h
  | case4 s c t hs u hu a w ha as' hr ih =>
      cases h
      obtain ⟨r, htext, rfl⟩ := text_of_readAssignment
        ((takeAll?_eq_some_iff solid_assignmentHead).mp hu) ha
      obtain ⟨v, hsemi, hrest⟩ := exists_semicolon (ih hr)
      exact .assign (hs ▸ trivia_afterTrivia s) htext hsemi hrest
  | case5 s c t hs hnone hend =>
      cases h
      rcases endsTable_iff.mp hend with ⟨r, hr⟩ | ⟨r, hr⟩
      · exact .registered (hs ▸ trivia_afterTrivia s) hr
      · exact .unwrapped (hs ▸ trivia_afterTrivia s) hr
  | case6 => cases h
  | case7 s c t hs hnone hend hlenient ih => exact absurd hstrict.symm hlenient

theorem readAssignments_of_end {s : List Char} (strict : Bool) (hs : afterTrivia s = []) :
    readAssignments strict s = .ok [] := by
  unfold readAssignments
  split
  · rfl
  · rename_i hcons
    rw [hs] at hcons
    cases hcons

theorem readAssignments_of_endsTable {s : List Char} (strict : Bool)
    (hend : endsTable (afterTrivia s) = true) : readAssignments strict s = .ok [] := by
  have hnone := takeAll?_assignmentHead_of_endsTable hend
  unfold readAssignments
  split
  · rfl
  · rename_i c t hs
    rw [hs] at hnone hend
    split
    · rename_i hsome
      rw [hnone] at hsome
      cases hsome
    · rw [if_pos hend]

/-- Behind the head of an assignment its rest is read, then the other statements. -/
theorem readAssignments_of_head {strict : Bool} {s u v : List Char} (hs : afterTrivia s = u)
    (hu : Token.takeAll? assignmentHead u = some v) :
    readAssignments strict s = do
      let (a, r) ← readAssignment v
      let as ← readAssignments strict r
      return a :: as := by
  subst hs
  rw [readAssignments]
  split
  · rename_i hnil
    rw [hnil] at hu
    cases hu
  · rename_i hs
    rw [hs] at hu
    split
    · rename_i hsome
      obtain rfl := Option.some.inj (hu.symm.trans hsome)
      split
      · rename_i ha
        rw [ha]
        rfl
      · rename_i ha
        rw [ha]
        simp only [bind, Except.bind]
        split
        · rename_i has
          rw [has]
        · rename_i has
          rw [has]
          rfl
    · rename_i hnone
      rw [hu] at hnone
      cases hnone

/-- Any other statement is an error to a strict reader, and passed over by a
lenient one. -/
theorem readAssignments_of_unknown (strict : Bool) {s t : List Char} {c : Char}
    (hs : afterTrivia s = c :: t) (hnone : Token.takeAll? assignmentHead (c :: t) = none)
    (hend : endsTable (c :: t) = false) :
    readAssignments strict s =
      if strict then .error ⟨.unexpectedStatement (some c), c :: t⟩
      else readAssignments strict (afterStatement (c :: t)) := by
  rw [readAssignments]
  split
  · rename_i hnil
    rw [hs] at hnil
    cases hnil
  · rename_i hcons
    obtain ⟨rfl, rfl⟩ := List.cons.inj (hs.symm.trans hcons)
    split
    · rename_i hsome
      rw [hnone] at hsome
      cases hsome
    · rw [hend, if_neg Bool.false_ne_true]

/-- Trivia before a statement does not matter. -/
theorem readAssignments_afterTrivia (strict : Bool) (s : List Char) :
    readAssignments strict (afterTrivia s) = readAssignments strict s := by
  cases hs : afterTrivia s with
  | nil => rw [readAssignments_of_end strict hs, readAssignments_of_end strict rfl]
  | cons c t =>
      have ht : afterTrivia (c :: t) = c :: t := hs ▸ afterTrivia_afterTrivia s
      cases hu : Token.takeAll? assignmentHead (c :: t) with
      | some v => rw [readAssignments_of_head ht hu, readAssignments_of_head hs hu]
      | none =>
          cases hend : endsTable (c :: t) with
          | true =>
              rw [readAssignments_of_endsTable strict (ht.symm ▸ hend),
                readAssignments_of_endsTable strict (hs.symm ▸ hend)]
          | false =>
              rw [readAssignments_of_unknown strict ht hu hend,
                readAssignments_of_unknown strict hs hu hend]

theorem Trivia.readAssignments_eq {s r : List Char} (h : Trivia s r) (strict : Bool) :
    readAssignments strict s = readAssignments strict r := by
  rw [← readAssignments_afterTrivia strict s, h.afterTrivia_eq, readAssignments_afterTrivia]

theorem readAssignments_assign {s u v r : List Char} {a : Assignment} {as : List Assignment}
    {strict : Bool} (hs : afterTrivia s = u) (hu : Token.takeAll? assignmentHead u = some v)
    (ha : readAssignment v = .ok (a, r)) (h : readAssignments strict r = .ok as) :
    readAssignments strict s = .ok (a :: as) := by
  rw [readAssignments_of_head hs hu, ha]
  simp only [bind, Except.bind, h]
  rfl

/-- Statements are read in either mode, from any place that leads to them. -/
theorem readAssignments_of_statements {s : List Char} {as : List Assignment}
    (h : Statements s as) (strict : Bool) :
    ∀ t, afterTrivia t = afterTrivia s → readAssignments strict t = .ok as := by
  induction h with
  | ended h =>
      intro t ht
      exact readAssignments_of_end strict (ht.trans h.afterTrivia_eq)
  | registered h hend =>
      intro t ht
      rw [h.afterTrivia_eq, hend.solid solid_registration] at ht
      exact readAssignments_of_endsTable strict (ht ▸ endsTable_iff.mpr (Or.inl ⟨_, hend⟩))
  | unwrapped h hend =>
      intro t ht
      rw [h.afterTrivia_eq, hend.solid solid_wrapperTail] at ht
      exact readAssignments_of_endsTable strict (ht ▸ endsTable_iff.mpr (Or.inr ⟨_, hend⟩))
  | assign h ha hsemi hrest ih =>
      intro t ht
      obtain ⟨v, hhead⟩ := ha.head
      rw [h.afterTrivia_eq, hhead.solid solid_assignmentHead] at ht
      obtain ⟨w, hw, hread⟩ := readAssignment_of_text ha
      exact readAssignments_assign ht hw hread (ih _ (afterTrivia_afterSemicolon hsemi hrest))

/-! ## Pages -/

theorem page_of_readScript {s : List Char} {as : List Assignment}
    (h : readScript true s = .ok as) : Page s as := by
  unfold readScript at h
  dsimp only at h
  split at h
  · rename_i x hx
    have hdecl := (takeAll?_eq_some_iff solid_declaration).mp hx
    obtain ⟨y, hsemi, hrest⟩ := exists_semicolon (statements_of_readAssignments h)
    cases hw : Token.takeAll? wrapperHead (afterTrivia s) with
    | none =>
        rw [hw, Option.getD_none, afterTrivia_afterTrivia] at hdecl
        exact .plain (trivia_afterTrivia s) hdecl hsemi hrest
    | some v =>
        rw [hw, Option.getD_some] at hdecl
        exact .wrapped (trivia_afterTrivia s)
          ((takeAll?_eq_some_iff solid_wrapperHead).mp hw)
          (trivia_afterTrivia v) hdecl hsemi hrest
  · rw [if_pos rfl] at h
    cases h

/-- The beginning of a page, up to the declaration of its table. -/
inductive Declared : List Char → List Char → Prop where
  | wrapped {s u v w x : List Char} (hs : Trivia s u) (hwrapper : Sequence wrapperHead u v)
      (hv : Trivia v w) (hdecl : Sequence declaration w x) : Declared s x
  | plain {s w x : List Char} (hs : Trivia s w) (hdecl : Sequence declaration w x) : Declared s x

theorem Page.declared {s : List Char} {as : List Assignment} (h : Page s as) :
    ∃ x y, Declared s x ∧ Semicolon x y ∧ Statements y as := by
  cases h with
  | wrapped hs hwrapper hv hdecl hsemi h => exact ⟨_, _, .wrapped hs hwrapper hv hdecl, hsemi, h⟩
  | plain hs hdecl hsemi h => exact ⟨_, _, .plain hs hdecl, hsemi, h⟩

/-- A declaration is no wrapper. -/
theorem takeAll?_wrapperHead_of_declaration {s x : List Char} (h : Sequence declaration s x) :
    Token.takeAll? wrapperHead s = none :=
  h.takeAll?_eq_none List.prefix_rfl solid_wrapperHead (by decide)

/-- Behind the declaration both modes read statements. -/
theorem readScript_of_declared {s x : List Char} (h : Declared s x) (strict : Bool) :
    readScript strict s = readAssignments strict (afterSemicolon x) := by
  unfold readScript
  dsimp only
  cases h with
  | wrapped hs hwrapper hv hdecl =>
      rw [(trivia_iff_of_solid (hwrapper.solid solid_wrapperHead)).mp hs,
        (takeAll?_eq_some_iff solid_wrapperHead).mpr hwrapper, Option.getD_some,
        (trivia_iff_of_solid (hdecl.solid solid_declaration)).mp hv,
        (takeAll?_eq_some_iff solid_declaration).mpr hdecl]
  | plain hs hdecl =>
      have hsolid := hdecl.solid solid_declaration
      rw [(trivia_iff_of_solid hsolid).mp hs, takeAll?_wrapperHead_of_declaration hdecl,
        Option.getD_none, hsolid, (takeAll?_eq_some_iff solid_declaration).mpr hdecl]

theorem readScript_of_page {s : List Char} {as : List Assignment} (h : Page s as)
    (strict : Bool) : readScript strict s = .ok as := by
  obtain ⟨x, y, hdecl, hsemi, h⟩ := h.declared
  rw [readScript_of_declared hdecl]
  exact readAssignments_of_statements h strict _ (afterTrivia_afterSemicolon hsemi h)

/-- Strict reading accepts exactly the pages of the grammar, and gives exactly
their tables. -/
theorem strict_read_eq_ok_iff (source : String) (t : Index Markup) :
    read true source = .ok t ↔ ∃ as, Page source.toList as ∧ Tabulates as t := by
  simp only [tabulates_iff]
  unfold read
  constructor
  · intro h
    split at h
    · rename_i as has
      cases h
      exact ⟨as, page_of_readScript has, rfl⟩
    · cases h
  · rintro ⟨as, has, rfl⟩
    rw [readScript_of_page has true]

end Crossref.Script
