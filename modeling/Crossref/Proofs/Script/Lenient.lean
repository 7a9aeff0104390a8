import Crossref.Proofs.Script.Grammar
import Crossref.Proofs.Script.Statement

/-!
# Pages with unknown statements

`LenientPage s as` is the grammar of pages in which unknown statements may stand
between the assignments `as`. An unknown statement is one that skipping brings
to its end (`Skipped`), and that cannot be mistaken for trivia, an assignment or
the end of the table (`Unknown`). The main statement, `lenient_read_eq_table`, is
that a lenient reader reads such a page as the table of its assignments alone.

A lone semicolon is an unknown statement too, so the grammar may read the one
behind an assignment in two ways. To a lenient reader they are the same
(`readAssignments_afterSemicolon`).
-/

namespace Crossref.Script

open Text (isBlank)

/-! ## The grammar -/

/-- An unknown statement at the beginning of `s`, and `r` behind it. -/
structure Unknown (s r : List Char) : Prop where
  skipped : Skipped 0 s r
  notBlank : ∀ c ∈ s.head?, isBlank c = false
  noComment : startsComment s = false
  notClosing : ∀ c ∈ s.head?, isClosing c = false
  noAssignment : ∀ u, ¬ Sequence assignmentHead s u
  noRegistration : ∀ u, ¬ Sequence registration s u

/-- Assignments and unknown statements up to the end of the table. -/
inductive LenientStatements : List Char → List Assignment → Prop where
  | ended {s : List Char} (h : Trivia s []) : LenientStatements s []
  | registered {s u r : List Char} (h : Trivia s u) (hend : Sequence registration u r) :
      LenientStatements s []
  | unwrapped {s u r : List Char} (h : Trivia s u) (hend : Sequence wrapperTail u r) :
      LenientStatements s []
  | assign {s u v w : List Char} {a : Assignment} {as : List Assignment} (h : Trivia s u)
      (ha : AssignmentText u a v) (hsemi : Semicolon v w) (hrest : LenientStatements w as) :
      LenientStatements s (a :: as)
  | unknown {s u v : List Char} {as : List Assignment} (h : Trivia s u) (hu : Unknown u v)
      (hrest : LenientStatements v as) : LenientStatements s as

/-- A whole page, with or without the wrapper around it. -/
inductive LenientPage : List Char → List Assignment → Prop where
  | mk {s x y : List Char} {as : List Assignment} (hdecl : Declared s x) (hsemi : Semicolon x y)
      (h : LenientStatements y as) : LenientPage s as

/-! ## Unknown statements are passed over -/

theorem Unknown.afterTrivia_eq {s r : List Char} (h : Unknown s r) : afterTrivia s = s := by
  cases s with
  | nil => rfl
  | cons c s => exact afterTrivia_of_not_starts (h.notBlank c rfl) h.noComment

theorem Unknown.endsTable_eq {s r : List Char} (h : Unknown s r) : endsTable s = false := by
  rw [Bool.eq_false_iff, Ne, endsTable_iff]
  rintro (⟨u, hu⟩ | ⟨u, hu⟩)
  · exact h.noRegistration u hu
  · obtain ⟨t, ht⟩ := hu.starts
    have hclosing : isClosing '}' = false := h.notClosing '}' (ht ▸ rfl)
    cases hclosing

theorem Unknown.takeAll?_eq {s r : List Char} (h : Unknown s r) :
    Token.takeAll? assignmentHead s = none :=
  (takeAll?_eq_none_iff solid_assignmentHead).mpr h.noAssignment

theorem Unknown.afterStatement_eq {s r : List Char} (h : Unknown s r) : afterStatement s = r := by
  cases s with
  | nil => exact absurd rfl h.skipped.ne_nil
  | cons c s =>
      rw [afterStatement, h.notClosing c rfl, if_neg Bool.false_ne_true]
      exact h.skipped.afterStatementAt_eq

theorem Unknown.readAssignments_eq {s r : List Char} (h : Unknown s r) :
    readAssignments false s = readAssignments false r := by
  cases s with
  | nil => exact absurd rfl h.skipped.ne_nil
  | cons c s =>
      rw [readAssignments_of_unknown false h.afterTrivia_eq h.takeAll?_eq h.endsTable_eq,
        if_neg Bool.false_ne_true, h.afterStatement_eq]

/-- A semicolon that stands alone ends an unknown statement without text. -/
theorem readAssignments_semicolon (r : List Char) :
    readAssignments false (';' :: r) = readAssignments false r := by
  have hsemi : afterTrivia (';' :: r) = ';' :: r := afterTrivia_of_isSolid (by decide) r
  have hnone : Token.takeAll? assignmentHead (';' :: r) = none := rfl
  have hend : endsTable (';' :: r) = false := rfl
  rw [readAssignments_of_unknown false hsemi hnone hend, if_neg Bool.false_ne_true,
    afterStatement, if_neg (by decide), afterStatementAt_semicolon]

/-- To a lenient reader it makes no difference whether a semicolon belongs to the
statement before it. -/
theorem readAssignments_afterSemicolon (s : List Char) :
    readAssignments false (afterSemicolon s) = readAssignments false s := by
  rw [← readAssignments_afterTrivia false s]
  unfold afterSemicolon
  split
  · rename_i r hr
    rw [hr, readAssignments_semicolon]
  · rfl

theorem Semicolon.readAssignments_eq {s r : List Char} (h : Semicolon s r) :
    readAssignments false s = readAssignments false r := by
  cases h with
  | present h => rw [h.readAssignments_eq, readAssignments_semicolon]
  | absent => rfl

/-! ## Pages -/

theorem LenientStatements.readAssignments_eq {s : List Char} {as : List Assignment}
    (h : LenientStatements s as) : readAssignments false s = .ok as := by
  induction h with
  | ended h => exact readAssignments_of_end false h.afterTrivia_eq
  | registered h hend =>
      rw [h.readAssignments_eq]
      exact readAssignments_of_endsTable false
        ((hend.solid solid_registration).symm ▸ endsTable_iff.mpr (Or.inl ⟨_, hend⟩))
  | unwrapped h hend =>
      rw [h.readAssignments_eq]
      exact readAssignments_of_endsTable false
        ((hend.solid solid_wrapperTail).symm ▸ endsTable_iff.mpr (Or.inr ⟨_, hend⟩))
  | @assign s u v w a as h ha hsemi _ ih =>
      obtain ⟨x, hhead⟩ := ha.head
      obtain ⟨y, hy, hread⟩ := readAssignment_of_text ha
      have hrest : readAssignments false (afterSemicolon v) = .ok as := by
        rw [readAssignments_afterSemicolon, hsemi.readAssignments_eq, ih]
      rw [h.readAssignments_eq]
      exact readAssignments_assign (hhead.solid solid_assignmentHead) hy hread hrest
  | unknown h hu _ ih => rw [h.readAssignments_eq, hu.readAssignments_eq, ih]

/-- A lenient reader accepts every page of assignments and unknown statements,
and gives exactly the table of its assignments. -/
theorem lenient_read_eq_table {source : String} {as : List Assignment}
    (h : LenientPage source.toList as) :
    ∃ t, read false source = .ok t ∧ Tabulates as t := by
  cases h with
  | mk hdecl hsemi h =>
      have hread : readScript false source.toList = .ok as := by
        rw [readScript_of_declared hdecl, readAssignments_afterSemicolon,
          hsemi.readAssignments_eq, h.readAssignments_eq]
      refine ⟨tabulate as, ?_, tabulates_iff.mpr rfl⟩
      unfold read
      rw [hread]

/-- A call with a closing brace in its string, an assignment without a semicolon,
and a block with a comment behind it. -/
theorem lenient_read_eq_table_wrapped :
    let source := "(function() \x7bvar implementors = \x7b\x7d; f(\"\x7d);\"); " ++
      "implementors['a'] = ['x'] \x7bg;\x7d // h\n\x7d)()"
    LenientPage source.toList [⟨"a", [⟨"x"⟩]⟩] ∧
      ∃ t, read false source = .ok t ∧ Tabulates [⟨"a", [⟨"x"⟩]⟩] t := by
  intro source
  let call := "f(\"\x7d);\"); implementors['a'] = ['x'] \x7bg;\x7d // h\n\x7d)()".toList
  let assignment := "implementors['a'] = ['x'] \x7bg;\x7d // h\n\x7d)()".toList
  let block := "\x7bg;\x7d // h\n\x7d)()".toList
  let comment := " // h\n\x7d)()".toList
  have hspace (s : List Char) : Trivia (' ' :: s) s := .blank rfl (.none s)
  have hlast : LenientStatements comment [] := by
    have htrivia : afterTrivia comment = "\x7d)()".toList := by decide
    exact .unwrapped (htrivia ▸ trivia_afterTrivia comment)
      ((takeAll?_eq_some_iff solid_wrapperTail).mp (show _ = some [] by decide))
  have hblock : Unknown block comment := {
    skipped := .opening rfl (.other rfl rfl (by decide) (.other rfl rfl (by decide)
      (.brace (by decide))))
    notBlank := fun _ hc => Option.some.inj hc ▸ rfl
    noComment := rfl
    notClosing := fun _ hc => Option.some.inj hc ▸ rfl
    noAssignment := (takeAll?_eq_none_iff solid_assignmentHead).mp (by decide +kernel)
    noRegistration := (takeAll?_eq_none_iff solid_registration).mp (by decide +kernel) }
  have hassignment : AssignmentText assignment ⟨"a", [⟨"x"⟩]⟩ (' ' :: block) := by
    have hhead : Token.takeAll? assignmentHead assignment =
        some "'a'] = ['x'] \x7bg;\x7d // h\n\x7d)()".toList := by decide
    have hunit : readLiteral "'a'] = ['x'] \x7bg;\x7d // h\n\x7d)()".toList =
        .ok ("a", "] = ['x'] \x7bg;\x7d // h\n\x7d)()".toList) := by decide +kernel
    have hlist : readList "'x'] \x7bg;\x7d // h\n\x7d)()".toList = .ok ([⟨"x"⟩], ' ' :: block) := by
      decide +kernel
    exact .mk ((takeAll?_eq_some_iff solid_assignmentHead).mp hhead) (.none _)
      (readLiteral_eq_ok_iff.mp hunit) (.none _) (hspace _) (hspace _)
      (readList_eq_ok_iff.mp hlist)
  have hcall : Unknown call (' ' :: assignment) := {
    skipped := .other rfl rfl (by decide) (.opening rfl (.quoted rfl
      (.raw (by decide) (by decide) (by decide) (.raw (by decide) (by decide) (by decide)
        (.raw (by decide) (by decide) (by decide) (.close _))))
      (.closing rfl (by decide) (.semicolon _))))
    notBlank := fun _ hc => Option.some.inj hc ▸ rfl
    noComment := rfl
    notClosing := fun _ hc => Option.some.inj hc ▸ rfl
    noAssignment := (takeAll?_eq_none_iff solid_assignmentHead).mp (by decide +kernel)
    noRegistration := (takeAll?_eq_none_iff solid_registration).mp (by decide +kernel) }
  have hdeclared : Declared source.toList (';' :: ' ' :: call) := by
    have hwrapper : Token.takeAll? wrapperHead source.toList =
        some ("var implementors = \x7b\x7d; ".toList ++ call) := by decide
    have hdecl : Token.takeAll? declaration ("var implementors = \x7b\x7d; ".toList ++ call) =
        some (';' :: ' ' :: call) := by decide
    exact .wrapped (.none _) ((takeAll?_eq_some_iff solid_wrapperHead).mp hwrapper) (.none _)
      ((takeAll?_eq_some_iff solid_declaration).mp hdecl)
  have hpage : LenientPage source.toList [⟨"a", [⟨"x"⟩]⟩] :=
    .mk hdeclared (.present (.none _)) (.unknown (hspace _) hcall
      (.assign (hspace _) hassignment (.absent _) (.unknown (hspace _) hblock hlast)))
  exact ⟨hpage, lenient_read_eq_table hpage⟩

end Crossref.Script
