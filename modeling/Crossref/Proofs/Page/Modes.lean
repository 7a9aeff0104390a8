import Crossref.Proofs.Page.Loading
import Crossref.Proofs.Script.Modes

/-!
# Strict and lenient loads

The mode has no part in which pages there are, only in what becomes of a root
that cannot be listed (`pagesBelow_alike_or_unlistable`). A page that a strict
reader accepts a lenient one reads as the same table, so a strict load that comes
to its end is the lenient load (`loadAll_lenient_eq_strict`), and the first page
that fails in strict mode stands at the first one that fails in lenient mode or
in front of it (`FirstFailure.strict`). The main statement,
`lenient_load_of_strict_load`, puts these together for whole trees.
-/

namespace Crossref

/-- The first of the pages that fails, with its error, behind pages that all
read and parse. -/
structure FirstFailure (t : FileTree) (s : LoadSettings) (pages before : List PageFile)
    (page : PageFile) (e : PageError) : Prop where
  split : ∃ after, pages = before ++ page :: after
  before : ∀ p ∈ before, Reads t s p
  error : readPage t s page = .error e

section

variable {t : FileTree} {s : LoadSettings} {root : Path} {page : PageFile}
  {pages before : List PageFile} {e : PageError}

/-! ## The pages below a root -/

/-- The mode decides nothing but what becomes of a root that cannot be listed. -/
theorem pagesBelow_alike_or_unlistable (t : FileTree) (s : LoadSettings) (root : Path) :
    pagesBelow t { s with strict := true } root = pagesBelow t { s with strict := false } root ∨
      pagesBelow t { s with strict := true } root = .error (.unlistable root) ∧
        pagesBelow t { s with strict := false } root = .ok [] := by
  unfold pagesBelow
  by_cases hinput : root.components = standardInput
  · left
    simp only [if_pos hinput]
  · simp only [if_neg hinput]
    cases t.locate root with
    | error f => exact .inr ⟨rfl, rfl⟩
    | ok loc => exact .inl rfl

theorem pagesBelow_lenient_of_strict (h : pagesBelow t { s with strict := true } root = .ok pages) :
    pagesBelow t { s with strict := false } root = .ok pages := by
  rcases pagesBelow_alike_or_unlistable t s root with heq | ⟨hfail, -⟩
  · exact heq.symm.trans h
  · rw [hfail] at h
    cases h

theorem pagesBelow_strict_of_lenient
    (h : pagesBelow t { s with strict := false } root = .ok pages) (hne : pages ≠ []) :
    pagesBelow t { s with strict := true } root = .ok pages := by
  rcases pagesBelow_alike_or_unlistable t s root with heq | ⟨-, hnone⟩
  · exact heq.trans h
  · rw [hnone] at h
    cases h
    exact absurd rfl hne

/-! ## One page -/

/-- A page that a strict reader accepts a lenient one reads as the same table. -/
theorem readPage_lenient_of_strict {table : Index Markup}
    (h : readPage t { s with strict := true } page = .ok table) :
    readPage t { s with strict := false } page = .ok table := by
  obtain ⟨text, htext, htable⟩ := readPage_eq_ok_iff.mp h
  refine readPage_eq_ok_iff.mpr ⟨text, htext, ?_⟩
  cases hformat : page.format with
  | script =>
      rw [hformat] at htable
      have hread := tableOf_script_eq_ok_iff.mp htable
      exact tableOf_script_eq_ok_iff.mpr (Script.read_false_of_read_true hread)
  | json =>
      rw [hformat] at htable
      exact htable

theorem Reads.lenient (h : Reads t { s with strict := true } page) :
    Reads t { s with strict := false } page := by
  obtain ⟨table, htable⟩ := h
  exact ⟨table, readPage_lenient_of_strict htable⟩

/-! ## The first page that fails -/

theorem firstFailure_of_not_reads (h : ¬ ∀ p ∈ pages, Reads t s p) :
    ∃ before page e, FirstFailure t s pages before page e := by
  rcases reads_or_first_failure t s pages with hall | ⟨before, page, after, e, hsplit, hbefore, he⟩
  · exact absurd hall h
  · exact ⟨before, page, e, ⟨after, hsplit⟩, hbefore, he⟩

/-- The first page that fails is the first one on the list of failures. -/
theorem FirstFailure.head_unreadable (h : FirstFailure t s pages before page e) :
    (unreadable t s pages).head? = some (page.path, e) := by
  obtain ⟨after, rfl⟩ := h.split
  have happend : unreadable t s (before ++ page :: after) =
      unreadable t s before ++ unreadable t s (page :: after) := List.filterMap_append
  rw [happend, unreadable_of_reads h.before, unreadable_cons_error h.error]
  rfl

/-- Some page fails in strict mode that is not behind the first one to fail in
lenient mode. -/
theorem FirstFailure.strict
    (h : FirstFailure t { s with strict := false } pages before page e) :
    ∃ before' page' e', FirstFailure t { s with strict := true } pages before' page' e' ∧
      before' <+: before := by
  obtain ⟨after, rfl⟩ := h.split
  have hfails : ¬ ∀ p ∈ before ++ [page], Reads t { s with strict := true } p := fun hall =>
    not_reads h.error (hall page (by simp)).lenient
  obtain ⟨before', page', e', hfirst⟩ := firstFailure_of_not_reads hfails
  obtain ⟨after', hsplit⟩ := hfirst.split
  refine ⟨before', page', e', ⟨⟨after' ++ after, ?_⟩, hfirst.before, hfirst.error⟩, ?_⟩
  · calc before ++ page :: after
        = (before ++ [page]) ++ after := by simp
      _ = before' ++ page' :: (after' ++ after) := by rw [hsplit]; simp
  · -- both stand in front of a page of `before ++ [page]`
    have hlength := congrArg List.length hsplit
    simp only [List.length_append, List.length_cons, List.length_nil] at hlength
    refine List.prefix_of_prefix_length_le (hsplit ▸ List.prefix_append before' _)
      (List.prefix_append before [page]) (by omega)

/-! ## A load -/

/-- A strict load that comes to its end has met no page that fails. -/
theorem reads_of_loadAll_eq_ok {c : Catalog Markup} {report : LoadReport}
    (hstrict : s.strict = true) (h : (loadAll t s c pages).outcome = .ok report) :
    ∀ p ∈ pages, Reads t s p := by
  rcases reads_or_first_failure t s pages with hall | ⟨before, page, after, e, rfl, hbefore, he⟩
  · exact hall
  · rw [loadAll_stop hstrict he hbefore] at h
    cases h

/-- A load that comes to its end lists the pages that fail. -/
theorem failures_of_loadAll_eq_ok {c : Catalog Markup} {report : LoadReport}
    (h : (loadAll t s c pages).outcome = .ok report) : report.failures = unreadable t s pages := by
  have hreads : s.strict = true → ∀ p ∈ pages, Reads t s p := fun hstrict =>
    reads_of_loadAll_eq_ok hstrict h
  obtain ⟨report', hfolded⟩ := loadAll_folded t s c hreads
  have hreport : report = report' := Except.ok.inj (h.symm.trans hfolded.outcome)
  rw [hreport, hfolded.failures]

/-- The modes load alike where every page is one that a strict reader accepts. -/
theorem loadAll_lenient_eq_strict (c : Catalog Markup)
    (h : ∀ p ∈ pages, Reads t { s with strict := true } p) :
    loadAll t { s with strict := false } c pages = loadAll t { s with strict := true } c pages := by
  induction pages generalizing c with
  | nil => rfl
  | cons page pages ih =>
      obtain ⟨table, hread⟩ := h page (by simp)
      have hrest := fun c => ih c fun p hp => h p (List.mem_cons_of_mem page hp)
      simp only [loadAll, hread, readPage_lenient_of_strict hread, hrest]

end

/-- A strict load that succeeds is the lenient load, and lists no failures. Where
a lenient load lists a failure, the strict load ends with the error of the first
page that fails in strict mode, and that page is the one of the first lenient
failure or stands in front of it. -/
theorem lenient_load_of_strict_load (t : FileTree) (s : LoadSettings) (root : Path)
    (c : Catalog Markup) :
    let strict := { s with strict := true }
    let lenient := { s with strict := false }
    (∀ report, (loadBelow t strict root c).outcome = .ok report →
        report.failures = [] ∧ loadBelow t lenient root c = loadBelow t strict root c) ∧
      (∀ report failure, (loadBelow t lenient root c).outcome = .ok report →
        report.failures.head? = some failure →
          ∃ pages before page e before' page' e',
            pagesBelow t lenient root = .ok pages ∧ pagesBelow t strict root = .ok pages ∧
              FirstFailure t lenient pages before page e ∧ failure = (page.path, e) ∧
              FirstFailure t strict pages before' page' e' ∧ before' <+: before ∧
              (loadBelow t strict root c).outcome = .error e') := by
  intro strict lenient
  constructor
  · intro report hok
    cases hpages : pagesBelow t strict root with
    | error e => simp [loadBelow, hpages] at hok
    | ok pages =>
        have hpages' : pagesBelow t lenient root = .ok pages := pagesBelow_lenient_of_strict hpages
        simp only [loadBelow, hpages, hpages'] at hok ⊢
        have hall := reads_of_loadAll_eq_ok rfl hok
        refine ⟨?_, loadAll_lenient_eq_strict c hall⟩
        rw [failures_of_loadAll_eq_ok hok, unreadable_of_reads hall]
  · intro report failure hok hfailure
    cases hpages : pagesBelow t lenient root with
    | error e => simp [loadBelow, hpages] at hok
    | ok pages =>
        simp only [loadBelow, hpages] at hok
        rw [failures_of_loadAll_eq_ok hok] at hfailure
        have hfails : ¬ ∀ p ∈ pages, Reads t lenient p := fun hall => by
          simp [unreadable_of_reads hall] at hfailure
        obtain ⟨before, page, e, hfirst⟩ := firstFailure_of_not_reads hfails
        obtain ⟨before', page', e', hstrict, hprefix⟩ := hfirst.strict
        have hfirstEq := Option.some.inj (hfailure.symm.trans hfirst.head_unreadable)
        obtain ⟨after', hsplit⟩ := hstrict.split
        have hpages' : pagesBelow t strict root = .ok pages :=
          pagesBelow_strict_of_lenient hpages (by simp [hsplit])
        refine ⟨pages, before, page, e, before', page', e', rfl, hpages', hfirst, hfirstEq,
          hstrict, hprefix, ?_⟩
        simp only [loadBelow, hpages', hsplit]
        rw [loadAll_stop rfl hstrict.error hstrict.before]

end Crossref
