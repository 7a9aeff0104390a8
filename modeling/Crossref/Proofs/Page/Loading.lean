import Crossref.Catalog.Run
import Crossref.Page.Load

/-!
# Loading pages as a fold

A load merges the tables that parse, in the order of their pages, and does
nothing for a page that fails but to report it (`Folded`). A strict load does
the same up to the first page that fails, and ends with that page's error. What
is merged, and where, is a list of calls on a catalog (`filings`), so the
statements about a load (`load_eq_fold`) name a run of the catalog that knows
nothing about pages.
-/

namespace Crossref

section

variable (t : FileTree) (s : LoadSettings)

/-- The page reads and parses. -/
def Reads (page : PageFile) : Prop := ∃ table, readPage t s page = .ok table

/-- The pages that read and parse, with their tables. -/
def readable (pages : List PageFile) : List (PageFile × Index Markup) :=
  pages.filterMap fun page => (readPage t s page).toOption.map fun table => (page, table)

/-- The paths of the other pages, each with its own error. -/
def unreadable (pages : List PageFile) : List (Path × PageError) :=
  pages.filterMap fun page =>
    match readPage t s page with
    | .ok _ => none
    | .error e => some (page.path, e)

/-- The merges of the tables that parse, each under the trait of its page. -/
def filings (pages : List PageFile) : List (Catalog.Call Markup) :=
  (readable t s pages).map fun p => ⟨p.1.trait.toString, .merge p.2⟩

/-- A load that went through all of the pages: the catalog is the one that the
merges of what parses leave, each merge is answered by its report, each page
that fails is listed with its error, and every page is in one of the lists. -/
structure Folded (c : Catalog Markup) (pages : List PageFile) (l : Loading)
    (report : LoadReport) : Prop where
  outcome : l.outcome = .ok report
  catalog : l.catalog = (c.run (filings t s pages)).1
  deliveries : l.deliveries = (c.run (filings t s pages)).2.filterMap (·.delivery)
  loaded : report.loaded.map (fun p => (p.1, some (Answer.report p.2))) =
    ((readable t s pages).map (·.1.path)).zip ((c.run (filings t s pages)).2.map (·.answer))
  failures : report.failures = unreadable t s pages
  once : (report.loaded.map Prod.fst ++ report.failures.map Prod.fst).Perm (pages.map (·.path))

end

section

variable {t : FileTree} {s : LoadSettings} {c : Catalog Markup} {page : PageFile}
  {pages : List PageFile} {table : Index Markup} {e : PageError}

/-! ## One page -/

theorem readPage_eq_ok_iff :
    readPage t s page = .ok table ↔
      ∃ text, t.readText page.path = .ok text ∧ tableOf s page.format text = .ok table := by
  unfold readPage
  cases t.readText page.path with
  | error f => simp
  | ok text => simp

theorem tableOf_script_eq_ok_iff {text : String} :
    tableOf s .script text = .ok table ↔ Script.read s.strict text = .ok table := by
  unfold tableOf
  cases Script.read s.strict text with
  | error e => exact ⟨nofun, nofun⟩
  | ok found => exact ⟨fun h => by cases h; rfl, fun h => by cases h; rfl⟩

theorem readable_cons_ok (h : readPage t s page = .ok table) :
    readable t s (page :: pages) = (page, table) :: readable t s pages := by
  simp [readable, h, Except.toOption]

theorem readable_cons_error (h : readPage t s page = .error e) :
    readable t s (page :: pages) = readable t s pages := by
  simp [readable, h, Except.toOption]

theorem unreadable_cons_ok (h : readPage t s page = .ok table) :
    unreadable t s (page :: pages) = unreadable t s pages := by
  simp [unreadable, h]

theorem unreadable_cons_error (h : readPage t s page = .error e) :
    unreadable t s (page :: pages) = (page.path, e) :: unreadable t s pages := by
  simp [unreadable, h]

theorem filings_cons_ok (h : readPage t s page = .ok table) :
    filings t s (page :: pages) = ⟨page.trait.toString, .merge table⟩ :: filings t s pages := by
  rw [filings, readable_cons_ok h]
  rfl

theorem filings_cons_error (h : readPage t s page = .error e) :
    filings t s (page :: pages) = filings t s pages := by
  rw [filings, readable_cons_error h]
  rfl

/-- A merge at the head of a run delivers before the rest of it does. -/
theorem deliveries_merge (c : Catalog Markup) (name : String) (table : Index Markup)
    (calls : List (Catalog.Call Markup)) :
    (c.run (⟨name, .merge table⟩ :: calls)).2.filterMap (·.delivery) =
      (c.merge name table).delivery.toList ++
        ((c.merge name table).catalog.run calls).2.filterMap (·.delivery) := by
  simp only [Catalog.run, Catalog.step, Catalog.Step.map, List.filterMap_cons]
  cases (c.merge name table).delivery <;> rfl

theorem not_reads (h : readPage t s page = .error e) : ¬ Reads t s page := by
  rintro ⟨table, htable⟩
  rw [h] at htable
  cases htable

/-! ## A load that goes on to the end -/

theorem folded_nil (t : FileTree) (s : LoadSettings) (c : Catalog Markup) :
    Folded t s c [] (loadAll t s c []) {} where
  outcome := rfl
  catalog := rfl
  deliveries := rfl
  loaded := rfl
  failures := rfl
  once := List.Perm.nil

theorem Folded.ok {report : LoadReport} (hread : readPage t s page = .ok table)
    (h : let c' := (c.merge page.trait.toString table).catalog
      Folded t s c' pages (loadAll t s c' pages) report) :
    Folded t s c (page :: pages) (loadAll t s c (page :: pages))
      { report with
        loaded := (page.path, (c.merge page.trait.toString table).answer) :: report.loaded } where
  outcome := by
    simp only [loadAll, hread, h.outcome]
    rfl
  catalog := by
    simp only [loadAll, hread, h.catalog, filings_cons_ok hread]
    rfl
  deliveries := by
    simp only [loadAll, hread, h.deliveries, filings_cons_ok hread, deliveries_merge]
  loaded := by
    rw [filings_cons_ok hread, readable_cons_ok hread, List.map_cons, List.map_cons, h.loaded]
    rfl
  failures := by rw [unreadable_cons_ok hread, ← h.failures]
  once := h.once.cons page.path

theorem Folded.error {report : LoadReport} (hread : readPage t s page = .error e)
    (hlenient : s.strict = false) (h : Folded t s c pages (loadAll t s c pages) report) :
    Folded t s c (page :: pages) (loadAll t s c (page :: pages))
      { report with failures := (page.path, e) :: report.failures } where
  outcome := by
    simp only [loadAll, hread, hlenient, h.outcome]
    rfl
  catalog := by
    simp only [loadAll, hread, hlenient, filings_cons_error hread]
    exact h.catalog
  deliveries := by
    simp only [loadAll, hread, hlenient, filings_cons_error hread]
    exact h.deliveries
  loaded := by
    rw [filings_cons_error hread, readable_cons_error hread]
    exact h.loaded
  failures := by rw [unreadable_cons_error hread, ← h.failures]
  once := List.perm_middle.trans (h.once.cons page.path)

/-- A load goes through all of the pages unless it is strict and one of them fails. -/
theorem loadAll_folded (t : FileTree) (s : LoadSettings) (c : Catalog Markup)
    {pages : List PageFile} (h : s.strict = true → ∀ page ∈ pages, Reads t s page) :
    ∃ report, Folded t s c pages (loadAll t s c pages) report := by
  induction pages generalizing c with
  | nil => exact ⟨{}, folded_nil t s c⟩
  | cons page pages ih =>
      have hrest : s.strict = true → ∀ p ∈ pages, Reads t s p := fun hstrict p hp =>
        h hstrict p (List.mem_cons_of_mem page hp)
      cases hread : readPage t s page with
      | ok table =>
          obtain ⟨report, hreport⟩ := ih (c.merge page.trait.toString table).catalog hrest
          exact ⟨_, hreport.ok hread⟩
      | error e =>
          have hlenient : s.strict = false :=
            eq_false_of_ne_true fun hstrict => not_reads hread (h hstrict page (by simp))
          obtain ⟨report, hreport⟩ := ih c hrest
          exact ⟨_, hreport.error hread hlenient⟩

/-! ## A load that stops -/

/-- A strict load ends at a page that fails, with what the pages in front of it left. -/
theorem loadAll_stop (hstrict : s.strict = true) (hfail : readPage t s page = .error e)
    {before : List PageFile} (hbefore : ∀ p ∈ before, Reads t s p) (c : Catalog Markup)
    (after : List PageFile) :
    loadAll t s c (before ++ page :: after) =
      ⟨(c.run (filings t s before)).1,
        (c.run (filings t s before)).2.filterMap (·.delivery), .error e⟩ := by
  induction before generalizing c with
  | nil => simp [loadAll, hfail, hstrict, filings, readable, Catalog.run]
  | cons first before ih =>
      obtain ⟨table, hread⟩ := hbefore first (by simp)
      have hrest : ∀ p ∈ before, Reads t s p := fun p hp =>
        hbefore p (List.mem_cons_of_mem first hp)
      rw [List.cons_append, loadAll, hread, filings_cons_ok hread, deliveries_merge]
      simp only [ih hrest]
      rfl

/-- Either every page reads and parses, or there is a first one that fails. -/
theorem reads_or_first_failure (t : FileTree) (s : LoadSettings) (pages : List PageFile) :
    (∀ page ∈ pages, Reads t s page) ∨
      ∃ before page after e, pages = before ++ page :: after ∧
        (∀ p ∈ before, Reads t s p) ∧ readPage t s page = .error e := by
  induction pages with
  | nil => exact .inl (by simp)
  | cons page pages ih =>
      cases hread : readPage t s page with
      | error e => exact .inr ⟨[], page, pages, e, rfl, by simp, hread⟩
      | ok table =>
          rcases ih with hall | ⟨before, failing, after, e, rfl, hbefore, hfail⟩
          · exact .inl (List.forall_mem_cons.mpr ⟨⟨table, hread⟩, hall⟩)
          · exact .inr ⟨page :: before, failing, after, e, rfl,
              List.forall_mem_cons.mpr ⟨⟨table, hread⟩, hbefore⟩, hfail⟩

theorem unreadable_of_reads (h : ∀ page ∈ pages, Reads t s page) : unreadable t s pages = [] := by
  unfold unreadable
  rw [List.filterMap_eq_nil_iff]
  intro page hpage
  obtain ⟨table, hread⟩ := h page hpage
  rw [hread]

end

/-- A load is a fold over the pages below the root. Where they cannot be
listed, the catalog stays as it is. A lenient load succeeds: it merges what
parses, in the order of the pages, and lists the rest with their errors. A
strict load does the same if no page fails, and then lists no failures; else it
ends with the error of the first page that fails, and leaves what merging the
pages in front of that one leaves. -/
theorem load_eq_fold (t : FileTree) (s : LoadSettings) (root : Path) (c : Catalog Markup) :
    match pagesBelow t s root with
    | .error e => loadBelow t s root c = ⟨c, [], .error e⟩
    | .ok pages =>
      (s.strict = false → ∃ report, Folded t s c pages (loadBelow t s root c) report) ∧
        (s.strict = true →
          (∃ report, Folded t s c pages (loadBelow t s root c) report ∧ report.failures = []) ∨
            ∃ before page after e, pages = before ++ page :: after ∧
              (∀ p ∈ before, Reads t s p) ∧ readPage t s page = .error e ∧
              loadBelow t s root c =
                ⟨(c.run (filings t s before)).1,
                  (c.run (filings t s before)).2.filterMap (·.delivery), .error e⟩) := by
  cases hpages : pagesBelow t s root with
  | error e => simp only [loadBelow, hpages]
  | ok pages =>
      have hload : loadBelow t s root c = loadAll t s c pages := by simp only [loadBelow, hpages]
      simp only [hload]
      constructor
      · intro hlenient
        exact loadAll_folded t s c fun hstrict => by simp [hlenient] at hstrict
      · intro hstrict
        rcases reads_or_first_failure t s pages with
          hall | ⟨before, page, after, e, rfl, hbefore, hfail⟩
        · obtain ⟨report, hreport⟩ := loadAll_folded t s c fun _ => hall
          exact .inl ⟨report, hreport, hreport.failures.trans (unreadable_of_reads hall)⟩
        · exact .inr ⟨before, page, after, e, rfl, hbefore, hfail,
            loadAll_stop hstrict hfail hbefore c after⟩

end Crossref
