import Crossref.Proofs.Catalog.Isolation
import Crossref.Proofs.FileTree
import Crossref.Proofs.Page.Loading
import Crossref.Proofs.TraitName

/-!
# Which registry a page goes to

A load files a page under the written name of its trait. The segments of a trait
come from the names of folders and of the page file, and those may hold colons;
joined, they may then spell the name of another trait. Two pages of different
traits share a registry in that case, and the later one overwrites what the
earlier one listed (`overwritten_by_another_trait`).

A written name leads back to its trait if and only if the trait is plain
(`TraitName.parse?_toString_iff`). Where all of the traits are like that, each trait has a
registry of its own, with the tables of its pages and no others
(`registry_of_each_trait`).
-/

namespace Crossref

/-! ## Pages that are kept apart -/

/-- The written names of the traits lead back to them, so that no two traits
share one. -/
structure KeptApart (pages : List PageFile) : Prop where
  readsBack : ∀ p ∈ pages, TraitName.parse? p.trait.toString = some p.trait
  apart : ∀ p ∈ pages, ∀ q ∈ pages, p.trait ≠ q.trait → p.trait.toString ≠ q.trait.toString

theorem keptApart_iff {pages : List PageFile} :
    KeptApart pages ↔ ∀ p ∈ pages, p.trait.Plain := by
  constructor
  · intro h p hp
    exact (TraitName.parse?_toString_iff p.trait).mp (h.readsBack p hp)
  · intro h
    have hback : ∀ p ∈ pages, TraitName.parse? p.trait.toString = some p.trait := fun p hp =>
      (TraitName.parse?_toString_iff p.trait).mpr (h p hp)
    refine ⟨hback, fun p hp q hq hne heq => hne (Option.some.inj ?_)⟩
    rw [← hback p hp, ← hback q hq, heq]

section

variable (t : FileTree) (s : LoadSettings)

/-- The pages that a load comes to: all of them, or those in front of the first
one that fails if the load is strict. -/
def reached (pages : List PageFile) : List PageFile :=
  if s.strict then pages.takeWhile fun page => (readPage t s page).isOk else pages

/-- The tables that a load merges for a trait, in the order of their pages. -/
def tablesOf (trait : TraitName) (pages : List PageFile) : List (Index Markup) :=
  ((readable t s (reached t s pages)).filter fun p => p.1.trait = trait).map Prod.snd

end

variable {t : FileTree} {s : LoadSettings} {pages : List PageFile}

theorem mem_of_mem_reached {page : PageFile} (h : page ∈ reached t s pages) : page ∈ pages := by
  unfold reached at h
  split at h
  · exact (List.takeWhile_prefix _).subset h
  · exact h

theorem mem_of_mem_readable {p : PageFile × Index Markup} (h : p ∈ readable t s pages) :
    p.1 ∈ pages := by
  obtain ⟨page, hpage, hp⟩ := List.mem_filterMap.mp h
  obtain ⟨table, -, rfl⟩ := Option.map_eq_some_iff.mp hp
  exact hpage

/-- A load leaves what the merges of the pages it comes to leave. -/
theorem catalog_loadAll (t : FileTree) (s : LoadSettings) (c : Catalog Markup)
    (pages : List PageFile) :
    (loadAll t s c pages).catalog = (c.run (filings t s (reached t s pages))).1 := by
  induction pages generalizing c with
  | nil => cases hstrict : s.strict <;> simp [loadAll, reached, filings, readable, Catalog.run]
  | cons page pages ih =>
      cases hread : readPage t s page with
      | ok table =>
          have hreached : reached t s (page :: pages) = page :: reached t s pages := by
            unfold reached
            cases s.strict <;> simp [hread, Except.isOk, Except.toBool]
          rw [hreached, filings_cons_ok hread]
          simp only [loadAll, hread, ih]
          rfl
      | error e =>
          cases hstrict : s.strict with
          | true =>
              have hreached : reached t s (page :: pages) = [] := by
                simp [reached, hstrict, hread, Except.isOk, Except.toBool]
              rw [hreached]
              simp only [loadAll, hread, hstrict]
              rfl
          | false =>
              have hreached : ∀ ps, reached t s ps = ps := fun ps => by simp [reached, hstrict]
              have hrest := ih c
              rw [hreached] at hrest
              rw [hreached, filings_cons_error hread]
              simp only [loadAll, hread, hstrict]
              exact hrest

/-- What reaches the registry of a name: the tables of the pages filed under it. -/
theorem commandsOn_filings (t : FileTree) (s : LoadSettings) (name : String)
    (pages : List PageFile) :
    Catalog.commandsOn name (filings t s pages) =
      ((readable t s pages).filter fun p => p.1.trait.toString = name).map fun p =>
        .merge p.2 := by
  unfold Catalog.commandsOn filings
  rw [List.filter_map, List.map_map]
  rfl

/-- The pages below a root are filed apart if and only if the traits are plain.
Then the registry of each trait holds the tables of the trait's pages, merged in
the order of the pages into what was there before, and those of no others. -/
theorem registry_of_each_trait (t : FileTree) (s : LoadSettings) (root : Path)
    (c : Catalog Markup) :
    match pagesBelow t s root with
    | .error _ => (loadBelow t s root c).catalog = c
    | .ok pages =>
      (KeptApart pages ↔ ∀ p ∈ pages, p.trait.Plain) ∧
        (KeptApart pages → ∀ p ∈ pages,
          (loadBelow t s root c).catalog.getOrNew p.trait.toString =
            ((c.getOrNew p.trait.toString).run
              ((tablesOf t s p.trait pages).map .merge)).1) := by
  cases hpages : pagesBelow t s root with
  | error e => simp only [loadBelow, hpages]
  | ok pages =>
      refine ⟨keptApart_iff, fun hapart p hp => ?_⟩
      have hsame : ∀ q ∈ readable t s (reached t s pages),
          decide (q.1.trait.toString = p.trait.toString) = decide (q.1.trait = p.trait) := by
        intro q hq
        have hmem : q.1 ∈ pages := mem_of_mem_reached (mem_of_mem_readable hq)
        rw [decide_eq_decide]
        refine ⟨fun heq => ?_, fun heq => by rw [heq]⟩
        exact Decidable.byContradiction fun hne => hapart.apart _ hmem p hp hne heq
      simp only [loadBelow, hpages, catalog_loadAll, Catalog.getOrNew_run, commandsOn_filings,
        tablesOf, List.filter_congr hsame, List.map_map]
      rfl

/-- A tree with a page for the trait `Shr` below the folders `core` and `ops`,
and one for a trait named `ops::Shr` below the folder `core`. -/
def collidingPages : FileTree where
  nodes :=
    let location (path : String) : Location := (Path.ofString path).pieces
    let page (descriptor : String) : Node :=
      .file (Text.encodeUtf8 ("implementors['a'] = ['" ++ descriptor ++ "'];"))
    [(location "root", .folder), (location "root/core", .folder),
      (location "root/core/ops", .folder), (location "root/core/ops/trait.Shr.js", page "i32"),
      (location "root/core/trait.ops::Shr.js", page "u8")]
  distinct := by decide +kernel

/-- Two pages of different traits go to one registry: its index holds the table
of the second page alone, under a name that reads back as the first one's trait. -/
theorem overwritten_by_another_trait :
    ∃ p q, pagesBelow collidingPages {} (.ofString "root") = .ok [p, q] ∧
      p.trait.segments = ["core", "ops", "Shr"] ∧ q.trait.segments = ["core", "ops::Shr"] ∧
      p.trait.toString = q.trait.toString ∧
      TraitName.parse? q.trait.toString ≠ some q.trait ∧
      (loadBelow collidingPages {} (.ofString "root") {}).catalog.registries.map
        (fun e => (e.1, e.2.index.entries)) = [("core::ops::Shr", [("a", [⟨"u8"⟩])])] := by
  let root := Path.ofString "root"
  let p : PageFile := ⟨.ofString "root/core/ops/trait.Shr.js",
    ⟨["core", "ops", "Shr"], by decide, by decide⟩, .script⟩
  let q : PageFile := ⟨.ofString "root/core/trait.ops::Shr.js",
    ⟨["core", "ops::Shr"], by decide, by decide⟩, .script⟩
  have hroot : collidingPages.locate root = .ok root.pieces :=
    FileTree.locate_of_leads (by decide +kernel) (by decide +kernel)
  have hfound : ((collidingPages.filesBelow root.pieces).map fun names =>
      names.foldl Path.join root).filterMap (PageFile.of? {} root) = [p, q] := by decide +kernel
  have hsorted : ([p, q].mergeSort fun a b => decide (a.path ≤ b.path)) = [p, q] :=
    List.mergeSort_of_pairwise (by decide +kernel)
  have hpages : pagesBelow collidingPages {} root = .ok [p, q] := by
    rw [pagesBelow, if_neg (by decide +kernel), hroot]
    simp only [hfound, hsorted]
  have hppath : p.path.Spells p.path.pieces := by decide +kernel
  have hptext : collidingPages.readText p.path = .ok "implementors['a'] = ['i32'];" :=
    FileTree.readText_of_leads hppath (by decide +kernel) (by decide +kernel)
  have hqpath : q.path.Spells q.path.pieces := by decide +kernel
  have hqtext : collidingPages.readText q.path = .ok "implementors['a'] = ['u8'];" :=
    FileTree.readText_of_leads hqpath (by decide +kernel) (by decide +kernel)
  have hp : readPage collidingPages {} p = .ok (.ofList [("a", [⟨"i32"⟩])]) :=
    readPage_eq_ok_iff.mpr ⟨_, hptext, tableOf_script_eq_ok_iff.mpr (by decide +kernel)⟩
  have hq : readPage collidingPages {} q = .ok (.ofList [("a", [⟨"u8"⟩])]) :=
    readPage_eq_ok_iff.mpr ⟨_, hqtext, tableOf_script_eq_ok_iff.mpr (by decide +kernel)⟩
  refine ⟨p, q, hpages, rfl, rfl, by decide +kernel, by decide +kernel, ?_⟩
  have hload : loadBelow collidingPages {} root {} = loadAll collidingPages {} {} [p, q] := by
    simp only [loadBelow, hpages]
  rw [hload]
  simp only [loadAll, hp, hq]
  decide +kernel

end Crossref
