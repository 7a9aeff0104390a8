import Crossref.Proofs.Text.Cut
import Crossref.TraitName

/-!
# Trait names and how they are written

A text is the written name of a trait if no piece between its double colons is
empty, and the pieces are the segments (`parse?_eq_some_iff`); then the trait is
written as that text (`toString_of_parse?`), so that no two texts name one trait.

The other way round there is a loss: the segments of a trait may hold colons, and
what they are joined to is then cut elsewhere. A written name leads back to its
trait if and only if the trait is plain (`parse?_toString_iff`).
`names_cut_and_joined` states both directions, for all texts and all lists of
segments.
-/

namespace Crossref.TraitName

open Text (CutAtColons Separable cutAtColons_iff cutColons cutColons_intercalate_iff
  cutColons_ne_nil intercalate_cutColons)

/-- No segment holds a double colon, and none but the last ends in a colon. -/
def Plain (trait : TraitName) : Prop := Text.Separable (trait.segments.map String.toList)

instance (trait : TraitName) : Decidable trait.Plain :=
  inferInstanceAs (Decidable (Text.Separable _))

theorem ofSegments?_eq_some_iff {segments : List String} {trait : TraitName} :
    ofSegments? segments = some trait ↔ segments = trait.segments := by
  unfold ofSegments?
  constructor
  · intro h
    split at h
    · cases h
      rfl
    · cases h
  · rintro rfl
    rw [dif_pos ⟨trait.ne_nil, trait.no_empty⟩]

theorem isSome_ofSegments?_iff {segments : List String} :
    (ofSegments? segments).isSome = true ↔ segments ≠ [] ∧ "" ∉ segments := by
  unfold ofSegments?
  split <;> simp_all

theorem map_ofList_eq_iff {pieces : List (List Char)} {segments : List String} :
    pieces.map String.ofList = segments ↔ pieces = segments.map String.toList := by
  constructor
  · rintro rfl
    simp
  · rintro rfl
    simp

/-- A text names the trait whose segments are the pieces between its double colons. -/
theorem parse?_eq_some_iff {s : String} {trait : TraitName} :
    parse? s = some trait ↔ CutAtColons s.toList (trait.segments.map String.toList) := by
  rw [parse?, ofSegments?_eq_some_iff, map_ofList_eq_iff, cutAtColons_iff]

theorem toString_of_parse? {s : String} {trait : TraitName} (h : parse? s = some trait) :
    trait.toString = s := by
  have hcut := cutAtColons_iff.mp (parse?_eq_some_iff.mp h)
  rw [toString, ← hcut, intercalate_cutColons, String.ofList_toList]

theorem toString_eq_intercalate (trait : TraitName) :
    trait.toString = "::".intercalate trait.segments := by
  rw [← String.toList_inj, String.toList_intercalate, toString, String.toList_ofList]
  rfl

/-- A written name is read back as its trait exactly if the trait is plain. -/
theorem parse?_toString_iff (trait : TraitName) :
    parse? trait.toString = some trait ↔ trait.Plain := by
  have hne : trait.segments.map String.toList ≠ [] := by simpa using trait.ne_nil
  rw [parse?_eq_some_iff, cutAtColons_iff, toString, String.toList_ofList, Plain,
    cutColons_intercalate_iff hne]

/-- Each text has its pieces between leftmost double colons, in one way only. It names
a trait if and only if none of them is empty; then they are the segments, and the trait
is written as that text, which no other text names. Segments that are joined with double
colons are read back if and only if there is one, none is empty, none holds a double
colon and none but the last ends in a colon. -/
theorem names_cut_and_joined :
    (∀ s : String, ∃ pieces : List String,
      (∀ ps, CutAtColons s.toList ps ↔ ps = pieces.map String.toList) ∧
        ((parse? s).isSome = true ↔ "" ∉ pieces) ∧
        ∀ trait, parse? s = some trait → trait.segments = pieces ∧ trait.toString = s) ∧
      (∀ s s' trait, parse? s = some trait → parse? s' = some trait → s = s') ∧
      ∀ segments : List String,
        (parse? ("::".intercalate segments)).map TraitName.segments = some segments ↔
          segments ≠ [] ∧ "" ∉ segments ∧ Separable (segments.map String.toList) := by
  refine ⟨fun s => ?_, fun s s' trait h h' => ?_, fun segments => ?_⟩
  · have hpieces : (cutColons s.toList).map String.ofList ≠ [] := by
      simpa using cutColons_ne_nil s.toList
    refine ⟨(cutColons s.toList).map String.ofList, fun ps => ?_, ?_, fun trait h => ?_⟩
    · rw [cutAtColons_iff, ← map_ofList_eq_iff.mp rfl, eq_comm]
    · rw [parse?, isSome_ofSegments?_iff]
      exact and_iff_right hpieces
    · have hcut := cutAtColons_iff.mp (parse?_eq_some_iff.mp h)
      exact ⟨(map_ofList_eq_iff.mpr hcut).symm, toString_of_parse? h⟩
  · exact (toString_of_parse? h).symm.trans (toString_of_parse? h')
  · constructor
    · intro h
      obtain ⟨trait, htrait, rfl⟩ := Option.map_eq_some_iff.mp h
      rw [← toString_eq_intercalate] at htrait
      exact ⟨trait.ne_nil, trait.no_empty, (parse?_toString_iff trait).mp htrait⟩
    · rintro ⟨hne, hempty, hplain⟩
      let trait : TraitName := ⟨segments, hne, hempty⟩
      have hback := (parse?_toString_iff trait).mpr hplain
      rw [toString_eq_intercalate] at hback
      exact Option.map_eq_some_iff.mpr ⟨trait, hback, rfl⟩

/-- Of three colons in a row, the last one goes to the segment behind them. -/
theorem names_cut_and_joined_three_colons :
    ∃ trait, parse? "a:::b" = some trait ∧ trait.segments = ["a", ":b"] ∧
      trait.toString = "a:::b" ∧ ∀ s, parse? s = some trait → s = "a:::b" := by
  let trait : TraitName := ⟨["a", ":b"], by decide, by decide⟩
  have hparse : parse? "a:::b" = some trait := by decide +kernel
  obtain ⟨hcut, hapart, -⟩ := names_cut_and_joined
  obtain ⟨_, -, -, hnames⟩ := hcut "a:::b"
  exact ⟨trait, hparse, rfl, (hnames trait hparse).2, fun s h => hapart s _ trait h hparse⟩

end Crossref.TraitName
