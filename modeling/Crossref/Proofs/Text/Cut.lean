import Mathlib.Data.List.Infix
import Crossref.Text.Cut

/-!
# Cutting and joining at double colons

The pieces of a text stand between its leftmost double colons, each found in what
the one before it leaves (`cutAtColons_iff`): of three colons in a row, the last
one belongs to the piece behind. Joining the pieces gives the text back
(`intercalate_cutColons`). Cutting what was joined gives the pieces back if and
only if each separator is the leftmost double colon of what is left there: no
piece holds one, and no piece but the last ends in a colon that would go together
with the separator behind it (`cutColons_intercalate_iff`). Cutting at the last
separator gives back what was put around it, and nothing else
(`cutLast?_eq_some_iff`).
-/

namespace Crossref.Text

/-- No piece holds a double colon, and none but the last ends in a colon. -/
def Separable (ps : List (List Char)) : Prop :=
  (∀ p ∈ ps, ¬ [':', ':'] <:+: p) ∧ ∀ p ∈ ps.dropLast, p.getLast? ≠ some ':'

instance (ps : List (List Char)) : Decidable (Separable ps) :=
  inferInstanceAs (Decidable (_ ∧ _))

/-- A double colon of `s` between `before` and `after`, with none further to the left. -/
structure LeftmostColons (s before after : List Char) : Prop where
  stands : s = before ++ ':' :: ':' :: after
  leftmost : ∀ u v, s = u ++ ':' :: ':' :: v → before.length ≤ u.length

/-- The text `s` and its pieces: up to the leftmost double colon, then those of what
stands behind it. -/
inductive CutAtColons : List Char → List (List Char) → Prop where
  | whole {s : List Char} (hfree : ¬ [':', ':'] <:+: s) : CutAtColons s [s]
  | more {s before after : List Char} {ps : List (List Char)} (h : LeftmostColons s before after)
      (hrest : CutAtColons after ps) : CutAtColons s (before :: ps)

theorem intercalate_cutColons (s : List Char) : [':', ':'].intercalate (cutColons s) = s := by
  fun_induction cutColons s with
  | case1 => rfl
  | case2 r ih =>
      obtain ⟨p, ps, hcut⟩ := List.exists_cons_of_ne_nil (cutColons_ne_nil r)
      rw [hcut] at ih ⊢
      rw [List.intercalate_cons_cons, ih]
      rfl
  | case3 c r _ hcut => exact absurd hcut (cutColons_ne_nil r)
  | case4 c r _ p ps hcut ih =>
      rw [hcut] at ih
      rw [← ih]
      cases ps with
      | nil => rw [List.intercalate_singleton, List.intercalate_singleton]
      | cons q qs => rw [List.intercalate_cons_cons, List.intercalate_cons_cons]; rfl

/-- A character that begins no double colon goes to the first piece. -/
theorem cutColons_cons {c : Char} {r p : List Char} {ps : List (List Char)}
    (hc : ∀ r', c = ':' → r = ':' :: r' → False) (hcut : cutColons r = p :: ps) :
    cutColons (c :: r) = (c :: p) :: ps := by
  rw [cutColons, hcut]
  exact hc

theorem cutColons_of_free {p : List Char} (hfree : ¬ [':', ':'] <:+: p) : cutColons p = [p] := by
  induction p with
  | nil => rfl
  | cons c p ih =>
      refine cutColons_cons ?_ (ih fun h => hfree (h.trans (List.suffix_cons c p).isInfix))
      rintro p' rfl rfl
      exact hfree ⟨[], p', rfl⟩

/-- A double colon behind a piece that neither holds one nor ends in a colon is
the leftmost one. -/
theorem cutColons_append {p : List Char} (hfree : ¬ [':', ':'] <:+: p)
    (hend : p.getLast? ≠ some ':') (r : List Char) :
    cutColons (p ++ ':' :: ':' :: r) = p :: cutColons r := by
  induction p with
  | nil => rw [List.nil_append, cutColons]
  | cons c p ih =>
      have htail : ¬ [':', ':'] <:+: p := fun h => hfree (h.trans (List.suffix_cons c p).isInfix)
      cases p with
      | nil =>
          refine cutColons_cons ?_ (ih htail (by simp))
          rintro r' rfl -
          exact hend rfl
      | cons d p =>
          rw [List.getLast?_cons_cons] at hend
          refine cutColons_cons ?_ (ih htail hend)
          rintro r' rfl hr
          obtain ⟨rfl, -⟩ : d = ':' ∧ p ++ ':' :: ':' :: r = r' := by simpa using hr
          exact hfree ⟨[], p, rfl⟩

/-- A double colon is the leftmost one if there is none in front of it, and no colon
that could go together with its own first one. -/
theorem leftmostColons_iff {before after : List Char} :
    LeftmostColons (before ++ ':' :: ':' :: after) before after ↔
      ¬ [':', ':'] <:+: before ∧ before.getLast? ≠ some ':' := by
  constructor
  · rintro ⟨-, hleft⟩
    constructor
    · rintro ⟨u, v, rfl⟩
      have hle := hleft u (v ++ ':' :: ':' :: after) (by simp)
      simp only [List.length_append, List.length_cons] at hle
      omega
    · intro hend
      obtain ⟨u, rfl⟩ := List.getLast?_eq_some_iff.mp hend
      have hle := hleft u (':' :: after) (by simp)
      simp only [List.length_append, List.length_cons] at hle
      omega
  · rintro ⟨hfree, hend⟩
    refine ⟨rfl, fun u v h => ?_⟩
    rcases List.append_eq_append_iff.mp h with ⟨w, rfl, -⟩ | ⟨w, rfl, hw⟩
    · rw [List.length_append]
      exact Nat.le_add_right _ _
    · -- A double colon that starts inside `before` lies there, or begins with its last character.
      match w with
      | [] => rw [List.append_nil]
      | [c] =>
          obtain ⟨rfl, -⟩ := List.cons.inj hw
          exact absurd List.getLast?_concat hend
      | c :: d :: w =>
          obtain ⟨rfl, hw'⟩ := List.cons.inj hw
          obtain ⟨rfl, -⟩ := List.cons.inj hw'
          exact absurd ⟨u, w, by simp⟩ hfree

theorem cutColons_of_cutAtColons {s : List Char} {ps : List (List Char)} (h : CutAtColons s ps) :
    cutColons s = ps := by
  induction h with
  | whole hfree => exact cutColons_of_free hfree
  | more h _ ih =>
      obtain rfl := h.stands
      obtain ⟨hfree, hend⟩ := leftmostColons_iff.mp h
      rw [cutColons_append hfree hend, ih]

theorem cutAtColons_intercalate {ps : List (List Char)} (hne : ps ≠ []) (h : Separable ps) :
    CutAtColons ([':', ':'].intercalate ps) ps := by
  induction ps with
  | nil => exact absurd rfl hne
  | cons p ps ih =>
      obtain ⟨hfree, hend⟩ := h
      have hp : ¬ [':', ':'] <:+: p := hfree p List.mem_cons_self
      cases ps with
      | nil =>
          rw [List.intercalate_singleton]
          exact .whole hp
      | cons q qs =>
          rw [List.dropLast_cons_of_ne_nil (by simp)] at hend
          have hrest : Separable (q :: qs) :=
            ⟨fun x hx => hfree x (List.mem_cons_of_mem p hx),
              fun x hx => hend x (List.mem_cons_of_mem p hx)⟩
          rw [List.intercalate_cons_cons, List.append_assoc]
          exact .more (leftmostColons_iff.mpr ⟨hp, hend p List.mem_cons_self⟩)
            (ih (by simp) hrest)

/-- The first piece of a text stands at its beginning. -/
theorem prefix_of_cutColons {s p : List Char} {ps : List (List Char)}
    (h : cutColons s = p :: ps) : p <+: s := by
  have hjoin := intercalate_cutColons s
  rw [h] at hjoin
  cases ps with
  | nil => rw [← hjoin, List.intercalate_singleton]
  | cons q qs =>
      rw [← hjoin, List.intercalate_cons_cons, List.append_assoc]
      exact List.prefix_append p _

theorem separable_cutColons (s : List Char) : Separable (cutColons s) := by
  fun_induction cutColons s with
  | case1 => decide
  | case2 r ih =>
      obtain ⟨hfree, hend⟩ := ih
      constructor
      · rw [List.forall_mem_cons]
        exact ⟨by decide, hfree⟩
      · rw [List.dropLast_cons_of_ne_nil (cutColons_ne_nil r), List.forall_mem_cons]
        exact ⟨by decide, hend⟩
  | case3 c r _ hcut => exact absurd hcut (cutColons_ne_nil r)
  | case4 c r hc p ps hcut ih =>
      -- A colon at `c` with another one behind it would have been cut.
      have hnot : c = ':' → r.head? ≠ some ':' := by
        rintro rfl hr
        obtain ⟨r', rfl⟩ := List.head?_eq_some_iff.mp hr
        exact hc r' rfl rfl
      rw [hcut] at ih
      obtain ⟨hfree, hend⟩ := ih
      rw [List.forall_mem_cons] at hfree
      constructor
      · rw [List.forall_mem_cons]
        refine ⟨fun hinfix => ?_, hfree.2⟩
        rcases List.infix_cons_iff.mp hinfix with ⟨t, ht⟩ | hinfix
        · obtain ⟨rfl, rfl⟩ : ':' = c ∧ ':' :: t = p := by simpa using ht
          obtain ⟨u, rfl⟩ := prefix_of_cutColons hcut
          exact hnot rfl rfl
        · exact hfree.1 hinfix
      · cases ps with
        | nil => intro q hq; cases hq
        | cons q qs =>
            rw [List.dropLast_cons_of_ne_nil (by simp), List.forall_mem_cons] at hend ⊢
            refine ⟨fun hlast => ?_, hend.2⟩
            cases p with
            | nil =>
                obtain rfl : c = ':' := Option.some.inj hlast
                have hjoin := intercalate_cutColons r
                rw [hcut, List.intercalate_cons_cons] at hjoin
                exact hnot rfl (by rw [← hjoin]; rfl)
            | cons d p => exact hend.1 (by rwa [List.getLast?_cons_cons] at hlast)

/-- Cutting undoes joining exactly for separable pieces. -/
theorem cutColons_intercalate_iff {ps : List (List Char)} (hne : ps ≠ []) :
    cutColons ([':', ':'].intercalate ps) = ps ↔ Separable ps :=
  ⟨fun h => h ▸ separable_cutColons _, fun h =>
    cutColons_of_cutAtColons (cutAtColons_intercalate hne h)⟩

/-- Each text is cut in exactly one way. -/
theorem cutAtColons_iff {s : List Char} {ps : List (List Char)} :
    CutAtColons s ps ↔ cutColons s = ps := by
  refine ⟨cutColons_of_cutAtColons, ?_⟩
  rintro rfl
  have hcut := cutAtColons_intercalate (cutColons_ne_nil s) (separable_cutColons s)
  rwa [intercalate_cutColons] at hcut

/-- The last separator is the one with none behind it. -/
theorem cutLast?_append_cons {α : Type} [DecidableEq α] {sep : α} (before : List α) {after : List α}
    (h : sep ∉ after) : cutLast? sep (before ++ sep :: after) = some (before, after) := by
  have hne : ∀ c ∈ after.reverse, (c != sep) = true := fun c hc =>
    bne_iff_ne.mpr fun heq => h (heq ▸ List.mem_reverse.mp hc)
  have hreverse : (before ++ sep :: after).reverse = after.reverse ++ sep :: before.reverse := by
    simp
  rw [cutLast?, hreverse, List.dropWhile_append_of_pos hne, List.takeWhile_append_of_pos hne]
  simp

theorem cutLast?_eq_some_iff {α : Type} [DecidableEq α] {sep : α} {list before after : List α} :
    cutLast? sep list = some (before, after) ↔ list = before ++ sep :: after ∧ sep ∉ after := by
  constructor
  · intro h
    have hbehind : sep ∉ list.reverse.takeWhile (· != sep) := fun hmem => by
      have hne := List.all_eq_true.mp List.all_takeWhile sep hmem
      simp at hne
    have hwhole := List.takeWhile_append_dropWhile (p := (· != sep)) (l := list.reverse)
    have hhead := List.head?_dropWhile_not (· != sep) list.reverse
    unfold cutLast? at h
    cases hback : list.reverse.dropWhile (· != sep) with
    | nil =>
        rw [hback] at h
        cases h
    | cons c front =>
        rw [hback] at h hwhole hhead
        obtain ⟨rfl, rfl⟩ := Prod.mk.inj (Option.some.inj h)
        obtain rfl : c = sep := by simpa using hhead
        refine ⟨?_, fun hmem => hbehind (List.mem_reverse.mp hmem)⟩
        simpa using (congrArg List.reverse hwhole).symm
  · rintro ⟨rfl, hafter⟩
    exact cutLast?_append_cons before hafter

end Crossref.Text
