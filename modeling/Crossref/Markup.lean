import Crossref.Text.Lead

/-!
# Markup

One entry of the index describes one implementor by a line of markup, kept as its page shipped it.
Its plain text drops the tags and decodes each entity once; a tag that nothing closes is no tag, and
it ends the text as it stands.
-/

namespace Crossref

open Text (stripLead? stripLead?_eq_some_iff)

structure Markup where
  source : String
deriving Repr, DecidableEq

namespace Markup

/-- The entities that plain text decodes, without their ampersand. -/
def entities : List (List Char × Char) :=
  [(['l', 't', ';'], '<'), (['g', 't', ';'], '>'), (['a', 'm', 'p', ';'], '&'),
    (['q', 'u', 'o', 't', ';'], '"'), (['#', '3', '9', ';'], '\''),
    (['a', 'p', 'o', 's', ';'], '\''), (['n', 'b', 's', 'p', ';'], ' ')]

/-- The character that an entity writes and what is left behind it; the ampersand is gone. -/
def entity? (s : List Char) : Option (Char × List Char) :=
  entities.findSome? fun e => (stripLead? e.1 s).map fun r => (e.2, r)

/-- What is left behind the tag whose opening bracket is gone, if something closes it. -/
def afterTag? : List Char → Option (List Char)
  | [] => none
  | c :: r => if c = '>' then some r else afterTag? r

theorem length_pos_of_mem_entities : ∀ e ∈ entities, 0 < e.1.length := by
  decide

theorem length_lt_of_entity? {s r : List Char} {c : Char} (h : entity? s = some (c, r)) :
    r.length < s.length := by
  obtain ⟨e, he, hs⟩ := List.exists_of_findSome?_eq_some h
  obtain ⟨t, ht, hp⟩ := Option.map_eq_some_iff.1 hs
  cases hp
  have hlen := length_pos_of_mem_entities e he
  rw [stripLead?_eq_some_iff.1 ht, List.length_append]
  omega

theorem length_lt_of_afterTag? {s r : List Char} (h : afterTag? s = some r) :
    r.length < s.length := by
  fun_induction afterTag? s with
  | case1 => cases h
  | case2 =>
    cases h
    simp
  | case3 _ _ _ ih =>
    have := ih h
    simp only [List.length_cons]
    omega

/-- The text that the characters of a markup show. -/
def shown (s : List Char) : List Char :=
  match s with
  | [] => []
  | c :: r =>
    if c = '<' then
      match _hr : afterTag? r with
      | some r' => shown r'
      | none => c :: r
    else if c = '&' then
      match _hr : entity? r with
      | some (d, r') => d :: shown r'
      | none => c :: shown r
    else c :: shown r
termination_by s.length
decreasing_by
  · have := length_lt_of_afterTag? _hr
    simp only [List.length_cons]
    omega
  · have := length_lt_of_entity? _hr
    simp only [List.length_cons]
    omega
  all_goals simp

def plainText (m : Markup) : String := String.ofList (shown m.source.toList)

end Markup

end Crossref
