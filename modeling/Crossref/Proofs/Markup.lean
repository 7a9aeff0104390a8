import Crossref.Markup

/-!
# Markup as it is composed

Markup is composed of texts and tags, and a tag that nothing closes may stand at
its end. A text is spelled character by character: a character that would begin
an entity or a tag is an entity, some others may be one, and all the rest stand
for themselves. Plain text undoes this (`plainText_compose`). It goes through the
pieces one by one whatever follows them (`shown_piece`), so nothing that was
decoded is decoded again, and no piece runs into the next one.
-/

namespace Crossref.Markup

/-! ## Pieces -/

/-- A character of a text, as markup spells it. -/
inductive Spelling where
  | raw (c : Char) (hentity : c ≠ '&') (htag : c ≠ '<')
  | amp
  | lt
  | gt
  | quot
  | apos
  | apostropheNumber
  | nbsp

namespace Spelling

def char : Spelling → Char
  | raw c _ _ => c
  | amp => '&'
  | lt => '<'
  | gt => '>'
  | quot => '"'
  | apos => '\''
  | apostropheNumber => '\''
  | nbsp => ' '

def chars : Spelling → List Char
  | raw c _ _ => [c]
  | amp => ['&', 'a', 'm', 'p', ';']
  | lt => ['&', 'l', 't', ';']
  | gt => ['&', 'g', 't', ';']
  | quot => ['&', 'q', 'u', 'o', 't', ';']
  | apos => ['&', 'a', 'p', 'o', 's', ';']
  | apostropheNumber => ['&', '#', '3', '9', ';']
  | nbsp => ['&', 'n', 'b', 's', 'p', ';']

end Spelling

/-- A tag, by what stands behind its opening bracket. -/
structure Tag where
  body : List Char
  unclosed : '>' ∉ body

namespace Tag

/-- The tag without its closing bracket. -/
def opened (t : Tag) : List Char := '<' :: t.body

def chars (t : Tag) : List Char := t.opened ++ ['>']

end Tag

inductive Piece where
  | text (cs : List Spelling)
  | tag (t : Tag)

namespace Piece

/-- The markup of a piece. -/
def chars : Piece → List Char
  | text cs => cs.flatMap Spelling.chars
  | tag t => t.chars

/-- What a piece shows. -/
def shows : Piece → List Char
  | text cs => cs.map Spelling.char
  | tag _ => []

end Piece

/-- The tag that nothing closes, if there is one. -/
def ending (last : Option Tag) : List Char := (last.map Tag.opened).getD []

def compose (pieces : List Piece) (last : Option Tag) : Markup :=
  ⟨String.ofList (pieces.flatMap Piece.chars ++ ending last)⟩

/-- Every text has a spelling. -/
theorem exists_spelling (text : List Char) : ∃ cs : List Spelling, cs.map Spelling.char = text := by
  induction text with
  | nil => exact ⟨[], rfl⟩
  | cons c text ih =>
      obtain ⟨cs, rfl⟩ := ih
      by_cases hentity : c = '&'
      · exact ⟨.amp :: cs, by rw [hentity]; rfl⟩
      · by_cases htag : c = '<'
        · exact ⟨.lt :: cs, by rw [htag]; rfl⟩
        · exact ⟨.raw c hentity htag :: cs, rfl⟩

/-! ## One piece -/

/-- A tag ends at its first closing bracket. -/
theorem afterTag?_closed (t : Tag) (r : List Char) : afterTag? (t.body ++ '>' :: r) = some r := by
  obtain ⟨body, hbody⟩ := t
  induction body with
  | nil => rfl
  | cons c body ih =>
      rw [List.mem_cons, not_or] at hbody
      simp only [List.cons_append, afterTag?, if_neg (Ne.symm hbody.1)]
      exact ih hbody.2

theorem afterTag?_unclosed (t : Tag) : afterTag? t.body = none := by
  obtain ⟨body, hbody⟩ := t
  induction body with
  | nil => rfl
  | cons c body ih =>
      rw [List.mem_cons, not_or] at hbody
      simp only [afterTag?, if_neg (Ne.symm hbody.1)]
      exact ih hbody.2

theorem shown_tag (t : Tag) (r : List Char) : shown (t.chars ++ r) = shown r := by
  have hchars : t.chars ++ r = '<' :: (t.body ++ '>' :: r) := by
    simp only [Tag.chars, Tag.opened, List.cons_append, List.append_assoc, List.nil_append]
  rw [hchars, shown, if_pos rfl]
  split
  · rename_i r' hr
    rw [afterTag?_closed] at hr
    rw [Option.some.inj hr]
  · rename_i hr
    rw [afterTag?_closed] at hr
    cases hr

/-- A tag that nothing closes is shown as it stands. -/
theorem shown_opened (t : Tag) : shown t.opened = t.opened := by
  rw [Tag.opened, shown, if_pos rfl]
  split
  · rename_i r hr
    rw [afterTag?_unclosed] at hr
    cases hr
  · rfl

theorem shown_raw {c : Char} (hentity : c ≠ '&') (htag : c ≠ '<') (r : List Char) :
    shown (c :: r) = c :: shown r := by
  rw [shown, if_neg htag, if_neg hentity]

theorem shown_entity {c : Char} {s r : List Char} (h : entity? s = some (c, r)) :
    shown ('&' :: s) = c :: shown r := by
  rw [shown, if_neg (by decide), if_pos rfl]
  split
  · rename_i d r' hr
    rw [h] at hr
    cases hr
    rfl
  · rename_i hr
    rw [h] at hr
    cases hr

/-- A character is shown whatever follows its spelling. -/
theorem shown_spelling (c : Spelling) (r : List Char) :
    shown (c.chars ++ r) = c.char :: shown r := by
  cases c with
  | raw c hentity htag => exact shown_raw hentity htag r
  | amp => exact shown_entity rfl
  | lt => exact shown_entity rfl
  | gt => exact shown_entity rfl
  | quot => exact shown_entity rfl
  | apos => exact shown_entity rfl
  | apostropheNumber => exact shown_entity rfl
  | nbsp => exact shown_entity rfl

theorem shown_text (cs : List Spelling) (r : List Char) :
    shown (cs.flatMap Spelling.chars ++ r) = cs.map Spelling.char ++ shown r := by
  induction cs with
  | nil => rfl
  | cons c cs ih =>
      rw [List.flatMap_cons, List.append_assoc, shown_spelling, ih, List.map_cons, List.cons_append]

theorem shown_piece (p : Piece) (r : List Char) : shown (p.chars ++ r) = p.shows ++ shown r := by
  cases p with
  | text cs => exact shown_text cs r
  | tag t => exact shown_tag t r

/-! ## All pieces -/

theorem shown_pieces (pieces : List Piece) (r : List Char) :
    shown (pieces.flatMap Piece.chars ++ r) = pieces.flatMap Piece.shows ++ shown r := by
  induction pieces with
  | nil => rfl
  | cons p pieces ih =>
      rw [List.flatMap_cons, List.append_assoc, shown_piece, ih, List.flatMap_cons,
        List.append_assoc]

theorem shown_ending (last : Option Tag) : shown (ending last) = ending last := by
  cases last with
  | none => rw [ending, Option.map_none, Option.getD_none, shown]
  | some t => exact shown_opened t

/-- The plain text of composed markup is its texts, one after the other, and the
tag that nothing closes as it stands. Closed tags leave nothing, and each entity
is decoded once. Texts of all kinds are among the pieces. -/
theorem plainText_compose :
    (∀ (pieces : List Piece) (last : Option Tag),
      (compose pieces last).plainText =
        String.ofList (pieces.flatMap Piece.shows ++ ending last)) ∧
      ∀ text : List Char, ∃ cs : List Spelling, (Piece.text cs).shows = text := by
  refine ⟨fun pieces last => ?_, exists_spelling⟩
  rw [plainText, compose, String.toList_ofList, shown_pieces, shown_ending]

/-- An entity that an ampersand and the text behind it spell is not decoded, nor
is what stands in a tag. -/
example :
    (compose [.tag ⟨['a', ' ', '&', 'l', 't', ';', '<'], by decide⟩,
        .text [.amp, .raw 'l' (by decide) (by decide), .raw 't' (by decide) (by decide),
          .raw ';' (by decide) (by decide)]]
      (some ⟨['b', '&', 'g', 't', ';'], by decide⟩)).plainText = "&lt;<b&gt;" := by
  cbv

end Crossref.Markup
