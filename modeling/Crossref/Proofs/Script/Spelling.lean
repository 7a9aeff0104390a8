import Crossref.Proofs.Script.Literal
import Crossref.Proofs.Text.Utf16

/-!
# What a literal denotes

A literal as it is composed: a quote, elements, and the quote again. What
elements denote is said of their list as a whole (`Denotes`), since code units
that stand next to each other are decoded together. Reading a composed literal
gives what its elements denote and stops behind the closing quote
(`readLiteral_spelled`), so each text comes back from all of its spellings.
-/

namespace Crossref.Script

open Text (HexDigit Piece Utf16 hexValue? scalar textOf unitsOf)

inductive Quote where
  | double
  | single
deriving Repr, DecidableEq

def Quote.char : Quote → Char
  | .double => '"'
  | .single => '\''

/-- The letters behind a backslash, with the characters that they write. -/
def shortEscapes : List (Char × Char) :=
  [('n', '\n'), ('t', '\t'), ('r', '\r'), ('b', '\x08'), ('f', '\x0c'), ('v', '\x0b'),
    ('0', '\x00')]

/-- The ends of a line that a backslash takes away. -/
def lineEnds : List (List Char) := [['\n'], ['\r'], ['\r', '\n'], ['\u2028'], ['\u2029']]

/-- The characters that a backslash does not leave as they are. -/
def reserved : List Char :=
  ['n', 't', 'r', 'b', 'f', 'v', '0', 'x', 'u', '\n', '\r', '\u2028', '\u2029']

/-- An element that denotes the same text wherever it stands. -/
inductive Plain (q : Quote) where
  | raw (c : Char) (hquote : c ≠ q.char) (hback : c ≠ '\\') (hfeed : c ≠ '\n')
  | short (letter c : Char) (h : (letter, c) ∈ shortEscapes)
  | byte (ds : List HexDigit) (hlen : ds.length = 2)
  | codePoint (ds : List HexDigit) (hne : ds ≠ []) (hlt : HexDigit.number ds < UInt32.size)
  | itself (c : Char) (h : c ∉ reserved)
  | continuation (line : List Char) (h : line ∈ lineEnds)

namespace Plain

variable {q : Quote}

def chars : Plain q → List Char
  | .raw c _ _ _ => [c]
  | .short letter _ _ => ['\\', letter]
  | .byte ds _ => '\\' :: 'x' :: ds.map HexDigit.char
  | .codePoint ds _ _ => '\\' :: 'u' :: '{' :: (ds.map HexDigit.char ++ ['}'])
  | .itself c _ => ['\\', c]
  | .continuation line _ => '\\' :: line

def text : Plain q → List Char
  | .raw c _ _ _ => [c]
  | .short _ c _ => [c]
  | .byte ds _ => [scalar (HexDigit.number ds)]
  | .codePoint ds _ _ => [scalar (HexDigit.number ds)]
  | .itself c _ => [c]
  | .continuation _ _ => []

end Plain

/-- A code unit in four digits. -/
structure CodeUnit where
  digits : List HexDigit
  length_eq : digits.length = 4

namespace CodeUnit

def value (u : CodeUnit) : Nat := HexDigit.number u.digits

def chars (u : CodeUnit) : List Char := '\\' :: 'u' :: u.digits.map HexDigit.char

theorem value_lt (u : CodeUnit) : u.value < 0x10000 := by
  have h := HexDigit.number_lt u.digits
  rw [u.length_eq] at h
  exact h

end CodeUnit

inductive Element (q : Quote) where
  | plain (p : Plain q)
  | unit (u : CodeUnit)

variable {q : Quote}

def Element.chars : Element q → List Char
  | .plain p => p.chars
  | .unit u => u.chars

/-- The literal with these elements, in its quotes. -/
def spelled (es : List (Element q)) : List Char :=
  q.char :: (es.flatMap Element.chars ++ [q.char])

/-- What elements denote: each its own text, but code units are decoded together,
as far as one stands next to the other. -/
inductive Denotes : List (Element q) → List Char → Prop where
  | nil : Denotes [] []
  | plain (p : Plain q) {es : List (Element q)} {t : List Char} (h : Denotes es t) :
      Denotes (.plain p :: es) (p.text ++ t)
  | units {us : List CodeUnit} {es : List (Element q)} {s t : List Char} (hne : us ≠ [])
      (hmax : ∀ u rest, es ≠ .unit u :: rest) (hs : Utf16 (us.map CodeUnit.value) s)
      (h : Denotes es t) : Denotes (us.map Element.unit ++ es) (s ++ t)

/-- A text spelled character by character: each character by an element of its own
or by the code units that write it, with continuations anywhere. -/
inductive Spells : List (Element q) → List Char → Prop where
  | nil : Spells [] []
  | plain (p : Plain q) {es : List (Element q)} {t : List Char} (h : Spells es t) :
      Spells (.plain p :: es) (p.text ++ t)
  | units {c : Char} {us : List CodeUnit} {es : List (Element q)} {t : List Char}
      (hc : us.map CodeUnit.value = unitsOf c) (h : Spells es t) :
      Spells (us.map Element.unit ++ es) (c :: t)

/-! ## Every list of elements denotes a text -/

theorem exists_denotes_run (us : List CodeUnit) {es : List (Element q)} {t : List Char}
    (hmax : ∀ u rest, es ≠ .unit u :: rest) (h : Denotes es t) :
    ∃ s, Denotes (us.map Element.unit ++ es) s := by
  by_cases hne : us = []
  · subst hne
    exact ⟨t, h⟩
  · have hlt : ∀ n ∈ us.map CodeUnit.value, n < 0x10000 := fun n hn => by
      obtain ⟨u, -, rfl⟩ := List.mem_map.mp hn
      exact u.value_lt
    obtain ⟨s, hs⟩ := Text.exists_utf16 hlt
    exact ⟨s ++ t, .units hne hmax hs h⟩

/-- Elements begin with a run of code units, be it empty, and what stands behind the
run denotes a text. -/
theorem exists_run (es : List (Element q)) :
    ∃ (us : List CodeUnit) (rest : List (Element q)) (t : List Char),
      es = us.map Element.unit ++ rest ∧ (∀ u rest', rest ≠ .unit u :: rest') ∧
        Denotes rest t := by
  induction es with
  | nil => exact ⟨[], [], [], rfl, fun _ _ h => (nomatch h), .nil⟩
  | cons e es ih =>
      obtain ⟨us, rest, t, rfl, hmax, ht⟩ := ih
      cases e with
      | plain p =>
          obtain ⟨s, hs⟩ := exists_denotes_run us hmax ht
          exact ⟨[], _, _, rfl, fun _ _ h => (nomatch h), .plain p hs⟩
      | unit u => exact ⟨u :: us, rest, t, rfl, hmax, ht⟩

theorem exists_denotes (es : List (Element q)) : ∃ t, Denotes es t := by
  obtain ⟨us, rest, t, rfl, hmax, ht⟩ := exists_run es
  exact exists_denotes_run us hmax ht

/-- Every text has a spelling, without any code unit. -/
theorem exists_spells (q : Quote) (t : List Char) : ∃ es : List (Element q), Spells es t := by
  induction t with
  | nil => exact ⟨[], .nil⟩
  | cons c t ih =>
      obtain ⟨es, hes⟩ := ih
      by_cases hfeed : c = '\n'
      · subst hfeed
        exact ⟨_, .plain (.short 'n' '\n' (by decide)) hes⟩
      · by_cases hself : c = q.char ∨ c = '\\'
        · have hitself : c ∉ reserved := by
            rcases hself with rfl | rfl
            · cases q <;> decide
            · decide
          exact ⟨_, .plain (.itself c hitself) hes⟩
        · rw [not_or] at hself
          exact ⟨_, .plain (.raw c hself.1 hself.2 hfeed) hes⟩

/-! ## Elements as they are read -/

def Plain.piece : Plain q → Piece
  | .raw c _ _ _ => .char c
  | .short _ c _ => .char c
  | .byte ds _ => .char (scalar (HexDigit.number ds))
  | .codePoint ds _ _ => .char (scalar (HexDigit.number ds))
  | .itself c _ => .char c
  | .continuation _ _ => .gap

def Element.piece : Element q → Piece
  | .plain p => p.piece
  | .unit u => .unit u.value

theorem textOf_plain (p : Plain q) (ps : List Piece) :
    textOf (p.piece :: ps) = p.text ++ textOf ps := by
  cases p <;> rfl

theorem pieces_of_units (us : List CodeUnit) (es : List (Element q)) :
    (us.map Element.unit ++ es).map Element.piece =
      (us.map CodeUnit.value).map Piece.unit ++ es.map Element.piece := by
  rw [List.map_append, List.map_map, List.map_map]
  rfl

theorem Denotes.textOf_eq {es : List (Element q)} {t : List Char} (h : Denotes es t) :
    textOf (es.map Element.piece) = t := by
  induction h with
  | nil => rfl
  | plain p _ ih => rw [List.map_cons, Element.piece, textOf_plain, ih]
  | @units us es s t _ hmax hs _ ih =>
      rw [pieces_of_units, Text.textOf_units hs, ih]
      -- No unit follows the run among the pieces, as none does among the elements.
      intro v qs hqs
      obtain ⟨e, rest, rfl, he, -⟩ := List.map_eq_cons_iff.mp hqs
      cases e with
      | plain p => cases p <;> cases he
      | unit u => exact hmax u rest rfl

theorem Spells.textOf_eq {es : List (Element q)} {t : List Char} (h : Spells es t) :
    textOf (es.map Element.piece) = t := by
  induction h with
  | nil => rfl
  | plain p _ ih => rw [List.map_cons, Element.piece, textOf_plain, ih]
  | units hc _ ih => rw [pieces_of_units, hc, Text.textOf_unitsOf, ih]

/-! ## Reading -/

/-- Nothing that an element begins with is a line feed. -/
theorem ne_feed_of_chars (es : List (Element q)) {s : List Char} (hs : ∀ u, s ≠ '\n' :: u)
    (u : List Char) : es.flatMap Element.chars ++ s ≠ '\n' :: u := by
  intro h
  cases es with
  | nil => exact hs u h
  | cons e es =>
      cases e with
      | unit u => cases h
      | plain p =>
          cases p with
          | raw c hquote hback hfeed => exact hfeed (List.head_eq_of_cons_eq h)
          | _ => cases h

/-- Nor is the closing quote one. -/
theorem ne_feed_of_spelled (es : List (Element q)) (r s : List Char) :
    es.flatMap Element.chars ++ q.char :: r ≠ '\n' :: s := by
  refine ne_feed_of_chars es (fun u h => ?_) s
  have hquote : q.char = '\n' := List.head_eq_of_cons_eq h
  cases q <;> exact absurd hquote (by decide)

theorem escape_itself {c : Char} (h : c ∉ reserved) (r : List Char) :
    Escape (c :: r) (.char c) r := by
  simp only [reserved, List.mem_cons, List.not_mem_nil, or_false, not_or] at h
  refine .itself ?_ (by simp [isSpecialEscape, h])
  unfold shortEscape?
  split <;> simp_all

theorem escape_continuation {line r : List Char} (hline : line ∈ lineEnds)
    (hr : ∀ s, r ≠ '\n' :: s) : Escape (line ++ r) .gap r := by
  simp only [lineEnds, List.mem_cons, List.not_mem_nil, or_false] at hline
  rcases hline with rfl | rfl | rfl | rfl | rfl
  · exact .continuation (.inl rfl)
  · exact .carriageReturn hr
  · exact .carriageReturnFeed
  · exact .continuation (.inr (.inl rfl))
  · exact .continuation (.inr (.inr rfl))

theorem shortEscape?_of_mem {letter c : Char} (h : (letter, c) ∈ shortEscapes) :
    shortEscape? letter = some c := by
  simp only [shortEscapes, List.mem_cons, List.not_mem_nil, or_false, Prod.mk.injEq] at h
  rcases h with ⟨rfl, rfl⟩ | ⟨rfl, rfl⟩ | ⟨rfl, rfl⟩ | ⟨rfl, rfl⟩ | ⟨rfl, rfl⟩ | ⟨rfl, rfl⟩ |
    ⟨rfl, rfl⟩ <;> rfl

/-- Neither a sign nor a brace is among digits. -/
theorem not_mem_digits {c : Char} (hc : hexValue? c = none) (ds : List HexDigit) :
    c ∉ ds.map HexDigit.char := by
  intro hmem
  obtain ⟨d, -, rfl⟩ := List.mem_map.mp hmem
  rw [d.hexValue?_char] at hc
  cases hc

theorem codePoint?_digits {ds : List HexDigit} (hne : ds ≠ [])
    (hlt : HexDigit.number ds < UInt32.size) :
    codePoint? (ds.map HexDigit.char) = some (HexDigit.number ds) := by
  have hsign : ∀ r, ds.map HexDigit.char ≠ '+' :: r := fun r h =>
    not_mem_digits (by decide) ds (h ▸ List.mem_cons_self : '+' ∈ ds.map HexDigit.char)
  unfold codePoint?
  split
  · rename_i r h
    exact absurd h (hsign r)
  · rw [HexDigit.hexNumber?_digits hne]
    exact Option.filter_some_pos (decide_eq_true hlt)

/-- An element is a raw character, or a backslash with an escape behind it. Only a
carriage return looks at what follows, since a line feed there would be taken with
it. -/
theorem Element.raw_or_escape (e : Element q) {s : List Char} (hfeed : ∀ u, s ≠ '\n' :: u) :
    (∃ c, e.chars ++ s = c :: s ∧ e.piece = .char c ∧ c ≠ q.char ∧ c ≠ '\\' ∧ c ≠ '\n') ∨
      ∃ t, e.chars ++ s = '\\' :: t ∧ Escape t e.piece s := by
  cases e with
  | unit u =>
      have hne : u.digits ≠ [] := List.ne_nil_of_length_eq_add_one u.length_eq
      exact .inr ⟨_, rfl, .unit ((List.length_map _).trans u.length_eq)
        (HexDigit.hexNumber?_digits hne)⟩
  | plain p =>
      cases p with
      | raw c hquote hback hline => exact .inl ⟨c, rfl, rfl, hquote, hback, hline⟩
      | short letter c hmem => exact .inr ⟨_, rfl, .short (shortEscape?_of_mem hmem)⟩
      | byte ds hlen =>
          have hne : ds ≠ [] := List.ne_nil_of_length_eq_add_one hlen
          exact .inr ⟨_, rfl, .byte ((List.length_map _).trans hlen)
            (HexDigit.hexNumber?_digits hne)⟩
      | codePoint ds hne hlt =>
          have hclose : '}' ∉ ds.map HexDigit.char := not_mem_digits (by decide) ds
          refine .inr ⟨'u' :: '{' :: (ds.map HexDigit.char ++ '}' :: s), ?_,
            .codePoint hclose (codePoint?_digits hne hlt)⟩
          simp only [Element.chars, Plain.chars, List.cons_append, List.append_assoc,
            List.nil_append]
      | itself c hc => exact .inr ⟨_, rfl, escape_itself hc s⟩
      | continuation line hline => exact .inr ⟨_, rfl, escape_continuation hline hfeed⟩

/-- One more element in front of what is read. -/
theorem Elements.cons {s r : List Char} {ps : List Piece} (e : Element q)
    (hfeed : ∀ u, s ≠ '\n' :: u) (h : Elements q.char s ps r) :
    Elements q.char (e.chars ++ s) (e.piece :: ps) r := by
  rcases e.raw_or_escape hfeed with ⟨c, hs, hpiece, hquote, hback, hline⟩ | ⟨t, hs, he⟩
  · rw [hs, hpiece]
    exact .raw hquote hback hline h
  · rw [hs]
    exact .escape he h

theorem elements_spelled (es : List (Element q)) (r : List Char) :
    Elements q.char (es.flatMap Element.chars ++ q.char :: r) (es.map Element.piece) r := by
  induction es with
  | nil => exact .close r
  | cons e es ih =>
      rw [List.flatMap_cons, List.append_assoc]
      exact ih.cons e (ne_feed_of_spelled es r)

theorem readLiteral_of_textOf {es : List (Element q)} {t : List Char}
    (h : textOf (es.map Element.piece) = t) (rest : List Char) :
    readLiteral (spelled es ++ rest) = .ok (String.ofList t, rest) := by
  have hquote : q.char = '"' ∨ q.char = '\'' := by cases q <;> decide
  rw [readLiteral_eq_ok_iff, ← h, spelled, List.cons_append, List.append_assoc]
  exact .quoted hquote (elements_spelled es rest)

/-- A literal is read as what its elements denote, whatever they are and whatever
stands behind it, and each text comes back from all of its spellings. -/
theorem readLiteral_spelled (q : Quote) (rest : List Char) :
    (∀ es : List (Element q), (∃ t, Denotes es t) ∧
      ∀ t, Denotes es t → readLiteral (spelled es ++ rest) = .ok (String.ofList t, rest)) ∧
    ∀ text : String, (∃ es : List (Element q), Spells es text.toList) ∧
      ∀ es : List (Element q), Spells es text.toList →
        readLiteral (spelled es ++ rest) = .ok (text, rest) := by
  refine ⟨fun es => ⟨exists_denotes es, fun t ht => ?_⟩,
    fun text => ⟨exists_spells q text.toList, fun es hes => ?_⟩⟩
  · exact readLiteral_of_textOf ht.textOf_eq rest
  · have hread := readLiteral_of_textOf hes.textOf_eq rest
    rwa [String.ofList_toList] at hread

end Crossref.Script
