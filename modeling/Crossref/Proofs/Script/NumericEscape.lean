import Crossref.Proofs.Script.Diagnosis
import Crossref.Proofs.Script.Grammar
import Crossref.Proofs.Script.Spelling

/-!
# Numeric escapes

`\xHH`, `\uHHHH` and `\u{H...}` write a number. What may stand behind the letter
is told by `Numeral`: two digits, four digits, or a number in braces that fits in
32 bits. In the braces one plus sign may stand before the digits, and nothing
else besides them (`codePoint?_eq_some_iff`).

`readLiteral_numeral_iff` is the main statement. Among other well-formed elements
such an escape is accepted exactly where a numeral stands. Everywhere else reading
fails at the first character behind the letter, or behind the opening brace, and
so does the reading of every source that comes to the literal (`Meets`).
-/

namespace Crossref.Script

open Text (HexDigit Piece Position hexNumber? hexValue? scalar textOf)

/-! ## Numerals -/

/-- The letters of the escapes that write a number. -/
inductive NumberLetter where
  | byte
  | codePoint
deriving Repr, DecidableEq

def NumberLetter.char : NumberLetter → Char
  | byte => 'x'
  | codePoint => 'u'

/-- Where the number is looked for: behind the letter, or behind the brace that
opens it. -/
def NumberLetter.place : NumberLetter → List Char → List Char
  | codePoint, '{' :: s => s
  | _, s => s

/-- One or more digits of a number of 32 bits, with a plus sign before them or not. -/
structure WritesCodePoint (d : List Char) (n : Nat) : Prop where
  digits : ∃ ds : List HexDigit, (d = ds.map HexDigit.char ∨ d = '+' :: ds.map HexDigit.char) ∧
    ds ≠ [] ∧ HexDigit.number ds = n
  fits : n < UInt32.size

/-- What a numeric escape has behind its letter, the piece that it denotes, and what
is left. -/
inductive Numeral : NumberLetter → List Char → Piece → List Char → Prop where
  | byte (ds : List HexDigit) (hlen : ds.length = 2) (r : List Char) :
      Numeral .byte (ds.map HexDigit.char ++ r) (.char (scalar (HexDigit.number ds))) r
  | unit (ds : List HexDigit) (hlen : ds.length = 4) (r : List Char) :
      Numeral .codePoint (ds.map HexDigit.char ++ r) (.unit (HexDigit.number ds)) r
  | braces {d : List Char} {n : Nat} (hd : WritesCodePoint d n) (r : List Char) :
      Numeral .codePoint ('{' :: (d ++ '}' :: r)) (.char (scalar n)) r

theorem exists_hexDigit {c : Char} {n : Nat} (h : hexValue? c = some n) :
    ∃ d : HexDigit, d.char = c := by
  have hsmall : c.toNat < 128 := by
    unfold hexValue? at h
    split at h
    · rename_i hc
      exact Nat.lt_of_le_of_lt hc.2 (by decide)
    · split at h
      · rename_i hc
        exact Nat.lt_of_le_of_lt hc.2 (by decide)
      · split at h
        · rename_i hc
          exact Nat.lt_of_le_of_lt hc.2 (by decide)
        · cases h
  have htable : ∀ k < 128, ∀ v ∈ hexValue? (Char.ofNat k),
      ∃ upper : Bool, HexDigit.char ⟨⟨v % 16, Nat.mod_lt v (by decide)⟩, upper⟩ = Char.ofNat k := by
    decide +kernel
  obtain ⟨upper, hchar⟩ := htable c.toNat hsmall n (by rw [Char.ofNat_toNat, h]; rfl)
  exact ⟨_, hchar.trans (Char.ofNat_toNat c)⟩

/-- What writes a number are its digits. -/
theorem exists_digits {d : List Char} {n : Nat} (h : hexNumber? d = some n) :
    ∃ ds : List HexDigit, d = ds.map HexDigit.char ∧ ds ≠ [] ∧ HexDigit.number ds = n := by
  have hdigits := Text.isSome_hexValue?_of_hexNumber? h
  have hmap : ∃ ds : List HexDigit, d = ds.map HexDigit.char := by
    clear h
    induction d with
    | nil => exact ⟨[], rfl⟩
    | cons c d ih =>
        obtain ⟨ds, rfl⟩ := ih fun x hx => hdigits x (List.mem_cons_of_mem c hx)
        obtain ⟨v, hv⟩ := Option.isSome_iff_exists.mp (hdigits c List.mem_cons_self)
        obtain ⟨x, rfl⟩ := exists_hexDigit hv
        exact ⟨x :: ds, rfl⟩
  obtain ⟨ds, rfl⟩ := hmap
  have hne : ds ≠ [] := by
    rintro rfl
    cases h
  rw [HexDigit.hexNumber?_digits hne] at h
  exact ⟨ds, rfl, hne, Option.some.inj h⟩

theorem hexNumber?_eq_some_iff {d : List Char} {n : Nat} :
    hexNumber? d = some n ↔
      ∃ ds : List HexDigit, d = ds.map HexDigit.char ∧ ds ≠ [] ∧ HexDigit.number ds = n := by
  refine ⟨exists_digits, ?_⟩
  rintro ⟨ds, rfl, hne, rfl⟩
  exact HexDigit.hexNumber?_digits hne

theorem codePoint?_eq_some_iff {d : List Char} {n : Nat} :
    codePoint? d = some n ↔ WritesCodePoint d n := by
  unfold codePoint?
  simp only [Option.filter_eq_some_iff, decide_eq_true_eq, hexNumber?_eq_some_iff]
  constructor
  · rintro ⟨⟨ds, hds, hne, hn⟩, hlt⟩
    refine ⟨⟨ds, ?_, hne, hn⟩, hlt⟩
    split at hds
    · exact .inr (congrArg _ hds)
    · exact .inl hds
  · rintro ⟨⟨ds, hd, hne, hn⟩, hlt⟩
    refine ⟨⟨ds, ?_, hne, hn⟩, hlt⟩
    rcases hd with rfl | rfl
    · split
      · rename_i r hr
        have hplus : '+' ∈ ds.map HexDigit.char := hr ▸ List.mem_cons_self
        exact absurd hplus (not_mem_digits (by decide) ds)
      · rfl
    · rfl

theorem WritesCodePoint.not_mem_close {d : List Char} {n : Nat} (h : WritesCodePoint d n) :
    '}' ∉ d := by
  obtain ⟨⟨ds, rfl | rfl, -, -⟩, -⟩ := h
  · exact not_mem_digits (by decide) ds
  · rw [List.mem_cons, not_or]
    exact ⟨by decide, not_mem_digits (by decide) ds⟩

/-- A text is cut at its first brace in one way only. -/
theorem eq_of_append_close {d d' u r : List Char} (hd : '}' ∉ d) (hd' : '}' ∉ d')
    (h : d ++ '}' :: u = d' ++ '}' :: r) : d = d' ∧ u = r := by
  induction d generalizing d' with
  | nil =>
      cases d' with
      | nil => exact ⟨rfl, (List.cons.inj h).2⟩
      | cons y d' => exact absurd ((List.cons.inj h).1 ▸ List.mem_cons_self) hd'
  | cons x d ih =>
      cases d' with
      | nil => exact absurd ((List.cons.inj h).1 ▸ List.mem_cons_self) hd
      | cons y d' =>
          obtain ⟨rfl, htail⟩ := List.cons.inj h
          obtain ⟨rfl, hur⟩ := ih (fun hm => hd (List.mem_cons_of_mem _ hm))
            (fun hm => hd' (List.mem_cons_of_mem _ hm)) htail
          exact ⟨rfl, hur⟩

/-- In braces a numeral is told by the text up to the first closing one. -/
theorem numeral_braces_iff {d u r : List Char} {p : Piece} (hd : '}' ∉ d) :
    Numeral .codePoint ('{' :: (d ++ '}' :: u)) p r ↔
      r = u ∧ ∃ n, WritesCodePoint d n ∧ p = .char (scalar n) := by
  constructor
  · intro h
    generalize hs : '{' :: (d ++ '}' :: u) = s at h
    cases h with
    | unit ds hlen r =>
        obtain ⟨x, ds, rfl⟩ := List.exists_cons_of_length_eq_add_one hlen
        have hbrace : '{' ∈ (x :: ds).map HexDigit.char :=
          (List.cons.inj hs).1 ▸ List.mem_cons_self
        exact absurd hbrace (not_mem_digits (by decide) _)
    | @braces d' n hd' r =>
        obtain ⟨rfl, rfl⟩ := eq_of_append_close hd hd'.not_mem_close (List.cons.inj hs).2
        exact ⟨rfl, n, hd', rfl⟩
  · rintro ⟨rfl, n, hn, rfl⟩
    exact .braces hn r

/-! ## Reading one escape -/

theorem numeral_iff_escape {l : NumberLetter} {s r : List Char} {p : Piece} :
    Numeral l s p r ↔ Escape (l.char :: s) p r := by
  constructor
  · intro h
    cases h with
    | byte ds hlen r =>
        have hne : ds ≠ [] := List.ne_nil_of_length_eq_add_one hlen
        exact .byte ((List.length_map _).trans hlen) (HexDigit.hexNumber?_digits hne)
    | unit ds hlen r =>
        have hne : ds ≠ [] := List.ne_nil_of_length_eq_add_one hlen
        exact .unit ((List.length_map _).trans hlen) (HexDigit.hexNumber?_digits hne)
    | braces hd r => exact .codePoint hd.not_mem_close (codePoint?_eq_some_iff.mpr hd)
  · intro h
    generalize hc : l.char :: s = t at h
    cases h with
    | byte hlen hn =>
        obtain ⟨hletter, rfl⟩ := List.cons.inj hc
        obtain ⟨ds, rfl, -, rfl⟩ := exists_digits hn
        cases l with
        | byte => exact .byte ds ((List.length_map _).symm.trans hlen) r
        | codePoint => cases hletter
    | unit hlen hn =>
        obtain ⟨hletter, rfl⟩ := List.cons.inj hc
        obtain ⟨ds, rfl, -, rfl⟩ := exists_digits hn
        cases l with
        | byte => cases hletter
        | codePoint => exact .unit ds ((List.length_map _).symm.trans hlen) r
    | codePoint hclose hn =>
        obtain ⟨hletter, rfl⟩ := List.cons.inj hc
        cases l with
        | byte => cases hletter
        | codePoint => exact .braces (codePoint?_eq_some_iff.mp hn) r
    | short h =>
        obtain ⟨rfl, -⟩ := List.cons.inj hc
        cases l <;> cases h
    | continuation h =>
        obtain ⟨rfl, -⟩ := List.cons.inj hc
        cases l <;> exact absurd h (by decide)
    | carriageReturn => cases l <;> cases (List.cons.inj hc).1
    | carriageReturnFeed => cases l <;> cases (List.cons.inj hc).1
    | itself _ hspecial =>
        obtain ⟨rfl, -⟩ := List.cons.inj hc
        cases l <;> cases hspecial

/-- An escape without its numeral fails where the numeral is looked for. -/
theorem rest_of_readEscape {l : NumberLetter} {s : List Char} {f : Failure}
    (h : readEscape l.char s = .error f) : f.rest = l.place s := by
  cases l with
  | byte =>
      change readEscape 'x' s = .error f at h
      unfold readEscape at h
      rw [if_pos rfl] at h
      split at h
      · cases h
      · rename_i hread
        cases h
        exact rest_of_readDigits hread
  | codePoint =>
      change readUnicode s = .error f at h
      unfold readUnicode at h
      split at h
      · split at h
        · cases h
          rfl
        · dsimp only at h
          split at h
          · cases h
          · cases h
            rfl
      · rename_i hbrace
        split at h
        · cases h
        · rename_i hread
          cases h
          rw [rest_of_readDigits hread]
          cases s with
          | nil => rfl
          | cons c s =>
              unfold NumberLetter.place
              split
              · rename_i he
                exact absurd he (hbrace _)
              · rfl

/-! ## Reading a literal -/

variable {q : Quote}

/-- Elements are read before what follows them. -/
theorem readPieces_chars (es : List (Element q)) (opening : List Char) {s : List Char}
    (hfeed : ∀ u, s ≠ '\n' :: u) :
    readPieces q.char opening (es.flatMap Element.chars ++ s) =
      (readPieces q.char opening s).map fun (ps, r) => (es.map Element.piece ++ ps, r) := by
  induction es with
  | nil =>
      rw [List.flatMap_nil, List.nil_append]
      cases readPieces q.char opening s <;> rfl
  | cons e es ih =>
      have hnext := ne_feed_of_chars es hfeed
      rw [List.flatMap_cons, List.append_assoc]
      rcases e.raw_or_escape hnext with ⟨c, hs, hpiece, hquote, hback, hline⟩ | ⟨t, hs, he⟩
      · rw [hs, readPieces_raw hquote hback hline, ih, List.map_cons, hpiece]
        cases readPieces q.char opening s <;> rfl
      · rw [hs, readPieces_escape he, ih, List.map_cons]
        cases readPieces q.char opening s <;> rfl

/-- A literal up to the letter of a numeric escape, and `s` behind it. -/
def opened (es : List (Element q)) (l : NumberLetter) (s : List Char) : List Char :=
  q.char :: (es.flatMap Element.chars ++ '\\' :: l.char :: s)

theorem readLiteral_opened (es : List (Element q)) (l : NumberLetter) (s : List Char) :
    readLiteral (opened es l s) =
      (readPieces q.char (opened es l s) ('\\' :: l.char :: s)).map fun (ps, r) =>
        (String.ofList (textOf (es.map Element.piece ++ ps)), r) := by
  have hquote : q.char = '"' ∨ q.char = '\'' := by cases q <;> decide
  have hfeed : ∀ u, '\\' :: l.char :: s ≠ '\n' :: u := fun u hu => by cases hu
  unfold readLiteral opened
  simp only [if_pos hquote, readPieces_chars es _ hfeed]
  cases readPieces q.char _ ('\\' :: l.char :: s) <;> rfl

/-- Where a numeral stands behind the letter the rest of the literal is read behind it. -/
theorem readLiteral_eq_ok_iff_numeral (es : List (Element q)) (l : NumberLetter)
    (s rest : List Char) :
    (∃ t, readLiteral (opened es l s) = .ok (t, rest)) ↔
      ∃ p r ps, Numeral l s p r ∧ Elements q.char r ps rest := by
  have hquote : q.char = '"' ∨ q.char = '\'' := by cases q <;> decide
  simp only [numeral_iff_escape]
  constructor
  · rintro ⟨t, ht⟩
    rw [readLiteral_opened] at ht
    cases hread : readPieces q.char (opened es l s) ('\\' :: l.char :: s) with
    | error f =>
        rw [hread] at ht
        cases ht
    | ok o =>
        obtain ⟨ps, r⟩ := o
        rw [hread] at ht
        cases ht
        generalize hu : '\\' :: l.char :: s = u at hread
        cases elements_of_readPieces hread with
        | close => exact absurd (List.cons.inj hu).1 (by cases q <;> decide)
        | raw hne hback => exact absurd (List.cons.inj hu).1.symm hback
        | escape he h =>
            obtain ⟨-, rfl⟩ := List.cons.inj hu
            exact ⟨_, _, _, he, h⟩
  · rintro ⟨p, r, ps, he, h⟩
    rw [readLiteral_opened, readPieces_of_elements hquote _ (.escape he h)]
    exact ⟨_, rfl⟩

/-- Where no numeral stands the literal fails at the place of the number. -/
theorem readLiteral_eq_error (es : List (Element q)) {l : NumberLetter} {s : List Char}
    (h : ∀ p r, ¬ Numeral l s p r) :
    ∃ fault, readLiteral (opened es l s) = .error ⟨fault, l.place s⟩ := by
  cases hread : readEscape l.char s with
  | ok o => exact absurd (numeral_iff_escape.mpr (escape_of_readEscape hread)) (h o.1 o.2)
  | error f =>
      refine ⟨f.fault, ?_⟩
      rw [readLiteral_opened, readPieces]
      split
      · rename_i hf
        rw [hread] at hf
        cases hf
        rw [← rest_of_readEscape hread]
        rfl
      · rename_i hp
        rw [hread] at hp
        cases hp

/-! ## Reading a source -/

/-- In the list behind `s` a literal is read at `t`. -/
inductive MeetsInList : List Char → List Char → Prop where
  | next {s : List Char} (h : ∀ r, afterTrivia s ≠ ']' :: r) : MeetsInList s (afterTrivia s)
  | later {s u v t : List Char} {x : String} (hx : readLiteral (afterTrivia s) = .ok (x, u))
      (hcomma : afterTrivia u = ',' :: v) (h : MeetsInList v t) : MeetsInList s t

/-- In the assignment whose beginning ends at `s` a literal is read at `t`. -/
inductive MeetsInAssignment : List Char → List Char → Prop where
  | unit (s : List Char) : MeetsInAssignment s (afterTrivia s)
  | list {s u v w x t : List Char} {unit : String}
      (hunit : readLiteral (afterTrivia s) = .ok (unit, u)) (hclose : readMark ']' u = .ok v)
      (hequals : readMark '=' v = .ok w) (hopen : readMark '[' w = .ok x) (h : MeetsInList x t) :
      MeetsInAssignment s t

/-- Among the statements from `s` on a literal is read at `t`. -/
inductive MeetsInStatements (strict : Bool) : List Char → List Char → Prop where
  | assignment {s u t : List Char}
      (hhead : Token.takeAll? assignmentHead (afterTrivia s) = some u)
      (h : MeetsInAssignment u t) : MeetsInStatements strict s t
  | afterAssignment {s u v t : List Char} {a : Assignment}
      (hhead : Token.takeAll? assignmentHead (afterTrivia s) = some u)
      (ha : readAssignment u = .ok (a, v)) (h : MeetsInStatements strict v t) :
      MeetsInStatements strict s t
  | afterUnknown {s u t : List Char} {c : Char} (hlenient : strict = false)
      (hs : afterTrivia s = c :: u) (hnone : Token.takeAll? assignmentHead (c :: u) = none)
      (hend : endsTable (c :: u) = false)
      (h : MeetsInStatements strict (afterStatement (c :: u)) t) : MeetsInStatements strict s t

/-- Reading the source comes to a literal at `t`. -/
inductive Meets (strict : Bool) (source t : List Char) : Prop where
  | declared {u : List Char} (hdecl : Declared source u)
      (h : MeetsInStatements strict (afterSemicolon u) t)
  | undeclared {u : List Char} (hlenient : strict = false)
      (hu : afterTrivia ((Token.takeAll? wrapperHead (afterTrivia source)).getD
        (afterTrivia source)) = u)
      (hnone : Token.takeAll? declaration u = none) (h : MeetsInStatements strict u t)

variable {f : Failure} {s t : List Char} {strict : Bool}

theorem MeetsInList.readList_eq (h : MeetsInList s t) (hf : readLiteral t = .error f) :
    readList s = .error f := by
  induction h with
  | next h => exact readList_of_literal_error h hf
  | later hx hcomma _ ih =>
      rw [readList_more rfl (readLiteral_eq_ok_iff.mp hx) hcomma, ih hf]
      rfl

theorem MeetsInAssignment.readAssignment_eq (h : MeetsInAssignment s t)
    (hf : readLiteral t = .error f) : readAssignment s = .error f := by
  cases h with
  | unit => exact bind_eq_error.mpr (.inl hf)
  | list hunit hclose hequals hopen h =>
      refine bind_eq_error.mpr (.inr ⟨_, hunit, ?_⟩)
      refine bind_eq_error.mpr (.inr ⟨_, hclose, ?_⟩)
      refine bind_eq_error.mpr (.inr ⟨_, hequals, ?_⟩)
      refine bind_eq_error.mpr (.inr ⟨_, hopen, ?_⟩)
      exact bind_eq_error.mpr (.inl (h.readList_eq hf))

theorem MeetsInStatements.readAssignments_eq (h : MeetsInStatements strict s t)
    (hf : readLiteral t = .error f) : readAssignments strict s = .error f := by
  induction h with
  | assignment hhead h =>
      rw [readAssignments_of_head rfl hhead, h.readAssignment_eq hf]
      rfl
  | afterAssignment hhead ha _ ih =>
      rw [readAssignments_of_head rfl hhead, ha]
      exact bind_eq_error.mpr (.inr ⟨_, rfl, bind_eq_error.mpr (.inl (ih hf))⟩)
  | afterUnknown hlenient hs hnone hend _ ih =>
      rw [readAssignments_of_unknown strict hs hnone hend, hlenient, if_neg Bool.false_ne_true,
        ← hlenient]
      exact ih hf

/-- A literal that cannot be read ends the reading of its source. -/
theorem Meets.readScript_eq (h : Meets strict s t) (hf : readLiteral t = .error f) :
    readScript strict s = .error f := by
  cases h with
  | declared hdecl h =>
      rw [readScript_of_declared hdecl]
      exact h.readAssignments_eq hf
  | undeclared hlenient hu hnone h =>
      unfold readScript
      simp only [hu, hnone, hlenient, if_neg Bool.false_ne_true]
      exact hlenient ▸ h.readAssignments_eq hf

/-- The error of a source is told at the place at which its literal fails. -/
theorem Meets.read_eq {source : String} {fault : Fault} {rest : List Char}
    (h : Meets strict source.toList t) (hf : readLiteral t = .error ⟨fault, rest⟩) :
    ∃ e o, read strict source = .error e ∧ e.fault = fault ∧
      e.position.IsAt source.toList o ∧ source.toList.drop o = rest := by
  have hread := h.readScript_eq hf
  have hrest := List.suffix_iff_eq_drop.mp (reports_of_readScript hread).suffix
  refine ⟨⟨.ofRest source.toList rest, fault⟩, _, ?_, rfl, Position.isAt_ofRest _ _, hrest.symm⟩
  unfold read
  rw [hread]
  rfl

/-- A numeric escape among well-formed elements is accepted exactly where a numeral
stands behind its letter, and takes that numeral and nothing more. In braces this
is a number of 32 bits, with a plus sign before it or not, up to the first closing
brace. Everywhere else the literal, and every source whose reading comes to it,
fails at the first character behind the letter, or behind the opening brace,
whatever follows there. -/
theorem readLiteral_numeral_iff (es : List (Element q)) (l : NumberLetter) (s : List Char) :
    (∀ p r, readEscape l.char s = .ok (p, r) ↔ Numeral l s p r) ∧
      (∀ rest, (∃ t, readLiteral (opened es l s) = .ok (t, rest)) ↔
        ∃ p r ps, Numeral l s p r ∧ Elements q.char r ps rest) ∧
      (∀ d u, '}' ∉ d → l = .codePoint → s = '{' :: (d ++ '}' :: u) → ∀ p r,
        Numeral l s p r ↔ r = u ∧ ∃ n, WritesCodePoint d n ∧ p = .char (scalar n)) ∧
      ((∀ p r, ¬ Numeral l s p r) → ∃ fault,
        readLiteral (opened es l s) = .error ⟨fault, l.place s⟩ ∧
        ∀ strict source, Meets strict source.toList (opened es l s) →
          ∃ e o, read strict source = .error e ∧ e.fault = fault ∧
            e.position.IsAt source.toList o ∧ source.toList.drop o = l.place s) := by
  refine ⟨fun p r => ?_, readLiteral_eq_ok_iff_numeral es l s, ?_, fun hnone => ?_⟩
  · rw [numeral_iff_escape, readEscape_eq_ok_iff]
  · rintro d u hd rfl rfl p r
    exact numeral_braces_iff hd
  · obtain ⟨fault, hf⟩ := readLiteral_eq_error es hnone
    exact ⟨fault, hf, fun strict source hmeets => hmeets.read_eq hf⟩

/-- A brace that is closed only behind the closing quote and the next line end: the
error lies behind the opening brace. -/
theorem readLiteral_numeral_iff_open_brace :
    let source := "implementors['k'] = ['a\\u\x7b12',\n'b\x7d'];"
    let behind := "\x7b12',\n'b\x7d'];".toList
    let es : List (Element .single) := [.plain (.raw 'a' (by decide) (by decide) (by decide))]
    Meets false source.toList (opened es .codePoint behind) ∧
      (∀ p r, ¬ Numeral .codePoint behind p r) ∧
      ∃ fault e o, readLiteral (opened es .codePoint behind) =
          .error ⟨fault, "12',\n'b\x7d'];".toList⟩ ∧
        read false source = .error e ∧ e.fault = fault ∧
        e.position.IsAt source.toList o ∧ source.toList.drop o = "12',\n'b\x7d'];".toList := by
  intro source behind es
  obtain ⟨-, -, hbraces, herror⟩ := readLiteral_numeral_iff es .codePoint behind
  have hnone : ∀ p r, ¬ Numeral .codePoint behind p r := by
    intro p r hp
    obtain ⟨-, n, hn, -⟩ := (hbraces "12',\n'b".toList "'];".toList (by decide) rfl rfl p r).mp hp
    have hvalue := codePoint?_eq_some_iff.mpr hn
    exact absurd hvalue (by rw [show codePoint? "12',\n'b".toList = none by decide]; simp)
  have hmeets : Meets false source.toList (opened es .codePoint behind) := by
    have hbegin : afterTrivia ((Token.takeAll? wrapperHead (afterTrivia source.toList)).getD
        (afterTrivia source.toList)) = source.toList := by decide +kernel
    have hhead : Token.takeAll? assignmentHead (afterTrivia source.toList) =
        some ("'k'] = [".toList ++ opened es .codePoint behind) := by decide +kernel
    have hunit : readLiteral (afterTrivia ("'k'] = [".toList ++ opened es .codePoint behind)) =
        .ok ("k", "] = [".toList ++ opened es .codePoint behind) := by decide +kernel
    have hclose : readMark ']' ("] = [".toList ++ opened es .codePoint behind) =
        .ok (" = [".toList ++ opened es .codePoint behind) := by decide +kernel
    have hequals : readMark '=' (" = [".toList ++ opened es .codePoint behind) =
        .ok (" [".toList ++ opened es .codePoint behind) := by decide +kernel
    have hopen : readMark '[' (" [".toList ++ opened es .codePoint behind) =
        .ok (opened es .codePoint behind) := by decide +kernel
    have hitem : ∀ r, afterTrivia (opened es .codePoint behind) ≠ ']' :: r := fun r hr => by
      cases hr
    exact .undeclared rfl hbegin (by decide +kernel)
      (.assignment hhead (.list hunit hclose hequals hopen (.next hitem)))
  obtain ⟨fault, hf, hsource⟩ := herror hnone
  obtain ⟨e, o, he⟩ := hsource false source hmeets
  exact ⟨hmeets, hnone, fault, e, o, hf, he⟩

/-- A plus sign is no digit, and is accepted. -/
theorem signed_codePoint_accepted :
    '}' ∉ ['+', '4', '1'] ∧ (∀ ds : List HexDigit, ['+', '4', '1'] ≠ ds.map HexDigit.char) ∧
      readLiteral (opened ([] : List (Element .double)) .codePoint "\x7b+41\x7d\"".toList) =
        .ok ("A", []) ∧
      read false "implementors[\"k\"] = [\"\\u\x7b+41\x7d\"];" =
        .ok (.ofList [("k", [⟨"A"⟩])]) := by
  refine ⟨by decide, fun ds hds => ?_, by decide +kernel, by decide +kernel⟩
  have hplus : '+' ∈ ds.map HexDigit.char := hds ▸ List.mem_cons_self
  exact not_mem_digits (by decide) ds hplus

end Crossref.Script
