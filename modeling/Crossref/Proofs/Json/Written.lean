import Crossref.Json.Writer
import Crossref.Page.Load
import Crossref.Proofs.Json.Text
import Crossref.Proofs.Registry.Accumulation
import Crossref.Proofs.Text.Utf16

/-!
# What is written is read

The written form of an index is a JSON table, and reading it gives the index
back (`read_write`). The proof follows the writer from the inside out. What is
written for a text is a string of the grammar (`chars_flatMap_writeChar`); each
larger part is read up to its own closing character, whatever stands behind it.
A fresh registry that merges what was read holds the index that was written.
-/

namespace Crossref.Json

open Text (scalar scalar_toNat isHighSurrogate isLowSurrogate hexNumber?_digitChars)

/-! ## Texts -/

theorem shortEscape?_of_shortLetter? {c x : Char} (h : shortLetter? c = some x) :
    shortEscape? x = some c := by
  unfold shortLetter? at h
  split at h
  case h_6 => cases h
  all_goals
    cases h
    rfl

/-- One more character in front of what is written. -/
theorem Chars.writeChar {u t : List Char} (c : Char) (h : Chars u t) :
    Chars (writeChar c ++ u) (c :: t) := by
  unfold Json.writeChar
  by_cases hself : c = '"' ∨ c = '\\'
  · rw [if_pos hself]
    rcases hself with rfl | rfl
    · exact .short rfl h
    · exact .short rfl h
  · rw [if_neg hself]
    obtain ⟨hquote, hback⟩ := not_or.mp hself
    by_cases hctrl : c < ' '
    · rw [if_pos hctrl]
      cases hx : shortLetter? c with
      | some x => exact .short (shortEscape?_of_shortLetter? hx) h
      | none =>
          have hlt : c.toNat < 32 := hctrl
          have hnumber := hexNumber?_digitChars (n := c.toNat) (by omega)
          have hlow : isLowSurrogate c.toNat = false := by
            simp only [isLowSurrogate, decide_eq_false_iff_not]
            omega
          have hhigh : isHighSurrogate c.toNat = false := by
            simp only [isHighSurrogate, decide_eq_false_iff_not]
            omega
          have hunit := Chars.unit rfl hnumber hlow hhigh h
          rw [scalar_toNat] at hunit
          exact hunit
    · rw [if_neg hctrl]
      exact .raw hquote hback hctrl h

/-- Between its quotes, a written text is a string of the grammar. -/
theorem chars_flatMap_writeChar (t : List Char) : Chars (t.flatMap writeChar) t := by
  induction t with
  | nil => exact .nil
  | cons c t ih =>
      rw [List.flatMap_cons]
      exact ih.writeChar c

theorem readText_written (t r : List Char) :
    readText (t.flatMap writeChar ++ '"' :: r) = .ok (t, r) :=
  readText_of_chars (chars_flatMap_writeChar t) r

theorem writeText_append (t r : List Char) :
    writeText t ++ r = '"' :: (t.flatMap writeChar ++ '"' :: r) := by
  simp [writeText]

theorem readString_writeText (s : String) (r : List Char) :
    readString (writeText s.toList ++ r) = .ok (s, r) := by
  rw [writeText_append, readString, readText_written]
  simp only [String.ofList_toList]

/-! ## Commas and closing brackets -/

theorem afterSpace_of_not {c : Char} (h : isSpace c = false) (s : List Char) :
    afterSpace (c :: s) = c :: s :=
  List.dropWhile_cons_of_neg (by simp [h])

theorem readLink_close {close : Char} (h : isSpace close = false) (r : List Char) :
    readLink close (close :: r) = .ok (.close r) := by
  unfold readLink
  simp only [afterSpace_of_not h, if_pos]

theorem readLink_comma {close c : Char} (hcomma : ',' ≠ close) (hc : isSpace c = false)
    (hne : c ≠ close) (r : List Char) :
    readLink close (',' :: c :: r) = .ok (.more (c :: r)) := by
  have hspace : isSpace ',' = false := by decide
  unfold readLink
  simp only [afterSpace_of_not hspace, afterSpace_of_not hc, if_neg hcomma, if_neg hne, if_pos]

/-! ## Items between commas

Elements and members are read alike: an item in front of the closing bracket is
the last one, and a comma leads to the next item. -/

theorem writeSeparated_cons (x y : List Char) (items : List (List Char)) :
    writeSeparated (x :: y :: items) = x ++ ',' :: writeSeparated (y :: items) := by
  simp [writeSeparated, List.intercalate_cons_cons]

/-- Items that are in quotes begin with one. -/
theorem writeSeparated_eq_cons {β : Type} {write : β → List Char}
    (hquote : ∀ x, ∃ u, write x = '"' :: u) (x : β) (xs : List β) :
    ∃ v, writeSeparated ((x :: xs).map write) = '"' :: v := by
  obtain ⟨u, hu⟩ := hquote x
  cases xs with
  | nil => exact ⟨u, by simp [writeSeparated, hu]⟩
  | cons y ys => exact ⟨_, by rw [List.map_cons, List.map_cons, writeSeparated_cons, hu]; rfl⟩

/-- A reader that takes the last item and one more item reads all of them. -/
theorem read_writeSeparated {β : Type} {write : β → List Char} {close : Char}
    {reader : List Char → Reading (List β)} (hquote : ∀ x, ∃ u, write x = '"' :: u)
    (hlast : ∀ x r, reader (write x ++ close :: r) = .ok ([x], r))
    (hmore : ∀ x s xs r, reader ('"' :: s) = .ok (xs, r) →
      reader (write x ++ ',' :: '"' :: s) = .ok (x :: xs, r))
    (x : β) (xs : List β) (r : List Char) :
    reader (writeSeparated ((x :: xs).map write) ++ close :: r) = .ok (x :: xs, r) := by
  induction xs generalizing x with
  | nil =>
      have hone : writeSeparated ([x].map write) = write x := by simp [writeSeparated]
      rw [hone]
      exact hlast x r
  | cons y ys ih =>
      obtain ⟨v, hv⟩ := writeSeparated_eq_cons hquote y ys
      have hsplit : writeSeparated ((x :: y :: ys).map write) ++ close :: r =
          write x ++ ',' :: '"' :: (v ++ close :: r) := by
        rw [List.map_cons, List.map_cons, writeSeparated_cons, ← List.map_cons, hv]
        simp
      have hys := ih y
      rw [hv] at hys
      rw [hsplit]
      exact hmore x _ _ r hys

/-! ## Lists -/

theorem readElements_last {s v r : List Char} {x : String} (hx : readString s = .ok (x, v))
    (hk : readLink ']' v = .ok (.close r)) : readElements s = .ok ([⟨x⟩], r) := by
  grind [readElements]

theorem readElements_more {s v w r : List Char} {x : String} {xs : List Markup}
    (hx : readString s = .ok (x, v)) (hk : readLink ']' v = .ok (.more w))
    (hxs : readElements w = .ok (xs, r)) : readElements s = .ok (⟨x⟩ :: xs, r) := by
  grind [readElements]

/-- The written form of one element of a list. -/
def writeElement (m : Markup) : List Char := writeText m.source.toList

theorem writeList_eq (list : List Markup) :
    writeList list = '[' :: writeSeparated (list.map writeElement) ++ [']'] := rfl

theorem writeElement_quoted (m : Markup) : ∃ u, writeElement m = '"' :: u := ⟨_, rfl⟩

theorem readElements_written (x : Markup) (xs : List Markup) (r : List Char) :
    readElements (writeSeparated ((x :: xs).map writeElement) ++ ']' :: r) = .ok (x :: xs, r) := by
  refine read_writeSeparated writeElement_quoted (fun x r => ?_) (fun x s xs r hxs => ?_) x xs r
  · exact readElements_last (readString_writeText _ _) (readLink_close (by decide) r)
  · have hlink : readLink ']' (',' :: '"' :: s) = .ok (.more ('"' :: s)) :=
      readLink_comma (by decide) (by decide) (by decide) s
    exact readElements_more (readString_writeText _ _) hlink hxs

theorem readList_writeList (list : List Markup) (r : List Char) :
    readList (writeList list ++ r) = .ok (list, r) := by
  cases list with
  | nil =>
      have hempty : writeList [] ++ r = '[' :: ']' :: r := by simp [writeList, writeSeparated]
      have hspace : afterSpace (']' :: r) = ']' :: r := afterSpace_of_not (by decide) r
      simp only [hempty, readList, hspace]
  | cons x xs =>
      obtain ⟨v, hv⟩ := writeSeparated_eq_cons writeElement_quoted x xs
      have hlist : writeList (x :: xs) ++ r = '[' :: '"' :: (v ++ ']' :: r) := by
        rw [writeList_eq, hv]
        simp
      have hspace : afterSpace ('"' :: (v ++ ']' :: r)) = '"' :: (v ++ ']' :: r) :=
        afterSpace_of_not (by decide) _
      have hread := readElements_written x xs r
      rw [hv] at hread
      rw [hlist, readList, hspace]
      exact hread

/-! ## Members -/

theorem writeMember_append (m : String × List Markup) (r : List Char) :
    writeMember m ++ r =
      '"' :: (m.1.toList.flatMap writeChar ++ '"' :: ':' :: (writeList m.2 ++ r)) := by
  rw [writeMember, List.append_assoc, writeText_append]
  rfl

theorem writeMember_quoted (m : String × List Markup) : ∃ u, writeMember m = '"' :: u := ⟨_, rfl⟩

theorem readMember_writeMember (m : String × List Markup) (r : List Char) :
    readMember (writeMember m ++ r) = .ok (m, r) := by
  have hcolon : isSpace ':' = false := by decide
  have hlist : afterSpace (writeList m.2 ++ r) = writeList m.2 ++ r :=
    afterSpace_of_not (by decide) _
  rw [writeMember_append, readMember]
  simp only [readText_written, afterSpace_of_not hcolon, hlist, readList_writeList,
    String.ofList_toList]

theorem readMembers_last {s v r : List Char} {m : String × List Markup}
    (hm : readMember s = .ok (m, v)) (hk : readLink '\x7d' v = .ok (.close r)) :
    readMembers s = .ok ([m], r) := by
  grind [readMembers]

theorem readMembers_more {s v w r : List Char} {m : String × List Markup}
    {ms : List (String × List Markup)} (hm : readMember s = .ok (m, v))
    (hk : readLink '\x7d' v = .ok (.more w)) (hms : readMembers w = .ok (ms, r)) :
    readMembers s = .ok (m :: ms, r) := by
  grind [readMembers]

theorem readMembers_written (m : String × List Markup) (ms : List (String × List Markup))
    (r : List Char) :
    readMembers (writeSeparated ((m :: ms).map writeMember) ++ '\x7d' :: r) = .ok (m :: ms, r) := by
  refine read_writeSeparated writeMember_quoted (fun m r => ?_) (fun m s ms r hms => ?_) m ms r
  · exact readMembers_last (readMember_writeMember m _) (readLink_close (by decide) r)
  · have hlink : readLink '\x7d' (',' :: '"' :: s) = .ok (.more ('"' :: s)) :=
      readLink_comma (by decide) (by decide) (by decide) s
    exact readMembers_more (readMember_writeMember m _) hlink hms

/-! ## The whole index -/

/-- The written object of members in their order. -/
def writeObject (ms : List (String × List Markup)) : List Char :=
  '\x7b' :: writeSeparated (ms.map writeMember) ++ ['\x7d']

theorem readObject_writeObject (ms : List (String × List Markup)) :
    readObject (writeObject ms) = .ok (ms, []) := by
  cases ms with
  | nil => decide
  | cons m ms =>
      obtain ⟨v, hv⟩ := writeSeparated_eq_cons writeMember_quoted m ms
      have hobject : writeObject (m :: ms) = '\x7b' :: '"' :: (v ++ ['\x7d']) := by
        rw [writeObject, hv]
        rfl
      have hspace : afterSpace ('"' :: (v ++ ['\x7d'])) = '"' :: (v ++ ['\x7d']) :=
        afterSpace_of_not (by decide) _
      have hread := readMembers_written m ms []
      rw [hv] at hread
      rw [hobject, readObject, hspace]
      exact hread

theorem readTable_writeObject (ms : List (String × List Markup)) :
    readTable (writeObject ms) = .ok ms := by
  have hspace : afterSpace (writeObject ms) = writeObject ms := afterSpace_of_not (by decide) _
  rw [readTable, hspace, readObject_writeObject]
  rfl

theorem read_write (index : Index Markup) : read (write index) = .ok index := by
  have htext : (write index).toList = writeObject index.entries := String.toList_ofList
  rw [read, htext, readTable_writeObject]
  exact congrArg Except.ok index.ofList_entries

/-- A saved index loads as itself, whatever its units and descriptors hold, and
a fresh registry that merges it once then holds it: the same units in the same
order, with the same lists. The index that a run of calls leaves in a registry
and the table of one page are both such indexes. -/
theorem saved_index_reloads (load : LoadSettings) (settings : RegistrySettings) (label : String)
    (index : Index Markup) :
    let text := write index
    read text = .ok index ∧
      tableOf load .json text = .ok index ∧
      ((Registry.fresh settings label).merge index).registry.index = index := by
  intro text
  have hread : read text = .ok index := read_write index
  refine ⟨hread, ?_, ?_⟩
  · rw [tableOf, hread]
    rfl
  · have hmerge := Registry.index_step (Registry.fresh settings label) (.merge index)
    exact hmerge.trans index.ofList_entries

end Crossref.Json
