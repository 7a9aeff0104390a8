import Crossref.Json.Reader
import Crossref.Script.Token
import Crossref.Proofs.Json.Text
import Crossref.Proofs.Script.Grammar
import Crossref.Proofs.Text.Utf16

/-!
# JSON tables as page scripts

A JSON table can be copied into a page script from left to right: each member
becomes an assignment, its strings become literals as they stand, and all white
space stays where it is. `script_read_transcript` is the main statement: the
script of a JSON table is read in both modes, as the same table.

The proof follows the JSON readers. What they accept is copied into the
corresponding part of the script grammar, strings first (`Chars.literal`), then
lists, members and the whole object.
-/

namespace Crossref.Json

open Script (Assignment AssignmentText Elements Escape Items Literal Page Semicolon Sequence
  Statements Token Trivia tableName declaration)
open Text (Piece scalar textOf textOf_unit textOf_pair isHighSurrogate isLowSurrogate pairCode
  hexNumber? hexValue? isBlank isSome_hexValue?_of_hexNumber?)

/-! ## Copying -/

/-- Where copying stands: among the members of the object, in a list, or in a
string. Strings belong to a list or name a member, and a character in them may
stand behind a backslash. -/
inductive Place where
  | object
  | list
  | string (inList escaped : Bool)
deriving Repr, DecidableEq

/-- What a character is copied as, and where copying stands behind it. The
braces and commas of the object are left out. -/
def Place.step : Place → Char → Place × List Char
  | .object, '"' => (.string false false, tableName ++ ['[', '"'])
  | .object, ':' => (.object, [' ', '='])
  | .object, '[' => (.list, ['['])
  | .object, c => (.object, if isSpace c then [c] else [])
  | .list, '"' => (.string true false, ['"'])
  | .list, ']' => (.object, [']', ';'])
  | .list, c => (.list, [c])
  | .string inList true, c => (.string inList false, [c])
  | .string inList false, '\\' => (.string inList true, ['\\'])
  | .string true false, '"' => (.list, ['"'])
  | .string false false, '"' => (.object, ['"', ']'])
  | .string inList false, c => (.string inList false, [c])

def Place.copy : Place → List Char → List Char
  | _, [] => []
  | p, c :: s => (p.step c).2 ++ (p.step c).1.copy s

/-- The declaration of an empty table: `var implementors = {};`. -/
def prelude : List Char :=
  'v' :: 'a' :: 'r' :: ' ' :: (tableName ++ [' ', '=', ' ', '{', '}', ';'])

/-- The page script of a JSON table: an empty table is declared, and each member
`"k": [...]` becomes an assignment `implementors["k"] = [...];`. -/
def transcript (source : String) : String :=
  String.ofList (prelude ++ Place.object.copy source.toList)

/-! ## Copying spaces and strings -/

theorem isSpace_iff {c : Char} :
    isSpace c = true ↔ c = ' ' ∨ c = '\t' ∨ c = '\n' ∨ c = '\r' := by
  simp only [isSpace, Bool.or_eq_true, beq_iff_eq, or_assoc]

theorem isBlank_of_isSpace {c : Char} (h : isSpace c = true) : isBlank c = true := by
  rcases isSpace_iff.mp h with rfl | rfl | rfl | rfl <;> decide

theorem trivia_of_spaces {w : List Char} (hw : ∀ c ∈ w, isSpace c = true) (r : List Char) :
    Trivia (w ++ r) r := by
  induction w with
  | nil => exact .none r
  | cons c w ih =>
      exact .blank (isBlank_of_isSpace (hw c List.mem_cons_self))
        (ih fun d hd => hw d (List.mem_cons_of_mem c hd))

theorem copy_spaces {p : Place} (hp : p = .object ∨ p = .list) {w : List Char}
    (hw : ∀ c ∈ w, isSpace c = true) (s : List Char) : p.copy (w ++ s) = w ++ p.copy s := by
  induction w with
  | nil => rfl
  | cons c w ih =>
      have hstep : p.step c = (p, [c]) := by
        rcases hp with rfl | rfl <;>
          rcases isSpace_iff.mp (hw c List.mem_cons_self) with rfl | rfl | rfl | rfl <;> rfl
      rw [List.cons_append, Place.copy, hstep, ih fun d hd => hw d (List.mem_cons_of_mem c hd)]
      rfl

theorem step_string {c : Char} (hquote : c ≠ '"') (hback : c ≠ '\\') (inList : Bool) :
    (Place.string inList false).step c = (.string inList false, [c]) := by
  unfold Place.step
  split <;> simp_all

theorem copy_plain {u : List Char} (hu : ∀ c ∈ u, c ≠ '"' ∧ c ≠ '\\') (inList : Bool)
    (s : List Char) :
    (Place.string inList false).copy (u ++ s) = u ++ (Place.string inList false).copy s := by
  induction u with
  | nil => rfl
  | cons c u ih =>
      have hc := hu c List.mem_cons_self
      rw [List.cons_append, Place.copy, step_string hc.1 hc.2,
        ih fun d hd => hu d (List.mem_cons_of_mem c hd)]
      rfl

theorem copy_escaped (c : Char) (inList : Bool) (s : List Char) :
    (Place.string inList false).copy ('\\' :: c :: s) =
      '\\' :: c :: (Place.string inList false).copy s := by
  cases inList <;> rfl

theorem plain_of_hexNumber? {ds : List Char} {n : Nat} (h : hexNumber? ds = some n) :
    ∀ c ∈ ds, c ≠ '"' ∧ c ≠ '\\' := by
  intro c hc
  have hdigit := isSome_hexValue?_of_hexNumber? h c hc
  constructor
  · rintro rfl
    revert hdigit
    decide
  · rintro rfl
    revert hdigit
    decide

/-- The characters of a string are copied as they stand. -/
theorem Chars.copy {u t : List Char} (h : Chars u t) (inList : Bool) (s : List Char) :
    (Place.string inList false).copy (u ++ s) = u ++ (Place.string inList false).copy s := by
  induction h with
  | nil => rfl
  | @raw c _ _ hquote hback _ _ ih =>
      rw [List.cons_append, Place.copy, step_string hquote hback, ih]
      rfl
  | short _ _ ih => rw [List.cons_append, List.cons_append, copy_escaped, ih]; rfl
  | unit _ hn _ _ _ ih =>
      simp only [List.cons_append, List.append_assoc]
      rw [copy_escaped, copy_plain (plain_of_hexNumber? hn), ih]
  | pair _ hm _ hn _ _ _ ih =>
      simp only [List.cons_append, List.append_assoc]
      rw [copy_escaped, copy_plain (plain_of_hexNumber? hm), copy_escaped,
        copy_plain (plain_of_hexNumber? hn), ih]

/-! ## Strings as literals -/

theorem escape_of_shortEscape? {x c : Char} (h : shortEscape? x = some c) (r : List Char) :
    Escape (x :: r) (.char c) r := by
  unfold shortEscape? at h
  split at h
  case h_1 | h_2 | h_3 =>
    cases h
    exact .itself (by decide) (by decide)
  case h_9 => cases h
  all_goals
    cases h
    exact .short rfl

/-- The characters of a string are elements of a literal that denotes the same
text. -/
theorem Chars.elements {u t : List Char} (h : Chars u t) :
    ∃ ps, textOf ps = t ∧ ∀ r, Elements '"' (u ++ '"' :: r) ps r := by
  induction h with
  | nil => exact ⟨[], rfl, fun r => .close r⟩
  | @raw c _ _ hquote hback hctrl _ ih =>
      obtain ⟨ps, rfl, hps⟩ := ih
      have hfeed : c ≠ '\n' := fun he => hctrl (by rw [he]; decide)
      exact ⟨.char c :: ps, rfl, fun r => .raw hquote hback hfeed (hps r)⟩
  | @short x c _ _ hx _ ih =>
      obtain ⟨ps, rfl, hps⟩ := ih
      exact ⟨.char c :: ps, rfl, fun r => .escape (escape_of_shortEscape? hx _) (hps r)⟩
  | @unit ds _ _ n hlen hn _ hhigh _ ih =>
      obtain ⟨ps, rfl, hps⟩ := ih
      refine ⟨.unit n :: ps, textOf_unit hhigh ps, fun r => ?_⟩
      simp only [List.cons_append, List.append_assoc]
      exact .escape (.unit hlen hn) (hps r)
  | @pair ds es _ _ m n hds hm hes hn hhigh hlow _ ih =>
      obtain ⟨ps, rfl, hps⟩ := ih
      refine ⟨.unit m :: .unit n :: ps, textOf_pair hhigh hlow ps, fun r => ?_⟩
      simp only [List.cons_append, List.append_assoc]
      exact .escape (.unit hds hm) (.escape (.unit hes hn) (hps r))

theorem Chars.literal {u t : List Char} (h : Chars u t) (r : List Char) :
    Literal ('"' :: (u ++ '"' :: r)) (String.ofList t) r := by
  obtain ⟨ps, rfl, hps⟩ := h.elements
  exact .quoted (Or.inl rfl) (hps r)

/-! ## Spaces and links that are read -/

/-- What is skipped as space, as an equation. -/
theorem exists_spaces (s : List Char) :
    ∃ w, (∀ c ∈ w, isSpace c = true) ∧ s = w ++ afterSpace s :=
  ⟨s.takeWhile isSpace, fun _ hc => List.mem_takeWhile_imp hc,
    List.takeWhile_append_dropWhile.symm⟩

theorem readString_eq_ok {s r : List Char} {x : String} (h : readString s = .ok (x, r)) :
    ∃ u t, s = '"' :: (u ++ '"' :: r) ∧ Chars u t ∧ x = String.ofList t := by
  unfold readString at h
  split at h
  · split at h
    · cases h
    · rename_i hread
      cases h
      obtain ⟨u, rfl, hu⟩ := readText_eq_ok_iff.mp hread
      exact ⟨u, _, rfl, hu, rfl⟩
  · cases h

theorem readLink_eq_close {close : Char} {s r : List Char} (h : readLink close s = .ok (.close r)) :
    ∃ w, (∀ c ∈ w, isSpace c = true) ∧ s = w ++ close :: r := by
  obtain ⟨w, hw, hs⟩ := exists_spaces s
  unfold readLink at h
  split at h
  · cases h
  · rename_i c t ht
    rw [ht] at hs
    split at h
    · rename_i hc
      cases h
      exact ⟨w, hw, hc ▸ hs⟩
    · split at h
      · split at h
        · cases h
        · split at h <;> cases h
      · cases h

theorem readLink_eq_more {close : Char} {s r : List Char} (h : readLink close s = .ok (.more r)) :
    ∃ w v, (∀ c ∈ w, isSpace c = true) ∧ (∀ c ∈ v, isSpace c = true) ∧
      s = w ++ ',' :: (v ++ r) := by
  obtain ⟨w, hw, hs⟩ := exists_spaces s
  unfold readLink at h
  split at h
  · cases h
  · rename_i c t ht
    rw [ht] at hs
    split at h
    · cases h
    · split at h
      · rename_i hc
        obtain ⟨v, hv, ht⟩ := exists_spaces t
        split at h
        · cases h
        · rename_i d u hu
          split at h
          · cases h
          · cases h
            exact ⟨w, v, hw, hv, by rw [hs, hc, ← hu, ← ht]⟩
      · cases h

/-! ## Lists and members -/

theorem Chars.copy_item {u t : List Char} (h : Chars u t) (s : List Char) :
    Place.list.copy ('"' :: (u ++ '"' :: s)) = '"' :: (u ++ '"' :: Place.list.copy s) := by
  have hopen : Place.list.copy ('"' :: (u ++ '"' :: s)) =
      '"' :: (Place.string true false).copy (u ++ '"' :: s) := rfl
  rw [hopen, h.copy]
  rfl

theorem Chars.copy_name {u t : List Char} (h : Chars u t) (s : List Char) :
    Place.object.copy ('"' :: (u ++ '"' :: s)) =
      tableName ++ '[' :: '"' :: (u ++ '"' :: ']' :: Place.object.copy s) := by
  have hopen : Place.object.copy ('"' :: (u ++ '"' :: s)) =
      tableName ++ '[' :: '"' :: (Place.string false false).copy (u ++ '"' :: s) := rfl
  rw [hopen, h.copy]
  rfl

/-- The elements of a list become the descriptors of an assignment. -/
theorem items_of_readElements {s r : List Char} {xs : List Markup}
    (h : readElements s = .ok (xs, r)) :
    Items (Place.list.copy s) xs (';' :: Place.object.copy r) := by
  fun_induction readElements s generalizing xs r with
  | case1 => cases h
  | case2 => cases h
  | case3 s x u hx v hk =>
      cases h
      obtain ⟨c, t, rfl, hc, rfl⟩ := readString_eq_ok hx
      obtain ⟨w, hw, rfl⟩ := readLink_eq_close hk
      rw [hc.copy_item, copy_spaces (Or.inr rfl) hw]
      exact .last (.none _) (hc.literal _) (trivia_of_spaces hw _)
  | case4 => cases h
  | case5 s x u hx v hk ys rest hr ih =>
      cases h
      obtain ⟨c, t, rfl, hc, rfl⟩ := readString_eq_ok hx
      obtain ⟨w, w', hw, hw', rfl⟩ := readLink_eq_more hk
      have hcomma : Place.list.copy (',' :: (w' ++ v)) = ',' :: (w' ++ Place.list.copy v) := by
        rw [← copy_spaces (Or.inr rfl) hw']
        rfl
      rw [hc.copy_item, copy_spaces (Or.inr rfl) hw, hcomma]
      exact .more (.none _) (hc.literal _) (trivia_of_spaces hw _)
        ((ih hr).trivia (trivia_of_spaces hw' _))

theorem items_of_readList {s r : List Char} {xs : List Markup} (h : readList s = .ok (xs, r)) :
    ∃ u, s = '[' :: u ∧ Items (Place.list.copy u) xs (';' :: Place.object.copy r) := by
  unfold readList at h
  split at h
  · rename_i u
    refine ⟨u, rfl, ?_⟩
    obtain ⟨w, hw, hu⟩ := exists_spaces u
    rw [hu, copy_spaces (Or.inr rfl) hw]
    split at h
    · rename_i v hv
      cases h
      rw [hv]
      exact .close (trivia_of_spaces hw _)
    · exact (items_of_readElements h).trivia (trivia_of_spaces hw _)
  · cases h

/-- The assignment that a member becomes. -/
def assignmentOf (m : String × List Markup) : Assignment := ⟨m.1, m.2⟩

/-- A member becomes an assignment, with a semicolon behind it. -/
theorem assignmentText_of_readMember {s r : List Char} {m : String × List Markup}
    (h : readMember s = .ok (m, r)) :
    AssignmentText (Place.object.copy s) (assignmentOf m) (';' :: Place.object.copy r) := by
  unfold readMember at h
  split at h
  · rename_i s
    split at h
    · cases h
    · rename_i name v hname
      obtain ⟨u, rfl, hu⟩ := readText_eq_ok_iff.mp hname
      obtain ⟨w, hw, hv⟩ := exists_spaces v
      split at h
      · cases h
      · rename_i x hx
        rw [hx] at hv
        subst hv
        obtain ⟨w', hw', hx⟩ := exists_spaces x
        split at h
        · cases h
        · rename_i list y hlist
          cases h
          obtain ⟨z, hz, hitems⟩ := items_of_readList hlist
          rw [hz] at hx
          subst hx
          have hcolon : Place.object.copy (':' :: (w' ++ '[' :: z)) =
              ' ' :: '=' :: (w' ++ '[' :: Place.list.copy z) := by
            rw [← show Place.object.copy ('[' :: z) = '[' :: Place.list.copy z from rfl,
              ← copy_spaces (Or.inl rfl) hw']
            rfl
          have hequals (t : List Char) : Trivia (' ' :: '=' :: t) ('=' :: t) :=
            .blank (by decide) (.none _)
          rw [hu.copy_name, copy_spaces (Or.inl rfl) hw, hcolon]
          exact .mk (.more (.word (by decide)) (.none _) (.last rfl)) (.none _) (hu.literal _)
            (.none _) ((trivia_of_spaces hw _).trans (hequals _))
            (trivia_of_spaces hw' _) hitems
      · cases h
  · cases h

/-! ## The whole table -/

/-- The members of an object become assignments, before whatever statements the
text behind the object becomes. -/
theorem statements_of_readMembers {s r : List Char} {ms : List (String × List Markup)}
    (h : readMembers s = .ok (ms, r)) (hr : Statements (Place.object.copy r) []) :
    Statements (Place.object.copy s) (ms.map assignmentOf) := by
  fun_induction readMembers s generalizing ms r with
  | case1 => cases h
  | case2 => cases h
  | case3 s m u hm v hk =>
      cases h
      obtain ⟨w, hw, rfl⟩ := readLink_eq_close hk
      refine .assign (.none _) (assignmentText_of_readMember hm) (.present (.none _)) ?_
      rw [copy_spaces (Or.inl rfl) hw]
      exact hr.trivia (trivia_of_spaces hw _)
  | case4 => cases h
  | case5 s m u hm v hk ms rest hrest ih =>
      cases h
      obtain ⟨w, w', hw, hw', rfl⟩ := readLink_eq_more hk
      refine .assign (.none _) (assignmentText_of_readMember hm) (.present (.none _)) ?_
      have hcomma : Place.object.copy (',' :: (w' ++ v)) = w' ++ Place.object.copy v := by
        rw [← copy_spaces (Or.inl rfl) hw']
        rfl
      rw [copy_spaces (Or.inl rfl) hw, hcomma]
      exact ((ih hrest hr).trivia (trivia_of_spaces hw' _)).trivia (trivia_of_spaces hw _)

theorem statements_of_readObject {s r : List Char} {ms : List (String × List Markup)}
    (h : readObject s = .ok (ms, r)) (hr : Statements (Place.object.copy r) []) :
    Statements (Place.object.copy s) (ms.map assignmentOf) := by
  unfold readObject at h
  split at h
  · rename_i u
    obtain ⟨w, hw, hu⟩ := exists_spaces u
    have hbrace : Place.object.copy ('\x7b' :: u) = w ++ Place.object.copy (afterSpace u) := by
      rw [← copy_spaces (Or.inl rfl) hw, ← hu]
      rfl
    rw [hbrace]
    refine Statements.trivia (trivia_of_spaces hw _) ?_
    split at h
    · cases h
    · rename_i v hv
      cases h
      rw [hv]
      exact hr
    · exact statements_of_readMembers h hr
  · cases h

theorem statements_of_readTable {s : List Char} {ms : List (String × List Markup)}
    (h : readTable s = .ok ms) : Statements (Place.object.copy s) (ms.map assignmentOf) := by
  obtain ⟨w, hw, hs⟩ := exists_spaces s
  unfold readTable at h
  split at h
  · cases h
  · rename_i ms' r hobject
    split at h
    · rename_i hend
      cases h
      obtain ⟨v, hv, hr⟩ := exists_spaces r
      rw [List.isEmpty_iff.mp hend] at hr
      have hended : Statements (Place.object.copy r) [] := by
        rw [hr, copy_spaces (Or.inl rfl) hv]
        exact .ended (trivia_of_spaces hv _)
      rw [hs, copy_spaces (Or.inl rfl) hw]
      exact (statements_of_readObject hobject hended).trivia (trivia_of_spaces hw _)
    · cases h

theorem tabulate_map_assignmentOf (ms : List (String × List Markup)) :
    Script.tabulate (ms.map assignmentOf) = .ofList ms := by
  rw [Script.tabulate, List.map_map]
  exact congrArg Index.ofList (List.map_id ms)

/-- Statements behind the declaration make a page. -/
theorem page_of_statements {s : List Char} {as : List Assignment} (h : Statements s as) :
    Page (prelude ++ s) as := by
  have hspace (t : List Char) : Trivia (' ' :: t) t := .blank (by decide) (.none t)
  have hvar : (Token.word ['v', 'a', 'r']).Stands (prelude ++ s)
      (' ' :: (tableName ++ ' ' :: '=' :: ' ' :: '{' :: '}' :: ';' :: s)) := .word (by decide)
  have hname : (Token.word tableName).Stands
      (tableName ++ ' ' :: '=' :: ' ' :: '{' :: '}' :: ';' :: s)
      (' ' :: '=' :: ' ' :: '{' :: '}' :: ';' :: s) := .word (by decide)
  have hdecl : Sequence declaration (prelude ++ s) (';' :: s) :=
    .more hvar (hspace _) (.more hname (hspace _)
      (.more rfl (hspace _) (.more rfl (.none _) (.last rfl))))
  exact .plain (.none _) hdecl (.present (.none _)) h

/-- The page script of a JSON table is read in both modes, as the same table. -/
theorem script_read_transcript {source : String} {table : Index Markup} (strict : Bool)
    (h : read source = .ok table) : Script.read strict (transcript source) = .ok table := by
  unfold read at h
  split at h
  · rename_i ms hms
    cases h
    unfold Script.read transcript
    rw [String.toList_ofList,
      Script.readScript_of_page (page_of_statements (statements_of_readTable hms)) strict]
    exact congrArg Except.ok (tabulate_map_assignmentOf ms)
  · cases h

/-- A repeated name, a surrogate pair, and quotes of the other kind. -/
theorem script_read_transcript_repeated :
    let source := "\x7b\"A\": [\"\\n\"], \"B\": [\"\\ud83d\\uDE00\", \"\\/'\"], \"A\" : []\x7d"
    let table := Index.ofList [("A", []), ("B", [⟨"😀"⟩, ⟨"/'"⟩])]
    read source = .ok table ∧
      transcript source = "var implementors = \x7b\x7d;implementors[\"A\"] = [\"\\n\"]; " ++
        "implementors[\"B\"] = [\"\\ud83d\\uDE00\", \"\\/'\"]; implementors[\"A\"]  = [];" ∧
      Script.read true (transcript source) = .ok table ∧
      Script.read false (transcript source) = .ok table := by
  have hread : read "\x7b\"A\": [\"\\n\"], \"B\": [\"\\ud83d\\uDE00\", \"\\/'\"], \"A\" : []\x7d" =
      .ok (.ofList [("A", []), ("B", [⟨"😀"⟩, ⟨"/'"⟩])]) := by decide +kernel
  exact ⟨hread, by decide +kernel, script_read_transcript true hread,
    script_read_transcript false hread⟩

end Crossref.Json
