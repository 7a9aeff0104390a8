import Mathlib.Algebra.Group.Nat.Defs
import Crossref.Proofs.Script.Grammar
import Crossref.Proofs.Script.Simulation
import Crossref.Proofs.Text.Utf16

/-!
# The scanner stays in bounds

The second half of the simulation: literals, lists, assignments and whole pages. The readers of a
literal collect pieces and join surrogates at the end, the scanner joins them as it goes; `joined`
says what one escape adds to the text.

`page_keeps_bounds` is the main statement: on every source the scanner comes to the outcome of
`read`, and stands at a valid offset. So it ends, and it never takes an offset outside the source or
within a character, never goes round a loop on the spot, never closes a bracket that is not open,
and never leaves the 32 bits of its code points.
-/

namespace Crossref.Script.Scan

open Text (Piece bytes bytes_nil bytes_cons bytes_append cutAt? cutAt?_eq_some_iff cutAt?_place
  hexValue? hexValue?_lt isHighSurrogate isHighSurrogate_iff isLowSurrogate isLowSurrogate_iff
  isValid_iff_isSome_cutAt? ne_append_of_stripLead? pairCode place place_add place_lt_place
  place_self readHex scalar scalar_surrogate stripLead? stripLead?_eq_some_iff textOf textOf_alone
  textOf_pair textOf_unit)

variable {α : Type} {source s t u r : List Char}

/-! ## Digits -/

theorem readDigits_eq_mapError (count : Nat) (s : List Char) :
    readDigits count s =
      (readHex count 0 s).mapError fun t => ⟨.missingHexDigits count t.head?, s⟩ := by
  unfold readDigits
  cases readHex count 0 s <;> rfl

/-- Eight digits fit into 32 bits, hence so does what precedes them. -/
theorem gives_digitsFrom {start : List Char} (hstart : start <:+ source) (count : Nat)
    (done : Nat) {left code : Nat} (hcode : code < 16 ^ done) (hsize : done + left ≤ 8)
    (hs : s <:+ source) :
    Gives source (digitsFrom (place source start) count left code) s
      ((readHex left code s).mapError fun t => ⟨.missingHexDigits count t.head?, start⟩) := by
  induction left generalizing done code s with
  | zero => exact Gives.pure hs code
  | succ left ih =>
      have hfails (hnone : s.head?.bind hexValue? = none) :
          Gives source (digitsFrom (place source start) count (left + 1) code) s
            (.error ⟨.missingHexDigits count s.head?, start⟩) := by
        refine (gives_peek hs).bind fun hs => ?_
        rw [hnone]
        exact (gives_peek hs).bind fun hs => (gives_moveTo hs hstart).bind fun hstart =>
          gives_fail hstart _
      cases s with
      | nil => exact hfails rfl
      | cons c s =>
          rw [readHex]
          cases hd : hexValue? c with
          | none => exact hfails hd
          | some d =>
              have hdigit := hexValue?_lt hd
              have hnext : code * 16 + d < 16 ^ (done + 1) := by
                rw [Nat.pow_succ]
                omega
              have hword : (16 : Nat) ^ (done + 1) ≤ UInt32.size :=
                Nat.pow_le_pow_right (n := 16) (by decide) (by omega : done + 1 ≤ 8)
              refine (gives_peek hs).bind fun hs => ?_
              rw [List.head?_cons, Option.bind_some, hd]
              refine (gives_word hs (by omega)).bind fun hs => ?_
              refine (gives_word hs (by omega)).bind fun hs => ?_
              exact (gives_bump hs).bind fun hs => ih (done + 1) hnext (by omega) hs

theorem gives_digits (count : Nat) (hcount : count ≤ 8) (hs : s <:+ source) :
    Gives source (digits count) s (readDigits count s) := by
  rw [readDigits_eq_mapError]
  refine (gives_offset hs).bind fun hs => ?_
  exact gives_digitsFrom hs count 0 (by decide) (by omega) hs

/-! ## Escapes -/

/-- The low surrogate that the escape at `s` writes, and what follows it. -/
def lowUnit? (s : List Char) : Option (Nat × List Char) :=
  (stripLead? ['\\', 'u'] s).bind fun t =>
    (readDigits 4 t).toOption.filter fun (v, _) => isLowSurrogate v

theorem lowUnit?_eq_some_iff {v : Nat} :
    lowUnit? s = some (v, t) ↔
      ∃ w, s = '\\' :: 'u' :: w ∧ readDigits 4 w = .ok (v, t) ∧ isLowSurrogate v = true := by
  unfold lowUnit?
  simp only [Option.bind_eq_some_iff, Option.filter_eq_some_iff, stripLead?_eq_some_iff]
  refine exists_congr fun w => and_congr_right fun _ => and_congr_left fun _ => ?_
  cases readDigits 4 w <;> simp [Except.toOption]

theorem suffix_of_lowUnit? {v : Nat} (h : lowUnit? s = some (v, t)) : t <:+ s := by
  obtain ⟨w, rfl, hread, -⟩ := lowUnit?_eq_some_iff.mp h
  exact (suffix_of_readDigits hread).trans (List.suffix_append ['\\', 'u'] w)

/-- Where no low surrogate follows, the scanner may be left anywhere. -/
theorem gives_lowSurrogate (hs : s <:+ source) :
    ∃ r, (∀ v t, lowUnit? s = some (v, t) → r = t) ∧
      Gives source lowSurrogate s (.ok ((lowUnit? s).map Prod.fst, r)) := by
  cases hmark : stripLead? ['\\', 'u'] s with
  | none =>
      have hnone : lowUnit? s = none := by rw [lowUnit?, hmark, Option.bind_none]
      rw [hnone]
      refine ⟨s, fun v t h => (Option.some_ne_none _ h.symm).elim, ?_⟩
      refine (gives_eat hs _).branch (fun r hr _ => ?_) fun _ hs => Gives.pure hs none
      rw [hmark] at hr
      cases hr
  | some w =>
      obtain rfl := stripLead?_eq_some_iff.mp hmark
      have hw : w <:+ source := (List.suffix_append _ w).trans hs
      obtain ⟨r, hr, hattempt⟩ := gives_attempt (gives_digits 4 (by decide) hw)
      have hunit : (lowUnit? (['\\', 'u'] ++ w)).map Prod.fst =
          ((readDigits 4 w).toOption.map Prod.fst).filter isLowSurrogate := by
        rw [lowUnit?, hmark, Option.bind_some, Option.filter_map]
        rfl
      refine ⟨r, fun v t h => ?_, ?_⟩
      · obtain ⟨_, ⟨⟩, hread, -⟩ := lowUnit?_eq_some_iff.mp h
        exact hr _ hread
      · rw [hunit]
        refine (gives_eat hs _).branch (fun w' hw' _ => ?_) fun hnone _ => ?_
        · obtain rfl := Option.some.inj (hmark.symm.trans hw')
          exact hattempt.bind fun hr => Gives.pure hr _
        · rw [hmark] at hnone
          cases hnone

/-- The character that a unit makes, with the low surrogate behind it if that completes a pair, and
what is left. -/
def joinedUnit (u : Nat) (r : List Char) : Char × List Char :=
  if isHighSurrogate u then
    match lowUnit? r with
    | some (v, t) => (scalar (pairCode u v), t)
    | none => (scalar u, r)
  else (scalar u, r)

theorem joinedUnit_pair {n v : Nat} (hn : isHighSurrogate n = true)
    (h : lowUnit? r = some (v, t)) : joinedUnit n r = (scalar (pairCode n v), t) := by
  rw [joinedUnit, if_pos hn, h]

theorem joinedUnit_alone {n : Nat} (h : isHighSurrogate n = true → lowUnit? r = none) :
    joinedUnit n r = (scalar n, r) := by
  unfold joinedUnit
  split
  · rename_i hn
    rw [h hn]
  · rfl

/-- The text that one escape adds, and what is left. -/
def joined : Piece → List Char → List Char × List Char
  | .char c, r => ([c], r)
  | .gap, r => ([], r)
  | .unit u, r => ([(joinedUnit u r).1], (joinedUnit u r).2)

/-- The content of braces, behind the opening one. -/
theorem gives_codePoint (hs : s <:+ source) :
    ∃ told, Gives source codePoint s told ∧
      (told.map fun (c, r) => ([c], r)) =
        (readUnicode ('{' :: s)).map fun (p, r) => joined p r := by
  have hget := gives_offset hs
  have hrest := gives_rest hs
  cases hfind : find? ['}'] s with
  | none =>
      have hclose : '}' ∉ s := fun hm => find?_eq_none hfind ((List.singleton_infix_iff _ _).mpr hm)
      refine ⟨.error ⟨.unterminatedCodePoint, s⟩, hget.bind fun _ => hrest.bind fun hs => ?_, ?_⟩
      · rw [hfind]
        exact gives_fail hs _
      · rw [readUnicode_unclosed hclose]
        rfl
  | some n =>
      obtain ⟨ds, r, rfl, rfl, hfree⟩ := find?_eq_some (List.cons_ne_nil _ _) hfind
      have hclose : '}' ∉ ds := fun hm => hfree ((List.singleton_infix_iff _ _).mpr hm)
      rw [List.singleton_append] at *
      have hupTo : Gives source (upTo (bytes ds)) (ds ++ '}' :: r) (.ok (ds, ds ++ '}' :: r)) := by
        refine hrest.bind fun hs => ?_
        rw [cutAt?_eq_some_iff.mpr ⟨rfl, rfl⟩]
        exact Gives.pure hs _
      rw [readUnicode_closed hclose]
      cases hcode : codePoint? ds with
      | none =>
          refine ⟨.error ⟨.invalidCodePoint ds, ds ++ '}' :: r⟩,
            hget.bind fun _ => hrest.bind fun _ => ?_, rfl⟩
          rw [hfind]
          refine hupTo.bind fun hs => ?_
          rw [hcode]
          exact gives_failAt hs hs _
      | some n =>
          have hsize : n < UInt32.size := by
            simpa using (Option.filter_eq_some_iff.mp hcode).2
          have hclosed : (ds ++ ['}']) ++ r <:+ source := by
            rwa [List.append_assoc, List.singleton_append]
          have hplace : place source (ds ++ '}' :: r) + bytes ds + 1 = place source r := by
            rw [← place_add hclosed, bytes_append, List.append_assoc]
            rfl
          refine ⟨.ok (scalar n, r), hget.bind fun _ => hrest.bind fun _ => ?_, rfl⟩
          rw [hfind]
          refine hupTo.bind fun hs => ?_
          rw [hcode]
          refine (gives_word hs hsize).bind fun hs => ?_
          have hr : r <:+ source := (List.suffix_append _ r).trans hclosed
          rw [hplace]
          exact (gives_moveTo hs hr).bind fun hr => Gives.pure hr _

theorem readUnicode_of_ne {s : List Char} (h : ∀ t, s ≠ '{' :: t) :
    readUnicode s = (readDigits 4 s).map fun (n, r) => (.unit n, r) := by
  unfold readUnicode
  split
  · rename_i t
    exact absurd rfl (h t)
  · cases readDigits 4 s <;> rfl

theorem gives_pairFrom {u : Nat} (hhigh : isHighSurrogate u = true) (hr : r <:+ source) :
    Gives source (pairFrom u) r (.ok (joinedUnit u r)) := by
  have hbounds := isHighSurrogate_iff.mp hhigh
  obtain ⟨w, hw, hlow⟩ := gives_lowSurrogate hr
  refine (gives_offset hr).bind fun _ => ?_
  cases hunit : lowUnit? r with
  | none =>
      rw [hunit] at hlow
      rw [joinedUnit_alone fun _ => hunit, scalar_surrogate ⟨hbounds.1, by omega⟩]
      refine hlow.bind fun hw => ?_
      exact (gives_moveTo hw hr).bind fun hr => Gives.pure hr _
  | some p =>
      obtain ⟨v, t⟩ := p
      obtain rfl := hw v t hunit
      obtain ⟨-, -, -, hv⟩ := lowUnit?_eq_some_iff.mp hunit
      have hbounds' := isLowSurrogate_iff.mp hv
      have hsize : UInt32.size = 4294967296 := rfl
      rw [joinedUnit_pair hhigh hunit]
      rw [hunit] at hlow
      refine hlow.bind fun ht => ?_
      refine (gives_minus ht hbounds.1).bind fun ht => ?_
      refine (gives_word ht (by omega)).bind fun ht => ?_
      refine (gives_minus ht hbounds'.1).bind fun ht => ?_
      refine (gives_word ht (by omega)).bind fun ht => ?_
      exact (gives_word ht (by omega)).bind fun ht => Gives.pure ht _

theorem gives_unicodeEscape (hs : s <:+ source) :
    ∃ told, Gives source unicodeEscape s told ∧
      (told.map fun (c, r) => ([c], r)) = (readUnicode s).map fun (p, r) => joined p r := by
  have heat := gives_eat hs ['{']
  cases hbrace : stripLead? ['{'] s with
  | some w =>
      obtain rfl := stripLead?_eq_some_iff.mp hbrace
      rw [hbrace] at heat
      obtain ⟨told, hgives, htold⟩ := gives_codePoint heat.1
      exact ⟨told, heat.bind fun _ => hgives, htold⟩
  | none =>
      rw [hbrace] at heat
      have hne : ∀ t, s ≠ '{' :: t := ne_append_of_stripLead? hbrace
      have hdigits := gives_digits 4 (by decide) hs
      rw [readUnicode_of_ne hne]
      cases hread : readDigits 4 s with
      | error f =>
          rw [hread] at hdigits
          exact ⟨.error f, heat.bind fun _ => hdigits.bind_error _, rfl⟩
      | ok p =>
          rw [hread] at hdigits
          refine ⟨.ok (joinedUnit p.1 p.2), heat.bind fun _ => hdigits.bind fun hr => ?_, rfl⟩
          cases hhigh : isHighSurrogate p.1 with
          | true => exact gives_pairFrom hhigh hr
          | false =>
              rw [joinedUnit_alone fun hn => absurd (hhigh.symm.trans hn) Bool.false_ne_true]
              exact Gives.pure hr _

theorem suffix_of_joined (p : Piece) (r : List Char) : (joined p r).2 <:+ r := by
  cases p with
  | char c => exact List.suffix_refl r
  | gap => exact List.suffix_refl r
  | unit u =>
      show (joinedUnit u r).2 <:+ r
      unfold joinedUnit
      split
      · split
        · rename_i h
          exact suffix_of_lowUnit? h
        · exact List.suffix_refl r
      · exact List.suffix_refl r

theorem readEscape_carriageReturn (s : List Char) :
    readEscape '\r' s = .ok (.gap, (taken s (stripLead? ['\n'] s)).2) := by
  cases h : stripLead? ['\n'] s with
  | some r =>
      obtain rfl := stripLead?_eq_some_iff.mp h
      exact readEscape_of_escape .carriageReturnFeed
  | none =>
      exact readEscape_of_escape (.carriageReturn (ne_append_of_stripLead? h))

theorem gives_escape (opening : Nat) (text : List Char) {c : Char} (hs : c :: s <:+ source) :
    Gives source (escape opening text) (c :: s)
      ((readEscape c s).map fun (p, r) => (text ++ (joined p r).1, (joined p r).2)) := by
  have hgap {m : Scan (List Char)} {r : List Char} (h : Gives source m s (.ok (text, r))) :
      Gives source m s (.ok (text ++ (joined .gap r).1, (joined .gap r).2)) := by
    rw [joined, List.append_nil]
    exact h
  refine (gives_bump hs).bind fun htail => ?_
  by_cases hcr : c = '\r'
  · subst hcr
    rw [readEscape_carriageReturn]
    refine hgap ?_
    show Gives source (do let _ ← eat ['\n']; return text) s _
    exact (gives_eat htail ['\n']).bind fun hr => Gives.pure hr text
  · unfold readEscape
    simp only [if_neg hcr]
    split
    · have hdigits := gives_digits 2 (by decide) htail
      cases hread : readDigits 2 s with
      | error f =>
          rw [hread] at hdigits
          exact hdigits.bind_error _
      | ok p =>
          rw [hread] at hdigits
          exact hdigits.bind fun hr => Gives.pure hr _
    · split
      · obtain ⟨told, hgives, htold⟩ := gives_unicodeEscape htail
        have htext : (told.map fun q => (text ++ [q.1], q.2)) =
            (readUnicode s).map fun (p, r) => (text ++ (joined p r).1, (joined p r).2) :=
          calc (told.map fun q => (text ++ [q.1], q.2))
            _ = (told.map fun q => ([q.1], q.2)).map fun q => (text ++ q.1, q.2) := by
                cases told <;> rfl
            _ = ((readUnicode s).map fun (p, r) => joined p r).map
                  fun q => (text ++ q.1, q.2) := by rw [← htold]
            _ = _ := by cases readUnicode s <;> rfl
        rw [← htext]
        exact hgives.map fun c => text ++ [c]
      · split
        · exact hgap (Gives.pure htail text)
        · exact Gives.pure htail _

/-! ## Literals -/

/-- What the reader of elements tells, behind the text that precedes them. -/
def literalText (quote : Char) (opening text s : List Char) :
    Except Failure (List Char × List Char) :=
  (readPieces quote opening s).map fun (ps, r) => (text ++ textOf ps, r)

/-- Elements that are read first give their text first. -/
theorem literalText_extend {quote : Char} {opening t : List Char} (qs : List Piece)
    (hread : readPieces quote opening s =
      (readPieces quote opening u).map fun (ps, r) => (qs ++ ps, r))
    (htext : ∀ ps r, readPieces quote opening u = .ok (ps, r) →
      textOf (qs ++ ps) = t ++ textOf ps)
    (text : List Char) :
    literalText quote opening text s = literalText quote opening (text ++ t) u := by
  unfold literalText
  rw [hread]
  cases h : readPieces quote opening u with
  | error f => rfl
  | ok p =>
      show Except.ok (text ++ textOf (qs ++ p.1), p.2) = Except.ok (text ++ t ++ textOf p.1, p.2)
      rw [htext p.1 p.2 h, List.append_assoc]

/-- A unit that begins what is read was written by an escape with four digits. -/
theorem exists_digits_of_readPieces {quote : Char} {opening : List Char} {v : Nat}
    {ps : List Piece} (h : readPieces quote opening s = .ok (.unit v :: ps, r)) :
    ∃ w t, s = '\\' :: 'u' :: w ∧ readDigits 4 w = .ok (v, t) := by
  cases elements_of_readPieces h with
  | escape he _ =>
      cases he with
      | @unit ds _ _ hlen hn =>
          exact ⟨ds ++ _, _, rfl, (readDigits_eq_ok_iff (by decide)).mpr ⟨ds, hlen, rfl, hn⟩⟩

/-- One escape in a literal, with the second half of a pair where it follows. -/
theorem literalText_escape {quote c : Char} {opening : List Char} {p : Piece}
    (hread : readEscape c s = .ok (p, u)) (text : List Char) :
    literalText quote opening text ('\\' :: c :: s) =
      literalText quote opening (text ++ (joined p u).1) (joined p u).2 := by
  have hpieces := readPieces_escape (escape_of_readEscape hread) quote opening
  cases p with
  | char c => exact literalText_extend [.char c] hpieces (fun _ _ _ => rfl) text
  | gap => exact literalText_extend [.gap] hpieces (fun _ _ _ => rfl) text
  | unit n =>
      rw [joined]
      by_cases hpair : ∃ v t, isHighSurrogate n = true ∧ lowUnit? u = some (v, t)
      · obtain ⟨v, t, hn, hunit⟩ := hpair
        obtain ⟨w, rfl, hdigits, hv⟩ := lowUnit?_eq_some_iff.mp hunit
        obtain ⟨ds, hlen, rfl, hnumber⟩ := (readDigits_eq_ok_iff (by decide)).mp hdigits
        have htext (ps : List Piece) := textOf_pair hn hv ps
        rw [joinedUnit_pair hn hunit]
        generalize scalar (pairCode n v) = c at htext ⊢
        refine literalText_extend (t := [c]) [.unit n, .unit v] ?_
          (fun ps _ _ => htext ps) text
        rw [hpieces, readPieces_escape (.unit hlen hnumber)]
        cases readPieces quote opening t <;> rfl
      · have halone (hn : isHighSurrogate n = true) : lowUnit? u = none :=
          Option.eq_none_iff_forall_ne_some.mpr fun q hq => hpair ⟨q.1, q.2, hn, hq⟩
        rw [joinedUnit_alone halone]
        refine literalText_extend [.unit n] hpieces (fun ps r hps => ?_) text
        refine textOf_alone fun hn v qs hqs => eq_false_of_ne_true fun hv => hpair ?_
        have hcons : ps = .unit v :: qs := hqs
        obtain ⟨w, t, hw, hdigits⟩ := exists_digits_of_readPieces (hcons ▸ hps)
        exact ⟨v, t, hn, lowUnit?_eq_some_iff.mpr ⟨w, hw, hdigits, hv⟩⟩

/-- A backslash in a literal begins an escape. -/
theorem lap_escape {quote : Char} (hclose : '\\' ≠ quote) {opening : List Char}
    (hopening : opening <:+ source) (text s : List Char) (hs : '\\' :: s <:+ source) :
    Lap source (literalLap quote (place source opening))
      (fun text s told => told = literalText quote opening text s) text ('\\' :: s) := by
  have hbump := gives_bump hs
  have hstep {told} (h : Gives source (escape (place source opening) text) s told) :
      Gives source (literalLap quote (place source opening) text) ('\\' :: s)
        (told.map fun q => (Sum.inl q.1, q.2)) := by
    refine hbump.bind fun hs => ?_
    simp only [if_neg (by decide : '\\' ≠ '\n'), if_neg hclose, if_pos]
    exact h.map Sum.inl
  cases s with
  | nil =>
      have hescape : Gives source (escape (place source opening) text) []
          (.error ⟨.unterminatedLiteral, opening⟩) :=
        gives_bump_nil.bind fun hs => gives_failAt hs hopening _
      refine .fails (hstep hescape) ?_
      rw [literalText, readPieces]
      rfl
  | cons c s =>
      have hescape := hstep (gives_escape _ text hbump.1)
      cases hread : readEscape c s with
      | error f =>
          rw [hread] at hescape
          refine .fails hescape ?_
          rw [literalText, readPieces_escape_error hread]
          rfl
      | ok p =>
          rw [hread] at hescape
          refine .goesOn hescape ?_ ?_
          · have h1 := (suffix_of_joined p.1 p.2).length_le
            have h2 := (suffix_of_readEscape hread).length_le
            simp only [List.length_cons]
            omega
          · rintro _ rfl
            exact (literalText_escape hread text).symm

theorem lap_literal {quote : Char} (hquote : quote = '"' ∨ quote = '\'') {opening : List Char}
    (hopening : opening <:+ source) (text s : List Char) (hs : s <:+ source) :
    Lap source (literalLap quote (place source opening))
      (fun text s told => told = literalText quote opening text s) text s := by
  have hne : quote ≠ '\\' ∧ quote ≠ '\n' := by rcases hquote with rfl | rfl <;> decide
  cases s with
  | nil =>
      refine .fails (gives_bump_nil.bind fun hs => gives_failAt hs hopening _) ?_
      rw [literalText, readPieces]
      rfl
  | cons c s =>
      have hbump := gives_bump hs
      by_cases hfeed : c = '\n'
      · subst hfeed
        refine .fails (hbump.bind fun hs => gives_failAt hs hopening .unterminatedLiteral) ?_
        rw [literalText, readPieces, if_pos rfl]
        · rfl
        · rintro ⟨⟩
        · rintro _ _ ⟨⟩
      by_cases hclose : c = quote
      · subst hclose
        refine .ends (y := text) (r := s) (hbump.bind fun hs => ?_) ?_
        · simp only [if_neg hfeed]
          exact Gives.pure hs _
        · rw [literalText, readPieces_close hne.1 hne.2]
          show _ = Except.ok (text ++ [], s)
          rw [List.append_nil]
      by_cases hback : c = '\\'
      · subst hback
        exact lap_escape hclose hopening text s hs
      · refine .goesOn (z := text ++ [c]) (r := s) (hbump.bind fun hs => ?_)
          (Nat.lt_succ_self _) ?_
        · simp only [if_neg hfeed, if_neg hclose, if_neg hback]
          exact Gives.pure hs _
        · rintro _ rfl
          exact (literalText_extend [.char c] (readPieces_raw hclose hback hfeed opening s)
            (fun _ _ _ => rfl) text).symm

theorem gives_literal (hs : s <:+ source) : Gives source literal s (readLiteral s) := by
  have hget := gives_offset hs
  have hpeek := gives_peek hs
  cases s with
  | nil => exact hget.bind fun _ => hpeek.bind fun hs => gives_fail hs _
  | cons quote s =>
      rw [readLiteral]
      refine hget.bind fun _ => hpeek.bind fun hquote => ?_
      simp only [List.head?_cons]
      split
      · rename_i hq
        refine (gives_bump hquote).bind fun hs => ?_
        have hloop := gives_loop (lap_literal hq hquote) [] hs
        have hmap := hloop.map String.ofList
        unfold literalText at hmap
        cases hread : readPieces quote (quote :: s) s with
        | error f =>
            rw [hread] at hmap
            exact hmap
        | ok p =>
            rw [hread] at hmap
            exact hmap
      · exact gives_fail hquote _

/-! ## Lists and assignments -/

/-- What the reader of a list tells, behind the items that precede it. -/
def listText (list : List Markup) (s : List Char) : Except Failure (List Markup × List Char) :=
  (readList s).map fun (xs, r) => (list ++ xs, r)

/-- The three ways on from an item. -/
theorem lap_item {x : String} {v : List Char} (hs : s <:+ source)
    (hread : readLiteral (afterTrivia s) = .ok (x, v)) (list : List Markup)
    (hlap : ∀ {told}, Gives source (nextItem list) (afterTrivia s) told →
      Gives source (listLap list) s told) :
    Lap source listLap (fun list s told => told = listText list s) list s := by
  have hx := readLiteral_eq_ok_iff.mp hread
  have hliteral := gives_literal ((afterTrivia_suffix s).trans hs)
  rw [hread] at hliteral
  have htrivia := gives_skipTrivia hliteral.1
  have hcomma := gives_eat htrivia.1 [',']
  have hclose := gives_eat htrivia.1 [']']
  cases hc : stripLead? [','] (afterTrivia v) with
  | some w =>
      rw [hc] at hcomma
      have hw : afterTrivia v = ',' :: w := stripLead?_eq_some_iff.mp hc
      refine .goesOn (z := list ++ [⟨x⟩]) (r := w) (hlap ?_) ?_ ?_
      · refine hliteral.bind fun _ => htrivia.bind fun _ => hcomma.bind fun hw => ?_
        exact Gives.pure hw _
      · have h1 := (afterTrivia_suffix v).length_le
        have h2 := (suffix_of_readLiteral hread).2
        have h3 := (afterTrivia_suffix s).length_le
        rw [hw, List.length_cons] at h1
        omega
      · rintro _ rfl
        unfold listText
        rw [readList_more rfl hx hw]
        cases readList w with
        | error f => rfl
        | ok p =>
            show Except.ok (list ++ [⟨x⟩] ++ p.1, p.2) = Except.ok (list ++ ⟨x⟩ :: p.1, p.2)
            rw [List.append_assoc, List.singleton_append]
  | none =>
      rw [hc] at hcomma
      cases hb : stripLead? [']'] (afterTrivia v) with
      | some w =>
          rw [hb] at hclose
          refine .ends (y := list ++ [⟨x⟩]) (r := w) (hlap ?_) ?_
          · refine hliteral.bind fun _ => htrivia.bind fun _ => hcomma.bind fun _ => ?_
            exact hclose.bind fun hw => Gives.pure hw _
          · rw [listText, readList_last rfl hx (stripLead?_eq_some_iff.mp hb)]
            rfl
      | none =>
          rw [hb] at hclose
          refine .fails (f := ⟨.unfinishedList (afterTrivia v).head?, afterTrivia v⟩) (hlap ?_) ?_
          · refine hliteral.bind fun _ => htrivia.bind fun _ => hcomma.bind fun _ => ?_
            refine hclose.bind fun hv => ?_
            exact (gives_peek hv).bind fun hv => gives_fail hv _
          · rw [listText, readList_unfinished rfl hx (ne_append_of_stripLead? hc)
              (ne_append_of_stripLead? hb)]
            rfl

theorem lap_list (list : List Markup) (s : List Char) (hs : s <:+ source) :
    Lap source listLap (fun list s told => told = listText list s) list s := by
  have htrivia := gives_skipTrivia hs
  have hopen := gives_eat htrivia.1 [']']
  cases hstrip : stripLead? [']'] (afterTrivia s) with
  | some r =>
      rw [hstrip] at hopen
      refine .ends (htrivia.bind fun _ => hopen.bind fun hr => Gives.pure hr _) ?_
      rw [listText, readList_close (stripLead?_eq_some_iff.mp hstrip)]
      show _ = Except.ok (list ++ [], r)
      rw [List.append_nil]
  | none =>
      rw [hstrip] at hopen
      have hlap {told} (h : Gives source (nextItem list) (afterTrivia s) told) :
          Gives source (listLap list) s told := by
        refine htrivia.bind fun _ => hopen.bind fun _ => ?_
        exact h
      cases hread : readLiteral (afterTrivia s) with
      | ok p => exact lap_item hs hread list hlap
      | error f =>
          have hliteral := gives_literal htrivia.1
          rw [hread] at hliteral
          refine .fails (hlap (hliteral.bind_error _)) ?_
          rw [listText, readList_of_literal_error (ne_append_of_stripLead? hstrip) hread]
          rfl

theorem gives_list (hs : s <:+ source) : Gives source (loop listLap []) s (readList s) := by
  have htext : listText [] s = readList s := by
    unfold listText
    cases readList s <;> rfl
  rw [← htext]
  exact gives_loop lap_list [] hs

theorem snd_taken_semicolon (s : List Char) :
    (taken (afterTrivia s) (stripLead? [';'] (afterTrivia s))).2 = afterSemicolon s := by
  cases h : stripLead? [';'] (afterTrivia s) with
  | some r =>
      rw [afterSemicolon_of_present (stripLead?_eq_some_iff.mp h)]
      rfl
  | none =>
      rw [afterSemicolon_of_absent (ne_append_of_stripLead? h)]
      rfl

/-- An optional semicolon, with trivia before it. -/
theorem gives_semicolon (hs : s <:+ source) {k : Scan α} {told : Except Failure (α × List Char)}
    (hk : afterSemicolon s <:+ source → Gives source k (afterSemicolon s) told) :
    Gives source (do skipTrivia; let _ ← eat [';']; k) s told := by
  rw [← snd_taken_semicolon] at hk
  exact (gives_skipTrivia hs).bind fun hu => (gives_eat hu [';']).bind hk

/-- The scanner reads the beginning of an assignment once more. -/
theorem gives_assignment (hs : s <:+ source)
    (hhead : Token.takeAll? assignmentHead s = some u) :
    Gives source assignment s (readAssignment u) := by
  rw [assignmentHead, Token.takeAll?_cons_cons] at hhead
  obtain ⟨v, hv, hu⟩ := Option.bind_eq_some_iff.mp hhead
  have hword := gives_eatWord hs tableName
  rw [hv] at hword
  have hbracket := gives_expect hword.1 '['
  have hmark : readMark '[' v = .ok u := by
    unfold readMark
    rw [stripLead?_eq_some_iff.mp hu]
    exact if_pos rfl
  rw [hmark] at hbracket
  refine hword.bind fun _ => hbracket.bind fun hu => (gives_skipTrivia hu).bind fun hu => ?_
  unfold readAssignment
  refine (gives_literal hu).andThen fun unit r _ hr => ?_
  refine gives_expect_then hr ']' fun r hr => ?_
  refine gives_expect_then hr '=' fun r hr => ?_
  refine gives_expect_then hr '[' fun r hr => ?_
  refine (gives_list hr).andThen fun list r _ hr => ?_
  exact gives_semicolon hr fun hr => Gives.pure hr _

/-! ## Pages -/

theorem gives_skipUnknown {c : Char} (hs : c :: s <:+ source) :
    Gives source (skipUnknown (place source (c :: s))) (c :: s)
      (.ok ((), afterStatement (c :: s))) := by
  refine (gives_skipStatement hs).bind fun hr => (gives_offset hr).bind fun hr => ?_
  cases hc : isClosing c with
  | true =>
      rw [afterStatementAt_bracket 0 hc, if_pos rfl, if_pos rfl, afterStatement, if_pos hc]
      exact (gives_bump hs).bind fun hs => Gives.pure hs ()
  | false =>
      have hskip : afterStatementAt 0 (c :: s) = afterStatement (c :: s) := by
        rw [afterStatement, hc]
        rfl
      have hlt := length_afterStatement_lt c s
      rw [hskip] at hr ⊢
      rw [if_neg (place_lt_place hs hr hlt).ne']
      exact Gives.pure hr ()

/-- What the rest of the table tells, behind the assignments that precede it; the place at which the
table ends is left open. -/
def TellsTable (strict : Bool) (table : List Assignment) (s : List Char)
    (told : Except Failure (List Assignment × List Char)) : Prop :=
  told.map Prod.fst = (readAssignments strict s).map (table ++ ·)

theorem tellsTable_end {strict : Bool} (h : readAssignments strict s = .ok [])
    (table : List Assignment) (r : List Char) : TellsTable strict table s (.ok (table, r)) := by
  rw [TellsTable, h]
  show Except.ok table = Except.ok (table ++ [])
  rw [List.append_nil]

/-- An assignment that is read first stands first in the table. -/
theorem tellsTable_assignment {strict : Bool} {a : Assignment}
    (hhead : Token.takeAll? assignmentHead (afterTrivia s) = some u)
    (ha : readAssignment u = .ok (a, r)) (table : List Assignment)
    {told : Except Failure (List Assignment × List Char)}
    (h : TellsTable strict (table ++ [a]) r told) : TellsTable strict table s told := by
  unfold TellsTable at h ⊢
  rw [h, readAssignments_of_head rfl hhead, ha]
  show _ = Except.map (table ++ ·) (readAssignments strict r >>= fun as => .ok (a :: as))
  cases readAssignments strict r with
  | error f => rfl
  | ok as =>
      show Except.ok (table ++ [a] ++ as) = Except.ok (table ++ a :: as)
      rw [List.append_assoc, List.singleton_append]

section

variable {table : List Assignment} {c : Char}

theorem lap_assignment {strict : Bool} (hs : s <:+ source) (hc : afterTrivia s = c :: t)
    (hu : Token.takeAll? assignmentHead (c :: t) = some u)
    (hlap : ∀ {told}, Gives source (statement strict table) (c :: t) told →
      Gives source (tableLap strict table) s told) :
    Lap source (tableLap strict) (TellsTable strict) table s := by
  have ht : c :: t <:+ source := hc ▸ (afterTrivia_suffix s).trans hs
  have hhead := gives_eatTokens ht assignmentHead (by decide)
  rw [hu] at hhead
  have hback := gives_moveTo hhead.1 ht
  have hassignment := gives_assignment ht hu
  cases ha : readAssignment u with
  | error f =>
      rw [ha] at hassignment
      refine .fails (f := f) (hlap ((gives_offset ht).bind fun _ => hhead.found fun _ => ?_)) ?_
      · exact hback.bind fun _ => hassignment.bind_error _
      · rw [TellsTable, readAssignments_of_head hc hu, ha]
        rfl
  | ok p =>
      rw [ha] at hassignment
      refine .goesOn (z := table ++ [p.1]) (r := p.2)
        (hlap ((gives_offset ht).bind fun _ => hhead.found fun _ => ?_)) ?_ ?_
      · exact hback.bind fun _ => hassignment.bind fun hr => Gives.pure hr _
      · have h1 := (suffix_of_readAssignment ha).2
        have h2 := (Token.takeAll?_suffix hu).length_le
        have h3 : (c :: t).length ≤ s.length := hc ▸ (afterTrivia_suffix s).length_le
        omega
      · intro told htold
        exact tellsTable_assignment (hc.symm ▸ hu) ha table htold

theorem lap_tableEnd {strict : Bool} (hs : s <:+ source) (hc : afterTrivia s = c :: t)
    (hu : Token.takeAll? assignmentHead (c :: t) = none) (hend : endsTable (c :: t) = true)
    (hlap : ∀ {told}, Gives source (statement strict table) (c :: t) told →
      Gives source (tableLap strict table) s told) :
    Lap source (tableLap strict) (TellsTable strict) table s := by
  have ht : c :: t <:+ source := hc ▸ (afterTrivia_suffix s).trans hs
  have hhead := gives_eatTokens ht assignmentHead (by decide)
  have hregistration := gives_eatTokens ht registration (by decide)
  have htail := gives_eatTokens ht wrapperTail (by decide)
  rw [hu] at hhead
  have htells := tellsTable_end (readAssignments_of_endsTable strict (hc.symm ▸ hend)) table
  cases hr : Token.takeAll? registration (c :: t) with
  | some r =>
      rw [hr] at hregistration
      refine .ends (r := r) (hlap ((gives_offset ht).bind fun _ => hhead.absent fun _ => ?_))
        (htells r)
      exact hregistration.found fun hr => Gives.pure hr _
  | none =>
      rw [hr] at hregistration
      cases hw : Token.takeAll? wrapperTail (c :: t) with
      | some r =>
          rw [hw] at htail
          refine .ends (r := r) (hlap ((gives_offset ht).bind fun _ => hhead.absent fun _ => ?_))
            (htells r)
          exact hregistration.absent fun _ => htail.found fun hr => Gives.pure hr _
      | none =>
          rw [endsTable, hr, hw] at hend
          cases hend

theorem lap_unknown (strict : Bool) (hs : s <:+ source) (hc : afterTrivia s = c :: t)
    (hu : Token.takeAll? assignmentHead (c :: t) = none) (hend : endsTable (c :: t) = false)
    (hlap : ∀ {told}, Gives source (statement strict table) (c :: t) told →
      Gives source (tableLap strict table) s told) :
    Lap source (tableLap strict) (TellsTable strict) table s := by
  have ht : c :: t <:+ source := hc ▸ (afterTrivia_suffix s).trans hs
  have hhead := gives_eatTokens ht assignmentHead (by decide)
  have hregistration := gives_eatTokens ht registration (by decide)
  have htail := gives_eatTokens ht wrapperTail (by decide)
  obtain ⟨hr, hw⟩ : Token.takeAll? registration (c :: t) = none ∧
      Token.takeAll? wrapperTail (c :: t) = none := by
    simpa [endsTable] using hend
  rw [hu] at hhead
  rw [hr] at hregistration
  rw [hw] at htail
  have hunknown := readAssignments_of_unknown strict hc hu hend
  cases strict with
  | true =>
      refine .fails (f := ⟨.unexpectedStatement (some c), c :: t⟩)
        (hlap ((gives_offset ht).bind fun _ => hhead.absent fun _ => ?_)) ?_
      · refine hregistration.absent fun _ => htail.absent fun _ => ?_
        exact (gives_peek ht).bind fun ht => gives_fail ht _
      · rw [TellsTable, hunknown]
        rfl
  | false =>
      refine .goesOn (z := table) (r := afterStatement (c :: t))
        (hlap ((gives_offset ht).bind fun _ => hhead.absent fun _ => ?_)) ?_ ?_
      · refine hregistration.absent fun _ => htail.absent fun _ => ?_
        exact (gives_skipUnknown ht).bind fun hr => Gives.pure hr _
      · have hlength : (c :: t).length ≤ s.length := hc ▸ (afterTrivia_suffix s).length_le
        exact (length_afterStatement_lt c t).trans_le hlength
      · intro told htold
        rw [TellsTable, hunknown]
        exact htold

end

/-- A statement is an assignment, ends the table, or is unknown. -/
theorem lap_table (strict : Bool) (table : List Assignment) (s : List Char) (hs : s <:+ source) :
    Lap source (tableLap strict) (TellsTable strict) table s := by
  have htrivia := gives_skipTrivia hs
  have hend := gives_atEnd htrivia.1
  cases hc : afterTrivia s with
  | nil =>
      rw [hc] at htrivia hend
      refine .ends (r := []) (htrivia.bind fun _ => hend.bind fun hr => Gives.pure hr _) ?_
      exact tellsTable_end (readAssignments_of_end strict hc) table []
  | cons c t =>
      rw [hc] at htrivia hend
      have hlap {told} (h : Gives source (statement strict table) (c :: t) told) :
          Gives source (tableLap strict table) s told :=
        htrivia.bind fun _ => hend.bind fun _ => h
      cases hu : Token.takeAll? assignmentHead (c :: t) with
      | some u => exact lap_assignment hs hc hu hlap
      | none =>
          cases hends : endsTable (c :: t) with
          | true => exact lap_tableEnd hs hc hu hends hlap
          | false => exact lap_unknown strict hs hc hu hends hlap

theorem exists_tells_of_table (strict : Bool) (hs : s <:+ source) :
    ∃ told, Gives source (loop (tableLap strict) []) s told ∧
      told.map Prod.fst = readAssignments strict s := by
  obtain ⟨told, htells, hgives⟩ := exists_tells_of_loop (lap_table strict) [] hs
  refine ⟨told, hgives, htells.trans ?_⟩
  cases readAssignments strict s <;> rfl

theorem exists_tells_of_page (strict : Bool) (source : List Char) :
    ∃ told, Gives source (page strict) source told ∧
      told.map Prod.fst = readScript strict source := by
  have htrivia := gives_skipTrivia (List.suffix_refl source)
  have hhead := gives_eatTokens htrivia.1 wrapperHead (by decide)
  have hopened := hhead.1
  have hbegin {told} (h : Gives source (pageFrom strict) (afterTrivia (taken (afterTrivia source)
      (Token.takeAll? wrapperHead (afterTrivia source))).2) told) :
      Gives source (page strict) source told :=
    htrivia.bind fun _ => hhead.bind fun hu => (gives_skipTrivia hu).bind fun _ => h
  change (taken _ _).2 <:+ source at hopened
  rw [snd_taken] at hbegin hopened
  unfold readScript
  dsimp only
  have hs := (afterTrivia_suffix _).trans hopened
  generalize afterTrivia ((Token.takeAll? wrapperHead (afterTrivia source)).getD
    (afterTrivia source)) = s at hbegin hs ⊢
  have hdeclared := gives_eatTokens hs declaration (by decide)
  cases hd : Token.takeAll? declaration s with
  | some r =>
      rw [hd] at hdeclared
      obtain ⟨told, hgives, htells⟩ := exists_tells_of_table strict
        ((afterSemicolon_suffix r).trans hdeclared.1)
      refine ⟨told, hbegin (hdeclared.found fun hr => ?_), htells⟩
      exact gives_semicolon hr fun _ => hgives
  | none =>
      rw [hd] at hdeclared
      cases strict with
      | true =>
          refine ⟨.error ⟨.missingDeclaration s.head?, s⟩,
            hbegin (hdeclared.absent fun hs => ?_), rfl⟩
          exact (gives_peek hs).bind fun hs => gives_fail hs _
      | false =>
          obtain ⟨told, hgives, htells⟩ := exists_tells_of_table false hs
          refine ⟨told, hbegin (hdeclared.absent fun _ => ?_), htells⟩
          exact hgives

theorem isValid_place {source : String} {r : List Char} (h : r <:+ source.toList) :
    (String.Pos.Raw.mk (place source.toList r)).IsValid source := by
  rw [isValid_iff_isSome_cutAt?, cutAt?_place h]
  rfl

/-- On every source the scanner comes to the outcome of reading, at a valid offset. Its other way to
halt, a breach, does not happen. -/
theorem page_keeps_bounds (strict : Bool) (source : String) :
    ∃ n : Nat, (String.Pos.Raw.mk n).IsValid source ∧
      match read strict source with
      | .ok index => ∃ table, index = tabulate table ∧ page strict source.toList 0 = .ok table n
      | .error e => page strict source.toList 0 = .error (.error e) n := by
  obtain ⟨told, hgives, htells⟩ := exists_tells_of_page strict source.toList
  unfold read
  cases told with
  | ok p =>
      rw [← htells]
      obtain ⟨hr, hrun⟩ := hgives
      rw [place_self] at hrun
      exact ⟨_, isValid_place hr, p.1, rfl, hrun⟩
  | error f =>
      rw [← htells]
      obtain ⟨-, r, hr, hrun⟩ := hgives
      rw [place_self] at hrun
      exact ⟨_, isValid_place hr, hrun⟩

end Crossref.Script.Scan
