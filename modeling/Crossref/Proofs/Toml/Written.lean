import Crossref.Proofs.Text.Hex
import Crossref.Proofs.Toml.Contents
import Crossref.Proofs.Toml.Number

/-!
# Writing documents

Statements whose keys need no quotes, with strings, booleans, counts and lists of
strings for values, are written on a line each. What is written is read
(`statements?_written`), whatever characters the strings hold.
-/

namespace Crossref.Toml

open Text (hexNumber?_digitChars readHex_eq_ok_iff)

/-! ## Writing -/

def writeChar (c : Char) : List Char :=
  if c = '"' ∨ c = '\\' then ['\\', c]
  else if isPlain c then [c]
  else ['\\', 'u', '0', '0', Nat.digitChar (c.toNat / 16), Nat.digitChar (c.toNat % 16)]

def writeString (t : String) : List Char := '"' :: (t.toList.flatMap writeChar ++ ['"'])

/-- Strings with commas between them. -/
def writeStrings : List String → List Char
  | [] => []
  | [t] => writeString t
  | t :: ts => writeString t ++ ',' :: ' ' :: writeStrings ts

/-- A value that can be written. -/
inductive Literal where
  | string (t : String)
  | boolean (b : Bool)
  | count (n : Nat)
  | strings (ts : List String)

def Literal.value : Literal → Value
  | string t => .string t
  | boolean b => .boolean b
  | count n => .integer (some n)
  | strings ts => .array (ts.map .string)

def Literal.write : Literal → List Char
  | string t => writeString t
  | boolean true => ['t', 'r', 'u', 'e']
  | boolean false => ['f', 'a', 'l', 's', 'e']
  | count n => Nat.toDigits 10 n
  | strings ts => '[' :: (writeStrings ts ++ [']'])

variable {c : Char} {s r : List Char}

/-! ## Strings -/

theorem readBasic_close (s : List Char) : readBasic ('"' :: s) = some ([], s) := by
  rw [readBasic, if_pos rfl]
  · rintro ⟨⟩
  · rintro _ _ ⟨⟩

theorem readBasic_plain (hback : c ≠ '\\') (hquote : c ≠ '"') (hplain : isPlain c = true)
    (s : List Char) : readBasic (c :: s) = (readBasic s).map fun (t, r) => (c :: t, r) := by
  rw [readBasic, if_neg hquote, if_pos hplain]
  · exact fun h => absurd h hback
  · exact fun _ _ h => absurd h hback

theorem readBasic_escape {d : Char} (h : readEscape c s = some (d, r)) :
    readBasic ('\\' :: c :: s) = (readBasic r).map fun (t, r) => (d :: t, r) := by
  rw [readBasic]
  split
  · rename_i hread
    rw [h] at hread
    cases hread
  · rename_i hread
    rw [h] at hread
    cases hread
    rfl

theorem readEscape_hex (hc : c.toNat < 256) (s : List Char) :
    readEscape 'u' ('0' :: '0' :: Nat.digitChar (c.toNat / 16) :: Nat.digitChar (c.toNat % 16) :: s)
      = some (c, s) := by
  have hread := (readHex_eq_ok_iff (by decide : 4 ≠ 0) (s := '0' :: '0' ::
    Nat.digitChar (c.toNat / 16) :: Nat.digitChar (c.toNat % 16) :: s)).mpr
    ⟨_, rfl, rfl, hexNumber?_digitChars hc⟩
  show readCodePoint 4 _ = _
  rw [readCodePoint, hread]
  show (if c.toNat.isValidChar then some (Char.ofNat c.toNat, s) else none) = some (c, s)
  rw [if_pos (show c.toNat.isValidChar from c.valid), Char.ofNat_toNat]

/-- Only controls are left out of strings. -/
theorem toNat_lt_of_not_isPlain (h : ¬isPlain c = true) : c.toNat < 256 := by
  simp only [isPlain, Bool.or_eq_true, Bool.and_eq_true, beq_iff_eq, decide_eq_true_eq, bne_iff_ne,
    not_or, not_and_or, not_not] at h
  rcases h.2 with hspace | rfl
  · have hlt : c.toNat < 32 := Char.not_le.mp hspace
    omega
  · decide

/-- A character is read as it is written. -/
theorem readBasic_writeChar (c : Char) (s : List Char) :
    readBasic (writeChar c ++ s) = (readBasic s).map fun (t, r) => (c :: t, r) := by
  unfold writeChar
  by_cases hself : c = '"' ∨ c = '\\'
  · rw [if_pos hself]
    rcases hself with rfl | rfl
    · exact readBasic_escape rfl
    · exact readBasic_escape rfl
  · rw [if_neg hself]
    obtain ⟨hquote, hback⟩ := not_or.mp hself
    by_cases hplain : isPlain c = true
    · rw [if_pos hplain]
      exact readBasic_plain hback hquote hplain s
    · rw [if_neg hplain]
      exact readBasic_escape (readEscape_hex (toNat_lt_of_not_isPlain hplain) s)

theorem readBasic_written (t : List Char) (s : List Char) :
    readBasic (t.flatMap writeChar ++ '"' :: s) = some (t, s) := by
  induction t with
  | nil => exact readBasic_close s
  | cons c t ih => rw [List.flatMap_cons, List.append_assoc, readBasic_writeChar, ih]; rfl

theorem exists_writeChar (c : Char) : ∃ d u, writeChar c = d :: u ∧ d ≠ '"' := by
  unfold writeChar
  by_cases hself : c = '"' ∨ c = '\\'
  · rw [if_pos hself]
    exact ⟨'\\', [c], rfl, by decide⟩
  rw [if_neg hself]
  by_cases hplain : isPlain c = true
  · rw [if_pos hplain]
    exact ⟨c, [], rfl, fun h => hself (.inl h)⟩
  · rw [if_neg hplain]
    exact ⟨'\\', _, rfl, by decide⟩

/-- A string is read as it is written, unless a quote behind it makes it look like one over more
lines. -/
theorem readString_writeString (t : String) (hr : r.head? ≠ some '"') :
    readString (writeString t ++ r) = some (t.toList, r) := by
  have hwrite : writeString t ++ r = '"' :: (t.toList.flatMap writeChar ++ '"' :: r) := by
    simp [writeString]
  rw [hwrite, readString, readBasic_written]
  intro u h
  cases hlist : t.toList with
  | nil =>
      rw [hlist] at h
      exact hr (by rw [(List.cons.inj h).2]; rfl)
  | cons c cs =>
      obtain ⟨d, w, hw, hd⟩ := exists_writeChar c
      rw [hlist, List.flatMap_cons, hw] at h
      exact hd (List.cons.inj h).1

/-! ## Gaps -/

theorem suffix_of_afterGaps {inComment : Bool} (h : afterGaps inComment s = some r) : r <:+ s := by
  fun_induction afterGaps inComment s with
  | case1 =>
      cases h
      exact List.suffix_refl _
  | case2 _ s ih => exact (ih h).trans (List.suffix_cons _ _)
  | case3 _ s ih => exact (ih h).trans ((List.suffix_cons _ _).trans (List.suffix_cons _ _))
  | case4 _ _ _ _ _ ih => exact (ih h).trans (List.suffix_cons _ _)
  | case5 => cases h
  | case6 _ _ _ _ _ _ _ ih => exact (ih h).trans (List.suffix_cons _ _)
  | case7 _ _ _ _ _ _ ih => exact (ih h).trans (List.suffix_cons _ _)
  | case8 =>
      cases h
      exact List.suffix_refl _

/-- A character that begins no gap. -/
def isSolid (c : Char) : Bool := !(isSpace c || c == '\n' || c == '\r' || c == '#')

theorem afterGaps_of_isSolid (h : isSolid c = true) (s : List Char) :
    afterGaps false (c :: s) = some (c :: s) := by
  simp only [isSolid, Bool.not_eq_true', Bool.or_eq_false_iff, beq_eq_false_iff_ne] at h
  obtain ⟨⟨⟨hspace, hfeed⟩, hreturn⟩, hhash⟩ := h
  rw [afterGaps, if_neg (by decide), hspace, if_neg (by decide), if_neg hhash]
  · exact fun h => absurd h hfeed
  · exact fun _ h => absurd h hreturn

theorem afterSpace_of_isSolid (h : isSolid c = true) (s : List Char) :
    afterSpace (c :: s) = c :: s := by
  simp only [isSolid, Bool.not_eq_true', Bool.or_eq_false_iff] at h
  exact List.dropWhile_cons_of_neg (by simp [h.1.1.1])

/-! ## Items -/

section

variable {α : Type} {item : List Char → Reading α} {close : Char} {t u : List Char} {x : α}

theorem readItems_close (hs : afterGaps false s = some (close :: r)) :
    readItems item close s = some ([], r) := by
  rw [readItems, hs]
  simp

theorem readItems_last (hs : afterGaps false s = some (c :: t)) (hc : c ≠ close)
    (hitem : item (c :: t) = some (x, u)) (hu : afterGaps false u = some (close :: r)) :
    readItems item close s = some ([x], r) := by
  rw [readItems, hs]
  simp [hc, hitem, hu]

theorem readItems_more (hs : afterGaps false s = some (c :: t)) (hc : c ≠ close)
    (hitem : item (c :: t) = some (x, u)) (hu : afterGaps false u = some (',' :: r))
    (hclose : ',' ≠ close) (hlen : r.length < s.length) {xs : List α} {rest : List Char}
    (hread : readItems item close r = some (xs, rest)) :
    readItems item close s = some (x :: xs, rest) := by
  rw [readItems, hs]
  simp [hc, hitem, hu, hclose, hlen, hread]

end

theorem readValue_writeString {depth : Nat} (t : String) (hr : r.head? ≠ some '"') :
    readValue depth (writeString t ++ r) = some (.string t, r) := by
  have hread := readString_writeString t hr
  have hwrite : writeString t ++ r = '"' :: (t.toList.flatMap writeChar ++ '"' :: r) := by
    simp [writeString]
  rw [hwrite] at hread ⊢
  rw [readValue.eq_def]
  simp [hread]

/-- A list of strings is read as it is written. -/
theorem readItems_strings {depth : Nat} (ts : List String)
    (hs : afterGaps false s = some (writeStrings ts ++ ']' :: r)) :
    readItems (readValue depth) ']' s = some (ts.map .string, r) := by
  induction ts generalizing s with
  | nil => exact readItems_close hs
  | cons t ts ih =>
      cases ts with
      | nil =>
          have hitem : readValue depth (writeString t ++ ']' :: r) = some (.string t, ']' :: r) :=
            readValue_writeString t (by simp)
          exact readItems_last hs (by decide) hitem (afterGaps_of_isSolid rfl r)
      | cons u us =>
          have hwrite : writeStrings (t :: u :: us) ++ ']' :: r =
              writeString t ++ ',' :: ' ' :: (writeStrings (u :: us) ++ ']' :: r) := by
            simp [writeStrings]
          rw [hwrite] at hs
          have hitem : readValue depth
              (writeString t ++ ',' :: ' ' :: (writeStrings (u :: us) ++ ']' :: r)) =
              some (.string t, ',' :: ' ' :: (writeStrings (u :: us) ++ ']' :: r)) :=
            readValue_writeString t (by simp)
          obtain ⟨w, hw⟩ : ∃ w, writeStrings (u :: us) ++ ']' :: r = '"' :: w := by
            cases us <;> exact ⟨_, rfl⟩
          have hnext : afterGaps false (' ' :: (writeStrings (u :: us) ++ ']' :: r)) =
              some (writeStrings (u :: us) ++ ']' :: r) := by
            rw [hw]
            exact afterGaps_of_isSolid rfl w
          refine readItems_more hs (by decide) hitem (afterGaps_of_isSolid rfl _) (by decide) ?_
            (ih hnext)
          have hlen := (suffix_of_afterGaps hs).length_le
          rw [List.length_append, List.length_cons] at hlen
          omega

/-! ## Values -/

theorem readValue_scalar {depth : Nat} {v : Value} (hs : ∀ d ∈ c :: s, endsScalar d = false)
    (hquote : c ≠ '"' ∧ c ≠ '\'') (hv : scalar? (c :: s) = some v) :
    readValue depth (c :: s ++ '\n' :: r) = some (v, '\n' :: r) := by
  have hcut := cutScalar_append_of hs (c := '\n') rfl rfl r
  have hread : readScalar (c :: s ++ '\n' :: r) = some (v, '\n' :: r) := by
    rw [readScalar, hcut, hv]
    rfl
  have hc := hs c List.mem_cons_self
  have hopen : c ≠ '[' ∧ c ≠ '\x7b' := by
    constructor <;> (rintro rfl; cases hc)
  rw [readValue.eq_def]
  simp only [List.cons_append] at hread ⊢
  rw [if_neg (not_or.mpr hquote), if_neg hopen.1, if_neg hopen.2, hread]

theorem isSolid_of_not_endsScalar (h : endsScalar c = false) : isSolid c = true := by
  simp only [endsScalar, Bool.or_eq_false_iff, List.contains_eq_mem, decide_eq_false_iff_not,
    List.mem_cons, not_or] at h
  simp [isSolid, h]

/-- A written count is digits, and there is one. -/
theorem exists_toDigits (n : Nat) : ∃ d ds, Nat.toDigits 10 n = d :: ds ∧
    ∀ c ∈ d :: ds, c.isDigit = true := by
  obtain ⟨d, ds, hds⟩ := List.exists_cons_of_ne_nil (Nat.toDigits_ne_nil (n := n) (b := 10))
  refine ⟨d, ds, hds, fun c hc => ?_⟩
  rw [← hds] at hc
  exact Nat.isDigit_of_mem_toDigits (by decide) (by decide) hc

theorem exists_write (l : Literal) : ∃ c w, l.write = c :: w ∧ isSolid c = true := by
  cases l with
  | string t => exact ⟨'"', _, rfl, rfl⟩
  | boolean b =>
      cases b
      · exact ⟨'f', _, rfl, rfl⟩
      · exact ⟨'t', _, rfl, rfl⟩
  | count n =>
      obtain ⟨d, ds, hds, hdigits⟩ := exists_toDigits n
      have hd := endsScalar_of_isDigit (hdigits d List.mem_cons_self)
      exact ⟨d, ds, hds, isSolid_of_not_endsScalar hd⟩
  | strings ts => exact ⟨'[', _, rfl, rfl⟩

/-- A value is read as it is written, up to the end of the line. -/
theorem readValue_write {depth : Nat} (l : Literal) (r : List Char) :
    readValue (depth + 1) (l.write ++ '\n' :: r) = some (l.value, '\n' :: r) := by
  cases l with
  | string t => exact readValue_writeString t (by simp)
  | boolean b =>
      cases b
      · exact readValue_scalar (by simp [endsScalar, isSpace]) (by decide) rfl
      · exact readValue_scalar (by simp [endsScalar, isSpace]) (by decide) rfl
  | count n =>
      obtain ⟨d, ds, hds, hdigits⟩ := exists_toDigits n
      have hquote : d ≠ '"' ∧ d ≠ '\'' := by
        constructor <;> (rintro rfl; cases hdigits _ List.mem_cons_self)
      show readValue _ (Nat.toDigits 10 n ++ _) = _
      rw [hds]
      exact readValue_scalar (fun c hc => endsScalar_of_isDigit (hdigits c hc)) hquote
        (hds ▸ scalar?_toDigits n)
  | strings ts =>
      have hsolid : afterGaps false (writeStrings ts ++ ']' :: '\n' :: r) =
          some (writeStrings ts ++ ']' :: '\n' :: r) := by
        rcases ts with _ | ⟨t, _ | ⟨u, us⟩⟩ <;> exact afterGaps_of_isSolid rfl _
      have hwrite : (Literal.strings ts).write ++ '\n' :: r =
          '[' :: (writeStrings ts ++ ']' :: '\n' :: r) := by
        simp [Literal.write]
      rw [hwrite, readValue.eq_def]
      simp [readItems_strings ts hsolid, Literal.value]

/-! ## Keys -/

/-- A key that needs no quotes. -/
def IsBare (key : String) : Prop := key.toList ≠ [] ∧ ∀ c ∈ key.toList, isBareChar c = true

instance : DecidablePred IsBare := fun key =>
  @instDecidableAnd _ _ inferInstance (List.decidableBAll _ key.toList)

def writePath : List String → List Char
  | [] => []
  | [key] => key.toList
  | key :: keys => key.toList ++ '.' :: writePath keys

/-- A path that can be written. -/
structure IsWritable (path : List String) : Prop where
  ne_nil : path ≠ []
  bare : ∀ key ∈ path, IsBare key
  length_le : path.length ≤ keyLimit

theorem isSolid_of_isBareChar (hc : isBareChar c = true) : isSolid c = true := by
  have hne (d : Char) (hd : isBareChar d = false) : c ≠ d := by
    rintro rfl
    rw [hc] at hd
    cases hd
  simp [isSolid, isSpace, hne, isBareChar]

theorem readKey_bare {key : String} (hkey : IsBare key) (hc : isBareChar c = false)
    (r : List Char) : readKey (key.toList ++ c :: r) = some (key, c :: r) := by
  obtain ⟨hne, hbare⟩ := hkey
  have htake : (key.toList ++ c :: r).takeWhile isBareChar = key.toList := by
    rw [List.takeWhile_append_of_pos hbare, List.takeWhile_cons_of_neg (by simp [hc]),
      List.append_nil]
  have hdrop : (key.toList ++ c :: r).dropWhile isBareChar = c :: r := by
    rw [List.dropWhile_append_of_pos hbare, List.dropWhile_cons_of_neg (by simp [hc])]
  obtain ⟨d, ds, hds⟩ := List.exists_cons_of_ne_nil hne
  have hhead (e : Char) (he : isBareChar e = false) (w : List Char) :
      key.toList ++ c :: r ≠ e :: w := by
    rw [hds]
    rintro heq
    have hd := hbare d (hds ▸ List.mem_cons_self)
    rw [(List.cons.inj heq).1, he] at hd
    cases hd
  rw [readKey, htake, hdrop]
  · simp [hne]
  · exact fun w => hhead '"' (by decide) w
  · exact fun w => hhead '\'' (by decide) w

theorem exists_writePath {path : List String} (hne : path ≠ []) (hbare : ∀ key ∈ path, IsBare key)
    (r : List Char) : ∃ c w, writePath path ++ r = c :: w ∧ isBareChar c = true := by
  obtain ⟨key, keys, rfl⟩ := List.exists_cons_of_ne_nil hne
  obtain ⟨hkey, hchars⟩ := hbare key List.mem_cons_self
  obtain ⟨d, ds, hds⟩ := List.exists_cons_of_ne_nil hkey
  have hd := hchars d (hds ▸ List.mem_cons_self)
  cases keys with
  | nil => exact ⟨d, ds ++ r, by rw [writePath, hds]; rfl, hd⟩
  | cons key' keys => exact ⟨d, _, by simp only [writePath, hds]; rfl, hd⟩

/-- The parts of a key are read as they are written. -/
theorem readKeyParts_writePath {path : List String} (hne : path ≠ [])
    (hbare : ∀ key ∈ path, IsBare key) (hc : isBareChar c = false)
    (hdot : (afterSpace (c :: r)).head? ≠ some '.') :
    readKeyParts (writePath path ++ c :: r) = some (path, c :: r) := by
  induction path with
  | nil => exact absurd rfl hne
  | cons key keys ih =>
      have hkey := hbare key List.mem_cons_self
      cases keys with
      | nil =>
          rw [writePath, readKeyParts, readKey_bare hkey hc]
          dsimp only
          split
          · rename_i w hw
            exact absurd (by rw [hw]; rfl) hdot
          · rfl
      | cons key' keys =>
          have hwrite : writePath (key :: key' :: keys) ++ c :: r =
              key.toList ++ '.' :: (writePath (key' :: keys) ++ c :: r) := by
            simp [writePath]
          have hbelow := ih (List.cons_ne_nil _ _) fun k hk => hbare k (List.mem_cons_of_mem _ hk)
          obtain ⟨d, w, hw, hd⟩ := exists_writePath (List.cons_ne_nil _ _)
            (fun k hk => hbare k (List.mem_cons_of_mem _ hk)) (c :: r)
          have hspace : afterSpace (writePath (key' :: keys) ++ c :: r) =
              writePath (key' :: keys) ++ c :: r := by
            rw [hw]
            exact afterSpace_of_isSolid (isSolid_of_isBareChar hd) w
          have hpoint := afterSpace_of_isSolid (c := '.') rfl
            (writePath (key' :: keys) ++ c :: r)
          have hlen : (writePath (key' :: keys) ++ c :: r).length <
              (key.toList ++ '.' :: (writePath (key' :: keys) ++ c :: r)).length := by
            simp only [List.length_append, List.length_cons]
            omega
          rw [hwrite, readKeyParts, readKey_bare hkey (by decide)]
          simp only [hpoint, hlen, hspace, hbelow, dif_pos, Option.map_some]

theorem readKeyPath_writePath {path : List String} (h : IsWritable path)
    (hc : isBareChar c = false) (hdot : (afterSpace (c :: r)).head? ≠ some '.') :
    readKeyPath (writePath path ++ c :: r) = some (path, c :: r) := by
  rw [readKeyPath, readKeyParts_writePath h.ne_nil h.bare hc hdot]
  simp [h.length_le]

/-! ## Lines -/

/-- A statement that can be written on a line. -/
inductive Line where
  | header (path : List String)
  | entry (path : List String) (l : Literal)

def Line.path : Line → List String
  | header path => path
  | entry path _ => path

def Line.statement : Line → Statement
  | header path => .table path
  | entry path l => .assign path l.value

def Line.write : Line → List Char
  | header path => '[' :: (writePath path ++ [']'])
  | entry path l => writePath path ++ ' ' :: '=' :: ' ' :: l.write

def writeLines : List Line → List Char
  | [] => []
  | l :: ls => l.write ++ '\n' :: writeLines ls

/-- The text of a document with these lines. -/
def documentOf (ls : List Line) : String := String.ofList (writeLines ls)

theorem readHeader_writePath {path : List String} (h : IsWritable path) (r : List Char) :
    readHeader [']'] (writePath path ++ ']' :: r) = some (path, r) := by
  have hclose := afterSpace_of_isSolid (c := ']') rfl r
  obtain ⟨d, w, hw, hd⟩ := exists_writePath h.ne_nil h.bare (']' :: r)
  have hspace : afterSpace (writePath path ++ ']' :: r) = writePath path ++ ']' :: r := by
    rw [hw]
    exact afterSpace_of_isSolid (isSolid_of_isBareChar hd) w
  rw [readHeader, hspace, readKeyPath_writePath h rfl (by rw [hclose]; simp)]
  simp only [hclose]
  rfl

theorem readPair_writePath {path : List String} (h : IsWritable path) (l : Literal)
    (r : List Char) :
    readPair (some ∘ afterSpace) (readValue nestingLimit)
      (writePath path ++ ' ' :: '=' :: ' ' :: (l.write ++ '\n' :: r)) =
        some ((path, l.value), '\n' :: r) := by
  have hsign (w : List Char) : afterSpace (' ' :: '=' :: w) = '=' :: w := rfl
  obtain ⟨c, w, hw, hc⟩ := exists_write l
  have hvalue : afterSpace (' ' :: (l.write ++ '\n' :: r)) = l.write ++ '\n' :: r := by
    rw [hw]
    exact afterSpace_of_isSolid hc (w ++ '\n' :: r)
  have hread : readValue nestingLimit (l.write ++ '\n' :: r) = some (l.value, '\n' :: r) :=
    readValue_write l r
  rw [readPair, readKeyPath_writePath h rfl (by rw [hsign]; simp)]
  simp only [Function.comp_apply, hsign, hvalue, Option.bind_some, hread, Option.map_some]

/-- A line begins with a bracket or a key. -/
theorem exists_line {l : Line} (h : IsWritable l.path) (r : List Char) :
    ∃ c w, l.write ++ r = c :: w ∧ (c = '[' ∨ isBareChar c = true) := by
  cases l with
  | header path => exact ⟨'[', _, rfl, .inl rfl⟩
  | entry path v =>
      have hpath : IsWritable path := h
      obtain ⟨c, w, hw, hc⟩ := exists_writePath hpath.ne_nil hpath.bare
        (' ' :: '=' :: ' ' :: v.write ++ r)
      refine ⟨c, w, ?_, .inr hc⟩
      rw [← hw, Line.write]
      simp

theorem readStatement_write {l : Line} (h : IsWritable l.path) (r : List Char) :
    readStatement (l.write ++ '\n' :: r) = some (l.statement, '\n' :: r) := by
  cases l with
  | header path =>
      have hpath : IsWritable path := h
      have hwrite : (Line.header path).write ++ '\n' :: r =
          '[' :: (writePath path ++ ']' :: '\n' :: r) := by
        simp [Line.write]
      obtain ⟨d, w, hw, hd⟩ := exists_writePath hpath.ne_nil hpath.bare (']' :: '\n' :: r)
      rw [hwrite, readStatement, readHeader_writePath hpath]
      · rfl
      · intro t heq
        rw [hw] at heq
        rw [(List.cons.inj heq).1] at hd
        cases hd
  | entry path v =>
      have hpath : IsWritable path := h
      have hwrite : (Line.entry path v).write ++ '\n' :: r =
          writePath path ++ ' ' :: '=' :: ' ' :: (v.write ++ '\n' :: r) := by
        simp [Line.write]
      obtain ⟨d, w, hw, hd⟩ := exists_writePath hpath.ne_nil hpath.bare
        (' ' :: '=' :: ' ' :: (v.write ++ '\n' :: r))
      have hbracket (t : List Char) :
          writePath path ++ ' ' :: '=' :: ' ' :: (v.write ++ '\n' :: r) ≠ '[' :: t := by
        rw [hw]
        intro heq
        rw [(List.cons.inj heq).1] at hd
        cases hd
      rw [hwrite, readStatement, readPair_writePath hpath]
      · rfl
      · exact fun t => hbracket ('[' :: t)
      · exact hbracket

theorem readStatements_writeLines {ls : List Line} (h : ∀ l ∈ ls, IsWritable l.path) :
    readStatements (writeLines ls) = some (ls.map Line.statement) := by
  induction ls with
  | nil =>
      rw [writeLines, readStatements]
      rfl
  | cons l ls ih =>
      have hl := h l List.mem_cons_self
      have hrest := ih fun l hl => h l (List.mem_cons_of_mem _ hl)
      obtain ⟨c, w, hw, hc⟩ := exists_line hl ('\n' :: writeLines ls)
      have hsolid : isSolid c = true := by
        rcases hc with rfl | hc
        · rfl
        · exact isSolid_of_isBareChar hc
      have hread := readStatement_write hl (writeLines ls)
      have hline : afterLine ('\n' :: writeLines ls) = some (writeLines ls) := rfl
      have hlen : (writeLines ls).length < (c :: w).length := by
        rw [← hw]
        simp only [List.length_append, List.length_cons]
        omega
      rw [writeLines, hw, readStatements, afterGaps_of_isSolid hsolid, ← hw]
      rw [hw] at hread
      simp only [hw, hread, hline, hlen, hrest, dif_pos, Option.map_some, List.map_cons]

/-- What is written is read. -/
theorem statements?_documentOf {ls : List Line} (h : ∀ l ∈ ls, IsWritable l.path) :
    statements? (documentOf ls) = some (ls.map Line.statement) := by
  have hmark : (writeLines ls).head? ≠ some '\uFEFF' := by
    cases ls with
    | nil => exact nofun
    | cons l ls =>
        obtain ⟨c, w, hw, hc⟩ := exists_line (h l List.mem_cons_self) ('\n' :: writeLines ls)
        rw [writeLines, hw]
        rintro heq
        cases heq
        revert hc
        decide
  rw [statements?, documentOf, String.toList_ofList]
  simp only [if_neg hmark, readStatements_writeLines h]

end Crossref.Toml
