import Crossref.Proofs.Script.Failure
import Crossref.Proofs.Script.Literal
import Crossref.Proofs.Text.Position

/-!
# What an error says of its place

A fault is told together with the text that is left where it lies, and the two
fit (`Fault.Fits`): what was found in the stead of what was expected is what
stands there, a literal that is said to be unterminated opens there, and digits
that are missed are missed behind those that stand there. There is one lemma for
each reader. A literal is read only where one is due (`Due`), and the readers of
assignments know that.

The main statement, `place_and_message_of_read`, is about the line, the column
and the words that people get to see.
-/

namespace Crossref.Script

open Text (Piece Position hexValue? readHex)

/-! ## Faults and the text at their place -/

/-- The text begins with `k` hexadecimal digits and goes on with something else,
or ends. -/
structure DigitsEnd (s : List Char) (k : Nat) : Prop where
  inside : k ≤ s.length
  digits : ∀ c ∈ s.take k, (hexValue? c).isSome = true
  stop : ∀ c ∈ s[k]?, hexValue? c = none

/-- The elements of a literal, from `s` on, come to the end of their line or of the
text before they come to the quote. -/
inductive Unclosed (quote : Char) : List Char → Prop where
  | ended : Unclosed quote []
  | backslash : Unclosed quote ['\\']
  | feed (s : List Char) : Unclosed quote ('\n' :: s)
  | raw {c : Char} {s : List Char} (hquote : c ≠ quote) (hback : c ≠ '\\') (hfeed : c ≠ '\n')
      (h : Unclosed quote s) : Unclosed quote (c :: s)
  | escape {s u : List Char} {p : Piece} (he : Escape s p u) (h : Unclosed quote u) :
      Unclosed quote ('\\' :: s)

/-- A literal opens at the beginning of the text, and is not closed. -/
def OpensUnclosed (s : List Char) : Prop :=
  ∃ quote r, (quote = '"' ∨ quote = '\'') ∧ s = quote :: r ∧ Unclosed quote r

/-- The fault is one that the text at its place has. -/
def Fault.Fits (rest : List Char) : Fault → Prop
  | missingDeclaration found => found = rest.head?
  | unexpectedStatement found => found = rest.head?
  | missingMark _ found => found = rest.head?
  | unfinishedList found => found = rest.head?
  | missingLiteral found => found = rest.head?
  | unterminatedLiteral => OpensUnclosed rest
  | unterminatedCodePoint => '}' ∉ rest
  | invalidCodePoint digits =>
    '}' ∉ digits ∧ codePoint? digits = none ∧ ∃ r, rest = digits ++ '}' :: r
  | missingHexDigits count found => ∃ k < count, DigitsEnd rest k ∧ found = rest[k]?

def Failure.Fits (f : Failure) : Prop := f.fault.Fits f.rest

/-- A literal is due where `rest` is left: in front of it stand trivia, and in
front of these the bracket or the comma that a literal follows. -/
def Due (source rest : List Char) : Prop :=
  ∃ m s, (m = '[' ∨ m = ',') ∧ m :: s <:+ source ∧ Trivia s rest

/-- What a failure says of the source. -/
structure Failure.Reports (source : List Char) (f : Failure) : Prop where
  suffix : f.rest <:+ source
  fits : f.Fits
  due : f.fault = .unterminatedLiteral → Due source f.rest

variable {source s : List Char} {f : Failure}

/-! ## Literals -/

theorem digitsEnd_cons {c : Char} {d k : Nat} (hc : hexValue? c = some d) (h : DigitsEnd s k) :
    DigitsEnd (c :: s) (k + 1) where
  inside := Nat.succ_le_succ h.inside
  digits := by
    rw [List.take_succ_cons, List.forall_mem_cons]
    exact ⟨by rw [hc, Option.isSome_some], h.digits⟩
  stop := by
    rw [List.getElem?_cons_succ]
    exact h.stop

theorem digitsEnd_of_readHex {count high : Nat} {t : List Char}
    (h : readHex count high s = .error t) :
    ∃ k < count, DigitsEnd s k ∧ t = s.drop k := by
  fun_induction readHex count high s with
  | case1 => cases h
  | case2 count =>
      cases h
      exact ⟨0, Nat.succ_pos _, ⟨Nat.le_refl _, by simp, by simp⟩, rfl⟩
  | case3 high count c s d hd ih =>
      obtain ⟨k, hk, hend, rfl⟩ := ih h
      exact ⟨k + 1, Nat.succ_lt_succ hk, digitsEnd_cons hd hend, rfl⟩
  | case4 high count c s hd =>
      cases h
      exact ⟨0, Nat.succ_pos _, ⟨Nat.zero_le _, by simp, by simpa using hd⟩, rfl⟩

theorem fits_of_readDigits {count : Nat} (h : readDigits count s = .error f) :
    f.Fits ∧ f.fault ≠ .unterminatedLiteral := by
  unfold readDigits at h
  split at h
  · cases h
  · rename_i t ht
    cases h
    obtain ⟨k, hk, hend, rfl⟩ := digitsEnd_of_readHex ht
    exact ⟨⟨k, hk, hend, List.head?_drop⟩, by simp⟩

theorem fits_of_readUnicode (h : readUnicode s = .error f) :
    f.Fits ∧ f.fault ≠ .unterminatedLiteral := by
  unfold readUnicode at h
  split at h
  · rename_i s
    split at h
    · rename_i hnone
      cases h
      rw [List.dropWhile_eq_nil_iff] at hnone
      exact ⟨fun hmem => by simpa using hnone '}' hmem, by simp⟩
    · rename_i d r hd
      dsimp only at h
      split at h
      · cases h
      · rename_i hvalue
        cases h
        have hclose : '}' ∉ s.takeWhile (· != '}') := fun hmem => by
          simpa using List.mem_takeWhile_imp hmem
        have hbrace : d = '}' := by
          have := List.head?_dropWhile_not (· != '}') s
          rw [hd] at this
          simpa using this
        refine ⟨⟨hclose, hvalue, r, ?_⟩, by simp⟩
        subst hbrace
        rw [← hd, List.takeWhile_append_dropWhile]
  · split at h
    · cases h
    · rename_i hread
      cases h
      exact fits_of_readDigits hread

theorem fits_of_readEscape {c : Char} (h : readEscape c s = .error f) :
    f.Fits ∧ f.fault ≠ .unterminatedLiteral := by
  unfold readEscape at h
  split at h
  · split at h
    · cases h
    · rename_i hread
      cases h
      exact fits_of_readDigits hread
  · split at h
    · exact fits_of_readUnicode h
    · split at h
      · cases h
      · split at h
        · split at h <;> cases h
        · cases h

/-- Either the literal itself is at fault, or one of its escapes. -/
theorem unclosed_or_fits_of_readPieces {quote : Char} {opening : List Char}
    (h : readPieces quote opening s = .error f) :
    f = ⟨.unterminatedLiteral, opening⟩ ∧ Unclosed quote s ∨
      f.Fits ∧ f.fault ≠ .unterminatedLiteral := by
  fun_induction readPieces quote opening s generalizing f with
  | case1 =>
      cases h
      exact .inl ⟨rfl, .ended⟩
  | case2 =>
      cases h
      exact .inl ⟨rfl, .backslash⟩
  | case3 c r g hg =>
      cases h
      exact .inr (fits_of_readEscape hg)
  | case4 c r p u hp g hg ih =>
      cases h
      rcases ih hg with ⟨heq, hopen⟩ | hfits
      · exact .inl ⟨heq, .escape (escape_of_readEscape hp) hopen⟩
      · exact .inr hfits
  | case5 => cases h
  | case6 =>
      cases h
      exact .inl ⟨rfl, .feed _⟩
  | case7 => cases h
  | case8 c r hlast hback hfeed hquote g hg ih =>
      cases h
      rcases ih hg with ⟨heq, hopen⟩ | hfits
      · refine .inl ⟨heq, .raw hquote (fun hc => ?_) hfeed hopen⟩
        cases r with
        | nil => exact hlast hc rfl
        | cons d r => exact hback d r hc rfl
      · exact .inr hfits
  | case9 => cases h

theorem fits_of_readLiteral (h : readLiteral s = .error f) :
    f.Fits ∧ (f.fault = .unterminatedLiteral → f.rest = s) := by
  unfold readLiteral at h
  split at h
  · rename_i c r
    split at h
    · rename_i hquote
      split at h
      · cases h
      · rename_i hread
        cases h
        rcases unclosed_or_fits_of_readPieces hread with ⟨rfl, hopen⟩ | ⟨hfits, hne⟩
        · exact ⟨⟨c, r, hquote, rfl, hopen⟩, fun _ => rfl⟩
        · exact ⟨hfits, fun heq => absurd heq hne⟩
    · cases h
      exact ⟨rfl, by simp⟩
  · cases h
    exact ⟨rfl, by simp⟩

/-! ## Assignments -/

theorem reports_of_readLiteral {m : Char} (hm : m = '[' ∨ m = ',') (hs : m :: s <:+ source)
    (h : readLiteral (afterTrivia s) = .error f) : f.Reports source := by
  have hsuffix : s <:+ source := (List.suffix_cons m s).trans hs
  obtain ⟨hfits, hrest⟩ := fits_of_readLiteral h
  refine ⟨?_, hfits, fun hfault => ⟨m, s, hm, hs, ?_⟩⟩
  · exact (rest_suffix_of_readLiteral h).trans ((afterTrivia_suffix s).trans hsuffix)
  · rw [hrest hfault]
    exact trivia_afterTrivia s

theorem reports_of_readMark {m : Char} (hs : s <:+ source) (h : readMark m s = .error f) :
    f.Reports source := by
  have hsuffix := (rest_suffix_of_readMark h).trans hs
  unfold readMark at h
  split at h
  · cases h
    exact ⟨hsuffix, rfl, fun hfault => by cases hfault⟩
  · split at h
    · cases h
    · cases h
      exact ⟨hsuffix, rfl, fun hfault => by cases hfault⟩

theorem cons_suffix_of_readMark {m : Char} {r : List Char} (h : readMark m s = .ok r) :
    m :: r <:+ s := by
  have hs := afterTrivia_suffix s
  unfold readMark at h
  split at h
  · cases h
  · rename_i c t ht
    split at h
    · rename_i hc
      cases h
      rwa [ht, hc] at hs
    · cases h

theorem reports_of_readList {m : Char} (hm : m = '[' ∨ m = ',') (hs : m :: s <:+ source)
    (h : readList s = .error f) : f.Reports source := by
  fun_induction readList s generalizing m f with
  | case1 => cases h
  | case2 s _ g hg =>
      cases h
      exact reports_of_readLiteral hm hs hg
  | case3 s x u v hu g hg _ ht ih =>
      cases h
      have hu' : u <:+ s := (suffix_of_readLiteral ht).1.trans (afterTrivia_suffix s)
      have hv : ',' :: v <:+ u := hu ▸ afterTrivia_suffix u
      exact ih (.inr rfl) (hv.trans (hu'.trans ((List.suffix_cons m s).trans hs))) hg
  | case4 => cases h
  | case5 => cases h
  | case6 s x u _ ht =>
      cases h
      have hu' : u <:+ s := (suffix_of_readLiteral ht).1.trans (afterTrivia_suffix s)
      have hsuffix := (afterTrivia_suffix u).trans (hu'.trans ((List.suffix_cons m s).trans hs))
      exact ⟨hsuffix, rfl, fun hfault => by cases hfault⟩

theorem reports_of_readAssignment (hs : '[' :: s <:+ source) (h : readAssignment s = .error f) :
    f.Reports source := by
  have hs' : s <:+ source := (List.suffix_cons '[' s).trans hs
  rcases bind_eq_error.mp h with h | ⟨⟨unit, r₁⟩, h₁, h⟩
  · exact reports_of_readLiteral (.inl rfl) hs h
  have hr₁ := (suffix_of_readLiteral h₁).1.trans ((afterTrivia_suffix s).trans hs')
  rcases bind_eq_error.mp h with h | ⟨r₂, h₂, h⟩
  · exact reports_of_readMark hr₁ h
  have hr₂ := (suffix_of_readMark h₂).trans hr₁
  rcases bind_eq_error.mp h with h | ⟨r₃, h₃, h⟩
  · exact reports_of_readMark hr₂ h
  have hr₃ := (suffix_of_readMark h₃).trans hr₂
  rcases bind_eq_error.mp h with h | ⟨r₄, h₄, h⟩
  · exact reports_of_readMark hr₃ h
  have hr₄ := (cons_suffix_of_readMark h₄).trans hr₃
  rcases bind_eq_error.mp h with h | ⟨⟨list, r₅⟩, h₅, h⟩
  · exact reports_of_readList (.inl rfl) hr₄ h
  · cases h

/-! ## The whole table -/

/-- The beginning of an assignment ends in its bracket. -/
theorem cons_suffix_of_takeAll?_assignmentHead {r : List Char}
    (h : Token.takeAll? assignmentHead s = some r) : '[' :: r <:+ s := by
  obtain ⟨u, hu, hr⟩ := Option.bind_eq_some_iff.mp h
  have hbracket : afterTrivia u = '[' :: r := Token.eq_append_of_take? hr
  have hs : u <:+ s := ⟨_, (Token.eq_append_of_take? hu).symm⟩
  exact hbracket ▸ (afterTrivia_suffix u).trans hs

theorem reports_of_readAssignments {strict : Bool} (hs : s <:+ source)
    (h : readAssignments strict s = .error f) : f.Reports source := by
  fun_induction readAssignments strict s generalizing f with
  | case1 => cases h
  | case2 s c t ht u hu g hg =>
      cases h
      have hu' := (cons_suffix_of_takeAll?_assignmentHead hu).trans (ht ▸ afterTrivia_suffix s)
      exact reports_of_readAssignment (hu'.trans hs) hg
  | case3 s c t ht u hu a v ha g hg ih =>
      cases h
      have hu' := (Token.takeAll?_suffix hu).trans (ht ▸ afterTrivia_suffix s)
      exact ih ((suffix_of_readAssignment ha).1.trans (hu'.trans hs)) hg
  | case4 => cases h
  | case5 => cases h
  | case6 s c t ht =>
      cases h
      exact ⟨(ht ▸ afterTrivia_suffix s).trans hs, rfl, fun hfault => by cases hfault⟩
  | case7 s c t ht _ _ _ ih =>
      exact ih ((afterStatement_suffix (c :: t)).trans ((ht ▸ afterTrivia_suffix s).trans hs)) h

theorem reports_of_readScript {strict : Bool} (h : readScript strict source = .error f) :
    f.Reports source := by
  have hbody : afterTrivia ((Token.takeAll? wrapperHead (afterTrivia source)).getD
      (afterTrivia source)) <:+ source := by
    refine (afterTrivia_suffix _).trans ?_
    cases hhead : Token.takeAll? wrapperHead (afterTrivia source) with
    | none => exact afterTrivia_suffix source
    | some r => exact (Token.takeAll?_suffix hhead).trans (afterTrivia_suffix source)
  unfold readScript at h
  dsimp only at h
  split at h
  · rename_i r hr
    have hr' := (afterSemicolon_suffix r).trans ((Token.takeAll?_suffix hr).trans hbody)
    exact reports_of_readAssignments hr' h
  · split at h
    · cases h
      exact ⟨hbody, rfl, fun hfault => by cases hfault⟩
    · exact reports_of_readAssignments hbody h

/-! ## Messages -/

/-- The words for missing digits. -/
def digitsMessage (count : Nat) (found : String) : String :=
  "expected " ++ toString count ++ " hex digits, found " ++ found

/-- What the message of an error at the offset `o` says of the source. -/
structure Told (source : List Char) (o : Nat) (message : String) : Prop where
  literal : message = "unterminated string literal" →
    OpensUnclosed (source.drop o) ∧ Due source (source.drop o)
  statement : ∀ found, message = "unexpected statement starting with " ++ found →
    found = describe source[o]?
  expected : ∀ words, message = "expected" ++ words →
    (∀ count found, message ≠ digitsMessage count found) →
      ∃ what, message = what ++ "found " ++ describe source[o]?
  digits : ∀ count found, message = digitsMessage count found →
    ∃ k < count, DigitsEnd (source.drop o) k ∧ found = describe source[o + k]?

/-- A decimal number begins with a digit. -/
theorem toDigits_append_ne_cons {n : Nat} {c : Char} (hc : c.isDigit = false)
    (s t : List Char) : Nat.toDigits 10 n ++ s ≠ c :: t := by
  intro h
  obtain ⟨d, ds, hds⟩ := List.exists_cons_of_ne_nil (Nat.toDigits_ne_nil (n := n) (b := 10))
  have hmem : d ∈ Nat.toDigits 10 n := hds ▸ List.mem_cons_self
  have hdigit : d.isDigit = true := Nat.isDigit_of_mem_toDigits (by decide) (by decide) hmem
  rw [hds] at h
  rw [(List.cons.inj h).1, hc] at hdigit
  cases hdigit

theorem toList_digitsMessage (count : Nat) (found : String) :
    (digitsMessage count found).toList =
      "expected ".toList ++
        (Nat.toDigits 10 count ++ ' ' :: ("hex digits, found " ++ found).toList) := by
  simp [digitsMessage]

/-- A number ends in front of a blank. -/
theorem takeWhile_toDigits (n : Nat) (s : List Char) :
    (Nat.toDigits 10 n ++ ' ' :: s).takeWhile Char.isDigit = Nat.toDigits 10 n := by
  have hdigits : ∀ c ∈ Nat.toDigits 10 n, c.isDigit = true := fun c hc =>
    Nat.isDigit_of_mem_toDigits (by decide) (by decide) hc
  rw [List.takeWhile_append_of_pos hdigits, List.takeWhile_cons_of_neg (by decide), List.append_nil]

theorem digitsMessage_inj {m n : Nat} {x y : String} (h : digitsMessage m x = digitsMessage n y) :
    m = n ∧ x = y := by
  have hlists := congrArg String.toList h
  rw [toList_digitsMessage, toList_digitsMessage, List.append_cancel_left_eq] at hlists
  have hcount : Nat.toDigits 10 m = Nat.toDigits 10 n := by
    rw [← takeWhile_toDigits m, hlists, takeWhile_toDigits]
  refine ⟨?_, ?_⟩
  · rw [← Nat.ofDigitChars_ten_toDigits (n := m), hcount, Nat.ofDigitChars_ten_toDigits]
  · rw [hcount, List.append_cancel_left_eq, List.cons.injEq, String.toList_append,
      String.toList_append, List.append_cancel_left_eq] at hlists
    exact String.toList_inj.mp hlists.2

variable {o : Nat} {message : String}

/-- Something that is no number was expected at the offset. -/
theorem Told.of_expected (c : Char) (words : List Char) {what : String} (hc : c.isDigit = false)
    (hwhat : what.toList = "expected ".toList ++ c :: words ++ "found ".toList)
    (h : message = what ++ describe source[o]?) : Told source o message where
  literal hm := by
    have hlists := congrArg String.toList (h.symm.trans hm)
    rw [String.toList_append, hwhat] at hlists
    simp at hlists
  statement found hm := by
    have hlists := congrArg String.toList (h.symm.trans hm)
    rw [String.toList_append, hwhat] at hlists
    simp at hlists
  expected _ _ _ := by
    refine ⟨String.ofList ("expected ".toList ++ c :: words), ?_⟩
    rw [h, ← String.toList_inj, String.toList_append, hwhat]
    simp
  digits count found hm := by
    have hlists := congrArg String.toList (h.symm.trans hm)
    rw [String.toList_append, hwhat, toList_digitsMessage] at hlists
    simp only [List.append_assoc, List.append_cancel_left_eq] at hlists
    exact absurd hlists.symm (toDigits_append_ne_cons hc _ _)

theorem Told.of_statement
    (h : message = "unexpected statement starting with " ++ describe source[o]?) :
    Told source o message where
  literal hm := by
    have hlists := congrArg String.toList (h.symm.trans hm)
    simp at hlists
  statement found hm := by
    have hlists := congrArg String.toList (h.symm.trans hm)
    rw [String.toList_append, String.toList_append, List.append_cancel_left_eq] at hlists
    exact (String.toList_inj.mp hlists).symm
  expected words hm := by
    have hlists := congrArg String.toList (h.symm.trans hm)
    simp at hlists
  digits count found hm := by
    have hlists := congrArg String.toList (h.symm.trans hm)
    rw [toList_digitsMessage] at hlists
    simp at hlists

theorem Told.of_digits {count k : Nat} (hk : k < count) (hend : DigitsEnd (source.drop o) k)
    (h : message = digitsMessage count (describe source[o + k]?)) : Told source o message where
  literal hm := by
    have hlists := congrArg String.toList (h.symm.trans hm)
    rw [toList_digitsMessage] at hlists
    simp at hlists
  statement found hm := by
    have hlists := congrArg String.toList (h.symm.trans hm)
    rw [toList_digitsMessage] at hlists
    simp at hlists
  expected words _ hother := absurd h (hother _ _)
  digits count' found hm := by
    obtain ⟨rfl, rfl⟩ := digitsMessage_inj (h.symm.trans hm)
    exact ⟨k, hk, hend, rfl⟩

theorem Told.of_unclosed (hopen : OpensUnclosed (source.drop o)) (hdue : Due source (source.drop o))
    (h : message = "unterminated string literal") : Told source o message where
  literal _ := ⟨hopen, hdue⟩
  statement found hm := by
    have hlists := congrArg String.toList (h.symm.trans hm)
    simp at hlists
  expected words hm := by
    have hlists := congrArg String.toList (h.symm.trans hm)
    simp at hlists
  digits count found hm := by
    have hlists := congrArg String.toList (h.symm.trans hm)
    rw [toList_digitsMessage] at hlists
    simp at hlists

/-- Messages with other words say nothing about what stands at the offset. -/
theorem Told.of_other (words : List Char)
    (h : message.toList = "unterminated `".toList ++ words ∨ message.toList = 'i' :: words) :
    Told source o message where
  literal hm := by
    rw [hm] at h
    rcases h with h | h <;> simp at h
  statement found hm := by
    rw [hm] at h
    rcases h with h | h <;> simp at h
  expected words hm := by
    rw [hm] at h
    rcases h with h | h <;> simp at h
  digits count found hm := by
    rw [hm, toList_digitsMessage] at h
    rcases h with h | h <;> simp at h

/-- What a failure reports is what its message tells. -/
theorem Failure.Reports.told {fault : Fault}
    (h : (Failure.mk fault (source.drop o)).Reports source) : Told source o fault.message := by
  obtain ⟨-, hfits, hdue⟩ := h
  change fault.Fits (source.drop o) at hfits
  cases fault with
  | missingDeclaration found =>
      obtain rfl : found = source[o]? := hfits.trans List.head?_drop
      exact .of_expected '\x60' "var implementors = \x7b\x7d;`, ".toList (by decide) (by decide) rfl
  | unexpectedStatement found =>
      obtain rfl : found = source[o]? := hfits.trans List.head?_drop
      exact .of_statement rfl
  | missingMark mark found =>
      obtain rfl : found = source[o]? := hfits.trans List.head?_drop
      exact .of_expected '\x60' (mark :: "`, ".toList) (by decide) (by simp) rfl
  | unfinishedList found =>
      obtain rfl : found = source[o]? := hfits.trans List.head?_drop
      exact .of_expected '\x60' ",` or `]`, ".toList (by decide) (by decide) rfl
  | missingLiteral found =>
      obtain rfl : found = source[o]? := hfits.trans List.head?_drop
      exact .of_expected 's' "tring literal, ".toList (by decide) (by decide) rfl
  | unterminatedLiteral => exact .of_unclosed hfits (hdue rfl) rfl
  | unterminatedCodePoint => exact .of_other "\\u\x7b...\x7d` escape".toList (.inl rfl)
  | invalidCodePoint digits =>
      refine .of_other ("nvalid unicode escape `".toList ++ digits ++ "`".toList) (.inr ?_)
      change String.toList ("invalid unicode escape `" ++ String.ofList digits ++ "`") = _
      simp
  | missingHexDigits count found =>
      obtain ⟨k, hk, hend, hfound⟩ := hfits
      rw [List.getElem?_drop] at hfound
      exact .of_digits hk hend (by rw [← hfound]; rfl)

/-- The line and the column of an error belong to one offset into the source, and
what the message says of the source holds there: a literal that is not closed
opens at the offset, where a literal is due; what was found in the stead of what
was expected is the character at the offset, or the end; and digits are missed at
the first of the characters from there on that is none. -/
theorem place_and_message_of_read {strict : Bool} {source : String} {e : Error}
    (h : read strict source = .error e) :
    (∃! o, e.position.IsAt source.toList o) ∧
      ∀ o, e.position.IsAt source.toList o → Told source.toList o e.fault.message := by
  unfold read at h
  split at h
  · cases h
  · rename_i f hf
    cases h
    have hreports := reports_of_readScript hf
    have hplace : (Position.ofRest source.toList f.rest).IsAt source.toList _ :=
      Position.isAt_ofRest source.toList f.rest
    have hrest := List.suffix_iff_eq_drop.mp hreports.suffix
    refine ⟨⟨_, hplace, fun o ho => ho.unique hplace⟩, fun o ho => ?_⟩
    rw [ho.unique hplace]
    apply Failure.Reports.told
    rw [← hrest]
    exact hreports

/-- An escape with too few digits on the second line, and a literal that runs into
the end of its line. -/
theorem place_and_message_of_read_second_line :
    let digits := "implementors['ä'] =\n['x\\u12'];"
    let literal := "var implementors = \x7b\x7d;\nimplementors['a"
    read false digits = .error ⟨⟨2, 6⟩, .missingHexDigits 4 (some '\'')⟩ ∧
      (∃! o, Position.IsAt ⟨2, 6⟩ digits.toList o) ∧
      (∀ o, Position.IsAt ⟨2, 6⟩ digits.toList o →
        Told digits.toList o "expected 4 hex digits, found `'`") ∧
      read true literal = .error ⟨⟨2, 14⟩, .unterminatedLiteral⟩ ∧
      (∀ o, Position.IsAt ⟨2, 14⟩ literal.toList o →
        Told literal.toList o "unterminated string literal") := by
  intro digits literal
  have hdigits : read false digits = .error ⟨⟨2, 6⟩, .missingHexDigits 4 (some '\'')⟩ := by
    decide +kernel
  have hliteral : read true literal = .error ⟨⟨2, 14⟩, .unterminatedLiteral⟩ := by decide +kernel
  obtain ⟨hplace, htold⟩ := place_and_message_of_read hdigits
  exact ⟨hdigits, hplace, htold, hliteral, (place_and_message_of_read hliteral).2⟩

end Crossref.Script
