import Crossref.Text.Lead
import Crossref.Text.Word
import Crossref.Script.Trivia

/-!
# Tokens

A page script is recognised by fixed sequences of tokens. A word stands only where no word character
follows; a mark stands wherever its characters do. Between two tokens of a sequence trivia may
stand, and a sequence is taken whole or not at all.
-/

namespace Crossref.Script

open Text (stripLead? stripLead?_eq_some_iff isWordChar)

inductive Token where
  | word (text : List Char)
  | mark (text : List Char)
deriving Repr, DecidableEq

namespace Token

/-- What is left behind the token, if it stands here. -/
def take? : Token → List Char → Option (List Char)
  | word w, s => (stripLead? w s).filter fun r => !r.head?.any isWordChar
  | mark m, s => stripLead? m s

/-- What is left behind the whole sequence, if it stands here. -/
def takeAll? : List Token → List Char → Option (List Char)
  | [], s => some s
  | [t], s => t.take? s
  | t :: ts, s => (t.take? s).bind fun r => takeAll? ts (afterTrivia r)

def text : Token → List Char
  | word w => w
  | mark m => m

theorem eq_append_of_take? {t : Token} {s r : List Char} (h : t.take? s = some r) :
    s = t.text ++ r := by
  cases t with
  | word w => exact stripLead?_eq_some_iff.1 (Option.filter_eq_some_iff.1 h).1
  | mark m => exact stripLead?_eq_some_iff.1 h

theorem takeAll?_suffix {ts : List Token} {s r : List Char} (h : takeAll? ts s = some r) :
    r <:+ s := by
  fun_induction takeAll? ts s with
  | case1 =>
    cases h
    exact List.suffix_refl _
  | case2 => exact ⟨_, (eq_append_of_take? h).symm⟩
  | case3 t ts s _ ih =>
    obtain ⟨u, hu, hr⟩ := Option.bind_eq_some_iff.1 h
    have hs : u <:+ s := ⟨_, (eq_append_of_take? hu).symm⟩
    exact ((ih u hr).trans (afterTrivia_suffix u)).trans hs

end Token

/-! ## The sequences of a page -/

/-- The name of the table that a page fills. -/
def tableName : List Char := ['i', 'm', 'p', 'l', 'e', 'm', 'e', 'n', 't', 'o', 'r', 's']

/-- The function that a page may be wrapped in: `(function() {`. -/
def wrapperHead : List Token :=
  [.mark ['('], .word ['f', 'u', 'n', 'c', 't', 'i', 'o', 'n'], .mark ['('], .mark [')'],
    .mark ['{']]

/-- The end of that function and its call: `})()`. -/
def wrapperTail : List Token := [.mark ['}'], .mark [')'], .mark ['('], .mark [')']]

/-- The declaration of an empty table: `var implementors = {}`. -/
def declaration : List Token :=
  [.word ['v', 'a', 'r'], .word tableName, .mark ['='], .mark ['{'], .mark ['}']]

/-- The beginning of an assignment: `implementors[`. -/
def assignmentHead : List Token := [.word tableName, .mark ['[']]

/-- The beginning of the registration of the filled table: `if (window.register_implementors)`. -/
def registration : List Token :=
  [.word ['i', 'f'], .mark ['('], .word ['w', 'i', 'n', 'd', 'o', 'w'], .mark ['.'],
    .word ['r', 'e', 'g', 'i', 's', 't', 'e', 'r', '_', 'i', 'm', 'p', 'l', 'e', 'm', 'e', 'n', 't',
      'o', 'r', 's'], .mark [')']]

end Crossref.Script
