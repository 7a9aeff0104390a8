import Crossref.Script.Page
import Crossref.Proofs.Text.Offset

/-!
# A scanner that watches its bounds

The readers of a page pass on the text that is left. A scanner keeps the whole source and one offset
into it, in bytes; it looks ahead, goes back, and computes with offsets and code points. This module
has the same parser in that form, and every step that could leave its bounds is watched: a step that
does halts with a `Breach` and not with an `Error` of the page.

* An offset, also one that is only looked at, must cut the source (`Scan.cut`); `Scan.moveTo` is the
  only step that changes the offset.
* A loop gets as many laps as characters are left, and one more to end in; a lap that does not end
  the loop must leave the offset further right (`Scan.laps`).
* A difference must not be negative (`Scan.minus`), a code point and what leads to it must fit into
  32 bits (`Scan.word`), and a bracket is closed only where one is open (`Scan.lower`).

That the scanner does what the readers do, and hence never breaches, is the subject of `Bounds`.
-/

namespace Crossref.Script

open Text (bytes cutAt? hexValue? isBlank isHighSurrogate isLowSurrogate isWordChar scalar
  stripLead?)

inductive Breach where
  | offset
  | lap
  | depth
  | number
deriving Repr, DecidableEq

/-- Why a scanner stops early. -/
inductive Halt where
  | error (e : Error)
  | breach (b : Breach)
deriving Repr, DecidableEq

/-- The token that is written by the given characters: a word if all of them are word characters,
else a mark. -/
def Token.ofText (text : List Char) : Token :=
  if text.all isWordChar then .word text else .mark text

/-- A part of the scanner. It reads the source, and the offset outlives a halt. -/
abbrev Scan := ReaderT (List Char) (EStateM Halt Nat)

namespace Scan

variable {α β σ : Type}

/-! ## Offsets and numbers -/

def source : Scan (List Char) := MonadReader.read

/-- The source before and behind an offset. -/
def cut (n : Nat) : Scan (List Char × List Char) := do
  match cutAt? (← source) n with
  | some parts => return parts
  | none => throw (.breach .offset)

/-- The text behind the offset. -/
def rest : Scan (List Char) := do
  let (_, behind) ← cut (← get)
  return behind

/-- The next `size` bytes of text. -/
def upTo (size : Nat) : Scan (List Char) := do
  match cutAt? (← rest) size with
  | some (before, _) => return before
  | none => throw (.breach .offset)

def moveTo (n : Nat) : Scan Unit := do
  let _ ← cut n
  set n

example : moveTo 1 ['é'] 0 = .error (.breach .offset) 0 := by rfl

def advance (count : Nat) : Scan Unit := do
  moveTo ((← get) + count)

/-- Halts with a fault that lies at the offset `n`. -/
def failAt (n : Nat) (fault : Fault) : Scan α := do
  let (before, _) ← cut n
  throw (.error ⟨.after before, fault⟩)

def fail (fault : Fault) : Scan α := do
  failAt (← get) fault

def minus (m n : Nat) : Scan Nat :=
  if n ≤ m then return m - n else throw (.breach .number)

/-- A number of 32 bits. -/
def word (n : Nat) : Scan Nat :=
  if n < UInt32.size then return n else throw (.breach .number)

/-- One open bracket less. -/
def lower : (depth : Nat) → Scan Nat
  | 0 => throw (.breach .depth)
  | depth + 1 => return depth

/-- What `m` gives, or nothing where it meets a fault of the page. -/
def attempt (m : Scan α) : Scan (Option α) :=
  tryCatch (some <$> m) fun
    | .error _ => return none
    | .breach b => throw (.breach b)

/-! ## Loops -/

/-- Goes round until a lap ends the loop with a result; `left` laps may do otherwise. -/
def laps (lap : σ → Scan (σ ⊕ β)) : (left : Nat) → σ → Scan β
  | 0, x => do
    match ← lap x with
    | .inr y => return y
    | .inl _ => throw (.breach .lap)
  | left + 1, x => do
    let start ← get
    match ← lap x with
    | .inr y => return y
    | .inl x => if start < (← get) then laps lap left x else throw (.breach .lap)

def loop (lap : σ → Scan (σ ⊕ β)) (x : σ) : Scan β := do
  laps lap (← rest).length x

example : loop (fun _ : Unit => (return .inl () : Scan (Unit ⊕ Unit))) () ['a'] 0 =
    .error (.breach .lap) 0 := by rfl

/-! ## Characters and tokens -/

def peek : Scan (Option Char) := do
  return (← rest).head?

def bump : Scan (Option Char) := do
  match ← peek with
  | some c =>
    advance c.utf8Size
    return some c
  | none => return none

def atEnd : Scan Bool := do
  return decide (bytes (← source) ≤ (← get))

/-- Takes the characters `mark` if they come next. -/
def eat (mark : List Char) : Scan Bool := do
  match stripLead? mark (← rest) with
  | some _ =>
    advance (bytes mark)
    return true
  | none => return false

/-- Takes the word if it comes next and could not go on. -/
def eatWord (word : List Char) : Scan Bool := do
  match stripLead? word (← rest) with
  | some behind =>
    if behind.head?.any isWordChar then return false
    else
      advance (bytes word)
      return true
  | none => return false

/-- The number of bytes before the first `mark`, if there is one. -/
def find? (mark : List Char) : List Char → Option Nat
  | [] => if mark = [] then some 0 else none
  | c :: s =>
    if (stripLead? mark (c :: s)).isSome then some 0 else (find? mark s).map (c.utf8Size + ·)

/-- Skips blanks and gives what is left. -/
def skipBlanks : Scan (List Char) := do
  let rest ← rest
  let trimmed := rest.dropWhile isBlank
  advance (← minus (bytes rest) (bytes trimmed))
  return trimmed

/-- Skips the line comment that `s` begins with, up to its line feed. -/
def skipLine (s : List Char) : Scan Unit :=
  advance ((find? ['\n'] s).getD (bytes s))

/-- Skips the block comment that has `body` behind its opening. -/
def skipBlock (body : List Char) : Scan Unit := do
  match find? ['*', '/'] body with
  | some size => advance (size + 4)
  | none => moveTo (bytes (← source))

/-- One round of skipping blanks and at most one comment. -/
def triviaLap (_ : Unit) : Scan (Unit ⊕ Unit) := do
  let trimmed ← skipBlanks
  if (stripLead? ['/', '/'] trimmed).isSome then
    skipLine trimmed
    return .inl ()
  else
    match stripLead? ['/', '*'] trimmed with
    | some body =>
      skipBlock body
      return .inl ()
    | none => return .inr ()

def skipTrivia : Scan Unit := loop triviaLap ()

/-- Takes the token with the given characters (`Token.ofText`). -/
def eatToken (text : List Char) : Scan Bool :=
  if text.all isWordChar then eatWord text else eat text

/-- Takes the tokens that are left of a sequence, or goes back to where the sequence began. -/
def eatFrom (start : Nat) : List (List Char) → Scan Bool
  | [] => return true
  | text :: texts => do
    if ← eatToken text then
      if texts = [] then return true
      else
        skipTrivia
        eatFrom start texts
    else
      moveTo start
      return false

/-- Takes a sequence of tokens with trivia between them, or nothing. -/
def eatAll (texts : List (List Char)) : Scan Bool := do
  eatFrom (← get) texts

/-- Takes the mark `m`, with trivia before it. -/
def expect (m : Char) : Scan Unit := do
  skipTrivia
  if ← eat [m] then return ()
  else fail (.missingMark m (← peek))

/-! ## Statements -/

def quotedLap (quote : Char) (_ : Unit) : Scan (Unit ⊕ Unit) := do
  match ← bump with
  | none => return .inr ()
  | some c =>
    if c = '\\' then
      let _ ← bump
      return .inl ()
    else if c = '\n' ∧ quote ≠ '\x60' then return .inr ()
    else if c = quote then return .inr ()
    else return .inl ()

def skipQuoted (quote : Char) : Scan Unit := do
  let _ ← bump
  loop (quotedLap quote) ()

/-- Closes the bracket `c`, if one is open. -/
def closeBracket (depth : Nat) (c : Char) : Scan (Nat ⊕ Unit) :=
  if depth = 0 then return .inr ()
  else do
    let depth ← lower depth
    let _ ← bump
    if depth = 0 ∧ c = '}' then
      let _ ← eat [';']
      return .inr ()
    else return .inl depth

/-- Goes on from the character `c`, which `s` follows. -/
def stepOver (depth : Nat) (c : Char) (s : List Char) : Scan (Nat ⊕ Unit) :=
  if startsComment (c :: s) then do
    skipTrivia
    return .inl depth
  else if isQuote c then do
    skipQuoted c
    return .inl depth
  else if isOpening c then do
    let _ ← bump
    return .inl (depth + 1)
  else if isClosing c then closeBracket depth c
  else do
    let _ ← bump
    if c = ';' ∧ depth = 0 then return .inr ()
    else return .inl depth

def statementLap (depth : Nat) : Scan (Nat ⊕ Unit) := do
  match ← rest with
  | [] => return .inr ()
  | c :: s => stepOver depth c s

/-- Skips one statement; stops in front of a closing bracket that nothing opened. -/
def skipStatement : Scan Unit := loop statementLap 0

/-! ## Literals -/

/-- Adds `left` digits to the number `code`, or goes back to where the digits began. -/
def digitsFrom (start count : Nat) : (left code : Nat) → Scan Nat
  | 0, code => return code
  | left + 1, code => do
    match (← peek).bind hexValue? with
    | some d =>
      let code ← word ((← word (code * 16)) + d)
      let _ ← bump
      digitsFrom start count left code
    | none =>
      let found ← peek
      moveTo start
      fail (.missingHexDigits count found)

def digits (count : Nat) : Scan Nat := do
  digitsFrom (← get) count count 0

/-- The low surrogate that another escape writes, if one does. -/
def lowSurrogate : Scan (Option Nat) := do
  if ← eat ['\\', 'u'] then
    return (← attempt (digits 4)).filter isLowSurrogate
  else return none

def codePoint : Scan Char := do
  let start ← get
  match find? ['}'] (← rest) with
  | none => fail .unterminatedCodePoint
  | some size =>
    let digits ← upTo size
    match codePoint? digits with
    | none => failAt start (.invalidCodePoint digits)
    | some n =>
      let n ← word n
      moveTo (start + size + 1)
      return scalar n

/-- The character of a high surrogate, and of the low one behind it. -/
def pairFrom (high : Nat) : Scan Char := do
  let resume ← get
  match ← lowSurrogate with
  | some low =>
    let high ← word ((← minus high 0xD800) * 0x400)
    let low ← minus low 0xDC00
    return scalar (← word ((← word (0x10000 + high)) + low))
  | none =>
    moveTo resume
    return '\uFFFD'

/-- What follows `\u`, two escapes that make a pair taken together. -/
def unicodeEscape : Scan Char := do
  if ← eat ['{'] then codePoint
  else
    let n ← digits 4
    if isHighSurrogate n then pairFrom n else return scalar n

/-- What follows a backslash in the literal that begins at `opening`, put behind `text`. -/
def escape (opening : Nat) (text : List Char) : Scan (List Char) := do
  match ← bump with
  | none => failAt opening .unterminatedLiteral
  | some c =>
    if c = 'x' then
      return text ++ [scalar (← digits 2)]
    else if c = 'u' then
      return text ++ [← unicodeEscape]
    else if c = '\n' ∨ c = '\u2028' ∨ c = '\u2029' then return text
    else if c = '\r' then
      let _ ← eat ['\n']
      return text
    else return text ++ [(shortEscape? c).getD c]

def literalLap (quote : Char) (opening : Nat) (text : List Char) :
    Scan (List Char ⊕ List Char) := do
  match ← bump with
  | none => failAt opening .unterminatedLiteral
  | some c =>
    if c = '\n' then failAt opening .unterminatedLiteral
    else if c = quote then return .inr text
    else if c = '\\' then return .inl (← escape opening text)
    else return .inl (text ++ [c])

def literal : Scan String := do
  let opening ← get
  match ← peek with
  | none => fail (.missingLiteral none)
  | some quote =>
    if quote = '"' ∨ quote = '\'' then
      let _ ← bump
      return String.ofList (← loop (literalLap quote opening) [])
    else fail (.missingLiteral (some quote))

/-! ## Pages -/

/-- Takes an item and what follows it. -/
def nextItem (list : List Markup) : Scan (List Markup ⊕ List Markup) := do
  let x ← literal
  skipTrivia
  if ← eat [','] then return .inl (list ++ [⟨x⟩])
  else if ← eat [']'] then return .inr (list ++ [⟨x⟩])
  else fail (.unfinishedList (← peek))

def listLap (list : List Markup) : Scan (List Markup ⊕ List Markup) := do
  skipTrivia
  if ← eat [']'] then return .inr list
  else nextItem list

/-- An assignment from its beginning, which the caller has looked at. -/
def assignment : Scan Assignment := do
  let _ ← eatWord tableName
  expect '['
  skipTrivia
  let unit ← literal
  expect ']'
  expect '='
  expect '['
  let implementors ← loop listLap []
  skipTrivia
  let _ ← eat [';']
  return ⟨unit, implementors⟩

/-- Skips an unknown statement, which begins at `start`, or a closing bracket. -/
def skipUnknown (start : Nat) : Scan Unit := do
  skipStatement
  if (← get) = start then
    let _ ← bump
    return ()
  else return ()

/-- Takes one statement behind the assignments of `table`, or what ends the table. -/
def statement (strict : Bool) (table : List Assignment) :
    Scan (List Assignment ⊕ List Assignment) := do
  let start ← get
  if ← eatAll (assignmentHead.map Token.text) then
    moveTo start
    let a ← assignment
    return .inl (table ++ [a])
  else if ← eatAll (registration.map Token.text) then return .inr table
  else if ← eatAll (wrapperTail.map Token.text) then return .inr table
  else if strict then fail (.unexpectedStatement (← peek))
  else
    skipUnknown start
    return .inl table

def tableLap (strict : Bool) (table : List Assignment) :
    Scan (List Assignment ⊕ List Assignment) := do
  skipTrivia
  if ← atEnd then return .inr table
  else statement strict table

/-- Takes the declaration of the table and its statements. -/
def pageFrom (strict : Bool) : Scan (List Assignment) := do
  if ← eatAll (declaration.map Token.text) then
    skipTrivia
    let _ ← eat [';']
    loop (tableLap strict) []
  else if strict then fail (.missingDeclaration (← peek))
  else loop (tableLap strict) []

/-- The assignments of a whole page. -/
def page (strict : Bool) : Scan (List Assignment) := do
  skipTrivia
  let _ ← eatAll (wrapperHead.map Token.text)
  skipTrivia
  pageFrom strict

end Scan

end Crossref.Script
