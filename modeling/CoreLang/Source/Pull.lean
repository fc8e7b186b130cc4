import CoreLang.Source.Cursor
import CoreLang.Source.Lexed

/-! The tokens of a text that a supply hands out, read with one character of lookahead. -/
namespace CoreLang.Source.Pull
open Text (Quote)
open Literal (Mark)
variable {σ : Type} [Supply σ]

/-- Goes past a blank or a comment, and tells whether there was one. -/
def skipOne : Pull σ (Unit ⊕ Unit) := do
  match ← current with
  | none => return .inr ()
  | some c =>
    if Text.isBlank c then
      advance
      return .inl ()
    else if c = '/' then
      if (← peek) = some '/' then
        let _ ← takeWhile (· ≠ '\n')
        return .inl ()
      else return .inr ()
    else return .inr ()

def skipGap : Pull σ Unit := do let _ ← gather skipOne

/-- The token of a faulty piece, once the fault is noted. -/
def faulty (f : Fault) (raw : List Char) (start found : Position) : Pull σ Token := do
  report ⟨f, found⟩
  return ⟨f.tokenKind, String.ofList raw, start⟩

/-- The token of a piece that is judged as a whole, so that its fault is found at its head. -/
def judged (raw : List Char) (start : Position) : Reading → Pull σ Token
  | .token kind lexeme => return ⟨kind, String.ofList lexeme, start⟩
  | .fault f _ => faulty f raw start start

/-- What has been read of a numeral, and whether a point was among it. -/
abbrev SoundState := List Char × Bool

/-- A numeral as far as it is sound. Where it breaks, the separator with its place, and the digits
that were read as its group. -/
abbrev SoundEnd := List Char × Option (Position × List Char)

/-- One more digit, the point or one more group, unless the numeral ends or breaks here. -/
def soundOne : SoundState → Pull σ (SoundState ⊕ SoundEnd)
  | (read, point) => do
    match ← current with
    | none => return .inr (read, none)
    | some c =>
      if c.isDigit ∨ c = '.' ∧ point = false then
        advance
        return .inl (read ++ [c], point || c = '.')
      else if Numeral.isSeparator c then
        let found ← place
        advance
        let group ← takeUpTo Char.isDigit Limits.groupLength
        if group.length ≠ Limits.groupLength ∨ (← current).any Char.isDigit then
          return .inr (read, some (found, c :: group))
        else return .inl (read ++ c :: group, point)
      else return .inr (read, none)

def soundFrom : SoundState → Pull σ SoundEnd := repeatM soundOne

def numeral (start : Position) : Pull σ Token := do
  let (read, broken) ← soundFrom ([], false)
  match broken with
  | none => return ⟨Numeral.kind read, String.ofList (Numeral.value read), start⟩
  | some (found, broken) =>
    let more ← takeWhile Numeral.isMember
    let raw := read ++ broken ++ more
    faulty (.badGrouping raw) raw found found

def word (start : Position) : Pull σ Token := do
  let word ← takeWhile Word.isMember
  judged word start (Word.read word)

/-- What a backslash announces. The end of its line is left to those that look for it. -/
def escape : Pull σ Mark := do
  match ← current with
  | none => return .plain '\\'
  | some c =>
    if c = '\n' then return .plain '\\'
    else
      advance
      return .escaped c

/-- The rest of a unit whose first character has been taken. -/
def mark (c : Char) : Pull σ Mark := if c = '\\' then escape else return .plain c

/-- One more unit of a literal with its place, unless the literal ends here. Then, whether it is
closed. -/
def markOne (quote : Quote) : Pull σ (Mark × Position ⊕ Bool) := do
  match ← current with
  | none => return .inr false
  | some c =>
    if c = '\n' then return .inr false
    else
      let found ← place
      advance
      if c = quote.char then return .inr true
      else return .inl (← mark c, found)

def marks (quote : Quote) : Pull σ (List (Mark × Position) × Bool) := gather (markOne quote)

/-- The first escape that is not one, with its place. -/
def badEscape? (quote : Quote) (marks : List (Mark × Position)) : Option (Char × Position) :=
  marks.findSome? fun
    | (.plain _, _) => none
    | (.escaped c, found) => if (Text.unescape? quote c).isNone then some (c, found) else none

def literal (quote : Quote) (start : Position) : Pull σ Token := do
  advance
  let (marks, closed) ← marks quote
  let units := marks.map (·.1)
  let raw := Literal.Split.raw quote ⟨units, closed, []⟩
  if closed then
    match badEscape? quote marks with
    | some (c, found) => faulty (.invalidEscape quote c) raw start found
    | none => judged raw start (Literal.readValue quote (units.filterMap (Mark.value? quote)))
  else faulty (.unterminated quote) raw start start

def symbol (c : Char) (start : Position) : Pull σ Token := do
  match Symbol.atHead? (c :: (← peek).toList) with
  | some (spelling, kind) =>
    let lexeme ← takeUpTo (fun _ => true) spelling.length
    return ⟨kind, String.ofList lexeme, start⟩
  | none =>
    advance
    faulty (.invalidCharacter c) [c] start start

/-- A point needs a look at the character after it. -/
def startsNumeral (c : Char) : Pull σ Bool := do
  if c.isDigit then return true
  else if c = '.' then return (← peek).any Char.isDigit
  else return false

/-- The token of the piece whose first character `c` is under the cursor. -/
def token (c : Char) : Pull σ Token := do
  let start ← place
  if ← startsNumeral c then numeral start
  else if Word.startsAt c then word start
  else if c = Quote.double.char then literal .double start
  else if c = Quote.single.char then literal .single start
  else symbol c start

/-- The end marker stands behind the last character. -/
def endMarker : Pull σ Token := do
  let last ← place
  return .endMarker ⟨last.line, last.column + 1⟩

/-- One more token, unless the text ends. -/
def tokenOne : Pull σ (Token ⊕ Unit) := do
  skipGap
  match ← current with
  | none => return .inr ()
  | some c => return .inl (← token c)

/-- All tokens from the cursor on. Asked again at the end, there is only the end marker. -/
def tokens : Pull σ (List Token) := do
  let (tokens, _) ← gather tokenOne
  return tokens ++ [← endMarker]

end CoreLang.Source.Pull
