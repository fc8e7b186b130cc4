import CoreLang.Source.Scan

/-! String and character literals. A literal ends at its closing quote and never runs past the end
of its line. -/
namespace CoreLang.Source.Literal
open Text (Quote)

/-- A unit of a literal: one character, or a backslash and the character after it. -/
inductive Mark where
  | plain (c : Char)
  | escaped (c : Char)
deriving DecidableEq

/-- A unit as it stands in the source. -/
def Mark.raw : Mark → List Char
  | plain c => [c]
  | escaped c => ['\\', c]

/-- The character that a unit stands for, unless its escape is not one. -/
def Mark.value? (quote : Quote) : Mark → Option Char
  | plain c => some c
  | escaped c => Text.unescape? quote c

/-- The text after an opening quote, cut at the closing one. -/
structure Split where
  marks : List Mark
  /-- False when the line or the text ends before the closing quote. -/
  closed : Bool
  rest : List Char
deriving DecidableEq

def Split.cons (m : Mark) (s : Split) : Split := { s with marks := m :: s.marks }

/-- Reads the units of a literal after its opening quote. A backslash at the end of the line or of
the text is a unit of its own. -/
def split (quote : Quote) : List Char → Split
  | [] => ⟨[], false, []⟩
  | '\\' :: c :: rest =>
    if c = '\n' then ⟨[.plain '\\'], false, c :: rest⟩ else (split quote rest).cons (.escaped c)
  | c :: rest =>
    if c = '\n' then ⟨[], false, c :: rest⟩
    else if c = quote.char then ⟨[], true, rest⟩
    else (split quote rest).cons (.plain c)

/-- The source text of a literal. -/
def Split.raw (quote : Quote) (s : Split) : List Char :=
  quote.char :: (s.marks.flatMap Mark.raw ++ if s.closed then [quote.char] else [])

/-- The first escape that is not one, with the length of what stands before its backslash. -/
def badEscape? (quote : Quote) (offset : Nat) : List Mark → Option (Char × Nat)
  | [] => none
  | .plain _ :: rest => badEscape? quote (offset + 1) rest
  | .escaped c :: rest =>
    if (Text.unescape? quote c).isNone then some (c, offset)
    else badEscape? quote (offset + 2) rest

/-- The reading of a closed literal without a bad escape. A character literal has exactly one
unit. -/
def readValue : Quote → List Char → Reading
  | .double, value => .token .string value
  | .single, [c] => .token .characterLiteral [c]
  | .single, [] => .fault .emptyCharacter 0
  | .single, _ => .fault .longCharacter 0

/-- A missing end counts before a bad escape, and a bad escape before a wrong length. -/
def Split.reading (quote : Quote) (s : Split) : Reading :=
  if s.closed then
    match badEscape? quote 1 s.marks with
    | some (c, offset) => .fault (.invalidEscape quote c) offset
    | none => readValue quote (s.marks.filterMap (Mark.value? quote))
  else .fault (.unterminated quote) 0

def scan (quote : Quote) (text : List Char) : Scan :=
  let s := split quote text
  ⟨s.raw quote, s.reading quote, s.rest⟩

theorem split_append (quote : Quote) (text : List Char) :
    (split quote text).raw quote ++ (split quote text).rest = quote.char :: text := by
  fun_induction split quote text with
  | case1 => rfl
  | case2 => rfl
  | case3 c rest _ ih =>
    simp only [Split.raw, Split.cons, Mark.raw, List.flatMap_cons, List.cons_append,
      List.append_assoc, List.nil_append, List.cons.injEq, true_and] at ih ⊢
    exact ih
  | case4 => rfl
  | case5 => simp_all [Split.raw]
  | case6 c rest _ _ _ ih =>
    simp only [Split.raw, Split.cons, Mark.raw, List.flatMap_cons, List.cons_append,
      List.append_assoc, List.nil_append, List.cons.injEq, true_and] at ih ⊢
    exact ih

theorem scan_tiles (quote : Quote) (text : List Char) :
    (scan quote text).Tiles (quote.char :: text) :=
  ⟨by simp [scan, Split.raw], split_append quote text⟩

end CoreLang.Source.Literal
