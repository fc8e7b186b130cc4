import CoreLang.Source.Gap
import CoreLang.Source.Literal
import CoreLang.Source.Numeral
import CoreLang.Source.Word
import CoreLang.Token.Symbol

/-! A source text cut into gaps and pieces, with nothing lost between them. -/
namespace CoreLang.Source
open Text (Quote)

/-- A symbol, or else one character that belongs nowhere. -/
def scanSymbol (c : Char) (rest : List Char) : Scan :=
  match Symbol.atHead? (c :: rest) with
  | some (spelling, kind) => ⟨spelling, .token kind spelling, (c :: rest).drop spelling.length⟩
  | none => ⟨[c], .fault (.invalidCharacter c) 0, rest⟩

/-- The piece at the head of a text that begins with no gap. The first character decides, for a
point together with the next one. -/
def scan (c : Char) (rest : List Char) : Scan :=
  if Numeral.startsAt c rest then Numeral.scan (c :: rest)
  else if Word.startsAt c then Word.scan (c :: rest)
  else if c = Quote.double.char then Literal.scan .double rest
  else if c = Quote.single.char then Literal.scan .single rest
  else scanSymbol c rest

theorem scanSymbol_tiles (c : Char) (rest : List Char) :
    (scanSymbol c rest).Tiles (c :: rest) := by
  unfold scanSymbol Symbol.atHead?
  split
  · next spelling kind h =>
    have hmem := List.mem_of_find?_eq_some h
    have hhead : spelling <+: c :: rest := by simpa using List.find?_some h
    have hne : ∀ entry ∈ Symbol.table, entry.1 ≠ [] := by decide
    obtain ⟨tail, htail⟩ := hhead
    exact ⟨hne _ hmem, by simp [← htail]⟩
  · exact ⟨by simp, rfl⟩

theorem scan_tiles (c : Char) (rest : List Char) : (scan c rest).Tiles (c :: rest) := by
  unfold scan
  split
  · next h => exact Numeral.scan_tiles h
  · split
    · next h => exact Word.scan_tiles rest h
    · split
      · next h => exact h ▸ Literal.scan_tiles .double rest
      · split
        · next h => exact h ▸ Literal.scan_tiles .single rest
        · exact scanSymbol_tiles c rest

/-- A piece of a text together with the gap before it. -/
structure Piece where
  gap : List Char
  raw : List Char
  reading : Reading
deriving DecidableEq

/-- A text as pieces, each after its gap, and the gap at the end. -/
structure Tiling where
  pieces : List Piece
  lastGap : List Char
deriving DecidableEq

private theorem length_rest_lt {text gap rest : List Char} {c : Char}
    (h : splitGap false text = (gap, c :: rest)) : (scan c rest).rest.length < text.length := by
  have htext := splitGap_append false text
  rw [h] at htext
  have := (scan_tiles c rest).length_rest_lt
  simp only [← htext, List.length_append]
  omega

/-- Cuts a text into its pieces. -/
def tile (text : List Char) : Tiling :=
  match h : splitGap false text with
  | (gap, []) => ⟨[], gap⟩
  | (gap, c :: rest) =>
    let s := scan c rest
    have : s.rest.length < text.length := length_rest_lt h
    let t := tile s.rest
    ⟨⟨gap, s.raw, s.reading⟩ :: t.pieces, t.lastGap⟩
termination_by text.length

end CoreLang.Source
