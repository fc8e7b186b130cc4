import CoreLang.Source.Fault

/-! The result of reading one piece at the head of a source text. -/
namespace CoreLang.Source

/-- What a piece turned out to be. -/
inductive Reading where
  | token (kind : Kind) (lexeme : List Char)
  /-- The fault is found after the first `offset` characters of the piece. -/
  | fault (fault : Fault) (offset : Nat)
deriving DecidableEq

/-- A piece at the head of a text, its reading, and the text after it. -/
structure Scan where
  raw : List Char
  reading : Reading
  rest : List Char
deriving DecidableEq

/-- A scan takes something off the head of `text` and loses nothing. -/
def Scan.Tiles (s : Scan) (text : List Char) : Prop := s.raw ≠ [] ∧ s.raw ++ s.rest = text

theorem Scan.Tiles.length_rest_lt {s : Scan} {text : List Char} (h : s.Tiles text) :
    s.rest.length < text.length := by
  obtain ⟨hraw, rfl⟩ := h
  have := List.length_pos_iff.2 hraw
  simp only [List.length_append]
  omega

end CoreLang.Source
