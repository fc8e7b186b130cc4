import CoreLang.Source.Tiling
import CoreLang.Token

/-! A source text as tokens with positions, and its faults. -/
namespace CoreLang

/-- The tokens of a text, closed by one end marker, and the faults found on the way. -/
structure Lexed where
  tokens : List Token
  errors : List LexicalError
deriving DecidableEq

namespace Source

/-- The token of a piece that begins at `p`, and the error if the piece is faulty. -/
def Piece.place (p : Position) (piece : Piece) : Token × Option LexicalError :=
  match piece.reading with
  | .token kind lexeme => (⟨kind, String.ofList lexeme, p⟩, none)
  | .fault fault offset =>
    let found := p.after (piece.raw.take offset)
    (⟨fault.tokenKind, String.ofList piece.raw, if fault.movesToken then found else p⟩,
      some ⟨fault, found⟩)

def placeAll (p : Position) : List Piece → List (Token × Option LexicalError)
  | [] => []
  | piece :: rest =>
    let start := p.after piece.gap
    piece.place start :: placeAll (start.after piece.raw) rest

end Source

namespace Lexed

def ofChars (text : List Char) : Lexed :=
  let placed := Source.placeAll .start (Source.tile text).pieces
  ⟨placed.map (·.1) ++ [.endMarker (Position.start.after text)], placed.filterMap (·.2)⟩

def ofSource (source : String) : Lexed := ofChars source.toList

end Lexed
end CoreLang
