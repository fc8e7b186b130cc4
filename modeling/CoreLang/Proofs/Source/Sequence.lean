import CoreLang.Proofs.Source.Tiles

/-! The tokens of a text from some place on, one piece after another. -/
namespace CoreLang
namespace Source
variable {p : Position} {text rest raw next : List Char} {c : Char} {r : Reading}

/-- The tokens of a text that begins at `p`, each with the error of its piece, if it is faulty. -/
def tokensFrom (p : Position) (text : List Char) : List (Token × Option LexicalError) :=
  placeAll p (tile text).pieces

theorem tokensFrom_of_gap (h : (splitGap false text).2 = []) : tokensFrom p text = [] := by
  rw [tokensFrom, tile_of_gap h]
  rfl

theorem tokensFrom_of_piece (h : (splitGap false text).2 = c :: rest) :
    tokensFrom p text =
      Piece.place (p.after (splitGap false text).1) ⟨[], (scan c rest).raw, (scan c rest).reading⟩ ::
        tokensFrom ((p.after (splitGap false text).1).after (scan c rest).raw)
          (scan c rest).rest := by
  rw [tokensFrom, tile_of_piece h]
  rfl

theorem tokensFrom_of_scan (h : StartsPiece c rest) (hscan : scan c rest = ⟨raw, r, next⟩) :
    tokensFrom p (c :: rest) = Piece.place p ⟨[], raw, r⟩ :: tokensFrom (p.after raw) next := by
  have hgap := splitGap_of_startsPiece h
  rw [tokensFrom_of_piece (congrArg Prod.snd hgap), hgap, hscan]
  rfl

end Source

theorem Lexed.ofChars_eq (text : List Char) :
    ofChars text =
      ⟨(Source.tokensFrom .start text).map (·.1) ++ [.endMarker (Position.start.after text)],
        (Source.tokensFrom .start text).filterMap (·.2)⟩ := rfl

end CoreLang
