import CoreLang.Proofs.Source.Spelling

/-! A text is its gaps and pieces one after another, and each piece gives one token, whose lexeme its
text determines. -/
namespace CoreLang

namespace Source
variable {text rest : List Char} {c : Char}

def Tiling.cons (piece : Piece) (t : Tiling) : Tiling := { t with pieces := piece :: t.pieces }

theorem tile_of_gap (h : (splitGap false text).2 = []) : tile text = ⟨[], text⟩ := by
  have happend := splitGap_append false text
  rw [h, List.append_nil] at happend
  rw [tile]
  split
  · next heq => rw [← happend, heq]
  · next heq => rw [heq] at h; cases h

theorem isGap_of_splitGap (h : (splitGap false text).2 = []) : IsGap [] text := by
  have hgap := isGap_splitGap text
  have happend := splitGap_append false text
  rw [h] at hgap happend
  rw [List.append_nil] at happend
  rwa [happend] at hgap

theorem tile_of_piece (h : (splitGap false text).2 = c :: rest) :
    tile text = (tile (scan c rest).rest).cons
      ⟨(splitGap false text).1, (scan c rest).raw, (scan c rest).reading⟩ := by
  rw [tile]
  split
  · next heq => rw [heq] at h; cases h
  · next heq =>
    obtain ⟨hgap, hrest⟩ := Prod.ext_iff.1 heq
    dsimp only at hgap hrest
    rw [h] at hrest
    cases hrest
    rw [hgap]
    rfl

/-- Induction along the pieces of a text. -/
theorem tile_induction {motive : List Char → Prop}
    (gap : ∀ text, (splitGap false text).2 = [] → motive text)
    (piece : ∀ text c rest, (splitGap false text).2 = c :: rest → motive (scan c rest).rest →
      motive text) (text : List Char) : motive text := by
  fun_induction tile text with
  | case1 text g heq => exact gap text (congrArg Prod.snd heq)
  | case2 text g c rest heq s _ _ ih => exact piece text c rest (congrArg Prod.snd heq) ih

/-- The first piece of a text stays what it is before a text that may follow it. -/
theorem tile_append_of_piece {more : List Char} (h : (splitGap false text).2 = c :: rest)
    (hmore : (scan c rest).EndsBefore ((scan c rest).rest ++ more)) :
    tile (text ++ more) = (tile ((scan c rest).rest ++ more)).cons
      ⟨(splitGap false text).1, (scan c rest).raw, (scan c rest).reading⟩ := by
  obtain ⟨tail, hraw, hrest⟩ := (scan_tiles c rest).exists_tail
  have hscan := scan_append hraw hmore
  have hstarts := (startsPiece_of_splitGap (Prod.ext rfl h)).append hraw hmore
  rw [← List.append_assoc, hrest] at hscan hstarts
  have hgap := splitGap_append_of_piece h hstarts
  rw [tile_of_piece (congrArg Prod.snd hgap), hgap, hscan, hraw]

/-- The text of a gap and a piece. -/
def Piece.chars (piece : Piece) : List Char := piece.gap ++ piece.raw

theorem tile_append (text : List Char) :
    (tile text).pieces.flatMap Piece.chars ++ (tile text).lastGap = text := by
  induction text using tile_induction with
  | gap text h => simp [tile_of_gap h]
  | piece text c rest h ih =>
    have hgap := splitGap_append false text
    rw [h] at hgap
    rw [tile_of_piece h]
    simp only [Tiling.cons, List.flatMap_cons, Piece.chars, List.append_assoc, ih,
      (scan_tiles c rest).2, hgap]

end Source

namespace Source

theorem Piece.place_kind (p : Position) (piece : Piece) :
    (piece.place p).1.kind = piece.content.1 := by
  cases h : piece.reading <;> simp [place, content, Reading.content, h]

theorem Piece.place_lexeme (p : Position) (piece : Piece) :
    (piece.place p).1.lexeme = String.ofList piece.content.2 := by
  cases h : piece.reading <;> simp [place, content, Reading.content, h]

end Source

namespace Lexed

end Lexed
end CoreLang
