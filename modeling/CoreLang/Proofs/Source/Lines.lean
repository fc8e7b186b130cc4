import CoreLang.Proofs.Source.Tiles

/-! Nothing in a text reaches over the end of a line: two texts with a line feed between them are
read as each of them is alone, with the second one further down. -/
namespace CoreLang

namespace Position

def below (n : Nat) (p : Position) : Position := ⟨p.line + n, p.column⟩

theorem next_below (n : Nat) (p : Position) (c : Char) : (p.below n).next c = (p.next c).below n := by
  by_cases hc : c = '\n'
  · simp only [next, below, hc, ↓reduceIte]
    congr 1
    omega
  · simp [next, below, hc]

theorem after_below (n : Nat) (p : Position) (text : List Char) :
    (p.below n).after text = (p.after text).below n := by
  induction text generalizing p with
  | nil => rfl
  | cons c text ih => rw [after_cons, after_cons, next_below, ih]

theorem line_after (p : Position) (text : List Char) :
    (p.after text).line = p.line + text.count '\n' := by
  induction text generalizing p with
  | nil => rfl
  | cons c text ih =>
    rw [after_cons, ih]
    by_cases hc : c = '\n'
    · simp only [next, hc, ↓reduceIte, List.count_cons_self]
      omega
    · simp [next, hc]

theorem after_lineFeed (text : List Char) :
    start.after (text ++ ['\n']) = start.below (1 + text.count '\n') := by
  rw [after_append, after_cons, after_nil]
  simp only [next, ↓reduceIte, line_after, below, start]
  congr 1
  omega

end Position

def Token.below (n : Nat) (t : Token) : Token := { t with position := t.position.below n }

def LexicalError.below (n : Nat) (e : LexicalError) : LexicalError :=
  { e with position := e.position.below n }

namespace Source

/-- Two texts that are cut into pieces, with a line feed between them. -/
def Tiling.line (a b : Tiling) : Tiling :=
  match b.pieces with
  | [] => ⟨a.pieces, a.lastGap ++ '\n' :: b.lastGap⟩
  | piece :: pieces =>
    ⟨a.pieces ++ { piece with gap := a.lastGap ++ '\n' :: piece.gap } :: pieces, b.lastGap⟩

theorem Tiling.cons_line (piece : Piece) (a b : Tiling) :
    (a.cons piece).line b = (a.line b).cons piece := by
  unfold line
  cases b.pieces <;> rfl

/-- A line feed cuts a text into two that are read each on its own. -/
theorem tile_line (a b : List Char) : tile (a ++ '\n' :: b) = (tile a).line (tile b) := by
  induction a using tile_induction with
  | gap a h =>
    have hgap := splitGap_line_of_gap h b
    have happend := splitGap_append false a
    rw [h, List.append_nil] at happend
    rw [happend] at hgap
    rw [tile_of_gap h]
    cases hb : (splitGap false b).2 with
    | nil =>
      rw [tile_of_gap hb, tile_of_gap (by rw [hgap]; exact hb)]
      rfl
    | cons c rest =>
      have hpiece : (splitGap false (a ++ '\n' :: b)).2 = c :: rest := by rw [hgap, ← hb]
      rw [tile_of_piece hb, tile_of_piece hpiece, hgap]
      rfl
  | piece a c rest h ih =>
    have hmore : (scan c rest).EndsBefore ((scan c rest).rest ++ '\n' :: b) := by
      intro d hd
      cases hrest : (scan c rest).rest with
      | nil =>
        rw [hrest] at hd
        exact .inr (.inl (Option.some.inj hd).symm)
      | cons e more =>
        rw [hrest] at hd
        exact .inl hd
    rw [tile_append_of_piece h hmore, ih, ← Tiling.cons_line, ← tile_of_piece h]

theorem placeAll_append (p : Position) (a b : List Piece) :
    placeAll p (a ++ b) = placeAll p a ++ placeAll (p.after (a.flatMap Piece.chars)) b := by
  induction a generalizing p with
  | nil => rfl
  | cons piece a ih =>
    simp only [List.cons_append, placeAll, ih, List.flatMap_cons, Piece.chars, Position.after_append]

theorem placeAll_line (p : Position) (a b : Tiling) :
    placeAll p (a.line b).pieces =
      placeAll p a.pieces ++
        placeAll (p.after (a.pieces.flatMap Piece.chars ++ a.lastGap ++ ['\n'])) b.pieces := by
  unfold Tiling.line
  cases b.pieces with
  | nil => simp [placeAll]
  | cons piece pieces =>
    simp only [placeAll_append, placeAll, List.append_assoc, Position.after_append,
      Position.after_cons, Position.after_nil]
    rfl

theorem Piece.place_below (n : Nat) (p : Position) (piece : Piece) :
    piece.place (p.below n) = ((piece.place p).1.below n, (piece.place p).2.map (·.below n)) := by
  unfold place
  cases piece.reading with
  | token kind lexeme => rfl
  | fault f offset =>
    simp only [Position.after_below, Token.below, Option.map_some, LexicalError.below]
    split <;> rfl

theorem placeAll_below (n : Nat) (p : Position) (pieces : List Piece) :
    placeAll (p.below n) pieces =
      (placeAll p pieces).map fun placed => (placed.1.below n, placed.2.map (·.below n)) := by
  induction pieces generalizing p with
  | nil => rfl
  | cons piece pieces ih =>
    simp only [placeAll, List.map_cons, Position.after_below, Piece.place_below, ih]

end Source

namespace Lexed

/-- Two texts with a line feed between them give the tokens of the first without its end marker, then
those of the second further down, and likewise the faults. -/
theorem ofSource_line (a b : String) :
    (ofSource (a ++ "\n" ++ b)).tokens =
        (ofSource a).tokens.dropLast ++
          (ofSource b).tokens.map (·.below (1 + a.toList.count '\n')) ∧
      (ofSource (a ++ "\n" ++ b)).errors =
        (ofSource a).errors ++ (ofSource b).errors.map (·.below (1 + a.toList.count '\n')) := by
  have htext : (a ++ "\n" ++ b).toList = a.toList ++ '\n' :: b.toList := by simp
  have hplaced : Source.placeAll .start (Source.tile (a ++ "\n" ++ b).toList).pieces =
      Source.placeAll .start (Source.tile a.toList).pieces ++
        (Source.placeAll .start (Source.tile b.toList).pieces).map fun placed =>
          (placed.1.below (1 + a.toList.count '\n'), placed.2.map (·.below (1 + a.toList.count '\n'))) := by
    rw [htext, Source.tile_line, Source.placeAll_line, Source.tile_append,
      Position.after_lineFeed, Source.placeAll_below]
  have hend : Position.start.after (a ++ "\n" ++ b).toList =
      (Position.start.after b.toList).below (1 + a.toList.count '\n') := by
    rw [htext, List.append_cons, Position.after_append, Position.after_lineFeed,
      Position.after_below]
  constructor
  · simp only [ofSource, ofChars, hplaced, hend, List.map_append, List.map_map, List.append_assoc,
      List.dropLast_concat]
    rfl
  · simp only [ofSource, ofChars, hplaced, List.filterMap_append, List.filterMap_map,
      List.map_filterMap]
    rfl

end Lexed
end CoreLang
