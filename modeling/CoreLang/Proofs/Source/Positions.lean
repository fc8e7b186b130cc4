import CoreLang.Proofs.Source.Found
import CoreLang.Proofs.Source.Places
import Mathlib.Data.List.Induction

/-! Positions are counts of what stands before: every token has the count of its first character, or
of its first separator without a group, and the counts rise from token to token. -/
namespace CoreLang

namespace Position

/-- The position behind a text: line feeds make the line, and the characters after the last of them
the column. -/
def ofText (text : List Char) : Position :=
  ⟨1 + text.count '\n', 1 + (text.reverse.takeWhile (· ≠ '\n')).length⟩

theorem start_after (text : List Char) : start.after text = ofText text := by
  induction text using List.reverseRecOn with
  | nil => rfl
  | append_singleton text c ih =>
    rw [after_append, after_cons, after_nil, ih]
    unfold ofText next
    by_cases hc : c = '\n'
    · simp only [hc, ↓reduceIte, List.count_append, List.count_singleton_self,
        List.reverse_append, List.reverse_singleton, List.singleton_append]
      simp [Nat.add_assoc]
    · simp only [hc, ↓reduceIte, List.count_append, List.reverse_append, List.reverse_singleton,
        List.singleton_append]
      simp [hc, Nat.add_assoc]

theorem after_ofText (before text : List Char) :
    (ofText before).after text = ofText (before ++ text) := by
  rw [← start_after, ← start_after, after_append]

end Position

/-- The place of a token whose text `raw` stands behind `before`. The error that names a numeral and
this place makes the token stand at the first separator of the numeral that no group follows. -/
def Token.StandsBehind (errors : List LexicalError) (before raw : List Char) (t : Token) : Prop :=
  if ⟨.badGrouping raw, t.position⟩ ∈ errors then
    ∃ offset, Source.Numeral.BreaksAt raw offset ∧ t.position = .ofText (before ++ raw.take offset)
  else t.position = .ofText before

/-- Tokens that stand one after another behind `before`, each with a gap before it that goes as far
as it can. -/
inductive Token.Placed (errors : List LexicalError) : List Char → List Token → List Char → Prop
  | gap {before gap : List Char} : Source.IsGap [] gap → Placed errors before [] gap
  | token {t : Token} {ts : List Token} {before gap tail rest : List Char} {c : Char} :
      Source.IsGap (c :: tail ++ rest) gap → Source.StartsPiece c (tail ++ rest) →
      t.kind.lexeme? (c :: tail) = some t.lexeme.toList →
      t.StandsBehind errors (before ++ gap) (c :: tail) →
      Placed errors (before ++ gap ++ c :: tail) ts rest →
      Placed errors before (t :: ts) (gap ++ (c :: tail ++ rest))

namespace Source
variable {errors : List LexicalError} {before : List Char}

/-- A piece is placed where it begins, and a broken numeral where it breaks. -/
theorem Piece.standsBehind {piece : Piece}
    (hfound : ∀ f offset, piece.reading = .fault f offset → f.FoundAt piece.raw offset)
    (herrors : ∀ numeral,
      ⟨.badGrouping numeral, (piece.place (.ofText before)).1.position⟩ ∈ errors ↔
        (piece.place (.ofText before)).2 =
          some ⟨.badGrouping numeral, (piece.place (.ofText before)).1.position⟩) :
    (piece.place (.ofText before)).1.StandsBehind errors before piece.raw := by
  unfold Token.StandsBehind
  simp only [herrors]
  obtain ⟨gap, raw, reading⟩ := piece
  cases reading with
  | token kind lexeme => simp [place]
  | fault f offset =>
    have hfound := hfound f offset rfl
    cases f with
    | badGrouping numeral =>
      obtain ⟨rfl, hbreaks⟩ := hfound
      simp only [place, Fault.movesToken, ↓reduceIte]
      exact ⟨offset, hbreaks, Position.after_ofText _ _⟩
    | invalidCharacter | invalidEscape | unterminated | emptyCharacter | longCharacter
    | longIdentifier => simp [place, Fault.movesToken]

theorem placeAll_cons (before : List Char) (piece : Piece) (pieces : List Piece) :
    placeAll (.ofText before) (piece :: pieces) =
      piece.place (.ofText (before ++ piece.gap)) ::
        placeAll (.ofText (before ++ piece.gap ++ piece.raw)) pieces := by
  simp only [placeAll, Position.after_ofText]

theorem Piece.placed (piece : Piece) {ts : List Token} {c : Char} {tail rest : List Char}
    (hraw : piece.raw = c :: tail) (hgap : IsGap (piece.raw ++ rest) piece.gap)
    (hstarts : StartsPiece c (tail ++ rest))
    (hlexeme : piece.content.1.lexeme? piece.raw = some piece.content.2)
    (hstands : (piece.place (.ofText (before ++ piece.gap))).1.StandsBehind errors
      (before ++ piece.gap) piece.raw)
    (hlater : Token.Placed errors (before ++ piece.gap ++ piece.raw) ts rest) :
    Token.Placed errors before ((piece.place (.ofText (before ++ piece.gap))).1 :: ts)
      (piece.gap ++ (piece.raw ++ rest)) := by
  rw [hraw] at hgap hlexeme hstands hlater ⊢
  refine .token hgap hstarts ?_ hstands hlater
  rw [place_kind, place_lexeme, String.toList_ofList, hlexeme]

theorem placeAll_placed (text before : List Char)
    (herrors : ∀ placed ∈ placeAll (.ofText before) (tile text).pieces, ∀ numeral,
      ⟨.badGrouping numeral, placed.1.position⟩ ∈ errors ↔
        placed.2 = some ⟨.badGrouping numeral, placed.1.position⟩) :
    Token.Placed errors before ((placeAll (.ofText before) (tile text).pieces).map (·.1)) text := by
  induction text using tile_induction generalizing before with
  | gap text h =>
    have hgap := isGap_splitGap text
    have happend := splitGap_append false text
    rw [h] at hgap happend
    rw [List.append_nil] at happend
    rw [tile_of_gap h]
    exact .gap (happend ▸ hgap)
  | piece text c rest h ih =>
    have hgap := isGap_splitGap text
    have happend := splitGap_append false text
    have hstarts := startsPiece_of_splitGap (Prod.ext rfl h)
    have hlexeme := (scan_reads c rest).lexeme?
    obtain ⟨tail, hraw, htail⟩ := (scan_tiles c rest).exists_tail
    rw [tile_of_piece h] at herrors ⊢
    rw [h, ← (scan_tiles c rest).2] at hgap happend
    rw [← htail] at hstarts
    simp only [Tiling.cons, placeAll_cons, List.map_cons] at herrors ⊢
    obtain ⟨hhead, hrest⟩ := List.forall_mem_cons.1 herrors
    have hstands := Piece.standsBehind (fun f offset => scan_foundAt) hhead
    have htoken := Piece.placed ⟨(splitGap false text).1, (scan c rest).raw, (scan c rest).reading⟩
      hraw hgap hstarts hlexeme hstands (ih _ hrest)
    rwa [happend] at htoken

end Source

namespace Lexed

theorem tokens_pairwise (source : String) :
    (ofSource source).tokens.Pairwise fun t u => t.position < u.position := by
  have hsound := Source.tile_sound source.toList
  refine List.pairwise_append.2 ⟨List.pairwise_map.2 (Source.placeAll_pairwise hsound),
    List.pairwise_singleton _ _, fun t ht marker hmarker => ?_⟩
  obtain ⟨placed, hplaced, rfl⟩ := List.mem_map.1 ht
  obtain rfl := List.mem_singleton.1 hmarker
  obtain ⟨before, after, hne, happend, hposition⟩ :=
    Source.spots_of_mem_placeAll hsound placed hplaced _ List.mem_cons_self
  change placed.1.position < Position.start.after source.toList
  rw [hposition, ← Source.tile_append source.toList, ← happend, List.append_assoc,
    Position.after_append]
  exact Position.lt_after (List.append_ne_nil_of_left_ne_nil hne _)

/-- Every token stands where its text begins, a numeral with a bad separator at the first of these,
and the end marker behind the whole text. So positions rise from token to token. -/
theorem ofSource_placed (source : String) :
    ∃ ts, (ofSource source).tokens = ts ++ [.endMarker (.ofText source.toList)] ∧
      Token.Placed (ofSource source).errors [] ts source.toList ∧
      (ofSource source).tokens.Pairwise fun t u => t.position < u.position := by
  have hsound := Source.tile_sound source.toList
  refine ⟨(Source.placeAll .start (Source.tile source.toList).pieces).map (·.1), ?_, ?_,
    tokens_pairwise source⟩
  · rw [← Position.start_after]
    rfl
  · apply Source.placeAll_placed source.toList []
    intro placed hplaced numeral
    exact Source.mem_errors_iff hsound hplaced (f := .badGrouping numeral) nofun

example : (ofSource "a\n 1'00 ").tokens.map (·.position) = [⟨1, 1⟩, ⟨2, 3⟩, ⟨2, 7⟩] := by
  decide +kernel

end Lexed
end CoreLang
