import CoreLang.Proofs.Source.Places
import CoreLang.Proofs.Source.Respelling
import Mathlib.Data.List.Chain

/-! The tokens of a text, written out on one line, are read back as the same tokens. The one thing in
the way is an open literal with another token after it. -/
namespace CoreLang
open Text (Quote)

namespace Source

/-- A list of kinds and lexemes written as source text. -/
def line (xs : List (Kind × List Char)) : List Char :=
  [' '].intercalate (xs.map fun x => x.1.spell x.2)

theorem line_singleton (x : Kind × List Char) : line [x] = x.1.spell x.2 := by
  simp [line]

theorem line_cons_cons (x y : Kind × List Char) (xs : List (Kind × List Char)) :
    line (x :: y :: xs) = x.1.spell x.2 ++ ' ' :: line (y :: xs) := by
  simp [line, List.intercalate_cons_cons]

/-- The contents of a text are those of the line written for them exactly if no piece but the last
one is open. -/
theorem contents_line (text : List Char) :
    contents (line (contents text)) = contents text ↔
      (tile text).pieces.IsChain fun piece _ => ¬piece.reading.Open := by
  induction text using tile_induction with
  | gap text h =>
    rw [contents_of_gap h, tile_of_gap h]
    exact iff_of_true contents_nil .nil
  | piece text c rest h ih =>
    have hstart := startsPiece_of_splitGap (Prod.ext rfl h)
    rw [contents_of_piece h, tile_of_piece h]
    have hcontents : contents (scan c rest).rest = (tile (scan c rest).rest).pieces.map Piece.content :=
      rfl
    rw [hcontents] at ih ⊢
    dsimp only [Tiling.cons]
    cases hpieces : (tile (scan c rest).rest).pieces with
    | nil =>
      refine iff_of_true ?_ (.singleton _)
      have hnext : ∀ d ∈ ([] : List Char).head?, d = ' ' ∧ ¬(scan c rest).reading.Open := nofun
      have hspell := contents_spell hstart hnext
      rwa [List.append_nil, contents_nil, ← line_singleton] at hspell
    | cons piece pieces =>
      rw [hpieces] at ih
      rw [List.map_cons, line_cons_cons, ← List.map_cons, List.isChain_cons_cons, ← ih]
      by_cases hopen : (scan c rest).reading.Open
      · exact iff_of_false (contents_spell_of_open hopen _ _) fun h => h.1 hopen
      · have hnext : ∀ d ∈ (' ' :: line ((piece :: pieces).map Piece.content)).head?,
            d = ' ' ∧ ¬(scan c rest).reading.Open :=
          fun d hd => ⟨(Option.some.inj hd).symm, hopen⟩
        rw [contents_spell hstart hnext, contents_space, List.cons_inj_right]
        exact (and_iff_right hopen).symm

theorem Piece.place_content (p : Position) (piece : Piece) :
    (piece.place p).1.content = (piece.content.1, String.ofList piece.content.2) :=
  Prod.ext (piece.place_kind p) (piece.place_lexeme p)

theorem placeAll_content (p : Position) (pieces : List Piece) :
    (placeAll p pieces).map (·.1.content) =
      pieces.map fun piece => (piece.content.1, String.ofList piece.content.2) := by
  induction pieces generalizing p with
  | nil => rfl
  | cons piece pieces ih => simp only [placeAll, List.map_cons, Piece.place_content, ih]

section Open
variable {p : Position}

theorem Piece.Sound.unterminated_iff {piece : Piece} (h : piece.Sound) {q : Position}
    {quote : Quote} : (piece.place p).2 = some ⟨.unterminated quote, q⟩ ↔
      piece.reading = .fault (.unterminated quote) 0 ∧ (piece.place p).1.position = q := by
  obtain ⟨gap, raw, reading⟩ := piece
  obtain ⟨-, hreads⟩ := h
  dsimp only at hreads ⊢
  cases hreads with
  | itself | number | string | character | badEscape | badGrouping => simp [Piece.place]
  | fault hf => simp [Piece.place, hf]

theorem Piece.Sound.open_iff {piece : Piece} (h : piece.Sound) : piece.reading.Open ↔
    ∃ quote, (piece.place p).2 = some ⟨.unterminated quote, (piece.place p).1.position⟩ :=
  exists_congr fun _ => by rw [h.unterminated_iff, and_iff_left rfl]

variable {pieces : List Piece}

theorem isChain_placeAll (hsound : ∀ piece ∈ pieces, piece.Sound) :
    pieces.IsChain (fun piece _ => ¬piece.reading.Open) ↔
      (placeAll p pieces).IsChain fun placed _ =>
        ¬∃ quote, placed.2 = some ⟨.unterminated quote, placed.1.position⟩ := by
  induction pieces generalizing p with
  | nil => exact iff_of_true .nil .nil
  | cons piece pieces ih =>
    obtain ⟨hpiece, hsound⟩ := List.forall_mem_cons.1 hsound
    have ih := ih (p := (p.after piece.gap).after piece.raw) hsound
    cases pieces with
    | nil => exact iff_of_true (.singleton _) (.singleton _)
    | cons piece' pieces =>
      rw [placeAll] at ih ⊢
      rw [placeAll, List.isChain_cons_cons, List.isChain_cons_cons, ih, hpiece.open_iff]

end Open
end Source

namespace Lexed

theorem ofSource_content (source : String) :
    (ofSource source).tokens.map Token.content =
      (Source.contents source.toList).map (fun x => (x.1, String.ofList x.2)) ++
        [(.endMarker, "EOF")] := by
  simp only [ofSource, ofChars, List.map_append, List.map_map, Source.contents]
  exact congrArg (· ++ _) (Source.placeAll_content _ _)

theorem toList_sourceLine (source : String) :
    (Token.sourceLine (ofSource source).tokens).toList =
      Source.line (Source.contents source.toList) := by
  have hkind := Source.placeAll_kind_ne_endMarker (p := .start) (Source.tile_sound source.toList)
  have hcontent := Source.placeAll_content .start (Source.tile source.toList).pieces
  have hfilter : (ofSource source).tokens.filter (·.kind ≠ .endMarker) =
      (Source.placeAll .start (Source.tile source.toList).pieces).map (·.1) := by
    simpa [ofSource, ofChars, Token.endMarker] using hkind
  have hspell := congrArg (List.map fun x : Kind × String => x.1.spell x.2.toList) hcontent
  simp only [List.map_map, Function.comp_def, String.toList_ofList, Token.content,
    ← Token.toList_source] at hspell
  rw [Token.sourceLine, String.toList_intercalate, hfilter, List.map_map, List.map_map]
  simp only [Function.comp_def, hspell, Source.line, Source.contents, List.map_map]
  rfl

theorem isChain_tokens (source : String) :
    (Source.tile source.toList).pieces.IsChain (fun piece _ => ¬piece.reading.Open) ↔
      (ofSource source).tokens.IsChain fun t next =>
        (∃ quote, ⟨.unterminated quote, t.position⟩ ∈ (ofSource source).errors) →
          next.kind = .endMarker := by
  have hsound := Source.tile_sound source.toList
  have hkind := Source.placeAll_kind_ne_endMarker (p := .start) hsound
  have herror {placed} (h : placed ∈ Source.placeAll .start (Source.tile source.toList).pieces) :=
    exists_congr fun quote => Source.mem_errors_iff hsound h (f := .unterminated quote) nofun
  simp only [Source.isChain_placeAll (p := .start) hsound, ofSource, ofChars]
  generalize Source.placeAll .start (Source.tile source.toList).pieces = placed at hkind herror ⊢
  rw [List.isChain_append, List.isChain_map]
  refine Iff.trans ?_ (and_iff_left ⟨.singleton _, fun t _ next hnext _ => ?_⟩).symm
  · refine List.IsChain.iff_of_mem_imp fun a b ha hb => ?_
    rw [herror ha]
    exact ⟨fun hclosed hopen => absurd hopen hclosed, fun hend hopen => hkind b hb (hend hopen)⟩
  · rw [← Option.some.inj hnext]
    rfl

/-- The tokens of a text, written out on one line, are read as the same kinds and lexemes exactly if
no literal without its closing quote stands before another token. Its error is the one at its place. -/
theorem ofSource_sourceLine (source : String) :
    (ofSource (Token.sourceLine (ofSource source).tokens)).tokens.map Token.content =
        (ofSource source).tokens.map Token.content ↔
      (ofSource source).tokens.IsChain fun t next =>
        (∃ quote, ⟨.unterminated quote, t.position⟩ ∈ (ofSource source).errors) →
          next.kind = .endMarker := by
  have hinj : Function.Injective fun x : Kind × List Char => (x.1, String.ofList x.2) := by
    intro x y hxy
    obtain ⟨hkind, hlexeme⟩ := Prod.ext_iff.1 hxy
    exact Prod.ext hkind (String.ofList_injective hlexeme)
  rw [← isChain_tokens, ← Source.contents_line, ofSource_content, ofSource_content,
    toList_sourceLine, List.append_cancel_right_eq, hinj.list_map.eq_iff]

example :
    (ofSource (Token.sourceLine (ofSource "\"a\nb").tokens)).tokens.map Token.content =
      [(.invalidCharacter, "\"a b"), (.endMarker, "EOF")] := by decide +kernel

end Lexed
end CoreLang
