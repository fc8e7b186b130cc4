import CoreLang.Proofs.Source.Tiles
import Mathlib.Data.List.Nodup

/-! Tokens stand one after another, so a place names at most one of them. -/
namespace CoreLang

namespace Position
variable {p q r : Position}

/-- A position comes before another one if it is on an earlier line, or further left on the same
line. -/
instance : LT Position := ⟨fun p q => p.line < q.line ∨ p.line = q.line ∧ p.column < q.column⟩

theorem lt_iff : p < q ↔ p.line < q.line ∨ p.line = q.line ∧ p.column < q.column := .rfl

theorem ne_of_lt (h : p < q) : p ≠ q := by
  rintro rfl
  rw [lt_iff] at h
  omega

theorem lt_trans (hpq : p < q) (hqr : q < r) : p < r := by
  rw [lt_iff] at *
  omega

theorem lt_next (p : Position) (c : Char) : p < p.next c := by
  rw [lt_iff, next]
  split <;> simp

theorem lt_after {text : List Char} (h : text ≠ []) : p < p.after text := by
  induction text generalizing p with
  | nil => exact absurd rfl h
  | cons c text ih =>
    rw [after_cons]
    by_cases htext : text = []
    · rw [htext]
      exact lt_next p c
    · exact lt_trans (lt_next p c) (ih htext)

end Position

namespace Source

/-- A piece that has some text and is read for what it is. -/
structure Piece.Sound (piece : Piece) : Prop where
  raw_ne_nil : piece.raw ≠ []
  reads : Reads piece.raw piece.reading

theorem tile_sound (text : List Char) : ∀ piece ∈ (tile text).pieces, piece.Sound := by
  induction text using tile_induction with
  | gap text h =>
    rw [tile_of_gap h]
    exact List.forall_mem_nil _
  | piece text c rest h ih =>
    rw [tile_of_piece h]
    exact List.forall_mem_cons.2 ⟨⟨(scan_tiles c rest).1, scan_reads c rest⟩, ih⟩

/-- The places that are named for a piece: that of its token and that of its error. -/
def spots (placed : Token × Option LexicalError) : List Position :=
  placed.1.position :: (placed.2.map (·.position)).toList

theorem Piece.Sound.spots_place {piece : Piece} (h : piece.Sound) (p : Position) :
    ∀ q ∈ spots (piece.place p), ∃ n < piece.raw.length, q = p.after (piece.raw.take n) := by
  obtain ⟨gap, raw, reading⟩ := piece
  obtain ⟨hne, hreads⟩ := h
  dsimp only at hne hreads
  have hhead : ∃ n < raw.length, p = p.after (raw.take n) := ⟨0, List.length_pos_iff.2 hne, rfl⟩
  cases hreads with
  | @badGrouping offset hoffset =>
    simp only [spots, Piece.place, Fault.movesToken, ↓reduceIte, Option.map_some,
      Option.toList_some, List.forall_mem_cons]
    exact ⟨⟨offset, hoffset, rfl⟩, ⟨offset, hoffset, rfl⟩, List.forall_mem_nil _⟩
  | @badEscape _ _ offset _ hoffset =>
    simp only [spots, Piece.place, Fault.movesToken, Bool.false_eq_true, ↓reduceIte,
      Option.map_some, Option.toList_some, List.forall_mem_cons]
    exact ⟨hhead, ⟨offset, hoffset, rfl⟩, List.forall_mem_nil _⟩
  | @fault f hf =>
    simp only [spots, Piece.place, hf, Bool.false_eq_true, ↓reduceIte, List.take_zero,
      Position.after_nil, Option.map_some, Option.toList_some, List.forall_mem_cons]
    exact ⟨hhead, hhead, List.forall_mem_nil _⟩
  | itself | number | string | character =>
    simp only [spots, Piece.place, Option.map_none, Option.toList_none, List.forall_mem_cons]
    exact ⟨hhead, List.forall_mem_nil _⟩

theorem Piece.Sound.position_eq {piece : Piece} (h : piece.Sound) {p : Position} {e : LexicalError}
    (he : (piece.place p).2 = some e) (hfault : ∀ quote c, e.fault ≠ .invalidEscape quote c) :
    (piece.place p).1.position = e.position := by
  obtain ⟨gap, raw, reading⟩ := piece
  obtain ⟨-, hreads⟩ := h
  dsimp only at hreads
  cases hreads with
  | itself | number | string | character => cases he
  | @fault f hf =>
    obtain rfl := Option.some.inj he
    simp [Piece.place, hf]
  | badEscape =>
    obtain rfl := Option.some.inj he
    exact absurd rfl (hfault _ _)
  | badGrouping =>
    obtain rfl := Option.some.inj he
    rfl

theorem Piece.Sound.isError_iff {piece : Piece} (h : piece.Sound) (p : Position) :
    (piece.place p).1.kind.isError = true ↔ (piece.place p).2.isSome = true := by
  rw [piece.place_kind, Piece.content, h.reads.isError_iff]
  cases hreading : piece.reading <;> simp [place, hreading]

theorem mem_placeAll {p : Position} {pieces : List Piece} {placed : Token × Option LexicalError}
    (h : placed ∈ placeAll p pieces) : ∃ piece ∈ pieces, ∃ q, placed = piece.place q := by
  induction pieces generalizing p with
  | nil => cases h
  | cons piece pieces ih =>
    rcases List.mem_cons.1 h with rfl | h
    · exact ⟨piece, List.mem_cons_self, _, rfl⟩
    · obtain ⟨piece', hmem, hplaced⟩ := ih h
      exact ⟨piece', List.mem_cons_of_mem _ hmem, hplaced⟩

theorem spots_of_mem_placeAll {p : Position} {pieces : List Piece}
    (hsound : ∀ piece ∈ pieces, piece.Sound) :
    ∀ placed ∈ placeAll p pieces, ∀ q ∈ spots placed, ∃ before after, after ≠ [] ∧
      before ++ after = pieces.flatMap Piece.chars ∧ q = p.after before := by
  induction pieces generalizing p with
  | nil => exact List.forall_mem_nil _
  | cons piece pieces ih =>
    obtain ⟨hpiece, hsound⟩ := List.forall_mem_cons.1 hsound
    refine List.forall_mem_cons.2 ⟨fun q hq => ?_, fun placed hplaced q hq => ?_⟩
    · obtain ⟨n, hn, rfl⟩ := hpiece.spots_place _ q hq
      refine ⟨piece.gap ++ piece.raw.take n, piece.raw.drop n ++ pieces.flatMap Piece.chars,
        ?_, ?_, ?_⟩
      · simpa using fun h => absurd h (Nat.not_le.2 hn)
      · rw [List.append_assoc, ← List.append_assoc (piece.raw.take n), List.take_append_drop,
          List.flatMap_cons, Piece.chars, List.append_assoc]
      · rw [Position.after_append]
    · obtain ⟨before, after, hne, happend, rfl⟩ := ih hsound placed hplaced q hq
      refine ⟨piece.chars ++ before, after, hne, ?_, ?_⟩
      · rw [List.append_assoc, happend, List.flatMap_cons]
      · simp only [Piece.chars, Position.after_append]

/-- What is said of a piece stands before all that is said of later ones. -/
theorem placeAll_spots_pairwise {p : Position} {pieces : List Piece}
    (hsound : ∀ piece ∈ pieces, piece.Sound) :
    (placeAll p pieces).Pairwise fun a b => ∀ q ∈ spots a, ∀ r ∈ spots b, q < r := by
  induction pieces generalizing p with
  | nil => exact .nil
  | cons piece pieces ih =>
    obtain ⟨hpiece, hsound⟩ := List.forall_mem_cons.1 hsound
    refine .cons (fun placed hplaced q hq r hr => ?_) (ih hsound)
    obtain ⟨n, hn, rfl⟩ := hpiece.spots_place _ q hq
    obtain ⟨before, -, -, -, rfl⟩ := spots_of_mem_placeAll hsound placed hplaced r hr
    have hraw : ((p.after piece.gap).after piece.raw).after before =
        ((p.after piece.gap).after (piece.raw.take n)).after (piece.raw.drop n ++ before) := by
      rw [← Position.after_append _ (piece.raw.take n), ← List.append_assoc,
        List.take_append_drop, Position.after_append]
    rw [hraw]
    apply Position.lt_after
    simpa using fun h => absurd h (Nat.not_le.2 hn)

theorem placeAll_pairwise {p : Position} {pieces : List Piece}
    (hsound : ∀ piece ∈ pieces, piece.Sound) :
    (placeAll p pieces).Pairwise fun a b => a.1.position < b.1.position :=
  (placeAll_spots_pairwise hsound).imp fun h => h _ List.mem_cons_self _ List.mem_cons_self

theorem placeAll_inj {p : Position} {pieces : List Piece} (hsound : ∀ piece ∈ pieces, piece.Sound)
    {a b : Token × Option LexicalError} (ha : a ∈ placeAll p pieces) (hb : b ∈ placeAll p pieces)
    (h : a.1.position = b.1.position) : a = b := by
  have hnodup : ((placeAll p pieces).map (·.1.position)).Nodup :=
    List.pairwise_map.2 ((placeAll_pairwise hsound).imp Position.ne_of_lt)
  exact List.inj_on_of_nodup_map hnodup ha hb h

/-- An error that is found at its token belongs to the token at its place. -/
theorem mem_errors_iff {p : Position} {pieces : List Piece} (hsound : ∀ piece ∈ pieces, piece.Sound)
    {placed : Token × Option LexicalError} (hplaced : placed ∈ placeAll p pieces) {f : Fault}
    (hf : ∀ quote c, f ≠ .invalidEscape quote c) :
    ⟨f, placed.1.position⟩ ∈ (placeAll p pieces).filterMap (·.2) ↔
      placed.2 = some ⟨f, placed.1.position⟩ := by
  rw [List.mem_filterMap]
  constructor
  · rintro ⟨other, hother, herror⟩
    obtain ⟨piece, hpiece, q, rfl⟩ := mem_placeAll hother
    have hposition := (hsound piece hpiece).position_eq herror hf
    rwa [← placeAll_inj hsound hother hplaced hposition] at herror ⊢
  · exact fun h => ⟨placed, hplaced, h⟩

theorem placeAll_kind_ne_endMarker {p : Position} {pieces : List Piece}
    (hsound : ∀ piece ∈ pieces, piece.Sound) :
    ∀ placed ∈ placeAll p pieces, placed.1.kind ≠ .endMarker := by
  intro placed hplaced
  obtain ⟨piece, hpiece, q, rfl⟩ := mem_placeAll hplaced
  rw [piece.place_kind]
  exact (hsound piece hpiece).reads.ne_endMarker

end Source
end CoreLang
