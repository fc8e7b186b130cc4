import CoreLang.Proofs.Source.Explained
import CoreLang.Proofs.Source.Lines
import CoreLang.Proofs.Source.Positions

/-! A text that goes on. What is added behind a text can change its last token and nothing before
it, since every other piece is followed by the character that ended it. -/
namespace CoreLang

theorem Position.not_after_lt (p : Position) (text : List Char) : ¬p.after text < p := by
  intro h
  by_cases htext : text = []
  · rw [htext, after_nil] at h
    exact ne_of_lt h rfl
  · exact ne_of_lt (lt_trans (lt_after htext) h) rfl

namespace Source
variable {text more : List Char} {init : List Piece} {last : Piece}

theorem splitGap_prefix_append {comment : Bool} {a : List Char} (h : (splitGap comment a).2 ≠ [])
    (more : List Char) : (splitGap comment a).1 <+: (splitGap comment (a ++ more)).1 := by
  fun_induction splitGap comment a with
  | case1 => exact absurd rfl h
  | case2 | case3 => simp_all [splitGap]
  | case4 _ _ rest _ _ hslash =>
    have hhead : (rest ++ more).head? = some '/' := by simp [hslash.2]
    simp_all [splitGap]
  | case5 => exact List.nil_prefix

theorem isGap_lastGap (text : List Char) : IsGap [] (tile text).lastGap := by
  induction text using tile_induction with
  | gap text h =>
    rw [tile_of_gap h]
    exact isGap_of_splitGap h
  | piece text c rest h ih => rwa [tile_of_piece h]

/-- All pieces but the last one stay what they are before any text, and what follows them is cut as
a text of its own. -/
theorem pieces_append (h : (tile text).pieces = init ++ [last]) (more : List Char) :
    (tile (text ++ more)).pieces =
        init ++ (tile (last.chars ++ (tile text).lastGap ++ more)).pieces ∧
      last.gap <+: (splitGap false (last.chars ++ (tile text).lastGap ++ more)).1 := by
  induction text using tile_induction generalizing init with
  | gap text hgap =>
    rw [tile_of_gap hgap] at h
    exact absurd h.symm (by simp)
  | piece text c rest hpiece ih =>
    have htext := tile_append text
    have hcons := h
    rw [tile_of_piece hpiece] at hcons
    cases init with
    | nil =>
      obtain ⟨rfl, -⟩ := List.cons.inj hcons
      rw [h, List.nil_append, List.flatMap_singleton] at htext
      rw [htext, List.nil_append]
      exact ⟨rfl, splitGap_prefix_append (by simp [hpiece]) more⟩
    | cons first init =>
      obtain ⟨rfl, hrest⟩ := List.cons.inj hcons
      have hends : (scan c rest).EndsBefore ((scan c rest).rest ++ more) := by
        intro d hd
        cases hnext : (scan c rest).rest with
        | nil =>
          rw [hnext, tile_of_gap rfl] at hrest
          exact absurd hrest.symm (by simp)
        | cons e next =>
          rw [hnext] at hd
          exact .inl hd
      obtain ⟨hpieces, hgap⟩ := ih hrest
      rw [tile_append_of_piece hpiece hends, tile_of_piece hpiece]
      exact ⟨congrArg (_ :: ·) hpieces, hgap⟩

theorem not_position_lt {p : Position} {gap : List Char} (hgap : gap <+: (splitGap false text).1) :
    ∀ placed ∈ placeAll p (tile text).pieces, ¬placed.1.position < p.after gap := by
  intro placed hplaced
  have hsound := tile_sound text
  cases hpiece : (splitGap false text).2 with
  | nil =>
    rw [tile_of_gap hpiece] at hplaced
    cases hplaced
  | cons c rest =>
    obtain ⟨gap', hgap'⟩ := hgap
    rw [tile_of_piece hpiece] at hplaced hsound
    obtain ⟨hfirst, hlater⟩ := List.forall_mem_cons.1 hsound
    have hhead : (⟨gap', (scan c rest).raw, (scan c rest).reading⟩ : Piece).Sound :=
      ⟨hfirst.raw_ne_nil, hfirst.reads⟩
    simp only [Tiling.cons, placeAll, ← hgap', Position.after_append] at hplaced
    obtain ⟨before, -, -, -, hposition⟩ :=
      spots_of_mem_placeAll (p := p.after gap) (List.forall_mem_cons.2 ⟨hhead, hlater⟩) placed
        hplaced _ List.mem_cons_self
    rw [hposition]
    exact Position.not_after_lt _ _

/-- A text with a piece in it and the same text with more behind it have the tokens of all pieces but
the last one in common. What else the longer one has stands where that piece begins or behind it. -/
theorem exists_kept {a : List Char} (h : (tile a).pieces ≠ []) (b : List Char) :
    ∃ before last kept later, last ∈ (tile a).pieces ∧ a = before ++ last.raw ++ (tile a).lastGap ∧
      placeAll .start (tile a).pieces = kept ++ [last.place (.ofText before)] ∧
      placeAll .start (tile (a ++ b)).pieces = kept ++ later ∧
      ∀ placed ∈ later, ¬placed.1.position < .ofText before := by
  obtain ⟨init, last, hpieces⟩ := (List.eq_nil_or_concat' (tile a).pieces).resolve_left h
  obtain ⟨hlonger, hgap⟩ := pieces_append hpieces b
  have htext := tile_append a
  rw [hpieces, List.flatMap_append, List.flatMap_singleton] at htext
  have hbefore : (Position.start.after (init.flatMap Piece.chars)).after last.gap =
      .ofText (init.flatMap Piece.chars ++ last.gap) := by
    rw [← Position.after_append, Position.start_after]
  refine ⟨init.flatMap Piece.chars ++ last.gap, last, placeAll .start init,
    placeAll (Position.start.after (init.flatMap Piece.chars))
      (tile (last.chars ++ (tile a).lastGap ++ b)).pieces, ?_, ?_, ?_, ?_, ?_⟩
  · exact hpieces ▸ List.mem_append_right _ List.mem_cons_self
  · simpa [Piece.chars] using htext.symm
  · rw [hpieces, placeAll_append, ← hbefore]
    rfl
  · rw [hlonger, placeAll_append]
  · rw [← hbefore]
    exact not_position_lt hgap

/-- Pieces of a text that are placed anywhere leave faulty tokens and errors that explain them. -/
theorem explains_of_places {text : List Char} {placed : List (Token × Option LexicalError)}
    (h : ∀ x ∈ placed, ∃ piece ∈ (tile text).pieces, ∃ p, x = piece.place p) :
    List.Forall₂ (fun t e => e.Explains t) ((placed.map (·.1)).filter (·.kind.isError))
      (placed.filterMap (·.2)) := by
  apply forall₂_explains
  · intro x hx
    obtain ⟨piece, hpiece, p, rfl⟩ := h x hx
    exact (tile_sound text piece hpiece).isError_iff p
  · intro x hx e he
    obtain ⟨piece, hpiece, p, rfl⟩ := h x hx
    exact (tile_sound text piece hpiece).explains (tile_foundAt text piece hpiece) he

end Source

namespace Lexed

/-- Text that is added behind a text leaves all tokens but the last one as they are, with their
positions and their errors. All further tokens stand where the last one began or behind it. -/
theorem ofSource_append (a b : String) {ts : List Token} {t m : Token}
    (h : (ofSource a).tokens = ts ++ [t, m]) :
    ts <+: (ofSource (a ++ b)).tokens ∧
      (∃ errors, errors <+: (ofSource a).errors ∧ errors <+: (ofSource (a ++ b)).errors ∧
        List.Forall₂ (fun t e => e.Explains t) (ts.filter (·.kind.isError)) errors) ∧
      ∃ before raw gap, a.toList = before ++ raw ++ gap ∧ Source.IsGap [] gap ∧
        t.kind.lexeme? raw = some t.lexeme.toList ∧
        t.StandsBehind (ofSource a).errors before raw ∧
        ∀ u ∈ (ofSource (a ++ b)).tokens.drop ts.length, ¬u.position < .ofText before := by
  have hsound := Source.tile_sound a.toList
  have hfound := Source.tile_foundAt a.toList
  have hplaced : (Source.placeAll .start (Source.tile a.toList).pieces).map (·.1) = ts ++ [t] := by
    rw [List.append_cons] at h
    exact (List.append_inj' h rfl).1
  have hne : (Source.tile a.toList).pieces ≠ [] := fun hnil => by
    rw [hnil] at hplaced
    exact absurd hplaced.symm (by simp [Source.placeAll])
  obtain ⟨before, last, kept, later, hlast, htext, hall, hlonger, hbehind⟩ :=
    Source.exists_kept hne b.toList
  rw [hall, List.map_append] at hplaced
  obtain ⟨rfl, ht⟩ := List.append_inj' hplaced rfl
  obtain rfl := (List.singleton_inj.1 ht).symm
  have hmem := hall ▸ List.mem_append_right kept List.mem_cons_self
  rw [← String.toList_append] at hlonger
  refine ⟨?_, ⟨kept.filterMap (·.2), ?_, ?_, ?_⟩,
    before, last.raw, (Source.tile a.toList).lastGap, htext, Source.isGap_lastGap _, ?_, ?_, ?_⟩
  · simp only [ofSource, ofChars, hlonger, List.map_append, List.append_assoc]
    exact List.prefix_append _ _
  · simp only [ofSource, ofChars, hall, List.filterMap_append]
    exact List.prefix_append _ _
  · simp only [ofSource, ofChars, hlonger, List.filterMap_append]
    exact List.prefix_append _ _
  · exact Source.explains_of_places fun placed hmem =>
      Source.mem_placeAll (hall ▸ List.mem_append_left _ hmem)
  · rw [Source.Piece.place_kind, Source.Piece.place_lexeme, String.toList_ofList]
    exact (hsound last hlast).reads.lexeme?
  · apply Source.Piece.standsBehind (hfound last hlast)
    intro numeral
    exact Source.mem_errors_iff hsound hmem (f := .badGrouping numeral) fun _ _ hfault => by
      cases hfault
  · intro u hu
    simp only [ofSource, ofChars, hlonger, List.map_append] at hu
    rw [List.append_assoc, List.drop_left] at hu
    rcases List.mem_append.1 hu with hu | hu
    · obtain ⟨placed, hplaced, rfl⟩ := List.mem_map.1 hu
      exact hbehind placed hplaced
    · obtain rfl := List.mem_singleton.1 hu
      have hend : Position.start.after (a ++ b).toList =
          (Position.ofText before).after
            (last.raw ++ ((Source.tile a.toList).lastGap ++ b.toList)) := by
        rw [Position.after_ofText, ← Position.start_after, ← List.append_assoc,
          ← List.append_assoc, ← htext, String.toList_append]
      rw [Token.endMarker, hend]
      exact Position.not_after_lt _ _

/-- A broken group of digits is mended by the digits that follow. -/
theorem ofSource_append_group :
    (ofSource "$ 1'2").tokens =
        [⟨.invalidCharacter, "$", ⟨1, 1⟩⟩] ++
          [⟨.invalidCharacter, "1'2", ⟨1, 4⟩⟩, .endMarker ⟨1, 6⟩] ∧
      [⟨.invalidCharacter, "$", ⟨1, 1⟩⟩] <+: (ofSource ("$ 1'2" ++ "34")).tokens :=
  have h : (ofSource "$ 1'2").tokens = [⟨.invalidCharacter, "$", ⟨1, 1⟩⟩] ++
      [⟨.invalidCharacter, "1'2", ⟨1, 4⟩⟩, .endMarker ⟨1, 6⟩] := by decide +kernel
  ⟨h, (ofSource_append "$ 1'2" "34" h).1⟩

end Lexed
end CoreLang
