import CoreLang.Proofs.Source.Found
import CoreLang.Proofs.Source.Places

/-! Every faulty token has an error of its own, and every error a token, in the same order. Only
a bad escape is found behind the place of its token. -/
namespace CoreLang

theorem Position.after_of_not_mem (p : Position) {text : List Char} (h : '\n' ∉ text) :
    p.after text = ⟨p.line, p.column + text.length⟩ := by
  induction text generalizing p with
  | nil => rfl
  | cons c text ih =>
    obtain ⟨hc, htext⟩ := not_or.1 (mt List.mem_cons.2 h)
    rw [after_cons, ih _ htext, next, if_neg (Ne.symm hc), List.length_cons]
    simp only [mk.injEq, true_and]
    omega

theorem Fault.tokenKind_eq_invalidIdentifier {f : Fault} :
    f.tokenKind = .invalidIdentifier ↔ f = .longIdentifier := by
  cases f <;> simp [tokenKind]

/-- The error of a faulty token. A bad escape is found inside its literal, at the backslash of the
first one, and every other fault where the token stands. -/
structure LexicalError.Explains (e : LexicalError) (t : Token) : Prop where
  kind : t.kind = .invalidIdentifier ↔ e.fault = .longIdentifier
  position : (∀ quote c, e.fault ≠ .invalidEscape quote c) → e.position = t.position
  escape : ∀ quote c, e.fault = .invalidEscape quote c →
    ∃ offset, Source.Literal.BreaksAt quote c t.lexeme.toList offset ∧
      0 < offset ∧ offset < t.lexeme.toList.length ∧
      e.position = ⟨t.position.line, t.position.column + offset⟩

namespace Source
open Text (Quote)

theorem Literal.Mark.Inner.not_mem_raw {quote : Quote} {m : Mark} (h : m.Inner quote) :
    '\n' ∉ m.raw := by
  cases m with
  | plain c =>
    obtain ⟨hline, -, -⟩ := h
    simpa [raw] using Ne.symm hline
  | escaped c =>
    have hline : c ≠ '\n' := h
    simpa [raw] using Ne.symm hline

/-- A bad escape stands on the line of its literal, not at its opening quote and before its closing
one. -/
theorem Literal.BreaksAt.after_take {quote : Quote} {c : Char} {raw : List Char} {offset : Nat}
    (h : BreaksAt quote c raw offset) (p : Position) :
    0 < offset ∧ offset < raw.length ∧
      p.after (raw.take offset) = ⟨p.line, p.column + offset⟩ := by
  obtain ⟨marks, rest, rfl, hmarks, -, rfl⟩ := h
  have hquote : '\n' ≠ quote.char := by cases quote <;> decide
  have hline : '\n' ∉ quote.char :: marks.flatMap Mark.raw := by
    rw [List.mem_cons, List.mem_flatMap]
    rintro (hmem | ⟨m, hm, hmem⟩)
    · exact hquote hmem
    · exact (hmarks m hm).1.not_mem_raw hmem
  have htake : (quote.char :: (marks.flatMap Mark.raw ++ '\\' :: c :: (rest ++ [quote.char]))).take
      (1 + (marks.flatMap Mark.raw).length) = quote.char :: marks.flatMap Mark.raw := by
    rw [Nat.add_comm, List.take_succ_cons, List.take_left]
  refine ⟨by omega, ?_, ?_⟩
  · simp only [List.length_cons, List.length_append]
    omega
  · rw [htake, Position.after_of_not_mem p hline, List.length_cons]
    congr 1
    omega

theorem Piece.Sound.explains {piece : Piece} (h : piece.Sound)
    (hfound : ∀ f offset, piece.reading = .fault f offset → f.FoundAt piece.raw offset)
    {p : Position} {e : LexicalError} (he : (piece.place p).2 = some e) :
    e.Explains (piece.place p).1 := by
  have hposition := h.position_eq he
  obtain ⟨gap, raw, reading⟩ := piece
  cases reading with
  | token kind lexeme => cases he
  | fault f offset =>
    obtain rfl := Option.some.inj he
    have hfound := hfound f offset rfl
    constructor
    · exact Fault.tokenKind_eq_invalidIdentifier
    · exact fun hfault => (hposition hfault).symm
    · rintro quote c rfl
      have hbreaks : Literal.BreaksAt quote c raw offset := hfound
      obtain ⟨hpos, hlt, hafter⟩ := hbreaks.after_take p
      refine ⟨offset, ?_, hpos, ?_, hafter⟩
      · simpa [place] using hbreaks
      · simpa [place] using hlt

theorem forall₂_explains {placed : List (Token × Option LexicalError)}
    (herror : ∀ x ∈ placed, x.1.kind.isError = true ↔ x.2.isSome = true)
    (hexplains : ∀ x ∈ placed, ∀ e, x.2 = some e → e.Explains x.1) :
    List.Forall₂ (fun t e => e.Explains t) ((placed.map (·.1)).filter (·.kind.isError))
      (placed.filterMap (·.2)) := by
  induction placed with
  | nil => exact .nil
  | cons x placed ih =>
    obtain ⟨hx, herror⟩ := List.forall_mem_cons.1 herror
    obtain ⟨hhead, hexplains⟩ := List.forall_mem_cons.1 hexplains
    have ih := ih herror hexplains
    obtain ⟨t, error⟩ := x
    cases error with
    | none =>
      have hk : t.kind.isError = false := by simpa using hx
      simpa [hk] using ih
    | some e =>
      have hk : t.kind.isError = true := by simpa using hx
      simpa [hk] using ⟨hhead e rfl, ih⟩

end Source

namespace Lexed

/-- The errors are those of the faulty tokens, one for each and in their order, and their positions
rise. -/
theorem ofSource_explains (source : String) :
    List.Forall₂ (fun t e => e.Explains t)
        ((ofSource source).tokens.filter (·.kind.isError)) (ofSource source).errors ∧
      (ofSource source).errors.Pairwise fun d e => d.position < e.position := by
  have hsound := Source.tile_sound source.toList
  have hfound := Source.tile_foundAt source.toList
  constructor
  · have hmarker : [Token.endMarker (Position.start.after source.toList)].filter
        (·.kind.isError) = [] := rfl
    simp only [ofSource, ofChars, List.filter_append, hmarker, List.append_nil]
    apply Source.forall₂_explains
    · intro x hx
      obtain ⟨piece, hpiece, p, rfl⟩ := Source.mem_placeAll hx
      exact (hsound piece hpiece).isError_iff p
    · intro x hx e he
      obtain ⟨piece, hpiece, p, rfl⟩ := Source.mem_placeAll hx
      exact (hsound piece hpiece).explains (hfound piece hpiece) he
  · apply List.pairwise_filterMap.2
    refine (Source.placeAll_spots_pairwise hsound).imp fun {x y} h d hd e he => ?_
    apply h
    · simp [Source.spots, Option.mem_def.1 hd]
    · simp [Source.spots, Option.mem_def.1 he]

end Lexed
end CoreLang
