import CoreLang.Proofs.Source.Tiles

/-! The text that is written for a token is read as that token again, at the end of a text and before
a space. Only a literal without its closing quote would take in what is written after it. -/
namespace CoreLang
open Text (Quote)

def Kind.spell (kind : Kind) (lexeme : List Char) : List Char :=
  match kind with
  | .string => Text.quoted .double lexeme
  | .characterLiteral => Text.quoted .single lexeme
  | _ => lexeme

theorem Kind.spell_of_not_isLiteral {kind : Kind} (h : kind.isLiteral = false) (lexeme : List Char) :
    kind.spell lexeme = lexeme := by
  cases kind <;> first | rfl | cases h

theorem Token.toList_source (t : Token) : t.source.toList = t.kind.spell t.lexeme.toList := by
  unfold source Kind.spell
  split <;> simp_all

namespace Source
variable {c : Char} {rest next raw : List Char} {r : Reading}

def contents (text : List Char) : List (Kind × List Char) := (tile text).pieces.map Piece.content

theorem contents_of_gap {text : List Char} (h : (splitGap false text).2 = []) :
    contents text = [] := by
  rw [contents, tile_of_gap h]
  rfl

theorem contents_nil : contents [] = [] := contents_of_gap rfl

theorem contents_of_piece {text : List Char} (h : (splitGap false text).2 = c :: rest) :
    contents text = (scan c rest).content :: contents (scan c rest).rest := by
  rw [contents, tile_of_piece h]
  rfl

theorem contents_space (text : List Char) : contents (' ' :: text) = contents text := by
  have hgap := splitGap_blank (c := ' ') (by decide) text
  cases h : (splitGap false text).2 with
  | nil => rw [contents_of_gap h, contents_of_gap (by rw [hgap, h])]
  | cons c rest =>
    have hpiece : (splitGap false (' ' :: text)).2 = c :: rest := by rw [hgap, h]
    rw [contents_of_piece h, contents_of_piece hpiece]

theorem contents_of_starts (h : StartsPiece c rest) :
    contents (c :: rest) = (scan c rest).content :: contents (scan c rest).rest :=
  contents_of_piece (congrArg Prod.snd (splitGap_of_startsPiece h))

theorem contents_of_scan (h : StartsPiece c rest) (hscan : scan c rest = ⟨raw, r, next⟩) :
    contents (c :: rest) = r.content raw :: contents next := by
  rw [contents_of_starts h, hscan]
  rfl

/-- A piece that is written as it stood is read as it was. -/
theorem contents_raw (h : StartsPiece c rest) (hnext : (scan c rest).EndsBefore next) :
    contents ((scan c rest).raw ++ next) = (scan c rest).content :: contents next := by
  obtain ⟨tail, hraw, -⟩ := (scan_tiles c rest).exists_tail
  rw [Scan.content, hraw]
  exact contents_of_scan (h.append hraw hnext) (scan_append hraw hnext)

theorem not_isBlank_of_isDigit (h : c.isDigit = true) : Text.isBlank c = false := by
  obtain ⟨hfirst, hlast⟩ := Bool.and_eq_true_iff.1 h
  have hfirst : 0x30 ≤ c.toNat := of_decide_eq_true hfirst
  have hlast : c.toNat ≤ 0x39 := of_decide_eq_true hlast
  rw [Text.isBlank, Bool.eq_false_iff, Ne, Text.Ranges.covers_iff Text.blankRanges_ordered]
  rintro ⟨range, hrange, hbounds⟩
  simp only [Text.blankRanges, List.mem_cons, List.not_mem_nil, or_false] at hrange
  rcases hrange with rfl | rfl | rfl | rfl | rfl | rfl | rfl | rfl | rfl | rfl <;>
    dsimp only at hbounds <;> omega

theorem startsPiece_of_isDigit (h : c.isDigit = true) (rest : List Char) : StartsPiece c rest := by
  refine ⟨not_isBlank_of_isDigit h, fun hslash => ?_⟩
  rw [hslash.1] at h
  exact absurd h (by decide)

theorem startsPiece_quote (quote : Quote) (rest : List Char) : StartsPiece quote.char rest := by
  cases quote <;> exact ⟨by decide, fun h => absurd h.1 (by decide)⟩

theorem Numeral.Plain.exists_cons {kind : Kind} {numeral : List Char} (h : Plain kind numeral) :
    ∃ d tail, numeral = d :: tail ∧ d.isDigit = true := by
  cases h with
  | integer hne hdigits =>
    obtain ⟨d, tail, rfl⟩ := List.exists_cons_of_ne_nil hne
    exact ⟨d, tail, rfl, hdigits d List.mem_cons_self⟩
  | float hwhole hdigits =>
    obtain ⟨d, tail, rfl⟩ := List.exists_cons_of_ne_nil hwhole
    exact ⟨d, _, rfl, hdigits d List.mem_cons_self⟩

/-- A text that begins with a piece, and how this piece is scanned. -/
def ScansTo (text : List Char) (s : Scan) : Prop :=
  ∃ c rest, text = c :: rest ∧ StartsPiece c rest ∧ scan c rest = s

theorem scansTo_plain {kind : Kind} {numeral : List Char} (h : Numeral.Plain kind numeral)
    (hnext : ∀ d ∈ next.head?, Numeral.isMember d = false) :
    ScansTo (numeral ++ next) ⟨numeral, .token kind numeral, next⟩ := by
  have hscan := Numeral.scan_plain h hnext
  obtain ⟨d, tail, rfl, hd⟩ := h.exists_cons
  have hstart : Numeral.startsAt d (tail ++ next) = true := by simp [Numeral.startsAt, hd]
  rw [List.cons_append, ← scan_numeral hstart] at hscan
  exact ⟨d, tail ++ next, rfl, startsPiece_of_isDigit hd _, hscan⟩

theorem scansTo_quoted (quote : Quote) (value next : List Char) :
    ScansTo (Text.quoted quote value ++ next)
      ⟨Text.quoted quote value, Literal.readValue quote value, next⟩ := by
  have hscan := Literal.scan_quoted quote value next
  rw [← scan_quote] at hscan
  exact ⟨quote.char, _, by simp [Text.quoted], startsPiece_quote quote _, hscan⟩

theorem contents_plain {kind : Kind} {numeral : List Char} (h : Numeral.Plain kind numeral)
    (hnext : ∀ d ∈ next.head?, d = ' ') :
    contents (numeral ++ next) = (kind, numeral) :: contents next := by
  obtain ⟨c, rest, htext, hstarts, hscan⟩ :=
    scansTo_plain h fun d hd => by rw [hnext d hd]; decide
  rw [htext]
  exact contents_of_scan hstarts hscan

theorem contents_quoted (quote : Quote) (value next : List Char) :
    contents (Text.quoted quote value ++ next) =
      (Literal.readValue quote value).content (Text.quoted quote value) :: contents next := by
  obtain ⟨c, rest, htext, hstarts, hscan⟩ := scansTo_quoted quote value next
  rw [htext]
  exact contents_of_scan hstarts hscan

/-- The text that is written for a piece is read as that piece. -/
theorem contents_spell (h : StartsPiece c rest)
    (hnext : ∀ d ∈ next.head?, d = ' ' ∧ ¬(scan c rest).reading.Open) :
    contents ((scan c rest).content.1.spell (scan c rest).content.2 ++ next) =
      (scan c rest).content :: contents next := by
  have hraw := contents_raw h fun d hd => .inr (.inr (hnext d hd))
  have hspace : ∀ d ∈ next.head?, d = ' ' := fun d hd => (hnext d hd).1
  have hreads := scan_reads c rest
  unfold Scan.content at hraw ⊢
  generalize (scan c rest).raw = raw at hraw hreads ⊢
  generalize (scan c rest).reading = reading at hraw hreads ⊢
  cases hreads with
  | itself hliteral =>
    simp only [Reading.content, Kind.spell_of_not_isLiteral hliteral] at hraw ⊢
    exact hraw
  | number hplain =>
    have hspell : (Numeral.kind raw).spell (Numeral.value raw) = Numeral.value raw := by
      rcases Numeral.kind_cases raw with h | h <;> rw [h] <;> rfl
    simp only [Reading.content, hspell]
    exact contents_plain hplain hspace
  | string => exact contents_quoted .double _ next
  | character => exact contents_quoted .single _ next
  | @fault f =>
    have hspell : f.tokenKind.spell raw = raw := by
      rcases f.tokenKind_cases with h | h <;> rw [h] <;> rfl
    simp only [Reading.content, hspell] at hraw ⊢
    exact hraw
  | badEscape => exact hraw
  | badGrouping => exact hraw

theorem exists_quote_of_open (h : (scan c rest).reading.Open) :
    ∃ quote : Quote, c = quote.char ∧ (Literal.split quote rest).closed = false := by
  obtain ⟨quote', h⟩ := h
  revert h
  refine scan_cases (motive := fun s => s.reading = .fault (.unterminated quote') 0 → _)
    (fun _ h => ?_) (fun h => ?_) (fun quote hc h => ?_) (fun h => ?_)
  · simp only [Numeral.scan] at h
    split at h <;> cases h
  · simp only [Word.scan, Word.read] at h
    split at h <;> cases h
  · exact ⟨quote, hc, Literal.closed_eq_false_of_reading h⟩
  · unfold scanSymbol at h
    split at h <;> cases h

theorem rest_of_open (h : (scan c rest).reading.Open) :
    ∀ d ∈ (scan c rest).rest.head?, d = '\n' := by
  obtain ⟨quote, rfl, hclosed⟩ := exists_quote_of_open h
  rw [scan_quote]
  exact Literal.rest_of_open hclosed

theorem scan_raw_ne_of_open {tail : List Char} (h : (scan c rest).reading.Open)
    (hraw : (scan c rest).raw = c :: tail) (next : List Char) :
    (scan c (tail ++ ' ' :: next)).raw ≠ c :: tail := by
  intro hraw'
  have hrest := (scan_tiles c (tail ++ ' ' :: next)).tail_append hraw'
  have halone : scan c (tail ++ []) = ⟨c :: tail, (scan c rest).reading, []⟩ :=
    scan_append hraw nofun
  have hsame : scan c (tail ++ []) = ⟨c :: tail, (scan c (tail ++ ' ' :: next)).reading, []⟩ :=
    scan_append hraw' nofun
  have hreading := congrArg Scan.reading (halone.symm.trans hsame)
  dsimp only at hreading
  rw [hreading] at h
  have hline := rest_of_open h
  rw [List.append_cancel_left hrest] at hline
  exact absurd (hline ' ' rfl) (by decide)

theorem contents_spell_of_open (h : (scan c rest).reading.Open) (next : List Char)
    (xs : List (Kind × List Char)) :
    contents ((scan c rest).content.1.spell (scan c rest).content.2 ++ ' ' :: next) ≠
      (scan c rest).content :: xs := by
  obtain ⟨quote, hc, -⟩ := exists_quote_of_open h
  obtain ⟨tail, hraw, -⟩ := (scan_tiles c rest).exists_tail
  obtain ⟨quote', hreading⟩ := id h
  have hcontent : (scan c rest).content = (.invalidCharacter, c :: tail) := by
    rw [Scan.content, hreading, hraw]
    rfl
  have hspell : Kind.invalidCharacter.spell (c :: tail) = c :: tail := rfl
  have hstart : StartsPiece c (tail ++ ' ' :: next) := hc ▸ startsPiece_quote quote _
  rw [hcontent, hspell, List.cons_append, contents_of_starts hstart]
  intro heq
  have hsame : (scan c (tail ++ ' ' :: next)).content = (.invalidCharacter, c :: tail) :=
    (List.cons.inj heq).1
  have herror : (scan c (tail ++ ' ' :: next)).content.1.isError = true := by rw [hsame]; rfl
  have hlexeme := (scan_reads c (tail ++ ' ' :: next)).lexeme_of_isError herror
  exact scan_raw_ne_of_open h hraw next (hlexeme.symm.trans (congrArg Prod.snd hsame))

end Source
end CoreLang
