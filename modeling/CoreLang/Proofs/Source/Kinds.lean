import CoreLang.Proofs.Source.Written
import Mathlib.Data.List.Basic

/-! What the kind of a token says of its text, and what the head of a text says of the kind. Literals
have a value of their kind, words go as far as they can and are keywords or names, and symbols stand
for themselves, the longer ones first. -/
namespace CoreLang
open Text (Quote)

/-- Kinds of tokens that stand for words. -/
def Kind.isWord (kind : Kind) : Bool :=
  kind.isKeyword || kind matches .identifier | .invalidIdentifier

theorem Kind.isWord_eq_false {kind : Kind} (h : kind.isLiteral = true ∨ kind = .invalidCharacter) :
    kind.isWord = false := by
  rcases h with h | rfl
  · cases kind <;> first | rfl | cases h
  · rfl

namespace Source

/-- The kind of the token for a word. Too long a word is faulty. A shorter one is the keyword that it
spells with letters in either case, and a name if it spells none. -/
inductive Word.HasKind (word : List Char) : Kind → Prop
  | tooLong : Limits.identifierLength < word.length → HasKind word .invalidIdentifier
  | keyword {spelling : String} {kind : Kind} : word.length ≤ Limits.identifierLength →
      (spelling, kind) ∈ Keyword.table → word.map Char.toLower = spelling.toList →
      HasKind word kind
  | name : word.length ≤ Limits.identifierLength →
      (∀ entry ∈ Keyword.table, word.map Char.toLower ≠ entry.1.toList) → HasKind word .identifier

/-- What is true of a token that is read at the head of `raw ++ rest` and takes `raw` of it. -/
structure Shaped (kind : Kind) (lexeme raw rest : List Char) : Prop where
  literal : kind.isLiteral = true → kind.HasValue lexeme
  word : (∃ c ∈ raw.head?, Word.startsAt c = true) →
    raw = (raw ++ rest).takeWhile Word.isMember ∧ lexeme = raw ∧ Word.HasKind raw kind
  startsAt : kind.isWord = true → ∃ c ∈ raw.head?, Word.startsAt c = true
  symbol : ∀ entry ∈ Symbol.table, kind = entry.2 → raw = entry.1 ∧ lexeme = entry.1
  /-- Two characters that stand next to each other and make a symbol are read as this symbol. -/
  pair : ∀ entry ∈ Symbol.table, entry.1.length = 2 → entry.1 <+: raw ++ rest → kind = entry.2

section Words
variable {c : Char} {rest word : List Char}

theorem Word.content_read (word : List Char) : ((read word).content word).2 = word := by
  unfold read
  split <;> rfl

theorem Word.hasKind_read (word : List Char) : HasKind word ((read word).content word).1 := by
  unfold read
  split
  · next hlong => exact .tooLong hlong
  · next hshort =>
    have hshort := Nat.le_of_not_lt hshort
    cases hword : Keyword.ofWord? word with
    | some kind =>
      exact .keyword hshort (Keyword.ofWord?_eq_some_iff.1 hword) (String.toList_ofList).symm
    | none =>
      refine .name hshort fun ⟨spelling, kind⟩ hentry hspelling => ?_
      have hsome : Keyword.ofWord? word = some kind := by
        rw [Keyword.ofWord?_eq_some_iff, hspelling, String.ofList_toList]
        exact hentry
      rw [hword] at hsome
      cases hsome

theorem Word.le_toNat_of_startsAt (h : startsAt c = true) : 0x41 ≤ c.toNat := by
  have hfirst : ∀ range ∈ Text.alphabeticRanges, 0x41 ≤ range.1 := by decide +kernel
  rcases Bool.or_eq_true_iff.1 h with h | h
  · obtain ⟨range, hrange, hle, -⟩ :=
      (Text.Ranges.covers_iff Text.alphabeticRanges_ordered _).1 h
    exact (hfirst range hrange).trans hle
  · rw [of_decide_eq_true h]
    decide

theorem Numeral.startsAt_eq_false_of_word (h : Word.startsAt c = true) :
    startsAt c rest = false := by
  have hle := Word.le_toNat_of_startsAt h
  rw [Bool.eq_false_iff]
  intro hstarts
  simp only [startsAt, Bool.or_eq_true, Bool.and_eq_true, decide_eq_true_eq] at hstarts
  rcases hstarts with hdigit | ⟨rfl, -⟩
  · have hlast : c.toNat ≤ 0x39 := of_decide_eq_true (Bool.and_eq_true_iff.1 hdigit).2
    omega
  · exact absurd hle (by decide)

end Words

section Heads
variable {c : Char} {rest : List Char}

theorem scan_of_startsAt (h : Word.startsAt c = true) : scan c rest = Word.scan (c :: rest) :=
  scan_word h (Numeral.startsAt_eq_false_of_word h)

theorem pair_head {entry : List Char × Kind} (h : entry ∈ Symbol.table) (hlength : entry.1.length = 2) :
    ∀ c ∈ entry.1.head?,
      c.isDigit = false ∧ c ≠ '.' ∧ Word.startsAt c = false ∧ c ≠ '"' ∧ c ≠ '\'' := by
  have hall : ∀ entry ∈ Symbol.table, entry.1.length = 2 → entry.1.head?.all (fun c =>
      c.isDigit = false ∧ c ≠ '.' ∧ Word.startsAt c = false ∧ c ≠ '"' ∧ c ≠ '\'') = true := by
    decide +kernel
  simpa [Option.all_eq_true] using hall entry h hlength

theorem content_of_pair {entry : List Char × Kind} (hentry : entry ∈ Symbol.table)
    (hlength : entry.1.length = 2) (hhead : entry.1 <+: c :: rest) :
    (scan c rest).content = (entry.2, entry.1) := by
  have hpair := pair_head hentry hlength
  have hspelling := Symbol.atHead?_spelling entry hentry
  obtain ⟨spelling, kind⟩ := entry
  obtain ⟨c', d, rfl⟩ := List.length_eq_two.1 hlength
  obtain ⟨more, htext⟩ := hhead
  obtain ⟨rfl, rfl⟩ := List.cons.inj htext
  obtain ⟨hdigit, hpoint, hword, hdouble, hsingle⟩ := hpair c' rfl
  have hnumeral : Numeral.startsAt c' (d :: more) = false := by
    simp [Numeral.startsAt, hdigit, hpoint]
  have hquote : ∀ quote : Quote, c' ≠ quote.char := fun quote => by cases quote <;> assumption
  have hfound : Symbol.atHead? (c' :: d :: more) = some ([c', d], kind) := by
    rw [Symbol.atHead?_cons]
    exact hspelling
  change (scan c' (d :: more)).content = _
  rw [scan_symbol hnumeral hword hquote, scanSymbol, hfound]
  rfl

theorem Numeral.content_kind (text : List Char) :
    (scan text).content.1.isLiteral = true ∨ (scan text).content.1 = .invalidCharacter := by
  unfold scan
  dsimp only
  split
  · left
    rcases kind_cases (split false text).read with hkind | hkind <;>
      simp [Scan.content, Reading.content, hkind, Kind.isLiteral]
  · exact .inr rfl

theorem Literal.content_readValue (quote : Quote) (value raw : List Char) :
    ((readValue quote value).content raw).1.isLiteral = true ∨
      ((readValue quote value).content raw).1 = .invalidCharacter := by
  match quote, value with
  | .double, _ => exact .inl rfl
  | .single, [] => exact .inr rfl
  | .single, [_] => exact .inl rfl
  | .single, _ :: _ :: _ => exact .inr rfl

theorem Literal.content_kind (quote : Quote) (text : List Char) :
    (scan quote text).content.1.isLiteral = true ∨
      (scan quote text).content.1 = .invalidCharacter := by
  simp only [Scan.content, scan, Split.reading]
  split
  · split
    · exact .inr rfl
    · exact content_readValue quote _ _
  · exact .inr rfl

theorem Word.HasKind.isWord {word : List Char} {kind : Kind} (h : HasKind word kind) :
    kind.isWord = true := by
  have hkeyword : ∀ entry ∈ Keyword.table, entry.2.isWord = true := by decide
  cases h with
  | tooLong => rfl
  | keyword _ hentry => exact hkeyword _ hentry
  | name => rfl

theorem content_cases (c : Char) (rest : List Char) :
    ((scan c rest).content.1.isLiteral = true ∨ (scan c rest).content.1 = .invalidCharacter) ∨
      Word.startsAt c = true ∨
      ∃ entry ∈ Symbol.table, (scan c rest).content = (entry.2, entry.1) ∧
        (scan c rest).raw = entry.1 := by
  rcases starts_cases c rest with
    hnumeral | ⟨-, hword⟩ | ⟨quote, rfl⟩ | ⟨hnumeral, hword, hquote⟩
  · rw [scan_numeral hnumeral]
    exact .inl (Numeral.content_kind _)
  · exact .inr (.inl hword)
  · rw [scan_quote]
    exact .inl (Literal.content_kind quote rest)
  · rw [scan_symbol hnumeral hword hquote]
    unfold scanSymbol
    split
    · next spelling kind hfound =>
      exact .inr (.inr ⟨(spelling, kind), List.mem_of_find?_eq_some hfound, rfl, rfl⟩)
    · exact .inl (.inr rfl)

theorem symbol_kinds : ∀ entry ∈ Symbol.table, entry.2.isLiteral = false ∧
    entry.2 ≠ .invalidCharacter ∧ entry.2.isWord = false := by
  decide

theorem symbol_kind_inj : ∀ entry ∈ Symbol.table, ∀ entry' ∈ Symbol.table, entry.2 = entry'.2 →
    entry = entry' := by
  decide

theorem Reads.hasValue {raw : List Char} {r : Reading} (h : Reads raw r)
    (hliteral : (r.content raw).1.isLiteral = true) :
    (r.content raw).1.HasValue (r.content raw).2 := by
  cases h with
  | itself hnot =>
    rw [Reading.content, hnot] at hliteral
    cases hliteral
  | number hplain => exact .numeral hplain
  | string => exact .string _
  | character => exact .character _
  | @fault f =>
    rw [Reading.content] at hliteral
    rcases f.tokenKind_cases with h | h <;> rw [h] at hliteral <;> cases hliteral
  | badEscape | badGrouping => cases hliteral

theorem Shaped.keyword_mem {kind : Kind} {lexeme raw rest : List Char}
    (h : Shaped kind lexeme raw rest) (hkind : kind.isKeyword = true) :
    (String.ofList (lexeme.map Char.toLower), kind) ∈ Keyword.table := by
  have hword : kind.isWord = true := Bool.or_eq_true_iff.2 (.inl hkind)
  obtain ⟨-, rfl, hhas⟩ := h.word (h.startsAt hword)
  cases hhas with
  | tooLong | name => cases hkind
  | keyword _ hentry hspelling =>
    rw [hspelling, String.ofList_toList]
    exact hentry

theorem head?_raw (c : Char) (rest : List Char) : (scan c rest).raw.head? = some c := by
  obtain ⟨tail, hraw, -⟩ := (scan_tiles c rest).exists_tail
  rw [hraw]
  rfl

theorem content_of_startsAt (h : Word.startsAt c = true) :
    (scan c rest).raw = (c :: rest).takeWhile Word.isMember ∧
      (scan c rest).content.2 = (scan c rest).raw ∧
      Word.HasKind (scan c rest).raw (scan c rest).content.1 := by
  rw [scan_of_startsAt h]
  exact ⟨rfl, Word.content_read _, Word.hasKind_read _⟩

theorem startsAt_of_isWord (h : (scan c rest).content.1.isWord = true) :
    Word.startsAt c = true := by
  rcases content_cases c rest with hother | hstarts | ⟨entry, hentry, hcontent, -⟩
  · rw [Kind.isWord_eq_false hother] at h
    cases h
  · exact hstarts
  · rw [hcontent, (symbol_kinds entry hentry).2.2] at h
    cases h

theorem content_of_symbol {entry : List Char × Kind} (hentry : entry ∈ Symbol.table)
    (h : (scan c rest).content.1 = entry.2) :
    (scan c rest).raw = entry.1 ∧ (scan c rest).content.2 = entry.1 := by
  obtain ⟨hliteral, hvalid, hword⟩ := symbol_kinds entry hentry
  rcases content_cases c rest with (hother | hother) | hstarts | ⟨found, hfound, hcontent, hraw⟩
  · rw [h, hliteral] at hother
    cases hother
  · exact absurd (h.symm.trans hother) hvalid
  · have hkind : Word.HasKind (scan c rest).raw (scan c rest).content.1 :=
      (content_of_startsAt hstarts).2.2
    have hisWord := hkind.isWord
    rw [h, hword] at hisWord
    cases hisWord
  · rw [hcontent] at h
    obtain rfl := symbol_kind_inj found hfound entry hentry h
    exact ⟨hraw, congrArg Prod.snd hcontent⟩

theorem scan_shaped (c : Char) (rest : List Char) :
    Shaped (scan c rest).content.1 (scan c rest).content.2 (scan c rest).raw (scan c rest).rest := by
  have happend := (scan_tiles c rest).2
  constructor
  · exact (scan_reads c rest).hasValue
  · rintro ⟨d, hd, hstarts⟩
    obtain rfl : c = d := by simpa [head?_raw] using hd
    rw [happend]
    exact content_of_startsAt hstarts
  · exact fun hkind => ⟨c, head?_raw c rest, startsAt_of_isWord hkind⟩
  · exact fun entry hentry => content_of_symbol hentry
  · intro entry hentry hlength hpair
    rw [happend] at hpair
    rw [content_of_pair hentry hlength hpair]

end Heads

end Source

/-- Gaps and texts of tokens that follow one another up to the end. Each text begins where its gap
ends, and it has the shape that the kind of its token asks for. -/
inductive Token.Shapes : List Token → List Char → Prop
  | gap {gap : List Char} : Source.IsGap [] gap → Shapes [] gap
  | token {t : Token} {ts : List Token} {c : Char} {gap tail rest : List Char} :
      Source.IsGap (c :: tail ++ rest) gap → Source.StartsPiece c (tail ++ rest) →
      Source.Shaped t.kind t.lexeme.toList (c :: tail) rest → Shapes ts rest →
      Shapes (t :: ts) (gap ++ (c :: tail ++ rest))

theorem Source.placeAll_shapes (text : List Char) (p : Position) :
    Token.Shapes ((placeAll p (tile text).pieces).map (·.1)) text := by
  induction text using tile_induction generalizing p with
  | gap text h =>
    rw [tile_of_gap h]
    exact .gap (isGap_of_splitGap h)
  | piece text c rest h ih =>
    have hgap := isGap_splitGap text
    have hstarts := startsPiece_of_splitGap (Prod.ext rfl h)
    have happend := splitGap_append false text
    have hshaped := scan_shaped c rest
    obtain ⟨tail, hraw, hrest⟩ := (scan_tiles c rest).exists_tail
    rw [← hrest] at hstarts
    rw [h, ← hrest] at hgap happend
    rw [tile_of_piece h]
    generalize hpiece : Piece.mk (splitGap false text).1 (scan c rest).raw (scan c rest).reading =
      piece
    have htoken : Shaped (piece.place (p.after piece.gap)).1.kind
        (piece.place (p.after piece.gap)).1.lexeme.toList (c :: tail) (scan c rest).rest := by
      rw [piece.place_kind, piece.place_lexeme, String.toList_ofList, ← hpiece, ← hraw]
      exact hshaped
    have hshapes := Token.Shapes.token hgap hstarts htoken
      (ih ((p.after piece.gap).after piece.raw))
    rwa [List.cons_append, happend] at hshapes

theorem Token.Shapes.exists_shaped {ts : List Token} {text : List Char} (h : Shapes ts text) :
    ∀ t ∈ ts, ∃ raw rest, Source.Shaped t.kind t.lexeme.toList raw rest := by
  induction h with
  | gap => simp
  | token _ _ hshaped _ ih => exact List.forall_mem_cons.2 ⟨⟨_, _, hshaped⟩, ih⟩

namespace Lexed

end Lexed
end CoreLang
