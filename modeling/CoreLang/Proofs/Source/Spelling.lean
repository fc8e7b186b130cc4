import CoreLang.Proofs.Source.Lookahead
import CoreLang.Source.Lexed

/-! The lexeme of a token, read off the text that the token stands for. -/
namespace CoreLang

namespace Text

/-- The value of the text inside quotes. A quote or a backslash that nothing escapes is not part of
such a text, and neither is an escape that is none. -/
def unescapeAll? (quote : Quote) : List Char → Option (List Char)
  | [] => some []
  | '\\' :: e :: rest => do return (← unescape? quote e) :: (← unescapeAll? quote rest)
  | c :: rest => if c = '\\' ∨ c = quote.char then none else (unescapeAll? quote rest).map (c :: ·)

def unquote? (quote : Quote) : List Char → Option (List Char)
  | [] => none
  | c :: rest =>
    if c = quote.char ∧ rest.getLast? = some quote.char then unescapeAll? quote rest.dropLast
    else none

end Text

/-- The lexeme that a token of some kind has, if it stands for the text `raw`. A number loses its
separators and gets a zero on a side of its point that has no digit, strings and characters lose
their quotes and escapes, and all other tokens stand for themselves. -/
def Kind.lexeme? (kind : Kind) (raw : List Char) : Option (List Char) :=
  match kind with
  | .integerLiteral | .floatLiteral =>
    let digits := raw.filter fun c => c ≠ '\'' ∧ c ≠ '\x60'
    some ((if digits.head? = some '.' then ['0'] else []) ++ digits ++
      (if digits.getLast? = some '.' then ['0'] else []))
  | .string => Text.unquote? .double raw
  | .characterLiteral => Text.unquote? .single raw
  | _ => some raw

theorem Kind.lexeme?_of_not_isLiteral {kind : Kind} (h : kind.isLiteral = false) (raw : List Char) :
    kind.lexeme? raw = some raw := by
  cases kind <;> first | rfl | cases h

theorem Fault.tokenKind_cases (f : Fault) :
    f.tokenKind = .invalidCharacter ∨ f.tokenKind = .invalidIdentifier := by
  cases f <;> simp [tokenKind]

namespace Source
open Text (Quote)

/-- What a piece of text can turn out to be: a token that stands for itself, a literal with its value,
or a fault. Only bad escapes and bad groupings are found further on than at the head of a piece. -/
inductive Reads (raw : List Char) : Reading → Prop
  | itself {kind : Kind} : kind.isLiteral = false → kind ≠ .endMarker → kind.isError = false →
      Reads raw (.token kind raw)
  | number : Numeral.Plain (Numeral.kind raw) (Numeral.value raw) →
      Reads raw (.token (Numeral.kind raw) (Numeral.value raw))
  | string {value : List Char} : Text.unquote? .double raw = some value →
      Reads raw (.token .string value)
  | character {c : Char} : Text.unquote? .single raw = some [c] →
      Reads raw (.token .characterLiteral [c])
  | fault {f : Fault} : f.movesToken = false → Reads raw (.fault f 0)
  | badEscape {quote : Quote} {c : Char} {offset : Nat} : 0 < offset → offset < raw.length →
      Reads raw (.fault (.invalidEscape quote c) offset)
  | badGrouping {offset : Nat} : offset < raw.length →
      Reads raw (.fault (.badGrouping raw) offset)

theorem Numeral.scan_reads {c : Char} {rest : List Char} (h : startsAt c rest = true) :
    Reads (scan (c :: rest)).raw (scan (c :: rest)).reading := by
  have hplain := value_plain h
  have hends := split_ends false (c :: rest)
  generalize hsplit : split false (c :: rest) = s at hplain hends
  obtain ⟨read, sound, rest⟩ := s
  rcases hends with ⟨rfl, -⟩ | ⟨rfl, d, next, rfl, hd, -⟩
  · rw [scan_of_sound hsplit]
    exact .number hplain
  · rw [scan_of_unsound hsplit]
    refine .badGrouping ?_
    simp [isMember_of_isSeparator hd]

theorem Word.scan_reads (text : List Char) : Reads (scan text).raw (scan text).reading := by
  have hkinds : ∀ entry ∈ Keyword.table, entry.2.isLiteral = false ∧ entry.2 ≠ .endMarker ∧
      entry.2.isError = false := by decide
  simp only [scan, read]
  split
  · exact .fault rfl
  · cases hword : Keyword.ofWord? (text.takeWhile isMember) with
    | none => exact .itself rfl (by decide) rfl
    | some kind =>
      obtain ⟨hliteral, hend, herror⟩ := hkinds _ (Keyword.ofWord?_eq_some_iff.1 hword)
      exact .itself hliteral hend herror

theorem Literal.unescapeAll?_marks {quote : Quote} {marks : List Mark}
    (hinner : ∀ m ∈ marks, m.Inner quote) (hsome : ∀ m ∈ marks, (m.value? quote).isSome = true) :
    Text.unescapeAll? quote (marks.flatMap Mark.raw) =
      some (marks.filterMap (Mark.value? quote)) := by
  induction marks with
  | nil => rfl
  | cons m marks ih =>
    obtain ⟨hm, hinner⟩ := List.forall_mem_cons.1 hinner
    obtain ⟨hvalue, hsome⟩ := List.forall_mem_cons.1 hsome
    have ih := ih hinner hsome
    cases m with
    | plain c =>
      obtain ⟨-, hquote, hback⟩ := hm
      simp [Mark.raw, Text.unescapeAll?, hback, hquote, ih, Mark.value?]
    | escaped c =>
      obtain ⟨e, he⟩ := Option.isSome_iff_exists.1 hvalue
      rw [Mark.value?] at he
      simp [Mark.raw, Text.unescapeAll?, he, ih, Mark.value?]

theorem Literal.unquote?_raw {quote : Quote} {s : Split} (hclosed : s.closed = true)
    (hinner : ∀ m ∈ s.marks, m.Inner quote) (hsome : ∀ m ∈ s.marks, (m.value? quote).isSome = true) :
    Text.unquote? quote (s.raw quote) = some (s.marks.filterMap (Mark.value? quote)) := by
  simp [Split.raw, hclosed, Text.unquote?, unescapeAll?_marks hinner hsome]

/-- A bad escape is found in the text of the units. -/
theorem Literal.badEscape?_bounds {quote : Quote} {marks : List Mark} {offset found : Nat} {c : Char}
    (h : badEscape? quote offset marks = some (c, found)) :
    offset ≤ found ∧ found < offset + (marks.flatMap Mark.raw).length := by
  fun_induction badEscape? quote offset marks with
  | case1 => cases h
  | case2 offset d marks ih =>
    have := ih h
    simp only [List.flatMap_cons, Mark.raw, List.length_append, List.length_singleton]
    omega
  | case3 offset marks d _ =>
    cases h
    simp [Mark.raw]
  | case4 offset marks d _ ih =>
    have := ih h
    simp only [List.flatMap_cons, Mark.raw, List.length_append, List.length_cons, List.length_nil]
    omega

theorem Literal.scan_reads (quote : Quote) (text : List Char) :
    Reads (scan quote text).raw (scan quote text).reading := by
  simp only [scan, Split.reading]
  cases hclosed : (split quote text).closed with
  | false => exact .fault rfl
  | true =>
    cases hbad : badEscape? quote 1 (split quote text).marks with
    | some found =>
      have hbounds := badEscape?_bounds hbad
      refine .badEscape (by omega) ?_
      simp only [Split.raw, hclosed, ↓reduceIte, List.length_cons, List.length_append]
      omega
    | none =>
      have hvalue := unquote?_raw hclosed (inner_of_closed hclosed) (badEscape?_eq_none_iff.1 hbad)
      simp only [↓reduceIte]
      generalize (split quote text).marks.filterMap (Mark.value? quote) = value at hvalue
      cases quote with
      | double => exact .string hvalue
      | single =>
        rcases value with _ | ⟨c, _ | ⟨d, value⟩⟩
        · exact .fault rfl
        · exact .character hvalue
        · exact .fault rfl

theorem scanSymbol_reads (c : Char) (rest : List Char) :
    Reads (scanSymbol c rest).raw (scanSymbol c rest).reading := by
  have hkinds : ∀ entry ∈ Symbol.table, entry.2.isLiteral = false ∧ entry.2 ≠ .endMarker ∧
      entry.2.isError = false := by decide
  unfold scanSymbol
  split
  · next spelling kind hfound =>
    obtain ⟨hliteral, hend, herror⟩ := hkinds _ (List.mem_of_find?_eq_some hfound)
    exact .itself hliteral hend herror
  · exact .fault rfl

theorem scan_reads (c : Char) (rest : List Char) : Reads (scan c rest).raw (scan c rest).reading :=
  scan_cases (motive := fun s => Reads s.raw s.reading) Numeral.scan_reads (Word.scan_reads _)
    (fun quote _ => Literal.scan_reads quote rest) (scanSymbol_reads c rest)

/-- The kind and the lexeme of the token for a piece of text. -/
def Reading.content (raw : List Char) : Reading → Kind × List Char
  | token kind lexeme => (kind, lexeme)
  | fault f _ => (f.tokenKind, raw)

def Scan.content (s : Scan) : Kind × List Char := s.reading.content s.raw

def Piece.content (piece : Piece) : Kind × List Char := piece.reading.content piece.raw

theorem Numeral.pad_eq (digits : List Char) :
    pad digits = (if digits.head? = some '.' then ['0'] else []) ++ digits ++
      (if digits.getLast? = some '.' then ['0'] else []) := by
  cases digits with
  | nil => rfl
  | cons c digits =>
    by_cases hc : c = '.'
    · simp only [pad, hc, List.head?_cons, ↓reduceIte, List.getLast?_cons_cons]
      split <;> simp_all
    · simp only [pad, List.head?_cons, Option.some.injEq, hc, ↓reduceIte, List.nil_append]
      split <;> simp_all

theorem Numeral.kind_lexeme? (raw : List Char) : (kind raw).lexeme? raw = some (value raw) := by
  have hfilter : (fun c => decide (c ≠ '\'' ∧ c ≠ '\x60')) = (!isSeparator ·) := by
    funext c
    simp [isSeparator]
  rw [value, pad_eq, ← hfilter, kind]
  split <;> rfl

theorem Numeral.kind_cases (raw : List Char) :
    kind raw = .integerLiteral ∨ kind raw = .floatLiteral := by
  unfold kind
  split <;> simp

namespace Reads
variable {raw : List Char} {r : Reading}

theorem lexeme? (h : Reads raw r) : (r.content raw).1.lexeme? raw = some (r.content raw).2 := by
  cases h with
  | itself hliteral => exact Kind.lexeme?_of_not_isLiteral hliteral raw
  | number => exact Numeral.kind_lexeme? raw
  | string hvalue => exact hvalue
  | character hvalue => exact hvalue
  | @fault f => rcases f.tokenKind_cases with h | h <;> simp [Reading.content, h, Kind.lexeme?]
  | badEscape => rfl
  | badGrouping => rfl

theorem ne_endMarker (h : Reads raw r) : (r.content raw).1 ≠ .endMarker := by
  cases h with
  | itself _ hend => exact hend
  | number => rcases Numeral.kind_cases raw with h | h <;> simp [Reading.content, h]
  | string => nofun
  | character => nofun
  | @fault f => rcases f.tokenKind_cases with h | h <;> simp [Reading.content, h]
  | badEscape => nofun
  | badGrouping => nofun

/-- Tokens of the error kinds stand for faults. -/
theorem isError_iff (h : Reads raw r) :
    (r.content raw).1.isError = true ↔ ∃ f offset, r = .fault f offset := by
  cases h with
  | itself _ _ herror => simp [Reading.content, herror]
  | number => rcases Numeral.kind_cases raw with h | h <;> simp [Reading.content, h, Kind.isError]
  | string => simp [Reading.content, Kind.isError]
  | character => simp [Reading.content, Kind.isError]
  | @fault f =>
    rcases f.tokenKind_cases with h | h <;> simp [Reading.content, h, Kind.isError]
  | badEscape => exact iff_of_true rfl ⟨_, _, rfl⟩
  | badGrouping => exact iff_of_true rfl ⟨_, _, rfl⟩

theorem lexeme_of_isError (h : Reads raw r) (herror : (r.content raw).1.isError = true) :
    (r.content raw).2 = raw := by
  obtain ⟨f, offset, rfl⟩ := h.isError_iff.1 herror
  rfl

end Reads

end Source
end CoreLang
