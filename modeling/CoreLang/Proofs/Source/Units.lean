import CoreLang.Proofs.Source.Explained
import CoreLang.Proofs.Source.Respelling
import CoreLang.Proofs.Source.Sequence

/-! What a literal is, told by the units of its line: where it ends, which escape in it is none, and what
it stands for. -/
namespace CoreLang.Source
open Text (Quote)

namespace Literal
variable {quote : Quote} {text line : List Char} {inner : List Mark} {m : Mark}

def units : List Char → List Mark
  | [] => []
  | ['\\'] => [.plain '\\']
  | '\\' :: c :: line => .escaped c :: units line
  | c :: line => .plain c :: units line

def firstLine (text : List Char) : List Char := text.takeWhile (· ≠ '\n')

def Mark.Resolves (quote : Quote) : Mark → Prop
  | plain _ => True
  | escaped c => c ∈ ['n', 't', 'r', '\\', quote.char]

def Mark.resolved : Mark → Char
  | plain c => c
  | escaped 'n' => '\n'
  | escaped 't' => '\t'
  | escaped 'r' => '\r'
  | escaped c => c

/-- The units before the first one of a line that is the closing quote. -/
def Encloses (quote : Quote) (line : List Char) (inner : List Mark) : Prop :=
  .plain quote.char ∉ inner ∧ ∃ more, units line = inner ++ .plain quote.char :: more

def enclosed (quote : Quote) (inner : List Mark) : List Char :=
  quote.char :: (inner.flatMap Mark.raw ++ [quote.char])

/-- The token of a literal at `p` with its error, and the text of the literal. -/
inductive Classified (line : List Char) (p : Position) :
    Quote → Token × Option LexicalError → List Char → Prop
  | unterminated {quote : Quote} (hopen : .plain quote.char ∉ units line) :
    Classified line p quote
      (⟨.invalidCharacter, String.ofList (quote.char :: line), p⟩, some ⟨.unterminated quote, p⟩)
      (quote.char :: line)
  | invalidEscape {quote : Quote} {sound more : List Mark} {c : Char}
    (hinner : Encloses quote line (sound ++ .escaped c :: more))
    (hsound : ∀ m ∈ sound, m.Resolves quote) (hbad : ¬(Mark.escaped c).Resolves quote) :
    Classified line p quote
      (⟨.invalidCharacter, String.ofList (enclosed quote (sound ++ .escaped c :: more)), p⟩,
        some ⟨.invalidEscape quote c, ⟨p.line, p.column + 1 + (sound.flatMap Mark.raw).length⟩⟩)
      (enclosed quote (sound ++ .escaped c :: more))
  | string {inner : List Mark} (hinner : Encloses .double line inner)
    (hsound : ∀ m ∈ inner, m.Resolves .double) :
    Classified line p .double (⟨.string, String.ofList (inner.map Mark.resolved), p⟩, none)
      (enclosed .double inner)
  | character {m : Mark} (hinner : Encloses .single line [m]) (hsound : m.Resolves .single) :
    Classified line p .single (⟨.characterLiteral, String.ofList [m.resolved], p⟩, none)
      (enclosed .single [m])
  | malformed {inner : List Mark} (hinner : Encloses .single line inner)
    (hsound : ∀ m ∈ inner, m.Resolves .single) (hlength : inner.length ≠ 1) :
    Classified line p .single
      (⟨.invalidCharacter, String.ofList (enclosed .single inner), p⟩,
        some ⟨if inner = [] then .emptyCharacter else .longCharacter, p⟩)
      (enclosed .single inner)

theorem value?_of_resolves (h : m.Resolves quote) : m.value? quote = some m.resolved := by
  cases m with
  | plain c => rfl
  | escaped c =>
    simp only [Mark.Resolves, List.mem_cons, List.not_mem_nil, or_false] at h
    rcases h with rfl | rfl | rfl | rfl | rfl
    · rfl
    · rfl
    · rfl
    · rfl
    · cases quote <;> rfl

theorem unescape?_of_not_resolves {c : Char} (h : ¬(Mark.escaped c).Resolves quote) :
    Text.unescape? quote c = none := by
  simp only [Mark.Resolves, List.mem_cons, List.not_mem_nil, or_false, not_or] at h
  obtain ⟨hn, ht, hr, hback, hquote⟩ := h
  unfold Text.unescape?
  split <;> simp_all

theorem resolves_iff : m.Resolves quote ↔ (m.value? quote).isSome = true := by
  refine ⟨fun h => by rw [value?_of_resolves h]; rfl, fun h => ?_⟩
  cases m with
  | plain c => trivial
  | escaped c =>
    by_contra hbad
    rw [Mark.value?, unescape?_of_not_resolves hbad] at h
    cases h

theorem filterMap_value? {inner : List Mark} (h : ∀ m ∈ inner, m.Resolves quote) :
    inner.filterMap (Mark.value? quote) = inner.map Mark.resolved := by
  rw [← List.filterMap_eq_map]
  exact List.filterMap_congr fun m hm => value?_of_resolves (h m hm)

/-- The first escape that is none stands behind the units before it. -/
theorem badEscape?_append {sound more : List Mark} {c : Char} (hsound : ∀ m ∈ sound, m.Resolves quote)
    (hbad : ¬(Mark.escaped c).Resolves quote) (offset : Nat) :
    badEscape? quote offset (sound ++ .escaped c :: more) =
      some (c, offset + (sound.flatMap Mark.raw).length) := by
  induction sound generalizing offset with
  | nil => simp [badEscape?, unescape?_of_not_resolves hbad]
  | cons m sound ih =>
    obtain ⟨hm, htail⟩ := List.forall_mem_cons.1 hsound
    rw [List.flatMap_cons, List.length_append, ← Nat.add_assoc]
    cases m with
    | plain d => exact ih htail (offset + 1)
    | escaped d =>
      have hd := resolves_iff.1 hm
      rw [Mark.value?, Option.isSome_iff_ne_none] at hd
      simp only [List.cons_append, badEscape?, Option.isNone_iff_eq_none, hd, ↓reduceIte]
      exact ih htail (offset + 2)

theorem units_plain {c : Char} (hc : c ≠ '\\') (line : List Char) :
    units (c :: line) = .plain c :: units line := by
  simp [units, hc]

theorem firstLine_cons {c : Char} (hc : c ≠ '\n') (text : List Char) :
    firstLine (c :: text) = c :: firstLine text := List.takeWhile_cons_of_pos (by simpa using hc)

/-- What stands between the quotes of a literal, and whether it is closed, is seen from its line. -/
theorem units_firstLine (quote : Quote) (text : List Char) :
    units (firstLine text) = (split quote text).marks ++
      if (split quote text).closed then
        .plain quote.char :: units (firstLine (split quote text).rest)
      else [] := by
  fun_induction split quote text with
  | case1 => rfl
  | case2 rest => rfl
  | case3 c rest hc ih =>
    rw [firstLine_cons (by decide), firstLine_cons hc]
    exact congrArg (Mark.escaped c :: ·) ih
  | case4 rest => rfl
  | case5 rest hback hline =>
    rw [firstLine_cons hline, units_plain (Quote.char_ne_backslash quote)]
    rfl
  | case6 c rest hback hline hquote ih =>
    rw [firstLine_cons hline]
    by_cases hc : c = '\\'
    · cases rest with
      | nil =>
        subst hc
        rfl
      | cons d rest => exact (hback d rest hc rfl).elim
    · rw [units_plain hc]
      exact congrArg (Mark.plain c :: ·) ih

theorem quote_not_mem_marks (quote : Quote) (text : List Char) :
    .plain quote.char ∉ (split quote text).marks := by
  have hback := Quote.char_ne_backslash quote
  fun_induction split quote text with
  | case1 | case4 | case5 => exact List.not_mem_nil
  | case2 => simpa using hback
  | case3 c rest hc ih => simpa [Split.cons] using ih
  | case6 c rest _ _ hquote ih => simpa [Split.cons, Ne.symm hquote] using ih

theorem flatMap_units (line : List Char) : (units line).flatMap Mark.raw = line := by
  fun_induction units line with
  | case1 => rfl
  | case2 => rfl
  | case3 c line ih => exact congrArg (fun text => '\\' :: c :: text) ih
  | case4 c line hback hlast ih => exact congrArg (c :: ·) ih

theorem split_of_encloses (h : Encloses quote (firstLine text) inner) :
    (split quote text).marks = inner ∧ (split quote text).closed = true := by
  obtain ⟨hinner, more, hunits⟩ := h
  have hmarks := quote_not_mem_marks quote text
  rw [units_firstLine quote text] at hunits
  cases hclosed : (split quote text).closed with
  | false =>
    rw [hclosed, if_neg Bool.false_ne_true, List.append_nil] at hunits
    rw [hunits] at hmarks
    exact absurd (List.mem_append_right _ List.mem_cons_self) hmarks
  | true =>
    rw [hclosed, if_pos rfl] at hunits
    have hneq {marks : List Mark} (h : .plain quote.char ∉ marks) :
        ∀ m ∈ marks, decide (m ≠ .plain quote.char) = true := fun m hm =>
      decide_eq_true (ne_of_mem_of_not_mem hm h)
    have hbefore := congrArg (List.takeWhile (· ≠ .plain quote.char)) hunits
    rw [List.takeWhile_append_of_pos (hneq hmarks), List.takeWhile_append_of_pos (hneq hinner)]
      at hbefore
    exact ⟨by simpa using hbefore, rfl⟩

theorem split_of_open (h : .plain quote.char ∉ units (firstLine text)) :
    (split quote text).closed = false ∧ (split quote text).marks = units (firstLine text) := by
  have hunits := units_firstLine quote text
  cases hclosed : (split quote text).closed with
  | false =>
    rw [hclosed, if_neg Bool.false_ne_true, List.append_nil] at hunits
    exact ⟨rfl, hunits.symm⟩
  | true =>
    rw [hclosed, if_pos rfl] at hunits
    rw [hunits] at h
    exact absurd (List.mem_append_right _ List.mem_cons_self) h

theorem readValue_of_length_ne (hlength : inner.length ≠ 1) :
    readValue .single (inner.map Mark.resolved) =
      .fault (if inner = [] then .emptyCharacter else .longCharacter) 0 := by
  cases inner with
  | nil => rfl
  | cons m tail =>
    cases tail with
    | nil => exact (hlength rfl).elim
    | cons m' tail => rfl

theorem raw_of_encloses (h : Encloses quote (firstLine text) inner) :
    (split quote text).raw quote = enclosed quote inner := by
  obtain ⟨hmarks, hclosed⟩ := split_of_encloses h
  rw [Split.raw, hmarks, hclosed, if_pos rfl, enclosed]

theorem reading_of_encloses (h : Encloses quote (firstLine text) inner)
    (hsound : ∀ m ∈ inner, m.Resolves quote) :
    (split quote text).reading quote = readValue quote (inner.map Mark.resolved) := by
  obtain ⟨hmarks, hclosed⟩ := split_of_encloses h
  have hnone : badEscape? quote 1 inner = none :=
    badEscape?_eq_none_iff.2 fun m hm => resolves_iff.1 (hsound m hm)
  rw [Split.reading, if_pos hclosed, hmarks, hnone, filterMap_value? hsound]

theorem lineFeed_not_mem_of_encloses (h : Encloses quote (firstLine text) inner) :
    '\n' ∉ quote.char :: inner.flatMap Mark.raw := by
  obtain ⟨-, more, hunits⟩ := h
  have hline := flatMap_units (firstLine text)
  rw [hunits, List.flatMap_append] at hline
  refine List.not_mem_cons_of_ne_of_not_mem (by cases quote <;> decide) fun hmem => ?_
  have hin : '\n' ∈ firstLine text := hline ▸ List.mem_append_left _ hmem
  exact absurd (List.mem_takeWhile_imp hin) (by decide)

theorem exists_classified (quote : Quote) (text : List Char) (p : Position) :
    ∃ placed raw, Classified (firstLine text) p quote placed raw := by
  by_cases hopen : .plain quote.char ∉ units (firstLine text)
  · exact ⟨_, _, .unterminated hopen⟩
  have hunits := units_firstLine quote text
  have hmarks := quote_not_mem_marks quote text
  cases hclosed : (split quote text).closed with
  | false =>
    rw [hclosed, if_neg Bool.false_ne_true, List.append_nil] at hunits
    exact absurd (hunits ▸ hmarks) hopen
  | true =>
    rw [hclosed, if_pos rfl] at hunits
    generalize (split quote text).marks = inner at hunits hmarks
    have hencloses : Encloses quote (firstLine text) inner := ⟨hmarks, _, hunits⟩
    cases hbad : badEscape? quote 1 inner with
    | some found =>
      obtain ⟨sound, more, rfl, hsound, hnone, -⟩ := exists_marks_of_badEscape? hbad
      refine ⟨_, _, .invalidEscape hencloses (fun m hm => resolves_iff.2 (hsound m hm)) fun hc => ?_⟩
      have hsome := resolves_iff.1 hc
      rw [Mark.value?, hnone] at hsome
      cases hsome
    | none =>
      have hsound : ∀ m ∈ inner, m.Resolves quote := fun m hm =>
        resolves_iff.2 (badEscape?_eq_none_iff.1 hbad m hm)
      cases quote with
      | double => exact ⟨_, _, .string hencloses hsound⟩
      | single =>
        by_cases hlength : inner.length = 1
        · obtain ⟨m, rfl⟩ := List.length_eq_one_iff.1 hlength
          exact ⟨_, _, .character hencloses (hsound m List.mem_cons_self)⟩
        · exact ⟨_, _, .malformed hencloses hsound hlength⟩

end Literal

section
open Literal

/-- A literal is one piece, with its token and its error. -/
theorem tokensFrom_quote (quote : Quote) (p : Position) (rest : List Char) :
    tokensFrom p (quote.char :: rest) =
      Piece.place p ⟨[], (split quote rest).raw quote, (split quote rest).reading quote⟩ ::
        tokensFrom (p.after ((split quote rest).raw quote))
          ((quote.char :: rest).drop ((split quote rest).raw quote).length) := by
  have hscan : Source.scan quote.char rest = ⟨(split quote rest).raw quote,
      (split quote rest).reading quote, (split quote rest).rest⟩ := scan_quote quote
  rw [tokensFrom_of_scan (startsPiece_quote quote rest) hscan]
  have hnext : ((split quote rest).raw quote ++ (split quote rest).rest).drop
      ((split quote rest).raw quote).length = (split quote rest).rest := List.drop_left
  rw [split_append] at hnext
  rw [hnext]

/-- A quote begins a literal that is classified by the units of its line: there is a class for every
line, and the literal is of each class that its line has. -/
theorem tokensFrom_literal (quote : Quote) (p : Position) (rest : List Char) :
    (∃ placed raw, Classified (rest.takeWhile (· ≠ '\n')) p quote placed raw) ∧
      ∀ placed raw, Classified (rest.takeWhile (· ≠ '\n')) p quote placed raw →
        tokensFrom p (quote.char :: rest) =
          placed :: tokensFrom (p.after raw) ((quote.char :: rest).drop raw.length) := by
  refine ⟨exists_classified quote rest p, fun placed raw h => ?_⟩
  rw [tokensFrom_quote]
  cases h with
  | unterminated hopen =>
    obtain ⟨hclosed, hmarks⟩ := split_of_open hopen
    have hraw : (split quote rest).raw quote = quote.char :: firstLine rest := by
      rw [Split.raw, hmarks, flatMap_units, hclosed, if_neg Bool.false_ne_true, List.append_nil]
    rw [hraw, Split.reading, hclosed]
    rfl
  | @invalidEscape _ sound more c hinner hsound hbad =>
    obtain ⟨hmarks, hclosed⟩ := split_of_encloses hinner
    have hlineFeed := lineFeed_not_mem_of_encloses hinner
    rw [List.flatMap_append, ← List.cons_append] at hlineFeed
    have htake : (enclosed quote (sound ++ .escaped c :: more)).take
        (1 + (sound.flatMap Mark.raw).length) = quote.char :: sound.flatMap Mark.raw := by
      rw [enclosed, List.flatMap_append, List.append_assoc, Nat.add_comm 1, List.take_succ_cons,
        List.take_left]
    have hplace : p.after (quote.char :: sound.flatMap Mark.raw) =
        ⟨p.line, p.column + 1 + (sound.flatMap Mark.raw).length⟩ := by
      rw [Position.after_of_not_mem p fun hmem => hlineFeed (List.mem_append_left _ hmem),
        List.length_cons, Nat.add_assoc, Nat.add_comm 1]
    rw [raw_of_encloses hinner, Split.reading, if_pos hclosed, hmarks, badEscape?_append hsound hbad]
    simp only [Piece.place, htake, hplace]
    rfl
  | string hinner hsound =>
    rw [raw_of_encloses hinner, reading_of_encloses hinner hsound]
    rfl
  | character hinner hsound =>
    rw [raw_of_encloses hinner, reading_of_encloses hinner (List.forall_mem_singleton.2 hsound)]
    rfl
  | @malformed inner hinner hsound hlength =>
    rw [raw_of_encloses hinner, reading_of_encloses hinner hsound, readValue_of_length_ne hlength]
    split <;> rfl

/-- A missing end counts before a bad escape, and a bad escape before a wrong length. -/
theorem tokensFrom_literal_faults :
    tokensFrom .start ['\'', '\\', 'q', '\\', '\''] =
        (⟨.invalidCharacter, "'\\q\\'", ⟨1, 1⟩⟩, some ⟨.unterminated .single, ⟨1, 1⟩⟩) ::
          tokensFrom ⟨1, 6⟩ [] ∧
      tokensFrom .start ['\'', 'a', '\\', 'q', '\'', '*'] =
        (⟨.invalidCharacter, "'a\\q'", ⟨1, 1⟩⟩, some ⟨.invalidEscape .single 'q', ⟨1, 3⟩⟩) ::
          tokensFrom ⟨1, 6⟩ ['*'] := by
  have hopen : Mark.plain (Quote.char .single) ∉ units ['\\', 'q', '\\', '\''] := by decide
  have hinner : Encloses .single ['a', '\\', 'q', '\'', '*'] [.plain 'a', .escaped 'q'] :=
    ⟨by decide, [.plain '*'], rfl⟩
  have hsound : ∀ m ∈ [Mark.plain 'a'], m.Resolves .single := List.forall_mem_singleton.2 trivial
  have hbad : ¬(Mark.escaped 'q').Resolves .single := by simp [Mark.Resolves, Quote.char]
  exact ⟨(tokensFrom_literal .single .start ['\\', 'q', '\\', '\'']).2 _ _ (.unterminated hopen),
    (tokensFrom_literal .single .start ['a', '\\', 'q', '\'', '*']).2 _ _
      (@Classified.invalidEscape _ _ _ [.plain 'a'] [] 'q' hinner hsound hbad)⟩

end
end CoreLang.Source
