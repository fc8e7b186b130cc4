import CoreLang.Proofs.Source.Gap
import CoreLang.Proofs.Source.Literal
import CoreLang.Proofs.Source.Numeral
import CoreLang.Source.Tiling

/-! A piece depends on its own text and on one character after it. A line feed after it does as well
as the end of the text, and a space does too unless the piece is a literal without its closing
quote. -/
namespace CoreLang

namespace Symbol
variable {c : Char} {rest : List Char}

theorem atHead?_spelling : ∀ entry ∈ table, atHead? entry.1 = some entry := by decide

theorem atHead?_cons (c : Char) (rest : List Char) :
    atHead? (c :: rest) = atHead? (c :: rest.head?.toList) := by
  cases rest <;> rfl

/-- No symbol has a line feed or a space in it. -/
theorem atHead?_blank {d : Char} (h : d = '\n' ∨ d = ' ') : atHead? [c, d] = atHead? [c] := by
  rcases h with rfl | rfl <;> rfl

theorem atHead?_singleton (h : ∀ entry, atHead? (c :: rest) = some entry → entry.1 = [c]) :
    atHead? [c] = atHead? (c :: rest) := by
  cases hfound : atHead? (c :: rest) with
  | some entry =>
    rw [← h entry hfound]
    exact atHead?_spelling entry (List.mem_of_find?_eq_some hfound)
  | none =>
    refine List.find?_eq_none.2 fun entry hentry hhead => ?_
    have hlonger : entry.1 <+: c :: rest :=
      (List.isPrefixOf_iff_prefix.1 hhead).trans (List.prefix_append [c] rest)
    exact List.find?_eq_none.1 hfound entry hentry (List.isPrefixOf_iff_prefix.2 hlonger)

end Symbol

namespace Source
open Text (Quote)

/-- A literal without its closing quote. -/
def Reading.Open (r : Reading) : Prop := ∃ quote, r = .fault (.unterminated quote) 0

/-- Texts before which a piece ends as it did: they begin with the character that stood after it,
with a line feed, or with a space if the piece is no open literal. The end of the text is one. -/
def Scan.EndsBefore (s : Scan) (next : List Char) : Prop :=
  ∀ d ∈ next.head?, d ∈ s.rest.head? ∨ d = '\n' ∨ d = ' ' ∧ ¬s.reading.Open

section Kinds
variable {c : Char} {rest : List Char}

theorem scan_numeral (h : Numeral.startsAt c rest = true) :
    scan c rest = Numeral.scan (c :: rest) := if_pos h

theorem scan_word (h : Word.startsAt c = true) (hnumeral : Numeral.startsAt c rest = false) :
    scan c rest = Word.scan (c :: rest) := by
  simp [scan, hnumeral, h]

theorem scan_quote (quote : Quote) : scan quote.char rest = Literal.scan quote rest := by
  cases quote <;> rfl

theorem scan_symbol (hnumeral : Numeral.startsAt c rest = false) (hword : Word.startsAt c = false)
    (hquote : ∀ quote : Quote, c ≠ quote.char) : scan c rest = scanSymbol c rest := by
  simp [scan, hnumeral, hword, hquote]

/-- The four sorts of pieces, by how they begin. -/
theorem starts_cases (c : Char) (rest : List Char) :
    Numeral.startsAt c rest = true ∨
      Numeral.startsAt c rest = false ∧ Word.startsAt c = true ∨
      (∃ quote : Quote, c = quote.char) ∨
      Numeral.startsAt c rest = false ∧ Word.startsAt c = false ∧
        ∀ quote : Quote, c ≠ quote.char := by
  by_cases hquote : ∃ quote : Quote, c = quote.char
  · exact .inr (.inr (.inl hquote))
  · cases hnumeral : Numeral.startsAt c rest <;> cases hword : Word.startsAt c <;>
      simp_all

/-- What holds of each sort of piece holds of every piece. -/
theorem scan_cases {motive : Scan → Prop}
    (numeral : Numeral.startsAt c rest = true → motive (Numeral.scan (c :: rest)))
    (word : motive (Word.scan (c :: rest)))
    (literal : ∀ quote : Quote, c = quote.char → motive (Literal.scan quote rest))
    (symbol : motive (scanSymbol c rest)) : motive (scan c rest) := by
  rcases starts_cases c rest with
    hnumeral | ⟨hnumeral, hword⟩ | ⟨quote, rfl⟩ | ⟨hnumeral, hword, hquote⟩
  · rw [scan_numeral hnumeral]
    exact numeral hnumeral
  · rw [scan_word hword hnumeral]
    exact word
  · rw [scan_quote]
    exact literal quote rfl
  · rw [scan_symbol hnumeral hword hquote]
    exact symbol

end Kinds

section Ends
variable {c : Char} {rest tail next : List Char}

theorem Scan.EndsBefore.forall_not {s : Scan} {p : Char → Bool} (h : s.EndsBefore next)
    (hrest : ∀ d ∈ s.rest.head?, p d = false) (hline : p '\n' = false) (hspace : p ' ' = false) :
    ∀ d ∈ next.head?, p d = false := by
  intro d hd
  rcases h d hd with hd | rfl | ⟨rfl, -⟩
  · exact hrest d hd
  · exact hline
  · exact hspace

theorem Scan.Tiles.exists_tail {s : Scan} (h : s.Tiles (c :: rest)) :
    ∃ tail, s.raw = c :: tail ∧ tail ++ s.rest = rest := by
  obtain ⟨hne, happend⟩ := h
  obtain ⟨d, tail, hraw⟩ := List.exists_cons_of_ne_nil hne
  rw [hraw] at happend
  obtain ⟨rfl, hrest⟩ := List.cons.inj happend
  exact ⟨tail, hraw, hrest⟩

theorem Scan.Tiles.tail_append {s : Scan} (h : s.Tiles (c :: rest)) (hraw : s.raw = c :: tail) :
    tail ++ s.rest = rest := by
  obtain ⟨tail', hraw', hrest⟩ := h.exists_tail
  rw [hraw] at hraw'
  obtain ⟨-, rfl⟩ := List.cons.inj hraw'
  exact hrest

theorem Scan.EndsBefore.head?_append {s : Scan} (hnext : s.EndsBefore next)
    (htiles : s.Tiles (c :: rest)) (hraw : s.raw = c :: tail) :
    ∀ d ∈ (tail ++ next).head?, d ∈ rest.head? ∨ d = '\n' ∨ d = ' ' := by
  rw [← htiles.tail_append hraw]
  intro d hd
  cases tail with
  | cons e tail => exact .inl hd
  | nil => exact (hnext d hd).imp_right (Or.imp_right And.left)

theorem Numeral.startsAt_eq_false {rest' : List Char} (hc : startsAt c rest = false)
    (h : ∀ d ∈ rest'.head?, d ∈ rest.head? ∨ d = '\n' ∨ d = ' ') : startsAt c rest' = false := by
  rw [← Bool.not_eq_true] at hc ⊢
  intro hstart
  apply hc
  simp only [startsAt, Bool.or_eq_true, Bool.and_eq_true, Option.any_eq_true] at hstart ⊢
  rcases hstart with hdigit | ⟨hpoint, d, hd, hdigit⟩
  · exact .inl hdigit
  · refine .inr ⟨hpoint, d, ?_, hdigit⟩
    rcases h d hd with hd | rfl | rfl
    · exact hd
    · cases hdigit
    · cases hdigit

theorem scanSymbol_append (hraw : (scanSymbol c rest).raw = c :: tail)
    (hnext : (scanSymbol c rest).EndsBefore next) :
    scanSymbol c (tail ++ next) = ⟨c :: tail, (scanSymbol c rest).reading, next⟩ := by
  have htiles := (scanSymbol_tiles c rest).tail_append hraw
  have hsame : Symbol.atHead? (c :: (tail ++ next)) = Symbol.atHead? (c :: rest) := by
    cases tail with
    | cons d tail =>
      rw [Symbol.atHead?_cons c, Symbol.atHead?_cons c rest, ← htiles]
      rfl
    | nil =>
      have halone : Symbol.atHead? [c] = Symbol.atHead? (c :: rest) := by
        refine Symbol.atHead?_singleton fun entry hentry => ?_
        simpa [scanSymbol, hentry] using hraw
      rw [List.nil_append] at htiles ⊢
      rw [Symbol.atHead?_cons c next]
      cases hhead : next.head? with
      | none => exact halone
      | some d =>
        rcases hnext d hhead with hd | hd | ⟨hd, -⟩
        · rw [htiles] at hd
          rw [Symbol.atHead?_cons c rest, Option.mem_def.1 hd]
        · exact (Symbol.atHead?_blank (.inl hd)).trans halone
        · exact (Symbol.atHead?_blank (.inr hd)).trans halone
  unfold scanSymbol at hraw ⊢
  rw [hsame]
  cases hfound : Symbol.atHead? (c :: rest) with
  | some entry =>
    simp only [hfound] at hraw
    simp [hraw]
  | none =>
    simp only [hfound] at hraw
    simp [hraw, (List.cons.inj hraw).2.symm]

theorem Word.scan_append (hraw : (scan (c :: rest)).raw = c :: tail)
    (hnext : (scan (c :: rest)).EndsBefore next) :
    scan (c :: (tail ++ next)) = ⟨c :: tail, (scan (c :: rest)).reading, next⟩ := by
  have hin : ∀ d ∈ c :: tail, isMember d = true := fun d hd =>
    List.mem_takeWhile_imp (hraw ▸ hd)
  have hout : ∀ d ∈ next.head?, isMember d = false :=
    hnext.forall_not (fun d => not_of_mem_head?_dropWhile) (by decide) (by decide)
  have hword : (c :: rest).takeWhile isMember = c :: tail := hraw
  simp only [scan, hword, ← List.cons_append, takeWhile_append_of_head hin hout,
    dropWhile_append_of_head hin hout]

/-- What a piece is depends on its text and on one character after it. -/
theorem scan_append (hraw : (scan c rest).raw = c :: tail) (hnext : (scan c rest).EndsBefore next) :
    scan c (tail ++ next) = ⟨c :: tail, (scan c rest).reading, next⟩ := by
  have hhead := hnext.head?_append (scan_tiles c rest) hraw
  rcases starts_cases c rest with
    hnumeral | ⟨hnumeral, hword⟩ | ⟨quote, rfl⟩ | ⟨hnumeral, hword, hquote⟩
  · rw [scan_numeral hnumeral] at hraw hnext ⊢
    rw [scan_numeral (Numeral.startsAt_append hnumeral hraw next), ← List.cons_append, ← hraw]
    refine Numeral.scan_append fun d hd => ?_
    rcases hnext d hd with hd | rfl | ⟨rfl, -⟩
    · exact .inl hd
    · exact .inr (by decide)
    · exact .inr (by decide)
  · rw [scan_word hword hnumeral] at hraw hnext ⊢
    rw [scan_word hword (Numeral.startsAt_eq_false hnumeral hhead)]
    exact Word.scan_append hraw hnext
  · rw [scan_quote] at hraw hnext ⊢
    rw [scan_quote]
    refine Literal.scan_append (fun hopen d hd => ?_) hraw
    rcases hnext d hd with hd | hd | ⟨-, hclosed⟩
    · exact Literal.rest_of_open hopen d hd
    · exact hd
    · exact (hclosed ⟨quote, by simp [Literal.scan, Literal.Split.reading, hopen]⟩).elim
  · rw [scan_symbol hnumeral hword hquote] at hraw hnext ⊢
    rw [scan_symbol (Numeral.startsAt_eq_false hnumeral hhead) hword hquote]
    exact scanSymbol_append hraw hnext

/-- A piece goes on beginning where it did. -/
theorem StartsPiece.append (h : StartsPiece c rest) (hraw : (scan c rest).raw = c :: tail)
    (hnext : (scan c rest).EndsBefore next) : StartsPiece c (tail ++ next) := by
  refine ⟨h.1, fun ⟨hc, hslash⟩ => ?_⟩
  rcases hnext.head?_append (scan_tiles c rest) hraw _ hslash with hd | hd | hd
  · exact h.2 ⟨hc, hd⟩
  · cases hd
  · cases hd

end Ends
end Source
end CoreLang
