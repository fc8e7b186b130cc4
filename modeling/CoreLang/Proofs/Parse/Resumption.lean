import CoreLang.Proofs.Parse.Passes

/-! Where parsing resumes after an error: at the first token of certain kinds behind the one that is
skipped in any case, or else at the end marker, and only there the panic lasts. -/
namespace CoreLang.ParserState

theorem atEnd_iff {s : ParserState} : s.atEnd = true ↔ Token.beforeMarker s.tokens = [] := by
  simp only [atEnd, decide_eq_true_eq, Token.beforeMarker, tokens]
  by_cases hk : s.current.kind = .endMarker <;> simp [hk]

theorem beforeMarker_advance {s : ParserState} (hs : s.Closed) :
    Token.beforeMarker s.advance.tokens = (Token.beforeMarker s.tokens).drop 1 := by
  cases he : s.atEnd with
  | true => rw [advance, if_pos he, atEnd_iff.1 he, List.drop_nil]
  | false =>
    rw [(s.passes_advance hs he).beforeMarker, List.singleton_append, List.drop_one, List.tail_cons]

theorem ne_endMarker_of_mem_resumeKinds {k : Kind} (h : k ∈ resumeKinds) : k ≠ .endMarker := by
  rintro rfl
  exact absurd h (by decide)

/-- No token at which parsing can resume is passed over while one is sought. -/
theorem seek_stops {s : ParserState} (hs : s.Closed) :
    ∃ skipped, s.Passes skipped s.seek ∧ (∀ t ∈ skipped, t.kind ∉ resumeKinds) ∧
      (s.seek.atEnd = true ∨ s.seek.current.kind ∈ resumeKinds) := by
  generalize hrest : s.rest = rest
  induction rest generalizing s with
  | nil =>
    have he : s.atEnd = true := by
      cases he : s.atEnd with
      | true => rfl
      | false => exact absurd hrest (hs.rest_ne_nil he)
    rw [seek_of_stop (.inl he)]
    exact ⟨[], .refl s, by simp, .inl he⟩
  | cons t rest ih =>
    by_cases hstop : s.atEnd = true ∨ s.current.kind ∈ resumeKinds
    · rw [seek_of_stop hstop]
      exact ⟨[], .refl s, by simp, hstop⟩
    · rw [seek_of_rest hstop hrest]
      obtain ⟨he, hk⟩ := not_or.1 hstop
      have hnext := s.passes_next (by simpa using he) hrest
      obtain ⟨skipped, hpass, hskipped, hstops⟩ := ih (hnext.closed hs) rfl
      exact ⟨_, hnext.trans hpass, by simpa using ⟨hk, hskipped⟩, hstops⟩

theorem exists_skipped {s : ParserState} (hs : s.Closed) :
    ∃ skipped, s.advance.Passes skipped s.resume ∧ (∀ t ∈ skipped, t.kind ∉ resumeKinds) ∧
      (s.resume.atEnd = true ∨ s.resume.current.kind ∈ resumeKinds) := by
  obtain ⟨read, hread⟩ := s.exists_passes_advance
  obtain ⟨skipped, hpass, hskipped, hstop⟩ := seek_stops (hread.closed hs)
  exact ⟨skipped, hpass.set _ _, hskipped, hstop⟩

theorem resume_panic (s : ParserState) : s.resume.panic = s.resume.atEnd := rfl

theorem resume_of_atEnd {s : ParserState} (he : s.atEnd = true) :
    s.resume = { s with panic := true } := by
  rw [resume, show s.advance = s from if_pos he, seek_of_stop (.inl he), he]

/-- After an error the panic lasts if parsing can resume at none of the tokens behind it. -/
theorem resume_panic_iff {s : ParserState} (hs : s.Closed) :
    s.resume.panic = true ↔
      ∀ t ∈ (Token.beforeMarker s.tokens).drop 1, t.kind ∉ resumeKinds := by
  obtain ⟨skipped, hpass, hskipped, hstop⟩ := exists_skipped hs
  rw [resume_panic, ← beforeMarker_advance hs]
  constructor
  · intro he
    rwa [hpass.beforeMarker_of_atEnd he]
  · intro hall
    refine hstop.resolve_right fun hk => hall s.resume.current ?_ hk
    rw [hpass.beforeMarker]
    simp [Token.beforeMarker, tokens, ne_endMarker_of_mem_resumeKinds hk]

/-- The tokens that are passed over where a place to resume is sought. -/
def passedOver (t : Token) : Bool := t.kind ≠ .endMarker ∧ t.kind ∉ resumeKinds

theorem resume_tokens {s : ParserState} (hs : s.Closed) :
    s.resume.tokens = s.advance.tokens.dropWhile passedOver := by
  obtain ⟨skipped, hpass, hskipped, hstop⟩ := exists_skipped hs
  have hpassed : ∀ t ∈ skipped, passedOver t = true := by
    intro t ht
    simpa [passedOver] using ⟨hpass.unmarked t ht, hskipped t ht⟩
  have hcurrent : passedOver s.resume.current = false := by
    rcases hstop with hstop | hstop <;> simp_all [passedOver, atEnd]
  rw [hpass.tokens, List.dropWhile_append_of_pos hpassed, tokens,
    List.dropWhile_cons_of_neg (by simp [hcurrent])]

/-- A parser that stops within damaged tokens resumes behind them, if none of those that are left
lets it resume before. -/
theorem resume_of_passes {s s' : ParserState} {read damaged rest : List Token} {u : Token}
    (hpass : s.Passes read s') (hs : s.Closed) (ht : s.tokens = damaged ++ u :: rest)
    (hread : read.length < damaged.length) (hmarker : ∀ t ∈ damaged, t.kind ≠ .endMarker)
    (hrest : ∀ t ∈ damaged.drop (read.length + 1), t.kind ∉ resumeKinds)
    (hu : u.kind ∈ resumeKinds) : s'.resume.tokens = u :: rest ∧ s'.resume.panic = false := by
  have hleft : s'.tokens =
      damaged[read.length] :: (damaged.drop (read.length + 1) ++ u :: rest) := by
    rw [← List.cons_append, ← List.drop_eq_getElem_cons, ← List.drop_append_of_le_length
      (Nat.le_of_lt hread), ← ht, hpass.tokens, List.drop_left]
  have he : s'.atEnd = false := by
    rw [atEnd_of_tokens hleft]
    exact decide_eq_false (hmarker _ (List.getElem_mem hread))
  have hnext : s'.advance.tokens = damaged.drop (read.length + 1) ++ u :: rest := by
    have hadvance := (s'.passes_advance (hpass.closed hs) he).tokens
    rw [hleft, List.singleton_append, List.cons.injEq] at hadvance
    exact hadvance.2.symm
  have hskipped : ∀ t ∈ damaged.drop (read.length + 1), passedOver t = true := by
    intro t ht
    simpa [passedOver] using ⟨hmarker t (List.mem_of_mem_drop ht), hrest t ht⟩
  have htokens : s'.resume.tokens = u :: rest := by
    rw [resume_tokens (hpass.closed hs), hnext, List.dropWhile_append_of_pos hskipped,
      List.dropWhile_cons_of_neg (by simp [passedOver, hu])]
  refine ⟨htokens, ?_⟩
  rw [resume_panic, atEnd_of_tokens htokens]
  exact decide_eq_false (ne_endMarker_of_mem_resumeKinds hu)

end CoreLang.ParserState
