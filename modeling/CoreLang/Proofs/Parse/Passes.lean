import CoreLang.Parse.State

/-! How a parser moves through its tokens: it never goes back and never passes an end marker. -/
namespace CoreLang

/-- The tokens before the first end marker. -/
def Token.beforeMarker (ts : List Token) : List Token := ts.takeWhile (·.kind ≠ .endMarker)

theorem Token.beforeMarker_append {read : List Token} (h : ∀ t ∈ read, t.kind ≠ .endMarker)
    (ts : List Token) : beforeMarker (read ++ ts) = read ++ beforeMarker ts := by
  rw [beforeMarker, List.takeWhile_append_of_pos (by simpa using h), beforeMarker]

namespace ParserState

@[simp] theorem tokens_ne_nil (s : ParserState) : s.tokens ≠ [] := by simp [tokens]

theorem atEnd_of_tokens {s : ParserState} {t : Token} {rest : List Token}
    (h : s.tokens = t :: rest) : s.atEnd = decide (t.kind = .endMarker) := by
  rw [atEnd, (List.cons.inj h).1]

/-- The tokens close with an end marker. -/
def Closed (s : ParserState) : Prop := ∃ t, s.tokens.getLast? = some t ∧ t.kind = .endMarker

theorem Closed.rest_ne_nil {s : ParserState} (h : s.Closed) (he : s.atEnd = false) :
    s.rest ≠ [] := by
  intro hr
  obtain ⟨t, ht, hk⟩ := h
  simp only [tokens, hr, List.getLast?_singleton, Option.some.injEq] at ht
  simp [atEnd, ht, hk] at he

/-- From `s` to `s'` exactly the tokens `read` are passed over, and no end marker is among them. -/
structure Passes (s : ParserState) (read : List Token) (s' : ParserState) : Prop where
  tokens : s.tokens = read ++ s'.tokens
  unmarked : ∀ t ∈ read, t.kind ≠ .endMarker
  index : s'.index = s.index + read.length

namespace Passes
variable {s s' s'' : ParserState} {read read' : List Token}

theorem refl (s : ParserState) : s.Passes [] s := ⟨rfl, by simp, rfl⟩

theorem trans (h : s.Passes read s') (h' : s'.Passes read' s'') :
    s.Passes (read ++ read') s'' where
  tokens := by rw [h.tokens, h'.tokens, List.append_assoc]
  unmarked := by
    intro t ht
    rcases List.mem_append.1 ht with ht | ht
    · exact h.unmarked t ht
    · exact h'.unmarked t ht
  index := by
    have := h.index
    have := h'.index
    simp only [List.length_append]
    omega

theorem closed (h : s.Passes read s') (hs : s.Closed) : s'.Closed := by
  obtain ⟨t, ht, hk⟩ := hs
  refine ⟨t, ?_, hk⟩
  rw [h.tokens, List.getLast?_append] at ht
  cases hlast : s'.tokens.getLast? with
  | none => exact absurd (List.getLast?_eq_none_iff.1 hlast) (tokens_ne_nil s')
  | some u => simpa [hlast] using ht

theorem length_rest (h : s.Passes read s') : s.rest.length = read.length + s'.rest.length := by
  have := congrArg List.length h.tokens
  simp only [ParserState.tokens, List.length_cons, List.length_append] at this
  omega

theorem index_le (h : s.Passes read s') : s.index ≤ s'.index := by have := h.index; omega

theorem take_tokens (h : s.Passes read s') {i : Nat} (hi : s'.index ≤ i) :
    s.tokens.take (i - s.index) = read ++ s'.tokens.take (i - s'.index) := by
  have := h.index
  rw [h.tokens, show i - s.index = read.length + (i - s'.index) by omega,
    List.take_length_add_append]

theorem getElem?_tokens (h : s.Passes read s') (j : Nat) :
    s'.tokens[j]? = s.tokens[read.length + j]? := by
  rw [h.tokens, List.getElem?_append_right (by omega), Nat.add_sub_cancel_left]

theorem beforeMarker (h : s.Passes read s') :
    Token.beforeMarker s.tokens = read ++ Token.beforeMarker s'.tokens := by
  rw [h.tokens, Token.beforeMarker_append h.unmarked]

/-- A parser that reaches an end marker has passed all tokens before the first one. -/
theorem beforeMarker_of_atEnd (h : s.Passes read s') (he : s'.atEnd = true) :
    Token.beforeMarker s.tokens = read := by
  simp only [atEnd, decide_eq_true_eq] at he
  rw [h.beforeMarker]
  simp [Token.beforeMarker, ParserState.tokens, he]

/-- Neither errors nor a panic have a part in moving. -/
theorem set (h : s.Passes read s') (panic : Bool) (errors : List SyntaxError) :
    s.Passes read { s' with panic := panic, errors := errors } := ⟨h.tokens, h.unmarked, h.index⟩

theorem record (h : s.Passes read s') (e : SyntaxError) : s.Passes read (s'.record e) :=
  h.set s'.panic _

end Passes

/-- The error stands at one of the tokens that are left. -/
def Names (s : ParserState) (e : SyntaxError) : Prop :=
  s.index ≤ e.index ∧ s.tokens[e.index - s.index]? = some e.found

theorem names_error (s : ParserState) (cause : Cause) : s.Names (s.error cause) :=
  ⟨Nat.le_refl _, by simp [error, tokens]⟩

theorem Passes.names {s s' : ParserState} {read : List Token} {e : SyntaxError}
    (h : s.Passes read s') (he : s'.Names e) : s.Names e := by
  obtain ⟨hle, hfound⟩ := he
  have hindex := h.index
  refine ⟨by omega, ?_⟩
  rw [h.getElem?_tokens] at hfound
  rw [← hfound, show e.index - s.index = read.length + (e.index - s'.index) by omega]

section
variable (s : ParserState)

@[simp] theorem advance_errors : s.advance.errors = s.errors := by
  unfold advance
  split
  · rfl
  · split <;> rfl

theorem advance_of_rest {t : Token} {rest : List Token} (he : s.atEnd = false)
    (hr : s.rest = t :: rest) :
    s.advance = { s with current := t, rest := rest, index := s.index + 1 } := by
  simp [advance, he, hr]

theorem passes_next {t : Token} {rest : List Token} (he : s.atEnd = false)
    (hr : s.rest = t :: rest) :
    s.Passes [s.current] { s with current := t, rest := rest, index := s.index + 1 } where
  tokens := by simp [tokens, hr]
  unmarked := by simpa [atEnd] using he
  index := rfl

theorem exists_passes_advance : ∃ read, s.Passes read s.advance := by
  by_cases he : s.atEnd = true
  · exact ⟨[], by rw [advance, if_pos he]; exact .refl s⟩
  · rw [Bool.not_eq_true] at he
    cases hr : s.rest with
    | nil => exact ⟨[], by simp only [advance, he, hr]; exact .refl s⟩
    | cons t rest => exact ⟨_, s.advance_of_rest he hr ▸ s.passes_next he hr⟩

theorem passes_advance (hs : s.Closed) (he : s.atEnd = false) :
    s.Passes [s.current] s.advance := by
  obtain ⟨t, rest, hr⟩ := List.exists_cons_of_ne_nil (hs.rest_ne_nil he)
  exact s.advance_of_rest he hr ▸ s.passes_next he hr

end

theorem seek_of_stop {s : ParserState} (h : s.atEnd = true ∨ s.current.kind ∈ resumeKinds) :
    s.seek = s := by
  unfold seek
  cases s.rest with
  | nil => rfl
  | cons t rest => rw [seek.go, if_pos h]

theorem seek_of_rest {s : ParserState} {t : Token} {rest : List Token}
    (h : ¬(s.atEnd = true ∨ s.current.kind ∈ resumeKinds)) (hr : s.rest = t :: rest) :
    s.seek = { s with current := t, rest := rest, index := s.index + 1 }.seek := by
  rw [seek, hr, seek.go, if_neg h]
  rfl

theorem seek_keeps (s : ParserState) :
    s.seek.errors = s.errors ∧ ∃ read, s.Passes read s.seek := by
  generalize hrest : s.rest = rest
  induction rest generalizing s with
  | nil =>
    rw [seek, hrest]
    exact ⟨rfl, [], .refl s⟩
  | cons t rest ih =>
    by_cases hstop : s.atEnd = true ∨ s.current.kind ∈ resumeKinds
    · rw [seek_of_stop hstop]
      exact ⟨rfl, [], .refl s⟩
    · rw [seek_of_rest hstop hrest]
      have hnext := s.passes_next (by simpa using (not_or.1 hstop).1) hrest
      obtain ⟨herrors, read, hread⟩ :=
        ih { s with current := t, rest := rest, index := s.index + 1 } rfl
      exact ⟨herrors, _, hnext.trans hread⟩

theorem resume_errors (s : ParserState) : s.resume.errors = s.errors := by
  simp only [resume, (seek_keeps _).1, advance_errors]

theorem exists_passes_resume (s : ParserState) : ∃ read, s.Passes read s.resume := by
  obtain ⟨read, h⟩ := s.exists_passes_advance
  obtain ⟨-, skipped, h'⟩ := s.advance.seek_keeps
  exact ⟨_, (h.trans h').set _ _⟩

/-- Unless it stands at the end, a parser that resumes passes the current token. -/
theorem index_lt_resume {s : ParserState} (hs : s.Closed) (he : s.atEnd = false) :
    s.index < s.resume.index := by
  obtain ⟨-, skipped, h'⟩ := s.advance.seek_keeps
  have h := (s.passes_advance hs he).trans h'
  have hi := h.index
  simp only [List.length_append, List.length_cons, List.length_nil] at hi
  change s.index < s.advance.seek.index
  omega

section
variable (ts : List Token)

@[simp] theorem ofTokens_index : (ofTokens ts).index = 0 := by
  simp only [ofTokens]
  split <;> rfl

@[simp] theorem ofTokens_errors : (ofTokens ts).errors = [] := by
  simp only [ofTokens]
  split <;> rfl

@[simp] theorem ofTokens_panic : (ofTokens ts).panic = false := by
  simp only [ofTokens]
  split <;> rfl

/-- One end marker closes the tokens, and it is added where it is missing. -/
theorem ofTokens_tokens :
    ∃ marker, (ofTokens ts).tokens = ts ++ marker ∧ (∀ m ∈ marker, m.kind = .endMarker) ∧
      marker.length ≤ 1 ∧ ∃ last, (ts ++ marker).getLast? = some last ∧ last.kind = .endMarker := by
  cases hlast : ts.getLast? with
  | none =>
    obtain rfl := List.getLast?_eq_none_iff.1 hlast
    exact ⟨[.endMarker .start], rfl, by simp [Token.endMarker], by simp, _, rfl, rfl⟩
  | some last =>
    obtain ⟨t, rest, rfl⟩ : ∃ t rest, ts = t :: rest :=
      List.exists_cons_of_ne_nil (by rintro rfl; simp at hlast)
    by_cases hk : last.kind = .endMarker
    · exact ⟨[], by simp [ofTokens, tokens, hlast, hk], by simp, by simp, last,
        by simpa using hlast, hk⟩
    · refine ⟨[.endMarker ⟨last.position.line, last.position.column + 1⟩], ?_,
        by simp [Token.endMarker], by simp, _, List.getLast?_concat, rfl⟩
      simp [ofTokens, tokens, hlast, hk]

theorem ofTokens_closed : (ofTokens ts).Closed := by
  obtain ⟨marker, htokens, -, -, last, hlast, hk⟩ := ofTokens_tokens ts
  exact ⟨last, by rw [htokens, hlast], hk⟩

theorem beforeMarker_ofTokens :
    Token.beforeMarker (ofTokens ts).tokens = Token.beforeMarker ts := by
  obtain ⟨marker, htokens, hmarker, -⟩ := ofTokens_tokens ts
  rw [htokens]
  clear htokens
  induction ts with
  | nil => cases marker <;> simp_all [Token.beforeMarker]
  | cons t ts ih =>
    unfold Token.beforeMarker at ih ⊢
    rw [List.cons_append, List.takeWhile_cons, List.takeWhile_cons, ih]

theorem exists_marker_of_unmarked {ts : List Token} (h : ∀ t ∈ ts, t.kind ≠ .endMarker) :
    ∃ m, (ofTokens ts).tokens = ts ++ [m] ∧ m.kind = .endMarker := by
  obtain ⟨marker, htokens, hmarker, hlen, last, hlast, hk⟩ := ofTokens_tokens ts
  match marker, hlen with
  | [], _ =>
    rw [List.append_nil] at hlast
    exact absurd hk (h last (List.mem_of_getLast? hlast))
  | [m], _ => exact ⟨m, htokens, hmarker m List.mem_cons_self⟩

end

end ParserState
end CoreLang
