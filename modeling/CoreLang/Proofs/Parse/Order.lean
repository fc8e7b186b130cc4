import CoreLang.Proofs.Parse.Panic
import CoreLang.Proofs.Source.Positions

/-! The order of syntax errors. The parser never goes back, and after an error it resumes behind the
token of that error, so no token but the end marker is named twice. -/
namespace CoreLang

/-- The second error stands further on, or both stand at the end marker. -/
def SyntaxError.Before (e f : SyntaxError) : Prop :=
  e.index < f.index ∨ e.index = f.index ∧ e.found.kind = .endMarker

namespace ParserState

/-- The parser has gone past the token of the error, or has stopped there at the end marker. -/
def Past (s : ParserState) (e : SyntaxError) : Prop :=
  e.index < s.index ∨ e.index = s.index ∧ s.atEnd = true ∧ e.found.kind = .endMarker

/-- The errors that were recorded stand in order, and the parser is past all of them. -/
structure InOrder (s : ParserState) : Prop where
  ordered : s.errors.Pairwise SyntaxError.Before
  past : ∀ e ∈ s.errors, s.Past e

variable {s s' : ParserState} {read : List Token} {e f : SyntaxError}

theorem Passes.past (h : s.Passes read s') (he : s.Past e) : s'.Past e := by
  have hindex := h.index
  rcases he with hlt | ⟨heq, hend, hkind⟩
  · exact .inl (by omega)
  · cases read with
    | nil =>
      refine .inr ⟨by simpa [heq] using hindex.symm, ?_, hkind⟩
      rwa [atEnd_iff, ← List.nil_append (Token.beforeMarker s'.tokens), ← h.beforeMarker, ← atEnd_iff]
    | cons => exact .inl (by simp only [List.length_cons] at hindex; omega)

/-- What stands at the tokens that are left comes after all that the parser is past. -/
theorem Past.before (he : s.Past e) (hf : s.index ≤ f.index) : e.Before f := by
  rcases he with hlt | ⟨heq, -, hkind⟩
  · exact .inl (by omega)
  · rcases Nat.lt_or_eq_of_le hf with hf | hf
    · exact .inl (by omega)
    · exact .inr ⟨by omega, hkind⟩

theorem InOrder.passes (h : s.InOrder) (hp : s.Passes read s') (he : s'.errors = s.errors) :
    s'.InOrder where
  ordered := he ▸ h.ordered
  past e hmem := hp.past (h.past e (he ▸ hmem))

theorem InOrder.resume (h : s.InOrder) (hs : s.Closed) (cause : Cause) :
    (s.record (s.error cause)).resume.InOrder := by
  obtain ⟨read, hskip⟩ := (s.record (s.error cause)).exists_passes_resume
  have hpass := ((Passes.refl s).record (s.error cause)).trans hskip
  have herror : (s.record (s.error cause)).resume.Past (s.error cause) := by
    cases hend : s.atEnd with
    | false => exact .inl (index_lt_resume (s := s.record (s.error cause)) hs hend)
    | true =>
      exact hpass.past (.inr ⟨rfl, hend, by simpa [atEnd, error] using hend⟩)
  constructor
  · rw [resume_errors, record, List.pairwise_append]
    refine ⟨h.ordered, List.pairwise_singleton _ _, fun e he f hf => ?_⟩
    obtain rfl := List.mem_singleton.1 hf
    exact (h.past e he).before (Nat.le_refl _)
  · intro e he
    rw [resume_errors, record, List.mem_append, List.mem_singleton] at he
    rcases he with he | rfl
    · exact hpass.past (h.past e he)
    · exact herror

end ParserState

theorem Form.Runs.inOrder {n : Nat} {form : Form} {s s' : ParserState} {ts : List Tree}
    {stop : Option Stop} (h : form.Runs n s ts stop s') (hs : s.Closed) (ho : s.InOrder) :
    s'.InOrder := by
  induction h with
  | token hk he hr => exact ho.passes (ParserState.passes_next _ he hr) rfl
  | mismatch | empty | done | tooDeep | finish | abandon => exact ho
  | seqStopped _ ih | yes _ _ ih | no _ _ ih | moreStopped _ _ ih | node _ ih | alone _ _ ih
  | suffixedStopped _ ih | nested _ ih | ruined _ _ ih => exact ih hs ho
  | seq h _ ih ih' | more _ h _ ih ih' | suffixed h _ _ ih ih' | item _ h _ ih ih' =>
    exact ih' (h.closed hs) (ih hs ho)
  | @damaged _ _ _ _ s' _ _ _ e _ _ h _ ih ih' =>
    obtain ⟨skipped, hskip⟩ := (s'.record e).exists_passes_resume
    have hresume : (s'.record e).resume.InOrder := by
      rw [show e = s'.error e.cause from h.error_of_stop rfl]
      exact (ih hs ho).resume (h.closed hs) _
    exact ih' (hskip.closed (h.closed hs)) hresume

theorem ParserState.ofTokens_tokens_of_getLast {ts : List Token} {last : Token}
    (h : ts.getLast? = some last) (hlast : last.kind = .endMarker) : (ofTokens ts).tokens = ts := by
  cases ts with
  | nil => cases h
  | cons t rest => simp [ofTokens, tokens, h, hlast]

theorem ParserState.ofTokens_ofSource_tokens (source : String) :
    (ofTokens (Lexed.ofSource source).tokens).tokens = (Lexed.ofSource source).tokens :=
  ofTokens_tokens_of_getLast List.getLast?_concat rfl

namespace Parse
variable {tokens : List Token} {e f : SyntaxError}

theorem errors_pairwise (tokens : List Token) :
    (ofTokens tokens).errors.Pairwise SyntaxError.Before := by
  obtain ⟨ts, stop, s, h, -, hparse⟩ := exists_runs tokens
  have hstart : (ParserState.ofTokens tokens).InOrder := ⟨by simp, by simp⟩
  obtain ⟨hordered, hpast⟩ := h.inOrder (ParserState.ofTokens_closed tokens) hstart
  rw [hparse]
  refine List.pairwise_append.2 ⟨hordered, ?_, fun e he f hf => (hpast e he).before ?_⟩
  · cases stop <;> simp
  · obtain ⟨stop, hstop, rfl⟩ := Option.map_eq_some_iff.1 (Option.mem_toList.1 hf)
    rw [h.error_of_stop hstop]
    exact Nat.le_refl _

theorem recoverable_of_mem_dropLast (he : e ∈ (ofTokens tokens).errors.dropLast) :
    e.Recoverable := by
  obtain ⟨ts, stop, s, h, -, hparse⟩ := exists_runs tokens
  have hmem : e ∈ s.errors := by
    rw [hparse] at he
    cases stop with
    | none => exact (List.dropLast_sublist _).subset (by simpa using he)
    | some => simpa using he
  exact (h.recoverable_of_mem Grammar.program_sortsCauses hmem).resolve_left (by simp)

theorem getElem?_of_mem_errors (he : e ∈ (ofTokens tokens).errors) :
    (ParserState.ofTokens tokens).tokens[e.index]? = some e.found := by
  simpa using (names_of_mem_errors he).2

theorem found_eq_of_index_eq (he : e ∈ (ofTokens tokens).errors)
    (hf : f ∈ (ofTokens tokens).errors) (h : e.index = f.index) : e.found = f.found := by
  have hfound := getElem?_of_mem_errors he
  rw [h, getElem?_of_mem_errors hf] at hfound
  exact (Option.some.inj hfound).symm

theorem position_lt_of_index_lt {source : String} (he : e ∈ (ofSource source).errors)
    (hf : f ∈ (ofSource source).errors) (h : e.index < f.index) :
    e.found.position < f.found.position := by
  have hfound := getElem?_of_mem_errors he
  have hfound' := getElem?_of_mem_errors hf
  rw [ParserState.ofTokens_ofSource_tokens] at hfound hfound'
  obtain ⟨hlt, hget⟩ := List.getElem?_eq_some_iff.1 hfound
  obtain ⟨hlt', hget'⟩ := List.getElem?_eq_some_iff.1 hfound'
  rw [← hget, ← hget']
  exact List.pairwise_iff_getElem.1 (Lexed.tokens_pairwise source) _ _ hlt hlt' h

/-- Errors come in the order of their tokens, and only at the end marker is there more than one. An
error that ends the parse is the last one. So in a text each error stands behind the one before it,
unless both stand at the end. -/
theorem errors_ordered (tokens : List Token) :
    (∀ e ∈ (ofTokens tokens).errors,
        (ParserState.ofTokens tokens).tokens[e.index]? = some e.found) ∧
      ((ofTokens tokens).errors.Pairwise fun e f => e.index ≤ f.index ∧
        (e.index = f.index → e.found = f.found ∧ e.found.kind = .endMarker)) ∧
      (∀ e ∈ (ofTokens tokens).errors.dropLast, e.Recoverable) ∧
      (∀ (s s' : ParserState) (e : SyntaxError) (fatal : Bool), s.Closed →
        Grammar.declaration.run (Nested.run Limits.nesting) s = .stopped e fatal s' →
          (fatal = true ↔ ¬e.Recoverable)) ∧
      ∀ source : String, (ofSource source).errors.Pairwise fun e f =>
        e.found.position < f.found.position ∨ e.found = f.found ∧ e.found.kind = .endMarker := by
  refine ⟨fun e => getElem?_of_mem_errors, (errors_pairwise tokens).imp_of_mem ?_,
    fun e => recoverable_of_mem_dropLast, ?_, ?_⟩
  · rintro e f he hf (hlt | ⟨heq, hkind⟩)
    · exact ⟨Nat.le_of_lt hlt, fun heq => absurd heq (Nat.ne_of_lt hlt)⟩
    · exact ⟨Nat.le_of_eq heq, fun _ => ⟨found_eq_of_index_eq he hf heq, hkind⟩⟩
  · intro s s' e fatal hs hstop
    obtain ⟨ts, h⟩ := Form.exists_runs_of_stopped (by decide) hs hstop
    exact h.fatal_iff (by decide) rfl
  · intro source
    refine (errors_pairwise (Lexed.ofSource source).tokens).imp_of_mem ?_
    rintro e f he hf (hlt | ⟨heq, hkind⟩)
    · exact .inl (position_lt_of_index_lt he hf hlt)
    · exact .inr ⟨found_eq_of_index_eq he hf heq, hkind⟩

end Parse
end CoreLang
