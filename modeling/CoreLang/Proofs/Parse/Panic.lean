import CoreLang.Proofs.Parse.Faults
import CoreLang.Proofs.Parse.Resumption

/-! What a panic at the end of a parse means. It is decided by the last error alone: that error ended
the parse, or no token behind it lets parsing resume. -/
namespace CoreLang

namespace Form

/-- The causes tell the errors that end a parse from the others. -/
def sortsCauses : Form → Bool
  | token _ cause => cause ≠ .tooDeep ∧ cause ≠ .unclosedSubscript
  | empty => true
  | seq first second => first.sortsCauses && second.sortsCauses
  | branch _ yes no => yes.sortsCauses && no.sortsCauses
  | many _ body => body.sortsCauses
  | node _ body => body.sortsCauses
  | suffixed _ operand _ suffix => operand.sortsCauses && suffix.sortsCauses
  | nested _ => true
  | items _ item => item.sortsCauses
  | abandon cause => cause = .tooDeep ∨ cause = .unclosedSubscript

theorem rule_sortsCauses (c : Nested) : (Grammar.rule c).sortsCauses = true := by
  cases c <;> decide

end Form

theorem Grammar.program_sortsCauses : program.sortsCauses = true := by decide

namespace Form.Runs
variable {n : Nat} {form : Form} {s s' : ParserState} {ts : List Tree} {stop : Option Stop}

theorem fatal_iff (h : form.Runs n s ts stop s') (hc : form.sortsCauses = true) {e : Stop}
    (he : e ∈ stop) : e.fatal = true ↔ ¬e.error.Recoverable := by
  induction h with
  | token | empty | done | alone | finish => cases he
  | mismatch =>
    cases he
    simpa [sortsCauses, SyntaxError.Recoverable, ParserState.error] using hc
  | seq _ _ _ ih' | suffixed _ _ _ _ ih' => exact ih' (Bool.and_eq_true_iff.1 hc).2 he
  | seqStopped _ ih | yes _ _ ih | suffixedStopped _ ih =>
    exact ih (Bool.and_eq_true_iff.1 hc).1 he
  | no _ _ ih => exact ih (Bool.and_eq_true_iff.1 hc).2 he
  | moreStopped _ _ ih | node _ ih | ruined _ _ ih => exact ih hc he
  | more _ _ _ _ ih' | item _ _ _ _ ih' | damaged _ _ _ _ ih' => exact ih' hc he
  | nested _ ih => exact ih (rule_sortsCauses _) he
  | tooDeep =>
    cases he
    simp [SyntaxError.Recoverable, ParserState.error]
  | abandon =>
    cases he
    simp only [sortsCauses, decide_eq_true_eq] at hc
    simp only [SyntaxError.Recoverable, ParserState.error, true_iff]
    rintro ⟨hdeep, hunclosed⟩
    exact hc.elim hdeep hunclosed

/-- What is recorded in a run did not end the parse. -/
theorem recoverable_of_mem (h : form.Runs n s ts stop s') (hc : form.sortsCauses = true)
    {e : SyntaxError} (he : e ∈ s'.errors) : e ∈ s.errors ∨ e.Recoverable := by
  induction h with
  | token | mismatch | empty | done | tooDeep | finish | abandon => exact .inl he
  | seqStopped _ ih | yes _ _ ih | suffixedStopped _ ih | alone _ _ ih =>
    exact ih (Bool.and_eq_true_iff.1 hc).1 he
  | no _ _ ih => exact ih (Bool.and_eq_true_iff.1 hc).2 he
  | moreStopped _ _ ih | node _ ih | ruined _ _ ih => exact ih hc he
  | nested _ ih => exact ih (rule_sortsCauses _) he
  | seq _ _ ih ih' | suffixed _ _ _ ih ih' =>
    obtain ⟨hc₁, hc₂⟩ := Bool.and_eq_true_iff.1 hc
    exact (ih' hc₂ he).elim (ih hc₁) .inr
  | more _ _ _ ih ih' | item _ _ _ ih ih' => exact (ih' hc he).elim (ih hc) .inr
  | @damaged _ _ _ _ s' _ _ _ e₀ _ _ h _ ih ih' =>
    refine (ih' hc he).elim (fun he => ?_) .inr
    rw [ParserState.resume_errors, ParserState.record, List.mem_append, List.mem_singleton] at he
    rcases he with he | rfl
    · exact ih hc he
    · exact .inr (by simpa using h.fatal_iff hc rfl)

end Form.Runs

namespace ParserState

/-- No token behind the error lets parsing resume. -/
def Stranded (s : ParserState) (e : SyntaxError) : Prop :=
  ∀ t ∈ (Token.beforeMarker s.tokens).drop (e.index + 1 - s.index), t.kind ∉ resumeKinds

theorem Passes.stranded_iff {s s' : ParserState} {read : List Token} {e : SyntaxError}
    (h : s.Passes read s') (hle : s'.index ≤ e.index) : s.Stranded e ↔ s'.Stranded e := by
  have hindex := h.index
  rw [Stranded, Stranded, h.beforeMarker,
    show e.index + 1 - s.index = read.length + (e.index + 1 - s'.index) by omega,
    List.drop_length_add_append]

/-- Between the states no error is recorded and the panic stays, or the last one that is recorded
decides whether the parser panics. -/
inductive Settled (s s' : ParserState) : Prop where
  | clean (errors : s'.errors = s.errors) (panic : s'.panic = s.panic)
  | after (e : SyntaxError) (last : s'.errors.getLast? = some e) (index : s.index ≤ e.index)
    (panic : s'.panic = true ↔ s.Stranded e)

theorem Settled.trans {s s' s'' : ParserState} {read : List Token} (h : Settled s s')
    (hpass : s.Passes read s') (h' : Settled s' s'') : Settled s s'' := by
  cases h' with
  | clean herrors hpanic =>
    cases h with
    | clean herrors' hpanic' => exact .clean (herrors.trans herrors') (hpanic.trans hpanic')
    | after e hlast hindex hpanic' =>
      exact .after e (by rw [herrors, hlast]) hindex (by rw [hpanic, hpanic'])
  | after e hlast hindex hpanic =>
    exact .after e hlast (Nat.le_trans hpass.index_le hindex)
      (by rw [hpanic, hpass.stranded_iff hindex])

/-- An error is settled by resuming behind it. -/
theorem settled_resume {s : ParserState} (hs : s.Closed) (cause : Cause) :
    Settled s (s.record (s.error cause)).resume := by
  refine .after (s.error cause) ?_ (Nat.le_refl _) ?_
  · rw [resume_errors, record, List.getLast?_concat]
  · have hclosed : (s.record (s.error cause)).Closed := hs
    rw [resume_panic_iff hclosed, Stranded, error, Nat.add_sub_cancel_left]
    rfl

end ParserState

theorem Form.Runs.settled {n : Nat} {form : Form} {s s' : ParserState} {ts : List Tree}
    {stop : Option Stop} (h : form.Runs n s ts stop s') (hs : s.Closed) :
    ParserState.Settled s s' := by
  induction h with
  | token | mismatch | empty | done | tooDeep | finish | abandon => exact .clean rfl rfl
  | seqStopped _ ih | yes _ _ ih | no _ _ ih | moreStopped _ _ ih | node _ ih | alone _ _ ih
  | suffixedStopped _ ih | nested _ ih | ruined _ _ ih => exact ih hs
  | seq h _ ih ih' | more _ h _ ih ih' | suffixed h _ _ ih ih' | item _ h _ ih ih' =>
    obtain ⟨read, hpass, -⟩ := h.exists_passes
    exact (ih hs).trans hpass (ih' (hpass.closed hs))
  | @damaged _ _ _ _ s' _ _ _ e _ _ h _ ih ih' =>
    obtain ⟨read, hpass, -⟩ := h.exists_passes
    obtain ⟨skipped, hskip⟩ := (s'.record e).exists_passes_resume
    have hresume : ParserState.Settled s' (s'.record e).resume := by
      rw [show e = s'.error e.cause from h.error_of_stop rfl]
      exact ParserState.settled_resume (hpass.closed hs) _
    have hskip' := ((ParserState.Passes.refl s').record e).trans hskip
    have hclosed := hskip'.closed (hpass.closed hs)
    exact (ih hs).trans hpass (hresume.trans hskip' (ih' hclosed))

namespace Parse

/-- Every error stands at one of the tokens. -/
theorem names_of_mem_errors {tokens : List Token} {e : SyntaxError}
    (he : e ∈ (ofTokens tokens).errors) : (ParserState.ofTokens tokens).Names e := by
  obtain ⟨ts, stop, s, h, -, hparse⟩ := exists_runs tokens
  rw [hparse] at he
  rcases List.mem_append.1 he with he | he
  · obtain ⟨new, hnew, hnames⟩ := h.exists_errors
    rw [hnew, ParserState.ofTokens_errors, List.nil_append] at he
    exact hnames e he
  · obtain ⟨stop, hstop, rfl⟩ := Option.map_eq_some_iff.1 (Option.mem_toList.1 he)
    exact h.names_stop hstop

/-- A parse ends in panic, and keeps its tree to itself, exactly if it found an error and the last
one ended the parse or has no token behind it at which parsing can resume. Errors before the last
one have no part in that, and neither has what was read after it. -/
theorem panicked_iff (tokens : List Token) :
    ((ofTokens tokens).panicked = true ↔ ∃ e, (ofTokens tokens).errors.getLast? = some e ∧
        (¬e.Recoverable ∨ ∀ t ∈ (Token.beforeMarker tokens).drop (e.index + 1),
          t.kind ∉ ParserState.resumeKinds)) ∧
      ((ofTokens tokens).tree? = none ↔ (ofTokens tokens).panicked = true) ∧
      ∀ e ∈ (ofTokens tokens).errors,
        (ParserState.ofTokens tokens).tokens[e.index]? = some e.found := by
  obtain ⟨ts, stop, s, h, hfatal, hparse⟩ := exists_runs tokens
  refine ⟨?_, by simp [tree?], fun e he => ?_⟩
  · rw [hparse]
    cases stop with
    | some stop =>
      have hnot := (h.fatal_iff Grammar.program_sortsCauses rfl).1 (hfatal stop rfl)
      simpa using .inl hnot
    | none =>
      have hrecoverable : ∀ e ∈ s.errors, e.Recoverable := fun e he =>
        (h.recoverable_of_mem Grammar.program_sortsCauses he).resolve_left (by simp)
      simp only [Option.map_none, Option.toList_none, List.append_nil, Option.isSome_none,
        Bool.false_or]
      cases h.settled (ParserState.ofTokens_closed tokens) with
      | clean herrors hpanic => simp [herrors, hpanic]
      | after e hlast hindex hpanic =>
        have hr := hrecoverable e (List.mem_of_getLast? hlast)
        rw [hpanic, ParserState.Stranded, ParserState.beforeMarker_ofTokens,
          ParserState.ofTokens_index, Nat.sub_zero]
        simp [hlast, hr]
  · simpa using (names_of_mem_errors he).2

end Parse
end CoreLang
