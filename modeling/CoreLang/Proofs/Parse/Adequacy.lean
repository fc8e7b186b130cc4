import CoreLang.Proofs.Grammar.Progress
import CoreLang.Proofs.Parse.Runs

/-! The parser runs as the relation says. Rounds never run out, since every round of a repetition
reads a token, and the grammar is checked for that by computation. -/
namespace CoreLang

theorem Form.Runs.index_lt {n : Nat} {form : Form} {s s' : ParserState} {ts : List Tree}
    {stop : Option Stop} (h : form.Runs n s ts stop s') (hstop : stop = none)
    (hr : form.reads = true) : s.index < s'.index := by
  induction h with
  | token => exact Nat.lt_succ_self _
  | seq h h' ih ih' =>
    rcases Bool.or_eq_true_iff.1 hr with hr | hr
    · exact Nat.lt_of_lt_of_le (ih rfl hr) h'.index_le
    · exact Nat.lt_of_le_of_lt h.index_le (ih' hstop hr)
  | yes _ _ ih => exact ih hstop (Bool.and_eq_true_iff.1 hr).1
  | no _ _ ih => exact ih hstop (Bool.and_eq_true_iff.1 hr).2
  | node _ ih => exact ih hstop hr
  | alone _ _ ih => exact ih rfl hr
  | suffixed _ _ h' ih => exact Nat.lt_of_lt_of_le (ih rfl hr) h'.index_le
  | @nested _ c _ _ _ _ _ ih => exact ih hstop (Form.rule_reads c)
  | empty | done | more | finish | item | damaged => cases hr
  | mismatch | seqStopped | moreStopped | suffixedStopped | tooDeep | ruined | abandon =>
    cases hstop

/-- The outcome of a run. -/
def Outcome.ofRun (ts : List Tree) : Option Stop → ParserState → Outcome
  | none, s => .done ts s
  | some e, s => .stopped e.error e.fatal s

/-- The outcome is that of a run. -/
def Form.Yields (n : Nat) (form : Form) (s : ParserState) (o : Outcome) : Prop :=
  ∃ ts stop s', form.Runs n s ts stop s' ∧ o = .ofRun ts stop s'

namespace Form
variable {n : Nat} {call : Nested → ParserState → Outcome}

theorem atEnd_of_rest {s : ParserState} (hs : s.Closed) (hr : s.rest.length = 0) :
    s.atEnd = true := by
  cases he : s.atEnd with
  | true => rfl
  | false => exact absurd (List.length_eq_zero_iff.1 hr) (hs.rest_ne_nil he)

theorem Runs.rest_lt {form : Form} {s s' : ParserState} {ts : List Tree}
    (h : form.Runs n s ts none s') (hr : form.reads = true) : s'.rest.length < s.rest.length := by
  obtain ⟨read, hp, -⟩ := h.exists_passes
  have := hp.length_rest
  have := hp.index
  have := h.index_lt rfl hr
  omega

theorem yields_runMany {look : Look} {body : Form} (hl : look.needsToken = true)
    (hr : body.reads = true)
    (hbody : ∀ s : ParserState, s.Closed → body.Yields n s (body.run call s)) (rounds : Nat)
    {s : ParserState} (hs : s.Closed) (hle : s.rest.length ≤ rounds) :
    (many look body).Yields n s (s.runMany look (body.run call) rounds) := by
  induction rounds generalizing s with
  | zero =>
    have he := atEnd_of_rest hs (by omega)
    exact ⟨_, _, _, .done (Look.holds_eq_false hl (by simpa [ParserState.atEnd] using he)), rfl⟩
  | succ rounds ih =>
    unfold ParserState.runMany
    cases hlook : look.holds s.tokens with
    | false => exact ⟨_, _, _, .done hlook, rfl⟩
    | true =>
      obtain ⟨ts, stop, s', h, ho⟩ := hbody s hs
      rw [if_pos rfl, ho]
      cases stop with
      | some e => exact ⟨_, _, _, .moreStopped hlook h, rfl⟩
      | none =>
        have hlt := h.rest_lt hr
        obtain ⟨us, stop', s'', h', ho'⟩ := ih (h.closed hs) (by omega)
        refine ⟨_, _, _, .more hlook h h', ?_⟩
        simp only [Outcome.ofRun, Outcome.andThen, ho']
        cases stop' <;> rfl

theorem runs_runItems {stops : List Kind} {item : Form} (hr : item.reads = true)
    (hitem : ∀ s : ParserState, s.Closed → item.Yields n s (item.run call s)) (rounds : Nat)
    {s : ParserState} (hs : s.Closed) (hle : s.rest.length ≤ rounds) :
    ∃ ts stop s', (items stops item).Runs n s ts stop s' ∧ (∀ e ∈ stop, e.fatal = true) ∧
      s.runItems stops (item.run call) rounds = ⟨ts, stop.map (·.error), s'⟩ := by
  induction rounds generalizing s with
  | zero => exact ⟨_, _, _, .finish (.inl (atEnd_of_rest hs (by omega))), by simp, rfl⟩
  | succ rounds ih =>
    unfold ParserState.runItems
    by_cases hstop : s.atEnd = true ∨ s.current.kind ∈ stops
    · exact ⟨_, _, _, .finish hstop, by simp, by rw [if_pos hstop]; rfl⟩
    · obtain ⟨ts, stop, s', h, ho⟩ := hitem s hs
      rw [if_neg hstop, ho]
      match stop with
      | none =>
        have hlt := h.rest_lt hr
        obtain ⟨us, stop', s'', h', hf, ho'⟩ := ih (h.closed hs) (by omega)
        exact ⟨_, _, _, .item hstop h h', hf, by simp only [Outcome.ofRun, ho']⟩
      | some ⟨e, false⟩ =>
        obtain ⟨read, hp, hne⟩ := h.exists_passes_resume hs (by simpa using (not_or.1 hstop).1) e
        have hread := List.length_pos_iff.2 hne
        have := hp.length_rest
        obtain ⟨us, stop', s'', h', hf, ho'⟩ := ih (hp.closed hs) (by omega)
        exact ⟨_, _, _, .damaged hstop h h', hf, by simp only [Outcome.ofRun, ho']⟩
      | some ⟨e, true⟩ => exact ⟨_, _, _, .ruined hstop h, by simp, rfl⟩

theorem yields_run (hcall : ∀ c (s : ParserState), s.Closed → (nested c).Yields n s (call c s))
    (form : Form) (hp : form.proper = true) {s : ParserState} (hs : s.Closed) :
    form.Yields n s (form.run call s) := by
  induction form generalizing s with
  | token kinds cause =>
    unfold run
    split
    · rename_i hk
      have he : s.atEnd = false := by
        have := List.all_eq_true.1 hp _ hk
        simp_all [ParserState.atEnd]
      obtain ⟨t, rest, hr⟩ := List.exists_cons_of_ne_nil (hs.rest_ne_nil he)
      exact ⟨_, _, _, .token hk he hr, by rw [s.advance_of_rest he hr]; rfl⟩
    · rename_i hk
      exact ⟨_, _, _, .mismatch hk, rfl⟩
  | empty => exact ⟨_, _, _, .empty, rfl⟩
  | seq first second ih ih' =>
    obtain ⟨hp₁, hp₂⟩ := Bool.and_eq_true_iff.1 hp
    obtain ⟨ts, stop, s', h, ho⟩ := ih hp₁ hs
    unfold run
    rw [ho]
    cases stop with
    | some e => exact ⟨_, _, _, .seqStopped h, rfl⟩
    | none =>
      obtain ⟨us, stop', s'', h', ho'⟩ := ih' hp₂ (h.closed hs)
      refine ⟨_, _, _, .seq h h', ?_⟩
      simp only [Outcome.ofRun, Outcome.andThen, ho']
      cases stop' <;> rfl
  | branch look yes no ih ih' =>
    obtain ⟨hp₁, hp₂⟩ := Bool.and_eq_true_iff.1 hp
    unfold run
    cases hlook : look.holds s.tokens with
    | true =>
      obtain ⟨ts, stop, s', h, ho⟩ := ih hp₁ hs
      exact ⟨_, _, _, .yes hlook h, by simp [ho]⟩
    | false =>
      obtain ⟨ts, stop, s', h, ho⟩ := ih' hp₂ hs
      exact ⟨_, _, _, .no hlook h, by simp [ho]⟩
  | many look body ih =>
    obtain ⟨hp, hp₂⟩ := Bool.and_eq_true_iff.1 hp
    obtain ⟨hl, hr⟩ := Bool.and_eq_true_iff.1 hp
    exact yields_runMany hl hr (fun _ => ih hp₂) _ hs (Nat.le_refl _)
  | node production body ih =>
    obtain ⟨ts, stop, s', h, ho⟩ := ih hp hs
    refine ⟨_, _, _, .node h, ?_⟩
    rw [run, ho]
    cases stop <;> rfl
  | suffixed production operand look suffix ih ih' =>
    obtain ⟨hp₁, hp₂⟩ := Bool.and_eq_true_iff.1 hp
    obtain ⟨ts, stop, s', h, ho⟩ := ih hp₁ hs
    unfold run
    rw [ho]
    cases stop with
    | some e => exact ⟨_, _, _, .suffixedStopped h, rfl⟩
    | none =>
      simp only [Outcome.ofRun]
      cases hlook : look.holds s'.tokens with
      | false => exact ⟨_, _, _, .alone h hlook, rfl⟩
      | true =>
        obtain ⟨us, stop', s'', h', ho'⟩ := ih' hp₂ (h.closed hs)
        refine ⟨_, _, _, .suffixed h hlook h', ?_⟩
        rw [if_pos rfl, ho']
        cases stop' <;> rfl
  | nested c => exact hcall c s hs
  | items stops item ih =>
    simp only [proper, Bool.and_eq_true] at hp
    obtain ⟨⟨hr, -⟩, hp₂⟩ := hp
    obtain ⟨ts, stop, s', h, hf, ho⟩ := runs_runItems hr (fun _ => ih hp₂) _ hs (Nat.le_refl _)
    refine ⟨_, _, _, h, ?_⟩
    rw [run, ho]
    cases stop with
    | none => rfl
    | some e =>
      have hfatal : e.fatal = true := hf e rfl
      simp [Outcome.ofRun, hfatal]
  | abandon cause => exact ⟨_, _, _, .abandon, rfl⟩

theorem yields_nested (n : Nat) (c : Nested) {s : ParserState} (hs : s.Closed) :
    (nested c).Yields n s (c.run n s) := by
  induction n generalizing c s with
  | zero => exact ⟨_, _, _, .tooDeep, rfl⟩
  | succ n ih =>
    obtain ⟨ts, stop, s', h, ho⟩ :=
      yields_run (fun c _ => ih c) (Grammar.rule c) (rule_proper c) hs
    exact ⟨_, _, _, .nested h, ho⟩

theorem exists_runs_of_stopped {form : Form} {n : Nat} {s s' : ParserState} {e : SyntaxError}
    {fatal : Bool} (hp : form.proper = true) (hs : s.Closed)
    (h : form.run (Nested.run n) s = .stopped e fatal s') :
    ∃ ts, form.Runs n s ts (some ⟨e, fatal⟩) s' := by
  obtain ⟨ts, stop, s'', hrun, ho⟩ := yields_run (fun c _ => yields_nested n c) form hp hs
  rw [h] at ho
  cases stop with
  | none => cases ho
  | some stop =>
    cases ho
    exact ⟨ts, hrun⟩

end Form

theorem ParserState.exists_runs_program {s : ParserState} (hs : s.Closed) :
    ∃ ts stop s', Grammar.program.Runs Limits.nesting s ts stop s' ∧
      (∀ e ∈ stop, e.fatal = true) ∧
      s.runItems [] (Grammar.declaration.run (Nested.run Limits.nesting)) s.rest.length =
        ⟨ts, stop.map (·.error), s'⟩ := by
  have hproper := Grammar.program_proper
  simp only [Grammar.program, Form.proper, Bool.and_eq_true] at hproper
  obtain ⟨⟨hr, -⟩, hp⟩ := hproper
  exact Form.runs_runItems hr
    (fun _ => Form.yields_run (fun c _ => Form.yields_nested Limits.nesting c) _ hp) _ hs
    (Nat.le_refl _)

/-- What a parse gives is read off a run of the whole program. -/
theorem Parse.exists_runs (tokens : List Token) :
    ∃ ts stop s, Grammar.program.Runs Limits.nesting (.ofTokens tokens) ts stop s ∧
      (∀ e ∈ stop, e.fatal = true) ∧
      ofTokens tokens = ⟨.node .program ts, s.errors ++ (stop.map (·.error)).toList,
        stop.isSome || s.panic⟩ := by
  obtain ⟨ts, stop, s, h, hf, ho⟩ :=
    ParserState.exists_runs_program (ParserState.ofTokens_closed tokens)
  refine ⟨ts, stop, s, h, hf, ?_⟩
  simp only [ofTokens, ParserState.parse, ParserState.program, ho]
  cases stop <;> simp [ParserState.giveUp, ParserState.record]

/-- Any run of the whole program tells what its parse gives. -/
theorem Parse.ofTokens_of_runs {tokens : List Token} {ts : List Tree} {stop : Option Stop}
    {s : ParserState} (h : Grammar.program.Runs Limits.nesting (.ofTokens tokens) ts stop s) :
    ofTokens tokens = ⟨.node .program ts, s.errors ++ (stop.map (·.error)).toList,
      stop.isSome || s.panic⟩ := by
  obtain ⟨us, stop', s', h', -, hparse⟩ := exists_runs tokens
  obtain ⟨rfl, rfl, rfl⟩ := h.unique h'
  exact hparse

end CoreLang
