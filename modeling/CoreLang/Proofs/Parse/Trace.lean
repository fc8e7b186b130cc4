import CoreLang.Proofs.Parse.Loss
import Mathlib.Data.List.Chain

/-! The states that a parser goes through. It moves on from each to the next over sound tokens only,
every round of a list of items takes it further, and in the end it stands at an end marker. -/
namespace CoreLang

namespace Outcome

def state : Outcome → ParserState
  | done _ s => s
  | stopped _ _ s => s

@[simp] theorem state_mapTrees (o : Outcome) (f : List Tree → List Tree) :
    (o.mapTrees f).state = o.state := by
  cases o <;> rfl

/-- The state in which a list of items goes on after this one: behind it, or where parsing resumes.
After a fatal error it does not go on. -/
def next? : Outcome → Option ParserState
  | done _ s => some s
  | stopped e false s => some (s.record e).resume
  | stopped _ true _ => none

def behind (o : Outcome) (next : ParserState → List ParserState) : List ParserState :=
  match o with
  | done _ s => next s
  | stopped _ _ _ => []

end Outcome

namespace ParserState

def traceMany (look : Look) (body : ParserState → Outcome)
    (within : ParserState → List ParserState) : Nat → ParserState → List ParserState
  | 0, s => [s]
  | rounds + 1, s =>
    if look.holds s.tokens then
      within s ++ (body s).behind (traceMany look body within rounds)
    else [s]

def traceItems (stops : List Kind) (item : ParserState → Outcome)
    (within : ParserState → List ParserState) : Nat → ParserState → List ParserState
  | 0, s => [s]
  | rounds + 1, s =>
    if s.atEnd ∨ s.current.kind ∈ stops then [s]
    else within s ++ (item s).next?.elim [] (traceItems stops item within rounds)

end ParserState

/-- The states of the parser while a form runs, from the one in which it begins to the one in which
it ends. For the nested constructs both their outcomes and their states are given. -/
def Form.trace (call : Nested → ParserState → Outcome)
    (within : Nested → ParserState → List ParserState) : Form → ParserState → List ParserState
  | token kinds _, s => if s.current.kind ∈ kinds then [s, s.advance] else [s]
  | empty, s => [s]
  | seq first second, s =>
    first.trace call within s ++ (first.run call s).behind (second.trace call within)
  | branch look yes no, s =>
    if look.holds s.tokens then yes.trace call within s else no.trace call within s
  | many look body, s =>
    s.traceMany look (body.run call) (body.trace call within) s.rest.length
  | node _ body, s => body.trace call within s
  | suffixed _ operand look suffix, s =>
    operand.trace call within s ++ (operand.run call s).behind fun s =>
      if look.holds s.tokens then suffix.trace call within s else [s]
  | nested construct, s => within construct s
  | items stops item, s =>
    s.traceItems stops (item.run call) (item.trace call within) s.rest.length
  | abandon _, s => [s]

def Nested.trace : Nat → Nested → ParserState → List ParserState
  | 0, _, s => [s]
  | levels + 1, construct, s =>
    (Grammar.rule construct).trace (Nested.run levels) (Nested.trace levels) s

namespace ParserState

def trace (s : ParserState) : List ParserState :=
  s.traceItems [] (Grammar.declaration.run (Nested.run Limits.nesting))
    (Grammar.declaration.trace (Nested.run Limits.nesting) (Nested.trace Limits.nesting))
    s.rest.length

/-- The parser goes on over tokens none of which is an end marker. -/
def Moves (s s' : ParserState) : Prop := ∃ read, s.Passes read s'

instance : IsTrans ParserState Moves :=
  ⟨fun _ _ _ ⟨read, h⟩ ⟨read', h'⟩ => ⟨read ++ read', h.trans h'⟩⟩

/-- The states lead from one state to another, and the parser moves on from each to the next. -/
structure Visits (s : ParserState) (states : List ParserState) (s' : ParserState) : Prop where
  first : states.head? = some s
  last : states.getLast? = some s'
  moves : states.IsChain Moves

namespace Visits
variable {s s' s'' u : ParserState} {states states' : List ParserState}

theorem refl (s : ParserState) : s.Visits [s] s := ⟨rfl, rfl, .singleton s⟩

theorem append (h : s.Visits states s') (hmove : s'.Moves u) (h' : u.Visits states' s'') :
    s.Visits (states ++ states') s'' where
  first := by rw [List.head?_append, h.first, Option.some_or]
  last := by rw [List.getLast?_append, h'.last, Option.some_or]
  moves := by
    refine List.isChain_append.2 ⟨h.moves, h'.moves, fun a ha b hb => ?_⟩
    rw [h.last, Option.mem_some_iff] at ha
    rw [h'.first, Option.mem_some_iff] at hb
    rwa [← ha, ← hb]

theorem trans (h : s.Visits states s') (h' : s'.Visits states' s'') :
    s.Visits (states ++ states') s'' := h.append ⟨[], .refl s'⟩ h'

theorem moves_of_mem (h : s.Visits states s') (hu : u ∈ states) : s.Moves u := by
  obtain ⟨rest, rfl⟩ := List.head?_eq_some_iff.1 h.first
  rcases List.mem_cons.1 hu with rfl | hu
  · exact ⟨[], .refl u⟩
  · exact List.rel_of_pairwise_cons (List.isChain_iff_pairwise.1 h.moves) hu

theorem behind {o : Outcome} {next : ParserState → Outcome}
    {within : ParserState → List ParserState}
    (h : s.Visits states o.state) (hnext : ∀ s, Visits s (within s) (next s).state) :
    s.Visits (states ++ o.behind within) (o.andThen next).state := by
  cases o with
  | stopped e fatal s' => simpa [Outcome.behind, Outcome.andThen] using h
  | done ts s' =>
    have hboth := h.trans (hnext s')
    simp only [Outcome.behind, Outcome.andThen]
    cases hs : next s' <;> simpa [hs, Outcome.state] using hboth

end Visits

theorem visits_runMany {look : Look} {body : ParserState → Outcome}
    {within : ParserState → List ParserState}
    (hbody : ∀ s, Visits s (within s) (body s).state) (rounds : Nat) (s : ParserState) :
    s.Visits (s.traceMany look body within rounds) (s.runMany look body rounds).state := by
  induction rounds generalizing s with
  | zero => exact .refl s
  | succ rounds ih =>
    unfold traceMany runMany
    split
    · exact (hbody s).behind ih
    · exact .refl s

theorem moves_resume (s : ParserState) (e : SyntaxError) : s.Moves (s.record e).resume := by
  obtain ⟨read, h⟩ := (s.record e).exists_passes_resume
  exact ⟨_, ((Passes.refl s).record e).trans h⟩

theorem visits_runItems {stops : List Kind} {item : ParserState → Outcome}
    {within : ParserState → List ParserState}
    (hitem : ∀ s, Visits s (within s) (item s).state) (rounds : Nat) (s : ParserState) :
    s.Visits (s.traceItems stops item within rounds) (s.runItems stops item rounds).state := by
  induction rounds generalizing s with
  | zero => exact .refl s
  | succ rounds ih =>
    unfold traceItems runItems
    split
    · exact .refl s
    · have h := hitem s
      cases ho : item s with
      | done ts s' =>
        rw [ho] at h
        exact h.trans (ih s')
      | stopped e fatal s' =>
        rw [ho] at h
        cases fatal with
        | false => exact h.append (s'.moves_resume e) (ih _)
        | true => simpa [Outcome.next?, Outcome.state] using h

end ParserState

/-- A form visits its states in their order, and ends in the last of them. -/
theorem Form.visits_run {call : Nested → ParserState → Outcome}
    {within : Nested → ParserState → List ParserState}
    (hcall : ∀ c s, ParserState.Visits s (within c s) (call c s).state) (form : Form)
    (s : ParserState) : s.Visits (form.trace call within s) (form.run call s).state := by
  induction form generalizing s with
  | token kinds cause =>
    unfold trace run
    split
    · exact (ParserState.Visits.refl s).append s.exists_passes_advance (.refl _)
    · exact .refl s
  | empty | abandon => exact .refl s
  | seq first second ih ih' => exact (ih s).behind ih'
  | branch look yes no ih ih' =>
    unfold trace run
    split
    · exact ih s
    · exact ih' s
  | many look body ih => exact ParserState.visits_runMany ih _ s
  | node production body ih => simpa [trace, run] using ih s
  | suffixed production operand look suffix ih ih' =>
    have h := ih s
    rw [trace, run]
    cases ho : operand.run call s with
    | stopped e fatal s' =>
      rw [ho] at h
      simpa [Outcome.behind] using h
    | done ts s' =>
      rw [ho] at h
      simp only [Outcome.behind]
      split
      · simpa using h.trans (ih' s')
      · exact h.trans (.refl s')
  | nested c => exact hcall c s
  | items stops item ih =>
    have h : s.Visits (s.traceItems stops (item.run call) (item.trace call within) s.rest.length)
        (s.runItems stops (item.run call) s.rest.length).state :=
      ParserState.visits_runItems ih _ s
    simp only [run]
    split <;> exact h

theorem Nested.visits_run (n : Nat) (c : Nested) (s : ParserState) :
    s.Visits (c.trace n s) (c.run n s).state := by
  induction n generalizing c s with
  | zero => exact .refl s
  | succ n ih => exact Form.visits_run (fun c s => ih c s) _ s

namespace Form
variable {n : Nat} {item : Form} {s s' : ParserState}

/-- Where a list of items goes on after an item, it has passed a token at least. -/
theorem index_lt_of_next? (hp : item.proper = true) (hr : item.reads = true) (hs : s.Closed)
    (he : s.atEnd = false) (h : (item.run (Nested.run n) s).next? = some s') :
    s.index < s'.index := by
  obtain ⟨ts, stop, s₁, hrun, ho⟩ := yields_run (fun c _ => yields_nested n c) item hp hs
  rw [ho] at h
  match stop with
  | none =>
    cases h
    exact hrun.index_lt rfl hr
  | some ⟨e, false⟩ =>
    cases h
    obtain ⟨read, hpass, hne⟩ := hrun.exists_passes_resume hs he e
    have hindex := hpass.index
    have hread := List.length_pos_iff.2 hne
    change s.index < (s₁.record e).resume.index
    omega
  | some ⟨e, true⟩ => cases h

theorem runItems_rounds {stops : List Kind} (hp : item.proper = true) (hr : item.reads = true)
    (hs : s.Closed) {rounds : Nat} (hle : s.rest.length ≤ rounds) :
    s.runItems stops (item.run (Nested.run n)) rounds =
      s.runItems stops (item.run (Nested.run n)) s.rest.length := by
  have hruns (rounds : Nat) (hle : s.rest.length ≤ rounds) :
      ∃ ts stop s', (items stops item).Runs n s ts stop s' ∧ (∀ e ∈ stop, e.fatal = true) ∧
        s.runItems stops (item.run (Nested.run n)) rounds = ⟨ts, stop.map (·.error), s'⟩ :=
    runs_runItems hr (fun _ => yields_run (fun c _ => yields_nested n c) item hp) rounds hs hle
  obtain ⟨ts, stop, s₁, hrun, -, ho⟩ := hruns rounds hle
  obtain ⟨us, stop', s₂, hrun', -, ho'⟩ := hruns s.rest.length (Nat.le_refl _)
  obtain ⟨rfl, rfl, rfl⟩ := hrun.unique hrun'
  rw [ho, ho']

end Form

namespace ParserState

theorem exists_runs_parse {s : ParserState} (hs : s.Closed) :
    ∃ ts stop s', Grammar.program.Runs Limits.nesting s ts stop s' ∧ s.Visits s.trace s' ∧
      s.parse.2 = { stop.elim s' (s'.giveUp ·.error) with errors := [] } := by
  obtain ⟨ts, stop, s', hrun, -, ho⟩ := exists_runs_program hs
  have hvisits : s.Visits s.trace _ :=
    visits_runItems (fun s => Form.visits_run (fun c s => Nested.visits_run _ c s) _ s) _ s
  rw [ho] at hvisits
  refine ⟨ts, stop, s', hrun, hvisits, ?_⟩
  simp only [parse, program, ho]
  cases stop <;> rfl

theorem giveUp_current {s : ParserState} (e : SyntaxError) :
    s.tokens.getLast? = some (s.giveUp e).current := by
  rw [tokens, List.getLast?_cons, giveUp]
  simp

theorem atEnd_giveUp {s : ParserState} (hs : s.Closed) (e : SyntaxError) :
    (s.giveUp e).atEnd = true := by
  obtain ⟨t, ht, hk⟩ := hs
  rw [s.giveUp_current e, Option.some.injEq] at ht
  rw [atEnd, ht, hk, decide_eq_true rfl]

/-- Every parse ends at an end marker. -/
theorem atEnd_parse {s : ParserState} (hs : s.Closed) : s.parse.2.atEnd = true := by
  obtain ⟨ts, stop, s', hrun, -, hparse⟩ := exists_runs_parse hs
  rw [hparse]
  cases stop with
  | none => exact hrun.items_end.resolve_right (by simp)
  | some e => exact s'.atEnd_giveUp (hrun.closed hs) e.error

/-- A program that is not given up is read up to the first end marker. -/
theorem index_of_runs {s s' : ParserState} {n : Nat} {ts : List Tree}
    (h : Grammar.program.Runs n s ts none s') :
    s'.index = s.index + (Token.beforeMarker s.tokens).length := by
  obtain ⟨read, hpass, -⟩ := h.exists_passes
  have hend : s'.atEnd = true := h.items_end.resolve_right (by simp)
  rw [hpass.beforeMarker_of_atEnd hend, hpass.index]

theorem index_giveUp {s s' : ParserState} {read : List Token} (h : s.Passes read s')
    (e : SyntaxError) : (s'.giveUp e).index + 1 = s.index + s.tokens.length := by
  have hindex := h.index
  have hlength := h.length_rest
  simp only [giveUp, tokens, List.length_cons]
  omega

/-- From the first of its tokens on a parser always stands at one of them, and there is another one
behind it unless it stands at an end marker. -/
theorem within_of_moves {s u : ParserState} (h : s.Moves u) (hs : s.Closed) (hi : s.index = 0) :
    u.Closed ∧ s.tokens.drop u.index = u.tokens ∧ u.index < s.tokens.length ∧
      (u.atEnd = false → u.index + 1 < s.tokens.length) := by
  obtain ⟨read, hpass⟩ := h
  have hindex : u.index = read.length := by rw [hpass.index, hi, Nat.zero_add]
  have hclosed := hpass.closed hs
  have hlength : s.tokens.length = read.length + (u.rest.length + 1) := by
    rw [hpass.tokens, List.length_append, tokens, List.length_cons]
  refine ⟨hclosed, by rw [hpass.tokens, hindex, List.drop_left], by omega, fun he => ?_⟩
  have hrest := List.length_pos_iff.2 (hclosed.rest_ne_nil he)
  omega

/-- A parser of any tokens, whose list closes with an end marker, moves from state to state over
tokens that are no end markers. It always stands at one of its tokens, and does not run out of them
before an end marker. Every item of a program or of a block takes it further, be it sound or damaged,
so that no list of items needs more rounds than there are tokens. The whole parse is a run without
any bound on rounds: it ends at the first end marker, or it is given up and goes to the last token,
and in both cases that is an end marker. -/
theorem parse_progress (tokens : List Token) :
    ((ofTokens tokens).tokens ≠ [] ∧ (ofTokens tokens).Closed ∧
      tokens <+: (ofTokens tokens).tokens) ∧
    (ofTokens tokens).trace.IsChain Moves ∧
    (∀ s ∈ (ofTokens tokens).trace, s.Closed ∧
      (ofTokens tokens).tokens.drop s.index = s.tokens ∧
      s.index < (ofTokens tokens).tokens.length ∧
      (s.atEnd = false → s.index + 1 < (ofTokens tokens).tokens.length)) ∧
    (∀ item ∈ [Grammar.declaration, Grammar.blockItem], ∀ n (s : ParserState), s.Closed →
      (s.atEnd = false → ∀ s' ∈ (item.run (Nested.run n) s).next?, s.index < s'.index) ∧
      ∀ stops rounds, s.rest.length ≤ rounds →
        s.runItems stops (item.run (Nested.run n)) rounds =
          s.runItems stops (item.run (Nested.run n)) s.rest.length) ∧
    (∃ ts stop s, Grammar.program.Runs Limits.nesting (ofTokens tokens) ts stop s ∧
      (ofTokens tokens).trace.getLast? = some s ∧
      (ofTokens tokens).parse.2 = { stop.elim s (s.giveUp ·.error) with errors := [] } ∧
      (ofTokens tokens).parse.2.index =
        if stop.isNone then (Token.beforeMarker tokens).length
        else (ofTokens tokens).tokens.length - 1) ∧
    (ofTokens tokens).parse.2.atEnd = true := by
  have hclosed := ofTokens_closed tokens
  obtain ⟨marker, htokens, -⟩ := ofTokens_tokens tokens
  obtain ⟨ts, stop, s, hrun, hvisits, hparse⟩ := exists_runs_parse hclosed
  refine ⟨⟨tokens_ne_nil _, hclosed, marker, htokens.symm⟩, hvisits.moves, fun s hs => ?_,
    fun item hitem n s hs => ?_, ⟨ts, stop, s, hrun, hvisits.last, hparse, ?_⟩,
    atEnd_parse hclosed⟩
  · exact within_of_moves (hvisits.moves_of_mem hs) hclosed (ofTokens_index tokens)
  · have hsound : ∀ item ∈ [Grammar.declaration, Grammar.blockItem],
        item.proper = true ∧ item.reads = true := by decide
    obtain ⟨hp, hr⟩ := hsound item hitem
    exact ⟨fun he s' hs' => Form.index_lt_of_next? hp hr hs he hs',
      fun stops rounds hle => Form.runItems_rounds hp hr hs hle⟩
  · rw [hparse]
    cases stop with
    | none =>
      have hindex := index_of_runs hrun
      rwa [beforeMarker_ofTokens, ofTokens_index, Nat.zero_add] at hindex
    | some e =>
      obtain ⟨read, hpass, -⟩ := hrun.exists_passes
      have hindex := index_giveUp hpass e.error
      rw [ofTokens_index, Nat.zero_add] at hindex
      exact Nat.eq_sub_of_add_eq hindex

end ParserState
end CoreLang
