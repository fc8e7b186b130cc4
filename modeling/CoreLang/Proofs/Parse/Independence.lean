import CoreLang.Proofs.Parse.Completeness
import CoreLang.Proofs.Parse.Later
import CoreLang.Proofs.Parse.Resumption

/-! Declarations are read one by one. What follows sound declarations has no part in how they are
read, and they have none in how the rest is read. So damage costs only the text that is damaged. -/
namespace CoreLang

namespace ParserState

theorem eq_of_tokens {s s' : ParserState} (ht : s.tokens = s'.tokens) (hi : s.index = s'.index)
    (hp : s.panic = s'.panic) (he : s.errors = s'.errors) : s = s' := by
  cases s
  cases s'
  obtain ⟨rfl, rfl⟩ := List.cons.inj ht
  cases hi
  cases hp
  cases he
  rfl

theorem ofTokens_tokens_append {before after : List Token} (h : after ≠ []) :
    (ofTokens (before ++ after)).tokens = before ++ (ofTokens after).tokens := by
  obtain ⟨last, hlast⟩ := Option.ne_none_iff_exists'.1 (mt List.getLast?_eq_none_iff.1 h)
  have hlast' : (before ++ after).getLast? = some last := by simp [List.getLast?_append, hlast]
  have htokens : ∀ {ts : List Token}, ts.getLast? = some last → (ofTokens ts).tokens =
      ts ++ if last.kind = .endMarker then []
        else [Token.endMarker ⟨last.position.line, last.position.column + 1⟩] := by
    intro ts hts
    cases ts with
    | nil => simp at hts
    | cons t rest => simp [ofTokens, tokens, hts]
  rw [htokens hlast', htokens hlast, List.append_assoc]

end ParserState

namespace Form
variable {n : Nat} {ts : List Tree} {s : ParserState} {rest : List Token}

/-- Sound declarations are read on their own, whatever follows them. -/
theorem exists_runs_append (h : Grammar.program.Derives n ts)
    (ht : s.tokens = Tree.leavesAll ts ++ rest) (hne : rest ≠ []) :
    ∃ s', s'.tokens = rest ∧ s'.index = s.index + (Tree.leavesAll ts).length ∧
      s'.panic = s.panic ∧ s'.errors = s.errors ∧
      ∀ us stop s'', Grammar.program.Runs n s' us stop s'' →
        Grammar.program.Runs n s (ts ++ us) stop s'' := by
  generalize hform : Grammar.program = form at h
  induction h generalizing s with
  | noItem => exact ⟨s, ht, rfl, rfl, rfl, fun us stop s'' h => h⟩
  | @item _ _ _ us vs hd hd' _ ih =>
    cases hform
    rw [Tree.leavesAll_append, List.append_assoc] at ht
    obtain ⟨s₁, hrun, ht₁, he₁⟩ := declaration_complete (nested_complete _) us s _ hd ht
      (List.append_ne_nil_of_right_ne_nil _ hne) (Kind.mem_all _)
    obtain ⟨s', ht', hi', hp', he', hafter⟩ := ih ht₁ rfl
    have hstart : s.atEnd = false := by
      have hk : s.current.kind ∈ Grammar.declaration.starts := by
        change kindAhead 0 s.tokens ∈ _
        rw [ht]
        exact hd.kindAhead_mem_starts rfl _
      have hmarker : ∀ k ∈ Grammar.declaration.starts, k ≠ .endMarker := by decide
      simpa [ParserState.atEnd] using hmarker _ hk
    have hindex := (hrun.passes_leaves he₁ (by simp)).index
    refine ⟨s', ht', ?_, by rw [hp', hrun.panic_eq he₁], by rw [he', he₁], fun ws stop s'' h => ?_⟩
    · rw [hi', hindex, Tree.leavesAll_append, List.length_append, Nat.add_assoc]
    · rw [List.append_assoc]
      exact .item (by simp [hstart]) hrun (hafter ws stop s'' h)
  | token | empty | seq | yes | no | none | more | node | alone | suffixed | nested => cases hform

theorem exists_runs_of_derives {m : Token} (h : Grammar.program.Derives n ts)
    (ht : s.tokens = Tree.leavesAll ts ++ [m]) (hm : m.kind = .endMarker) :
    ∃ s', Grammar.program.Runs n s ts none s' ∧ s'.panic = s.panic ∧ s'.errors = s.errors := by
  obtain ⟨s', htokens, -, hpanic, herrors, hafter⟩ := exists_runs_append h ht (by simp)
  have hend : s'.atEnd = true := by
    rw [ParserState.atEnd_of_tokens htokens, hm, decide_eq_true rfl]
  have hrun := hafter [] none s' (.finish (.inl hend))
  rw [List.append_nil] at hrun
  exact ⟨s', hrun, hpanic, herrors⟩

end Form

namespace Parse

/-- A program that is read successfully is the leaves of its declarations. -/
theorem exists_declarations {tokens : List Token} (hmarker : ∀ t ∈ tokens, t.kind ≠ .endMarker)
    (h : (ofTokens tokens).successful = true) :
    ∃ ts, ofTokens tokens = ⟨.node .program ts, [], false⟩ ∧
      Grammar.program.Derives Limits.nesting ts ∧ Tree.leavesAll ts = tokens := by
  obtain ⟨ts, stop, s, hrun, -, hparse⟩ := exists_runs tokens
  have herrors : (ofTokens tokens).errors = [] := by
    simpa using (Bool.and_eq_true_iff.1 h).2
  obtain ⟨hpanic, hleaves⟩ := leaves_eq_of_errors_eq_nil tokens herrors
  have hroot : (ofTokens tokens).root = .node .program ts := by rw [hparse]
  have hstop : stop = none := by
    rw [hparse] at herrors
    simpa using (List.append_eq_nil_iff.1 herrors).2
  have hall : Token.beforeMarker tokens = tokens := by
    simpa [Token.beforeMarker] using Token.beforeMarker_append hmarker []
  refine ⟨ts, ?_, hrun.derives (.inl hstop), ?_⟩
  · rw [← hroot, ← herrors, ← hpanic]
  · rw [← hall, ← hleaves, hroot, Tree.leaves]

theorem ofTokens_of_derives {ts : List Tree} (h : Grammar.program.Derives Limits.nesting ts) :
    ofTokens (Tree.leavesAll ts) = ⟨.node .program ts, [], false⟩ := by
  obtain ⟨m, ht, hm⟩ := ParserState.exists_marker_of_unmarked fun t ht =>
    (h.leaf_kind Grammar.program_proper t ht).1
  obtain ⟨s, hrun, hpanic, herrors⟩ := Form.exists_runs_of_derives h ht hm
  rw [ofTokens_of_runs hrun]
  simp [hpanic, herrors]

/-- Sound declarations in front add their trees and change nothing else. -/
theorem append_of_derives {ts : List Tree} (h : Grammar.program.Derives Limits.nesting ts)
    (after : List Token) : ofTokens (Tree.leavesAll ts ++ after) =
      ⟨.node .program (ts ++ (ofTokens after).root.children),
        (ofTokens after).errors.map (·.later (Tree.leavesAll ts).length),
        (ofTokens after).panicked⟩ := by
  by_cases hne : after = []
  · subst hne
    rw [List.append_nil, ofTokens_of_derives h, show ofTokens [] = ⟨.node .program [], [], false⟩
      from ofTokens_of_derives .noItem]
    simp [Tree.children]
  · obtain ⟨s, htokens, hindex, hpanic, herrors, hafter⟩ :=
      Form.exists_runs_append h (ParserState.ofTokens_tokens_append hne) (ParserState.tokens_ne_nil _)
    have hs : s = (ParserState.ofTokens after).later (Tree.leavesAll ts).length :=
      ParserState.eq_of_tokens htokens (by simp [hindex, ParserState.later])
        (by simp [hpanic, ParserState.later]) (by simp [herrors, ParserState.later])
    obtain ⟨us, stop, s', hrun, -, hparse⟩ := exists_runs after
    have hlater := hrun.later (Tree.leavesAll ts).length
    rw [← hs] at hlater
    rw [ofTokens_of_runs (hafter us _ _ hlater), hparse]
    cases stop <;> simp [ParserState.later, Stop.later, Tree.children]

/-- Sound declarations are read in the same way whatever follows them. What follows is read as if
it stood alone: its trees come after theirs, its errors are the same, with as many more tokens
before them, and so is its panic. -/
theorem ofTokens_append {before : List Token} (hmarker : ∀ t ∈ before, t.kind ≠ .endMarker)
    (h : (ofTokens before).successful = true) (after : List Token) :
    ofTokens (before ++ after) =
      ⟨.node .program ((ofTokens before).root.children ++ (ofTokens after).root.children),
        (ofTokens after).errors.map (·.later before.length), (ofTokens after).panicked⟩ := by
  obtain ⟨ts, hparse, hd, rfl⟩ := exists_declarations hmarker h
  rw [append_of_derives hd after, hparse]
  rfl

/-- A stray parenthesis after a declaration leaves that declaration alone. -/
theorem ofTokens_append_stray :
    let before := [Kind.intKeyword.token, Kind.identifier.token, Kind.semicolon.token]
    let stray := Kind.rightParenthesis.token
    (∀ t ∈ before, t.kind ≠ .endMarker) ∧ (ofTokens before).successful = true ∧
      ofTokens (before ++ [stray]) =
        ⟨.node .program (ofTokens before).root.children, [⟨.dataType, stray, 3⟩], true⟩ := by
  intro before stray
  have hmarker : ∀ t ∈ before, t.kind ≠ .endMarker := by decide
  have h : (ofTokens before).successful = true := by decide +kernel
  have hstray : ofTokens [stray] = ⟨.node .program [], [⟨.dataType, stray, 0⟩], true⟩ := by
    decide +kernel
  refine ⟨hmarker, h, ?_⟩
  rw [ofTokens_append hmarker h [stray], hstray]
  simp [Tree.children, SyntaxError.later, before]

theorem exists_resumeKind {us : List Tree} {n : Nat} (h : Grammar.program.Derives n us)
    (hne : Tree.leavesAll us ≠ []) :
    ∃ u rest, Tree.leavesAll us = u :: rest ∧ u.kind ∈ ParserState.resumeKinds := by
  rcases h.leaves_eq_nil_or with ⟨hnil, -⟩ | ⟨u, rest, hcons, hk⟩
  · exact absurd hnil hne
  · have hstarts : Grammar.program.starts ⊆ ParserState.resumeKinds := by decide
    exact ⟨u, rest, hcons, hstarts hk⟩

/-- A run that stops within damaged tokens is resumed behind them. -/
theorem resume_of_runs {form : Form} {n : Nat} {tokens damaged rest : List Token} {u : Token}
    {s : ParserState} {e : SyntaxError} {ts : List Tree}
    (h : form.Runs n (.ofTokens tokens) ts (some ⟨e, false⟩) s)
    (ht : (ParserState.ofTokens tokens).tokens = damaged ++ u :: rest)
    (hmarker : ∀ t ∈ damaged, t.kind ≠ .endMarker) (hplace : e.index < damaged.length)
    (hrest : ∀ t ∈ damaged.drop (e.index + 1), t.kind ∉ ParserState.resumeKinds)
    (hu : u.kind ∈ ParserState.resumeKinds) :
    (s.record e).resume.tokens = u :: rest ∧ (s.record e).resume.panic = false := by
  obtain ⟨read, hpass, -⟩ := h.exists_passes
  have hindex : e.index = read.length := by
    rw [show e = s.error e.cause from h.error_of_stop rfl]
    simpa [ParserState.error] using hpass.index
  rw [hindex] at hplace hrest
  exact ParserState.resume_of_passes (hpass.record e) (ParserState.ofTokens_closed tokens) ht
    hplace hmarker hrest hu

theorem damaged_append_of_derives {us : List Tree} {damaged : List Token} {s : ParserState}
    {e : SyntaxError} (h : Grammar.program.Derives Limits.nesting us)
    (hne : Tree.leavesAll us ≠ []) (hmarker : ∀ t ∈ damaged, t.kind ≠ .endMarker)
    (hstop : Grammar.declaration.run (Nested.run Limits.nesting)
      (.ofTokens (damaged ++ Tree.leavesAll us)) = .stopped e false s) (herrors : s.errors = [])
    (hplace : e.index < damaged.length)
    (hrest : ∀ t ∈ damaged.drop (e.index + 1), t.kind ∉ ParserState.resumeKinds) :
    ofTokens (damaged ++ Tree.leavesAll us) = ⟨.node .program us, [e], false⟩ := by
  obtain ⟨u, rest, hcons, hu⟩ := exists_resumeKind h hne
  obtain ⟨m, ht, hm⟩ := ParserState.exists_marker_of_unmarked fun t ht =>
    (h.leaf_kind Grammar.program_proper t ht).1
  have htokens : (ParserState.ofTokens (damaged ++ Tree.leavesAll us)).tokens =
      damaged ++ u :: (rest ++ [m]) := by
    rw [ParserState.ofTokens_tokens_append hne, ht, hcons, List.cons_append]
  have hstart : (ParserState.ofTokens (damaged ++ Tree.leavesAll us)).atEnd = false := by
    obtain ⟨t, more, rfl⟩ : ∃ t more, damaged = t :: more :=
      List.exists_cons_of_ne_nil (by rintro rfl; simp at hplace)
    rw [ParserState.atEnd_of_tokens htokens]
    exact decide_eq_false (hmarker t List.mem_cons_self)
  obtain ⟨ts, hrun⟩ :=
    Form.exists_runs_of_stopped (by decide) (ParserState.ofTokens_closed _) hstop
  obtain ⟨hresume, hpanic⟩ := resume_of_runs hrun htokens hmarker hplace hrest hu
  obtain ⟨s', hrun', hpanic', herrors'⟩ := Form.exists_runs_of_derives h
    (s := (s.record e).resume) (by rw [hresume, hcons, List.cons_append]) hm
  have hone : (s.record e).resume.errors = [e] := by
    rw [ParserState.resume_errors, ParserState.record, herrors, List.nil_append]
  rw [ofTokens_of_runs (.damaged (by simp [hstart]) hrun hrun'), hpanic', hpanic, herrors', hone]
  rfl

/-- A damaged declaration between sound ones costs only itself. If the parser stops in it, for the
first time and not for good, and no token behind that place lets it resume before the declaration
ends, then this error is the only one, and all declarations before and after are read. -/
theorem ofTokens_damaged {before damaged after : List Token}
    (hbefore : ∀ t ∈ before, t.kind ≠ .endMarker) (hdamaged : ∀ t ∈ damaged, t.kind ≠ .endMarker)
    (hafter : ∀ t ∈ after, t.kind ≠ .endMarker) (hne : after ≠ [])
    (hread : (ofTokens before).successful = true) (hread' : (ofTokens after).successful = true)
    {s : ParserState} {e : SyntaxError}
    (hstop : Grammar.declaration.run (Nested.run Limits.nesting) (.ofTokens (damaged ++ after)) =
      .stopped e false s) (herrors : s.errors = []) (hplace : e.index < damaged.length)
    (hrest : ∀ t ∈ damaged.drop (e.index + 1), t.kind ∉ ParserState.resumeKinds) :
    ofTokens (before ++ damaged ++ after) =
        ⟨.node .program ((ofTokens before).root.children ++ (ofTokens after).root.children),
          [e.later before.length], false⟩ ∧
      (ofTokens (before ++ damaged ++ after)).successful = false := by
  obtain ⟨ts, hparse, hd, rfl⟩ := exists_declarations hbefore hread
  obtain ⟨us, hparse', hd', rfl⟩ := exists_declarations hafter hread'
  have hall : ofTokens (Tree.leavesAll ts ++ damaged ++ Tree.leavesAll us) =
      ⟨.node .program (ts ++ us), [e.later (Tree.leavesAll ts).length], false⟩ := by
    rw [List.append_assoc, append_of_derives hd,
      damaged_append_of_derives hd' hne hdamaged hstop herrors hplace hrest]
    rfl
  rw [hall, hparse, hparse']
  exact ⟨rfl, rfl⟩

/-- A value is missing between two sound declarations, and both of them are read. -/
theorem ofTokens_damaged_initializer :
    let sound := [Kind.intKeyword.token, Kind.identifier.token, Kind.semicolon.token]
    let stray := Kind.rightParenthesis.token
    let damaged := [Kind.intKeyword.token, Kind.identifier.token, Kind.assign.token, stray, stray]
    let e : SyntaxError := ⟨.factor, stray, 3⟩
    let s : ParserState := ⟨stray, stray :: sound ++ [.endMarker ⟨1, 2⟩], 3, false, []⟩
    (∀ t ∈ sound, t.kind ≠ .endMarker) ∧ (∀ t ∈ damaged, t.kind ≠ .endMarker) ∧ sound ≠ [] ∧
      (ofTokens sound).successful = true ∧
      Grammar.declaration.run (Nested.run Limits.nesting) (.ofTokens (damaged ++ sound)) =
        .stopped e false s ∧
      s.errors = [] ∧ e.index < damaged.length ∧
      (∀ t ∈ damaged.drop (e.index + 1), t.kind ∉ ParserState.resumeKinds) ∧
      ofTokens (sound ++ damaged ++ sound) =
        ⟨.node .program ((ofTokens sound).root.children ++ (ofTokens sound).root.children),
          [⟨.factor, stray, 6⟩], false⟩ := by
  intro sound stray damaged e s
  have hsound : ∀ t ∈ sound, t.kind ≠ .endMarker := by decide
  have hdamaged : ∀ t ∈ damaged, t.kind ≠ .endMarker := by decide
  have hread : (ofTokens sound).successful = true := by decide +kernel
  have hstop : Grammar.declaration.run (Nested.run Limits.nesting)
      (.ofTokens (damaged ++ sound)) = .stopped e false s := by decide +kernel
  have hrest : ∀ t ∈ damaged.drop (e.index + 1), t.kind ∉ ParserState.resumeKinds := by decide
  obtain ⟨hparse, -⟩ := ofTokens_damaged hsound hdamaged hsound (by simp [sound]) hread hread
    hstop rfl (by decide) hrest
  exact ⟨hsound, hdamaged, by simp [sound], hread, hstop, rfl, by decide, hrest, hparse⟩

end Parse
end CoreLang
