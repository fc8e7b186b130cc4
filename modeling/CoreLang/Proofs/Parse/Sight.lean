import CoreLang.Proofs.Parse.Locality
import CoreLang.Proofs.Parse.Marker

/-! A parser that sees tokens behind the end marker does not read otherwise for it. Only
declarations look so far ahead, and where the marker comes first, they all stop at the same token
before it. -/
namespace CoreLang
open Form Grammar

/-- What a parser takes for the kind of the token so many places on. Before the end marker it is
right, and behind it there may be anything. -/
structure Sight where
  kindAt : Nat → List Token → Kind
  kindAt_eq {n : Nat} {tokens : List Token} (h : ∀ t ∈ tokens.take n, t.kind ≠ .endMarker) :
    kindAt n tokens = kindAhead n tokens

namespace Sight

/-- Sees all tokens, also those behind an end marker. -/
def across : Sight where
  kindAt n tokens := (tokens[n]?.map (·.kind)).getD .endMarker
  kindAt_eq {n tokens} h := by
    induction n generalizing tokens with
    | zero => cases tokens <;> rfl
    | succ n ih =>
      cases tokens with
      | nil => rfl
      | cons t rest =>
        obtain ⟨ht, hrest⟩ := List.forall_mem_cons.1 h
        rw [kindAhead, if_neg ht, ← ih hrest, List.getElem?_cons_succ]

variable (sight : Sight) {tokens : List Token}

theorem kindAt_zero (tokens : List Token) : sight.kindAt 0 tokens = kindAhead 0 tokens :=
  sight.kindAt_eq (by simp)

theorem kindAt_one (h : kindAhead 0 tokens ≠ .endMarker) :
    sight.kindAt 1 tokens = kindAhead 1 tokens := by
  refine sight.kindAt_eq ?_
  cases tokens with
  | nil => simp
  | cons t rest => simpa [kindAhead] using h

theorem kindAt_two (h : kindAhead 0 tokens ≠ .endMarker) (h' : kindAhead 1 tokens ≠ .endMarker) :
    sight.kindAt 2 tokens = kindAhead 2 tokens := by
  refine sight.kindAt_eq ?_
  match tokens with
  | [] => simp
  | [t] => simpa [kindAhead] using h
  | t :: u :: rest =>
    have ht : t.kind ≠ .endMarker := h
    have hu : u.kind ≠ .endMarker := by simpa [kindAhead, ht] using h'
    simp [ht, hu]

end Sight

/-- Whether the look holds for a parser of that sight. -/
def Look.holdsWith (sight : Sight) (tokens : List Token) : Look → Bool
  | sees ahead kinds => sight.kindAt ahead tokens ∈ kinds
  | both a b => a.holdsWith sight tokens && b.holdsWith sight tokens
  | not a => !a.holdsWith sight tokens
  | assignment =>
    sight.kindAt 0 tokens = .identifier &&
      if sight.kindAt 1 tokens = .leftBracket then
        (afterBracket? (tokens.drop 2)).any (sight.kindAt 0 · = .assign)
      else sight.kindAt 1 tokens = .assign
  | unclosedSubscript =>
    sight.kindAt 0 tokens = .identifier && sight.kindAt 1 tokens = .leftBracket &&
      (afterBracket? (tokens.drop 2)).isNone

/-- Runs `body` as long as the look holds for a parser of that sight. -/
def ParserState.runManyWith (sight : Sight) (look : Look) (body : ParserState → Outcome) :
    Nat → ParserState → Outcome
  | 0, s => .done [] s
  | rounds + 1, s =>
    if look.holdsWith sight s.tokens then (body s).andThen (runManyWith sight look body rounds)
    else .done [] s

/-- Runs a form as a parser of that sight does. -/
def Form.runWith (sight : Sight) (call : Nested → ParserState → Outcome) :
    Form → ParserState → Outcome
  | token kinds cause, s => (token kinds cause).run call s
  | empty, s => .done [] s
  | seq first second, s => (first.runWith sight call s).andThen (second.runWith sight call)
  | branch look yes no, s =>
    if look.holdsWith sight s.tokens then yes.runWith sight call s else no.runWith sight call s
  | many look body, s => s.runManyWith sight look (body.runWith sight call) s.rest.length
  | node production body, s =>
    (body.runWith sight call s).mapTrees fun trees => [.node production trees]
  | suffixed production operand look suffix, s =>
    match operand.runWith sight call s with
    | .stopped e fatal s => .stopped e fatal s
    | .done trees s =>
      if look.holdsWith sight s.tokens then
        (suffix.runWith sight call s).mapTrees fun more => [.node production (trees ++ more)]
      else .done trees s
  | nested construct, s => call construct s
  | items stops item, s =>
    let o := s.runItems stops (item.runWith sight call) s.rest.length
    match o.fatal? with
    | none => .done o.trees o.state
    | some e => .stopped e true o.state
  | abandon cause, s => .stopped (s.error cause) true s

def Nested.runWith (sight : Sight) : Nat → Nested → ParserState → Outcome
  | 0, _, s => .stopped (s.error .tooDeep) true s
  | levels + 1, construct, s =>
    (Grammar.rule construct).runWith sight (Nested.runWith sight levels) s

/-- The parse of a parser of that sight. -/
def Parse.ofTokensWith (sight : Sight) (tokens : List Token) : Parse :=
  let s := ParserState.ofTokens tokens
  let o := s.runItems [] (declaration.runWith sight (Nested.runWith sight Limits.nesting))
    s.rest.length
  let s :=
    match o.fatal? with
    | none => o.state
    | some e => o.state.giveUp e
  ⟨.node .program o.trees, s.errors, s.panic⟩

namespace Look
variable (sight : Sight)

theorem holdsWith_sees_zero (kinds : List Kind) (tokens : List Token) :
    (sees 0 kinds).holdsWith sight tokens = (sees 0 kinds).holds tokens := by
  rw [holdsWith, holds, sight.kindAt_zero]

theorem holdsWith_both_not {kinds : List Kind} (h : .endMarker ∉ kinds) (kinds' : List Kind)
    (tokens : List Token) :
    (both (sees 0 kinds) (not (sees 1 kinds'))).holdsWith sight tokens =
      (both (sees 0 kinds) (not (sees 1 kinds'))).holds tokens := by
  simp only [holdsWith, holds, sight.kindAt_zero]
  by_cases hk : kindAhead 0 tokens ∈ kinds
  · rw [sight.kindAt_one fun he => h (he ▸ hk)]
  · simp [hk]

theorem holdsWith_assignment (tokens : List Token) :
    assignment.holdsWith sight tokens = assignment.holds tokens := by
  simp only [holdsWith, holds, sight.kindAt_zero]
  by_cases hname : kindAhead 0 tokens = .identifier
  · rw [sight.kindAt_one (by simp [hname])]
  · simp [hname]

theorem holdsWith_unclosedSubscript (tokens : List Token) :
    unclosedSubscript.holdsWith sight tokens = unclosedSubscript.holds tokens := by
  simp only [holdsWith, holds, sight.kindAt_zero]
  by_cases hname : kindAhead 0 tokens = .identifier
  · rw [sight.kindAt_one (by simp [hname])]
  · simp [hname]

end Look

namespace Form
variable {sight : Sight} {call : Nested → ParserState → Outcome}

theorem runManyWith_eq {look : Look}
    (hlook : ∀ tokens, look.holdsWith sight tokens = look.holds tokens)
    (body : ParserState → Outcome) (rounds : Nat) :
    ParserState.runManyWith sight look body rounds = ParserState.runMany look body rounds := by
  induction rounds with
  | zero => rfl
  | succ rounds ih =>
    funext s
    rw [ParserState.runManyWith, ParserState.runMany, hlook, ih]

theorem runWith_many {look : Look}
    (hlook : ∀ tokens, look.holdsWith sight tokens = look.holds tokens) {body : Form}
    (hbody : body.runWith sight call = body.run call) :
    (many look body).runWith sight call = (many look body).run call := by
  funext s
  rw [runWith, run, hbody, runManyWith_eq hlook]

theorem runWith_seq {first second : Form} (h : first.runWith sight call = first.run call)
    (h' : second.runWith sight call = second.run call) :
    (seq first second).runWith sight call = (seq first second).run call := by
  funext s
  rw [runWith, run, h, h']

theorem runWith_node {form : Form} (h : form.runWith sight call = form.run call)
    (p : Production) : (node p form).runWith sight call = (node p form).run call := by
  funext s
  rw [runWith, run, h]

/-- The alternatives may do the same where the sight decides otherwise. -/
theorem runWith_branch {look : Look} {yes no : Form}
    (hyes : yes.runWith sight call = yes.run call) (hno : no.runWith sight call = no.run call)
    (hsame : ∀ s, look.holdsWith sight s.tokens = look.holds s.tokens ∨
      yes.run call s = no.run call s) :
    (branch look yes no).runWith sight call = (branch look yes no).run call := by
  funext s
  rw [runWith, run, hyes, hno]
  rcases hsame s with h | h
  · rw [h]
  · rw [h, ite_self, ite_self]

theorem runWith_of_nearsighted {known : List Form}
    (hknown : ∀ f ∈ known, f.runWith sight call = f.run call) (form : Form)
    (hform : form.nearsighted known = true) : form.runWith sight call = form.run call := by
  induction form with
  | token | empty | nested | abandon => rfl
  | seq first second ih ih' =>
    rcases Bool.or_eq_true_iff.1 hform with hform | hform
    · exact hknown _ (of_decide_eq_true hform)
    · obtain ⟨h, h'⟩ := Bool.and_eq_true_iff.1 hform
      exact runWith_seq (ih h) (ih' h')
  | branch look yes no ih ih' =>
    rcases Bool.or_eq_true_iff.1 hform with hform | hform
    · exact hknown _ (of_decide_eq_true hform)
    · simp only [Bool.and_eq_true] at hform
      obtain ⟨⟨hlook, hyes⟩, hno⟩ := hform
      split at hlook
      · exact runWith_branch (ih hyes) (ih' hno) fun s => .inl (Look.holdsWith_sees_zero _ _ _)
      · cases hlook
  | many look body ih =>
    obtain ⟨hlook, hbody⟩ := Bool.and_eq_true_iff.1 hform
    split at hlook
    · exact runWith_many (Look.holdsWith_sees_zero _ _) (ih hbody)
    · cases hlook
  | node production body ih => exact runWith_node (ih hform) production
  | suffixed production operand look suffix ih ih' =>
    simp only [nearsighted, Bool.and_eq_true] at hform
    obtain ⟨⟨hlook, hoperand⟩, hsuffix⟩ := hform
    split at hlook
    · funext s
      rw [runWith, run, ih hoperand]
      cases operand.run call s with
      | stopped => rfl
      | done ts s' => simp only [ih' hsuffix, Look.holdsWith_sees_zero]
    · cases hlook
  | items stops item ih =>
    funext s
    rw [runWith, ih hform]
    rfl

theorem runWith_of_nearsighted_nil {form : Form} (h : form.nearsighted [] = true) :
    form.runWith sight call = form.run call :=
  runWith_of_nearsighted (by simp) form h

/-- How a declaration ends that has no type, or no name after its type. -/
def unnamed (s : ParserState) : Outcome :=
  if s.current.kind ∈ Kind.dataTypes then
    .stopped (s.advance.error (.expected .identifier)) false s.advance
  else .stopped (s.error .dataType) false s

theorem run_unnamed {form : Form}
    (hform : form ∈ [functionDeclaration, arrayDeclaration, variableDeclaration])
    {s : ParserState} (h : s.current.kind ∈ Kind.dataTypes → s.advance.current.kind ≠ .identifier) :
    form.run call s = unnamed s := by
  have htype : dataType.run call s =
      if s.current.kind ∈ Kind.dataTypes then
        .done [.node .dataType [.leaf (leafLabel s.current.kind) s.current]] s.advance
      else .stopped (s.error .dataType) false s := by
    rw [dataType, run, run]
    split <;> rfl
  have hname (hs : s.current.kind ∈ Kind.dataTypes) : (one .identifier).run call s.advance =
      .stopped (s.advance.error (.expected .identifier)) false s.advance := by
    rw [one, run, if_neg (by simpa using h hs)]
  simp only [List.mem_cons, List.not_mem_nil, or_false] at hform
  rcases hform with rfl | rfl | rfl
  all_goals
    by_cases hs : s.current.kind ∈ Kind.dataTypes
    · simp [functionDeclaration, arrayDeclaration, variableDeclaration, commaSeparated, declarator,
        all, run, htype, hname, hs, Outcome.andThen, Outcome.mapTrees, unnamed]
    · simp [functionDeclaration, arrayDeclaration, variableDeclaration, all, run, htype, hs,
        Outcome.andThen, Outcome.mapTrees, unnamed]

/-- Where the sight may be wrong two places on, no name follows the type. -/
theorem holdsWith_sees_two (sight : Sight) (kinds : List Kind) (s : ParserState) :
    (Look.sees 2 kinds).holdsWith sight s.tokens = (Look.sees 2 kinds).holds s.tokens ∨
      (s.current.kind ∈ Kind.dataTypes → s.advance.current.kind ≠ .identifier) := by
  by_cases h : kindAhead 0 s.tokens = .endMarker ∨ kindAhead 1 s.tokens = .endMarker
  · -- Behind a type comes the marker, or nothing at all, and then the parser stays at the type.
    refine .inr fun hs => ?_
    have he : s.current.kind ≠ .endMarker := by
      intro hk
      rw [hk] at hs
      exact absurd hs (by decide)
    have hnext := h.resolve_left he
    rw [ParserState.tokens, kindAhead, if_neg he] at hnext
    cases hr : s.rest with
    | nil =>
      have hstay : s.advance = s := by simp [ParserState.advance, hr]
      rw [hstay]
      intro hk
      rw [hk] at hs
      exact absurd hs (by decide)
    | cons t rest =>
      rw [s.advance_of_rest (by simpa [ParserState.atEnd] using he) hr]
      rw [hr] at hnext
      simp [show t.kind = .endMarker from hnext]
  · simp only [not_or] at h
    exact .inl (by rw [Look.holdsWith, Look.holds, sight.kindAt_two h.1 h.2])

theorem runWith_localDeclaration :
    localDeclaration.runWith sight call = localDeclaration.run call := by
  refine runWith_branch (runWith_of_nearsighted_nil (by decide))
    (runWith_of_nearsighted_nil (by decide)) fun s => ?_
  refine (holdsWith_sees_two sight _ s).imp_right fun h => ?_
  rw [run_unnamed (by simp) h, run_unnamed (by simp) h]

theorem runWith_declaration : declaration.runWith sight call = declaration.run call := by
  refine runWith_node (runWith_branch (runWith_of_nearsighted_nil (by decide))
    runWith_localDeclaration fun s => ?_) _
  refine (holdsWith_sees_two sight _ s).imp_right fun h => ?_
  rw [run_unnamed (by simp) h, localDeclaration, run, run_unnamed (by simp) h,
    run_unnamed (by simp) h, ite_self]

theorem runWith_elseClauses : elseClauses.runWith sight call = elseClauses.run call :=
  runWith_seq (runWith_many (Look.holdsWith_both_not _ (by decide) _)
    (runWith_of_nearsighted_nil (by decide))) (runWith_of_nearsighted_nil (by decide))

theorem runWith_expression : expression.runWith sight call = expression.run call :=
  runWith_branch (runWith_of_nearsighted_nil (by decide))
    (runWith_branch (runWith_of_nearsighted_nil (by decide))
      (runWith_of_nearsighted_nil (by decide)) fun s => .inl (Look.holdsWith_assignment _ _))
    fun s => .inl (Look.holdsWith_unclosedSubscript _ _)

theorem runWith_rule (c : Nested) : (rule c).runWith sight call = (rule c).run call := by
  have hknown : ∀ f ∈ [localDeclaration, elseClauses], f.runWith sight call = f.run call := by
    simp [runWith_localDeclaration, runWith_elseClauses]
  cases c with
  | expression => exact runWith_expression
  | power => exact runWith_of_nearsighted hknown _ (by decide +kernel)
  | unary => exact runWith_of_nearsighted hknown _ (by decide +kernel)
  | block => exact runWith_of_nearsighted hknown _ (by decide +kernel)
  | ifStatement => exact runWith_of_nearsighted hknown _ (by decide +kernel)

end Form

theorem Nested.runWith_eq (sight : Sight) (levels : Nat) :
    Nested.runWith sight levels = Nested.run levels := by
  induction levels with
  | zero => rfl
  | succ levels ih =>
    funext c s
    rw [Nested.runWith, Nested.run, ih, Form.runWith_rule]

namespace Parse

/-- The parse is the same, whatever the parser sees behind the end marker. -/
theorem ofTokensWith_eq (sight : Sight) (tokens : List Token) :
    ofTokensWith sight tokens = ofTokens tokens := by
  rw [ofTokensWith, Nested.runWith_eq, Form.runWith_declaration]
  rfl

/-- Nothing behind the first end marker matters. The tokens there become no leaves, and the parse
is the one without them, even for a parser that looks at them. -/
theorem ofTokens_append_marker {before : List Token} {marker : Token}
    (hbefore : ∀ t ∈ before, t.kind ≠ .endMarker) (hmarker : marker.kind = .endMarker)
    (after : List Token) :
    ofTokens (before ++ marker :: after) = ofTokens (before ++ [marker]) ∧
      (∀ sight, ofTokensWith sight (before ++ marker :: after) = ofTokens (before ++ [marker])) ∧
      (ofTokens (before ++ marker :: after)).root.leaves.Sublist before := by
  have hcut := ofTokens_through_marker hbefore hmarker after
  refine ⟨hcut, fun sight => (ofTokensWith_eq sight _).trans hcut, ?_⟩
  have hleaves := (root_wellShaped (before ++ marker :: after)).2.1
  rw [Token.beforeMarker_append hbefore] at hleaves
  simpa [Token.beforeMarker, hmarker] using hleaves

/-- A type before the end marker and a parenthesis behind it begin no function. -/
theorem ofTokens_append_marker_parenthesis :
    let before := [Kind.intKeyword.token]
    let marker := Kind.endMarker.token
    let after := [Kind.leftParenthesis.token]
    (∀ t ∈ before, t.kind ≠ .endMarker) ∧ marker.kind = .endMarker ∧
      Sight.across.kindAt 2 (before ++ marker :: after) = .leftParenthesis ∧
      ofTokensWith .across (before ++ marker :: after) =
        ⟨.node .program [], [⟨.expected .identifier, marker, 1⟩], true⟩ := by
  intro before marker after
  have hbefore : ∀ t ∈ before, t.kind ≠ .endMarker := by decide
  have hmarker : marker.kind = .endMarker := rfl
  refine ⟨hbefore, hmarker, by decide, ?_⟩
  rw [(ofTokens_append_marker hbefore hmarker after).2.1]
  decide +kernel

end Parse
end CoreLang
