import CoreLang.Parse.Run
import CoreLang.Proofs.Grammar.Lookahead
import CoreLang.Proofs.Parse.Passes

/-! The scan for a closing bracket. It may run far past an expression and find a bracket of another
one, and then the wrong alternative is taken; but that one reads the same tokens and stops at the
same error. So the next five tokens are enough to decide. -/
namespace CoreLang

/-- A name and an assignment sign, or a name, a constant in brackets and an assignment sign. -/
def Token.assigns (tokens : List Token) : Bool :=
  match tokens.map Token.kind with
  | .identifier :: .assign :: _ => true
  | .identifier :: .leftBracket :: k :: .rightBracket :: .assign :: _ => k ∈ Kind.constants
  | _ => false

/-- How an expression runs if the given condition decides whether it is an assignment. The
constructs inside it run as ever. -/
def Nested.runExpression (assigns : List Token → Bool) : Nat → ParserState → Outcome
  | 0, s => .stopped (s.error .tooDeep) true s
  | levels + 1, s =>
    if assigns s.tokens then Grammar.assignment.run (Nested.run levels) s
    else Grammar.logicalOr.run (Nested.run levels) s

theorem afterBracket?_eq_none_iff (tokens : List Token) :
    afterBracket? tokens = none ↔ ∀ t ∈ Token.beforeMarker tokens, t.kind ≠ .rightBracket := by
  induction tokens with
  | nil => simp [afterBracket?, Token.beforeMarker]
  | cons t rest ih =>
    rw [afterBracket?]
    by_cases hbracket : t.kind = .rightBracket
    · simp [Token.beforeMarker, hbracket]
    · by_cases hmarker : t.kind = .endMarker
      · simp [Token.beforeMarker, hmarker]
      · simpa [Token.beforeMarker, hbracket, hmarker] using ih

namespace Form
variable {call : Nested → ParserState → Outcome} {s s' : ParserState} {e : SyntaxError}
  {fatal : Bool}

theorem run_seq (first second : Form) :
    (seq first second).run call s = (first.run call s).andThen (second.run call) := rfl

theorem run_node (p : Production) (body : Form) :
    (node p body).run call s = (body.run call s).mapTrees fun trees => [.node p trees] := rfl

theorem run_yes {look : Look} (yes no : Form) (h : look.holds s.tokens = true) :
    (branch look yes no).run call s = yes.run call s := if_pos h

theorem run_no {look : Look} (yes no : Form) (h : ¬ look.holds s.tokens = true) :
    (branch look yes no).run call s = no.run call s := if_neg h

theorem run_token_of_mem {kinds : List Kind} (cause : Cause) (hk : s.current.kind ∈ kinds) :
    (token kinds cause).run call s =
      .done [.leaf (leafLabel s.current.kind) s.current] s.advance := if_pos hk

theorem run_token_of_not_mem {kinds : List Kind} (cause : Cause) (hk : s.current.kind ∉ kinds) :
    (token kinds cause).run call s = .stopped (s.error cause) false s := if_neg hk

theorem run_seq_of_stopped {first : Form} (second : Form)
    (h : first.run call s = .stopped e fatal s') :
    (seq first second).run call s = .stopped e fatal s' := by
  rw [run_seq, h]
  rfl

theorem run_seq_of_done {first second : Form} {ts : List Tree} {t : ParserState}
    (h : first.run call s = .done ts t) (h' : second.run call t = .stopped e fatal s') :
    (seq first second).run call s = .stopped e fatal s' := by
  rw [run_seq, h, Outcome.andThen, h']

theorem run_node_of_stopped (p : Production) {body : Form}
    (h : body.run call s = .stopped e fatal s') :
    (node p body).run call s = .stopped e fatal s' := by
  rw [run_node, h]
  rfl

theorem run_suffixed_of_stopped (p : Production) {operand : Form} (look : Look) (suffix : Form)
    (h : operand.run call s = .stopped e fatal s') :
    (suffixed p operand look suffix).run call s = .stopped e fatal s' := by
  rw [run, h]

theorem run_seq_one_of_stopped {k : Kind} {second : Form} (hk : s.current.kind = k)
    (h : second.run call s.advance = .stopped e fatal s') :
    (seq (one k) second).run call s = .stopped e fatal s' :=
  run_seq_of_done (run_token_of_mem _ (List.mem_singleton.2 hk)) h

end Form

namespace Grammar
open Form
variable {call : Nested → ParserState → Outcome} {s s' : ParserState} {e : SyntaxError}
  {fatal : Bool}

theorem run_optional_subscript (hbracket : s.current.kind = .leftBracket)
    (h : subscript.run call s = .stopped e fatal s') :
    (optional (.sees 0 [.leftBracket]) subscript).run call s = .stopped e fatal s' :=
  (run_yes _ _ (by simp [Look.holds, kindAhead, ParserState.tokens, hbracket])).trans h

theorem name_run_of_stopped (hname : s.current.kind = .identifier)
    (hbracket : s.advance.current.kind = .leftBracket)
    (h : subscript.run call s.advance = .stopped e fatal s') :
    name.run call s = .stopped e fatal s' := by
  refine run_seq_one_of_stopped hname ?_
  rw [run_no _ _ (by simp [Look.holds, kindAhead, ParserState.tokens, hbracket])]
  exact run_optional_subscript hbracket h

/-- A value that begins with a name stops where the subscript of the name stops. -/
theorem logicalOr_run_of_stopped (hname : s.current.kind = .identifier)
    (hbracket : s.advance.current.kind = .leftBracket)
    (h : subscript.run call s.advance = .stopped e fatal s') :
    logicalOr.run call s = .stopped e fatal s' := by
  have hfactor : factor.run call s = .stopped e fatal s' := by
    refine run_node_of_stopped _ ?_
    rw [byKind, run_yes _ _ (by simp [Look.holds, kindAhead, ParserState.tokens, hname])]
    exact name_run_of_stopped hname hbracket h
  have hunary : unary.run call s = .stopped e fatal s' := by
    rw [unary, run_no _ _ (by simp [Look.holds, kindAhead, ParserState.tokens, hname, signs])]
    exact hfactor
  have hpower : power.run call s = .stopped e fatal s' := run_suffixed_of_stopped _ _ _ hunary
  have hmultiplicative : multiplicative.run call s = .stopped e fatal s' :=
    run_suffixed_of_stopped _ _ _ hpower
  have hadditive : additive.run call s = .stopped e fatal s' :=
    run_suffixed_of_stopped _ _ _ hmultiplicative
  have hrelational : relational.run call s = .stopped e fatal s' :=
    run_suffixed_of_stopped _ _ _ hadditive
  have hequality : equality.run call s = .stopped e fatal s' :=
    run_suffixed_of_stopped _ _ _ hrelational
  have hlogicalAnd : logicalAnd.run call s = .stopped e fatal s' :=
    run_suffixed_of_stopped _ _ _ hequality
  exact run_suffixed_of_stopped _ _ _ hlogicalAnd

theorem assignment_run_of_stopped (hname : s.current.kind = .identifier)
    (hbracket : s.advance.current.kind = .leftBracket)
    (h : subscript.run call s.advance = .stopped e fatal s') :
    assignment.run call s = .stopped e fatal s' :=
  run_node_of_stopped _ (run_seq_one_of_stopped hname
    (run_seq_of_stopped _ (run_optional_subscript hbracket h)))

/-- No bracket closes right behind the constant, if an assignment sign comes behind the first
closing bracket and yet the tokens are no assignment. -/
theorem advance_ne_rightBracket {t left : Token} {after : List Token} (ht : t.kind = .identifier)
    (hleft : left.kind = .leftBracket) (hconstant : s.current.kind ∈ Kind.constants)
    (hafter : afterBracket? s.tokens = some after) (hassign : kindAhead 0 after = .assign)
    (hnot : Token.assigns (t :: left :: s.tokens) = false) :
    s.advance.current.kind ≠ .rightBracket := by
  have hne : s.current.kind ≠ .rightBracket ∧ s.current.kind ≠ .endMarker := by
    constructor <;> rintro heq <;> rw [heq] at hconstant <;> exact absurd hconstant (by decide)
  rw [ParserState.tokens, afterBracket?, if_neg hne.1, if_neg hne.2] at hafter
  cases hrest : s.rest with
  | nil => simp [hrest, afterBracket?] at hafter
  | cons right rest =>
    rw [s.advance_of_rest (by simpa [ParserState.atEnd] using hne.2) hrest]
    intro (hright : right.kind = .rightBracket)
    rw [hrest, afterBracket?, if_pos hright, Option.some.injEq] at hafter
    subst hafter
    cases rest with
    | nil => cases hassign
    | cons sign rest =>
      have hsign : sign.kind = .assign := hassign
      simp [Token.assigns, ParserState.tokens, hrest, ht, hleft, hright, hsign, hconstant] at hnot

/-- Where the scan finds an assignment sign behind a bracket that does not close a subscript, the
subscript is damaged. -/
theorem subscript_run_of_scan {t : Token} (ht : t.kind = .identifier)
    (hleft : s.current.kind = .leftBracket)
    (hscan : Look.assignment.holds (t :: s.tokens) = true)
    (hnot : Token.assigns (t :: s.tokens) = false) :
    ∃ e s', subscript.run call s = .stopped e false s' := by
  obtain ⟨after, hafter, hassign⟩ :
      ∃ after, afterBracket? s.rest = some after ∧ kindAhead 0 after = .assign := by
    simpa [Look.holds, kindAhead, ParserState.tokens, ht, hleft, Option.any_eq_true] using hscan
  cases hrest : s.rest with
  | nil => simp [hrest, afterBracket?] at hafter
  | cons c more =>
    have hadvance := s.advance_of_rest (by simp [ParserState.atEnd, hleft]) hrest
    have htokens : s.advance.tokens = s.rest := by rw [hadvance, hrest, ParserState.tokens]
    by_cases hc : s.advance.current.kind ∈ Kind.constants
    · have hnext : s.advance.advance.current.kind ≠ .rightBracket :=
        advance_ne_rightBracket ht hleft hc (htokens ▸ hafter) hassign (htokens ▸ hnot)
      have hconstant : (constant .subscript).run call s.advance = .done
          [.node .const [.leaf (leafLabel s.advance.current.kind) s.advance.current]]
          s.advance.advance := by
        rw [constant, run_node, run_token_of_mem _ hc]
        rfl
      refine ⟨s.advance.advance.error (.expected .rightBracket), s.advance.advance, ?_⟩
      exact run_seq_one_of_stopped hleft (run_seq_of_done hconstant
        (run_token_of_not_mem _ (by simpa using hnext)))
    · refine ⟨s.advance.error .subscript, s.advance, ?_⟩
      exact run_seq_one_of_stopped hleft
        (run_seq_of_stopped _ (run_node_of_stopped _ (run_token_of_not_mem _ hc)))

theorem looks_of_assigns {tokens : List Token} (h : Token.assigns tokens = true) :
    Look.unclosedSubscript.holds tokens = false ∧ Look.assignment.holds tokens = true := by
  unfold Token.assigns at h
  split at h
  · rename_i kinds
    obtain ⟨t, tokens, rfl, ht, kinds⟩ := List.map_eq_cons_iff.1 kinds
    obtain ⟨sign, tokens, rfl, hsign, -⟩ := List.map_eq_cons_iff.1 kinds
    simp [Look.holds, kindAhead, ht, hsign]
  · rename_i kinds
    obtain ⟨t, tokens, rfl, ht, kinds⟩ := List.map_eq_cons_iff.1 kinds
    obtain ⟨left, tokens, rfl, hleft, kinds⟩ := List.map_eq_cons_iff.1 kinds
    obtain ⟨constant, tokens, rfl, hconstant, kinds⟩ := List.map_eq_cons_iff.1 kinds
    obtain ⟨right, tokens, rfl, hright, kinds⟩ := List.map_eq_cons_iff.1 kinds
    obtain ⟨sign, tokens, rfl, hsign, -⟩ := List.map_eq_cons_iff.1 kinds
    subst hconstant
    have hscan := afterBracket?_subscript (by simpa using h) hright (sign :: tokens)
    simp [Look.holds, kindAhead, ht, hleft, hsign, hscan]
  · cases h

end Grammar

open Grammar

theorem unclosedSubscript_iff {t : Token} {rest : List Token} (ht : t.kind = .identifier) :
    Look.unclosedSubscript.holds (t :: rest) = true ↔ kindAhead 1 (t :: rest) = .leftBracket ∧
      ∀ u ∈ Token.beforeMarker (t :: rest), u.kind ≠ .rightBracket := by
  cases rest with
  | nil => simp [Look.holds, kindAhead, ht]
  | cons left rest =>
    by_cases hleft : left.kind = .leftBracket
    · simp [Look.holds, kindAhead, Token.beforeMarker, ht, hleft, afterBracket?_eq_none_iff]
    · simp [Look.holds, kindAhead, ht, hleft]

theorem leftBracket_of_scan {t : Token} {rest : List Token} (ht : t.kind = .identifier)
    (hscan : Look.assignment.holds (t :: rest) = true)
    (hnot : Token.assigns (t :: rest) = false) :
    ∃ left more, rest = left :: more ∧ left.kind = .leftBracket := by
  cases rest with
  | nil => simp [Look.holds, kindAhead, ht] at hscan
  | cons left more =>
    refine ⟨left, more, rfl, ?_⟩
    refine Decidable.byContradiction fun hleft => ?_
    have hsign : left.kind = .assign := by
      simpa [Look.holds, kindAhead, ht, hleft] using hscan
    simp [Token.assigns, ht, hsign] at hnot

/-- With a bracket to find, the parser decides by the scan. -/
theorem run_expression_of_closed (levels : Nat) {s : ParserState}
    (h : ¬ Look.unclosedSubscript.holds s.tokens = true) :
    Nested.run levels .expression s =
      Nested.runExpression (Look.assignment.holds ·) levels s := by
  cases levels with
  | zero => rfl
  | succ levels =>
    exact Form.run_no _ _ h

/-- Where the scan is misled, both alternatives stop at the damaged subscript. -/
theorem runExpression_scan (levels : Nat) {s : ParserState}
    (hname : s.current.kind = .identifier) :
    Nested.runExpression (Look.assignment.holds ·) levels s =
      Nested.runExpression Token.assigns levels s := by
  cases levels with
  | zero => rfl
  | succ levels =>
    rw [Nested.runExpression, Nested.runExpression]
    cases hassigns : Token.assigns s.tokens with
    | true => rw [(looks_of_assigns hassigns).2]
    | false =>
      cases hscan : Look.assignment.holds s.tokens with
      | false => rfl
      | true =>
        obtain ⟨left, rest, hrest, hleft⟩ := leftBracket_of_scan hname hscan hassigns
        have hadvance := s.advance_of_rest (by simp [ParserState.atEnd, hname]) hrest
        have htokens : s.tokens = s.current :: s.advance.tokens := by
          rw [hadvance, ParserState.tokens, ParserState.tokens, hrest]
        replace hleft : s.advance.current.kind = .leftBracket := by rw [hadvance, hleft]
        obtain ⟨e, s', hsubscript⟩ :=
          subscript_run_of_scan hname hleft (htokens ▸ hscan) (htokens ▸ hassigns)
        rw [if_pos rfl, if_neg Bool.false_ne_true, assignment_run_of_stopped hname hleft hsubscript,
          logicalOr_run_of_stopped hname hleft hsubscript]

/-- At a name the next five tokens decide as the scan does, as long as there is a bracket for it to
find. Without one the parse ends where the expression begins. -/
theorem runExpression_assigns (levels : Nat) (s : ParserState)
    (hname : s.current.kind = .identifier) :
    ((kindAhead 1 s.tokens = .leftBracket →
        ∃ t ∈ Token.beforeMarker s.tokens, t.kind = .rightBracket) →
      Nested.run levels .expression s = Nested.runExpression Token.assigns levels s) ∧
    (kindAhead 1 s.tokens = .leftBracket →
      (∀ t ∈ Token.beforeMarker s.tokens, t.kind ≠ .rightBracket) → 0 < levels →
      Nested.run levels .expression s = .stopped (s.error .unclosedSubscript) true s) := by
  have hiff : Look.unclosedSubscript.holds s.tokens = true ↔ _ := unclosedSubscript_iff hname
  refine ⟨fun hbracket => ?_, fun hleft hnone hlevels => ?_⟩
  · have hclosed : ¬ Look.unclosedSubscript.holds s.tokens = true := by
      rw [hiff]
      rintro ⟨hleft, hnone⟩
      obtain ⟨t, hmem, ht⟩ := hbracket hleft
      exact hnone t hmem ht
    rw [run_expression_of_closed levels hclosed, runExpression_scan levels hname]
  · obtain ⟨levels, rfl⟩ : ∃ n, levels = n + 1 := ⟨levels - 1, by omega⟩
    exact Form.run_yes _ _ (hiff.2 ⟨hleft, hnone⟩)

/-- In `a[1; b[2] = 3` the scan finds the bracket of `b` and takes `a` for the target of an
assignment. In `a[1;` there is no bracket to find. -/
theorem runExpression_assigns_misled :
    let misled : ParserState := ⟨Kind.identifier.token, [.leftBracket, .integerLiteral, .semicolon,
      .identifier, .leftBracket, .integerLiteral, .rightBracket, .assign].map Kind.token,
      0, false, []⟩
    let unclosed : ParserState := ⟨Kind.identifier.token,
      [.leftBracket, .integerLiteral, .semicolon].map Kind.token, 0, false, []⟩
    (Look.assignment.holds misled.tokens = true ∧ Token.assigns misled.tokens = false ∧
      Nested.run 1 .expression misled = Nested.runExpression Token.assigns 1 misled) ∧
    Nested.run 1 .expression unclosed =
      .stopped ⟨.unclosedSubscript, Kind.identifier.token, 0⟩ true unclosed :=
  ⟨⟨by decide, by decide, (runExpression_assigns 1 _ rfl).1 fun _ =>
      ⟨Kind.rightBracket.token, by decide, rfl⟩⟩,
    (runExpression_assigns 1 _ rfl).2 rfl (by decide) Nat.one_pos⟩

end CoreLang
