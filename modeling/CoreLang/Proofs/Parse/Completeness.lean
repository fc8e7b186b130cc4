import CoreLang.Proofs.Grammar.Lookahead
import CoreLang.Proofs.Grammar.Shape
import CoreLang.Proofs.Parse.Loss
import CoreLang.Proofs.Parse.Predictive
import CoreLang.Proofs.Parse.Soundness

/-! The parser reads every tree of the language back from its leaves. -/
namespace CoreLang
open Form Grammar

def Grammar.elseClauses : Form :=
  seq (many (.both (.sees 0 [.elseKeyword]) (.not (.sees 1 [.ifKeyword]))) (elseClause .block))
    (optional (.sees 0 [.elseKeyword]) (elseClause .ifStatement))

theorem Kind.mem_all (k : Kind) : k ∈ all := List.mem_of_getElem? (all_getElem?_code k)

namespace Form
variable {n : Nat}

section
variable (hnested : ∀ c : Nested, (nested c).Complete n c.follow)
include hnested

theorem functionDeclaration_complete : functionDeclaration.Complete n Kind.all :=
  complete_of_predictive_nil hnested (by decide)

theorem arrayDeclaration_complete : arrayDeclaration.Complete n Kind.all :=
  complete_of_predictive_nil hnested (by decide)

theorem variableDeclaration_complete : variableDeclaration.Complete n Kind.all :=
  complete_of_predictive_nil hnested (by decide)

theorem localDeclaration_complete : localDeclaration.Complete n Kind.all :=
  .branch (arrayDeclaration_complete hnested) (variableDeclaration_complete hnested)
    (fun _ rest hd _ => sees_two_arrayDeclaration hd rest _)
    (fun _ rest hd _ => sees_two_variableDeclaration hd rest (by decide))

theorem declaration_complete : declaration.Complete n Kind.all := by
  refine .node (.branch (functionDeclaration_complete hnested)
    (localDeclaration_complete hnested) ?_ ?_) _
  · exact fun ts rest hd _ => sees_two_functionDeclaration hd rest _
  · intro ts rest hd _
    cases hd with
    | yes hd => exact sees_two_arrayDeclaration hd rest _
    | no hd => exact sees_two_variableDeclaration hd rest (by decide)

/-- The `if` behind the last `else` ends the loop over the others. -/
theorem elseClauses_complete : elseClauses.Complete n Nested.ifStatement.follow := by
  have hblock : (elseClause .block).Complete n Kind.all :=
    complete_of_predictive_nil hnested (by decide)
  have hlast : (optional (.sees 0 [.elseKeyword]) (elseClause .ifStatement)).Complete n
      Nested.ifStatement.follow :=
    complete_of_predictive_nil hnested (by decide)
  intro ts s rest hd ht hne hf
  cases hd with
  | @seq _ _ _ us vs hd hd' =>
    rw [Tree.leavesAll_append, List.append_assoc] at ht
    have hout : (Look.both (.sees 0 [.elseKeyword]) (.not (.sees 1 [.ifKeyword]))).holds
        (Tree.leavesAll vs ++ rest) = false := by
      cases hd' with
      | yes hd' =>
        have hk := List.mem_singleton.1 (kindAhead_elseClause hd' rest).2
        simp [Look.holds, hk]
      | no hd' =>
        cases hd' with
        | empty =>
          have hk := of_decide_eq_true (List.mem_filter.1 hf).2
          simp [Look.holds, hk]
    have hin : ∀ ts rest, (elseClause .block).Derives n ts →
        (Look.both (.sees 0 [.elseKeyword]) (.not (.sees 1 [.ifKeyword]))).holds
          (Tree.leavesAll ts ++ rest) = true := by
      intro ts rest hd
      obtain ⟨h₀, h₁⟩ := kindAhead_elseClause hd rest
      simp [Look.holds, h₀, List.mem_singleton.1 h₁]
    obtain ⟨s', hrun, ht', he⟩ := Complete.exists_many (hblock.mono fun k _ => Kind.mem_all k)
      hin hout (List.append_ne_nil_of_right_ne_nil _ hne) hd ht
    obtain ⟨s'', hrun', ht'', he'⟩ := hlast vs s' rest hd' ht' hne hf
    exact ⟨s'', .seq hrun hrun', ht'', by rw [he', he]⟩

theorem assignment_complete : assignment.Complete n Nested.expression.follow :=
  complete_of_predictive_nil hnested (by decide)

theorem logicalOr_complete : logicalOr.Complete n Nested.expression.follow := by
  have hpower : power.Complete n Nested.power.follow :=
    complete_of_predictive_nil hnested (by decide)
  refine .leftAssociative ?_ (by decide) (by decide)
  refine .leftAssociative ?_ (by decide) (by decide)
  refine .leftAssociative ?_ (by decide) (by decide)
  refine .leftAssociative ?_ (by decide) (by decide)
  refine .leftAssociative ?_ (by decide) (by decide)
  refine .leftAssociative ?_ (by decide) (by decide)
  exact hpower.mono (by decide)

theorem expression_complete : expression.Complete n Nested.expression.follow := by
  have hplain : ∀ ts rest, logicalOr.Derives n ts → kindAhead 0 rest ∈ Nested.expression.follow →
      Plain (Tree.leavesAll ts ++ rest) := by
    intro ts rest hd hf
    refine naming_logicalOr ts rest hd fun hk => ?_
    revert hf hk
    generalize kindAhead 0 rest = kind
    revert kind
    decide
  refine .branch (fun _ _ _ hd => by cases hd)
    (.branch (assignment_complete hnested) (logicalOr_complete hnested) ?_ ?_) nofun ?_
  · exact fun ts rest hd _ => (looks_assignment hd rest).2
  · exact fun ts rest hd hf => (hplain ts rest hd hf).looks.2
  · intro ts rest hd hf
    cases hd with
    | yes hd => exact (looks_assignment hd rest).1
    | no hd => exact (hplain ts rest hd hf).looks.1

end

/-- The forms that look further ahead than one token, with the tokens that may come after them. -/
def farsighted : List (Form × List Kind) :=
  [(localDeclaration, Kind.all), (declaration, Kind.all),
   (elseClauses, Nested.ifStatement.follow)]

theorem farsighted_complete (hnested : ∀ c : Nested, (nested c).Complete n c.follow) :
    ∀ f ∈ farsighted, f.1.Complete n f.2 := by
  simp only [farsighted, List.forall_mem_cons, List.not_mem_nil, false_imp_iff, implies_true,
    and_true]
  exact ⟨localDeclaration_complete hnested, declaration_complete hnested,
    elseClauses_complete hnested⟩

theorem rule_complete (hnested : ∀ c : Nested, (nested c).Complete n c.follow) (c : Nested) :
    (Grammar.rule c).Complete n c.follow := by
  have hknown := farsighted_complete hnested
  cases c with
  | expression => exact expression_complete hnested
  | power => exact complete_of_predictive hknown hnested _ (by decide +kernel)
  | unary => exact complete_of_predictive hknown hnested _ (by decide +kernel)
  | block => exact complete_of_predictive hknown hnested _ (by decide +kernel)
  | ifStatement => exact complete_of_predictive hknown hnested _ (by decide +kernel)

theorem nested_complete (n : Nat) (c : Nested) : (nested c).Complete n c.follow := by
  induction n generalizing c with
  | zero =>
    intro ts s rest hd
    cases hd
  | succ n ih =>
    intro ts s rest hd ht hne hf
    cases hd with
    | nested hd =>
      obtain ⟨s', hrun, hs'⟩ := rule_complete ih c ts s rest hd ht hne hf
      exact ⟨s', .nested hrun, hs'⟩

theorem program_complete (n : Nat) : Grammar.program.Complete n [.endMarker] :=
  complete_of_predictive (farsighted_complete (nested_complete n)) (nested_complete n) _
    (by decide +kernel)

end Form

namespace Parse

/-- The whole program is read from the leaves of its tree, at any depth that is free. -/
theorem runs_leaves {t : Tree} {depth : Nat} (h : t.WellShaped depth) :
    ∃ ts s, t = .node .program ts ∧
      Grammar.program.Runs depth (.ofTokens t.leaves) ts none s ∧ s.errors = [] := by
  obtain ⟨m, ht, hm⟩ :=
    ParserState.exists_marker_of_unmarked fun u hu => (h.leaf_kind u hu).1
  cases Tree.wellShaped_iff.1 h with
  | @node _ _ _ ts hd =>
    obtain ⟨s, hrun, -, he⟩ :=
      Form.program_complete depth ts _ [m] hd ht (by simp) (by simp [kindAhead, hm])
    exact ⟨ts, s, rfl, hrun, by rw [he, ParserState.ofTokens_errors]⟩

/-- A program that keeps to the limit of nesting is read back as its own tree and without errors. -/
theorem ofTokens_leaves {t : Tree} (h : t.WellShaped Limits.nesting) :
    ofTokens t.leaves = ⟨t, [], false⟩ := by
  obtain ⟨ts, s, rfl, hrun, he⟩ := runs_leaves h
  obtain ⟨us, stop, s', hrun', -, hparse⟩ := exists_runs (Tree.node .program ts).leaves
  obtain ⟨rfl, rfl, rfl⟩ := hrun.unique hrun'
  have hpanic := hrun.panic_eq (by rw [he, ParserState.ofTokens_errors])
  rw [hparse, he, hpanic, ParserState.ofTokens_panic]
  rfl

end Parse

def Tree.initializer : Tree :=
  .node .program [.node .declaration [.node .variableDeclaration
    [.node .dataType [.leaf "int" Kind.intKeyword.token],
      .leaf "Identifier" Kind.identifier.token, .leaf "ASSIGN" Kind.assign.token,
      .node .factor [.node .const [.leaf "Int" Kind.integerLiteral.token]],
      .leaf "SEMICOLON" Kind.semicolon.token]]]

def Tree.initialized (value : Tree) : Tree :=
  .node .program [.node .declaration [.node .variableDeclaration
    [.node .dataType [.leaf "int" Kind.intKeyword.token],
      .leaf "Identifier" Kind.identifier.token, .leaf "ASSIGN" Kind.assign.token, value,
      .leaf "SEMICOLON" Kind.semicolon.token]]]

theorem Tree.initialized_wellShaped {value : Tree} {depth : Nat}
    (hvalue : Shape.expression.Matches depth [value]) : (initialized value).WellShaped depth := by
  have htype : (Shape.node [.dataType]).Matches depth
      [.node .dataType [.leaf "int" Kind.intKeyword.token]] :=
    .node (by decide) (.leaf (t := Kind.intKeyword.token) (by decide))
  have hname : (Shape.one .identifier).Matches depth
      [.leaf "Identifier" Kind.identifier.token] :=
    .leaf (t := Kind.identifier.token) (by decide)
  have hassign : (Shape.one .assign).Matches depth [.leaf "ASSIGN" Kind.assign.token] :=
    .leaf (t := Kind.assign.token) (by decide)
  have hend : (Shape.one .semicolon).Matches depth
      [.leaf "SEMICOLON" Kind.semicolon.token] :=
    .leaf (t := Kind.semicolon.token) (by decide)
  have hvariable : (Shape.childrenOf .variableDeclaration).Matches depth _ :=
    .seq htype (.seq (.seq (.seq hname (.left (.seq hassign hvalue))) .none) hend)
  have hdeclaration : (Shape.node [.declaration]).Matches depth _ :=
    .node (p := .declaration) (by decide)
      (.node (p := .variableDeclaration) (by decide) hvariable)
  exact .node (p := .program) (by decide) (.more hdeclaration .none)

theorem Tree.initializer_wellShaped : initializer.WellShaped Limits.nesting :=
  initialized_wellShaped (.deeper (by decide) (.right (.right (.node (by decide)
    (.leaf (t := Kind.integerLiteral.token) (by decide))))))

theorem Parse.ofTokens_leaves_initializer :
    Tree.initializer.WellShaped Limits.nesting ∧
      ofTokens Tree.initializer.leaves = ⟨Tree.initializer, [], false⟩ :=
  ⟨Tree.initializer_wellShaped, ofTokens_leaves Tree.initializer_wellShaped⟩

end CoreLang
