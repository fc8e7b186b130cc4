import CoreLang.Proofs.Expression.WellShaped
import CoreLang.Proofs.Parse.Sentence

/-! Precedence and associativity. An expression that is printed with as few parentheses as its
operators allow, and parsed as an initializer, is read back as it was. -/
namespace CoreLang

theorem Tree.WellShaped.eq_of_leaves {t u : Tree} {d d' : Nat} (h : t.WellShaped d)
    (h' : u.WellShaped d') (hleaves : t.leaves = u.leaves) : t = u := by
  obtain ⟨ts, s, rfl, hrun, -⟩ := Parse.runs_leaves (h.mono (Nat.le_max_left d d'))
  obtain ⟨us, s', rfl, hrun', -⟩ := Parse.runs_leaves (h'.mono (Nat.le_max_right d d'))
  rw [hleaves] at hrun
  rw [(hrun.unique hrun').1]

/-- A tree can be given any other tokens with the same contents. -/
theorem Tree.exists_alike {t : Tree} {tokens : List Token}
    (h : t.leaves.map Token.content = tokens.map Token.content) :
    ∃ u, Alike (fun v w => v.content = w.content) [t] [u] ∧ u.leaves = tokens := by
  rw [← List.forall₂_eq_eq_eq, List.forall₂_map_left_iff, List.forall₂_map_right_iff] at h
  exact Alike.exists_tree_of_leaves h

theorem Tree.Alike.initializer? {t u : Tree}
    (h : Alike (fun v w => v.content = w.content) [t] [u]) : t.initializer? = u.initializer? := by
  have hparts := h.parts? fun _ _ hcontent => hcontent
  have hpart : t.part? = u.part? := by
    rw [parts?_cons, parts?_cons] at hparts
    cases ht : t.part? <;> cases hu : u.part? <;> simp_all
  rw [Tree.initializer?, Tree.initializer?, hpart]

namespace Expression

def declarationTree (type : Kind × String) (declared : String) (e : Expression) : Tree :=
  .node .program [.node .declaration [.node .variableDeclaration
    [.node .dataType [.word type], .word (.identifier, declared), .symbol .assign, e.tree,
      .symbol .semicolon]]]

variable (type : Kind × String) (declared : String) (e : Expression)

theorem contents_declarationTree :
    (declarationTree type declared e).leaves.map Token.content = e.declaration type declared := by
  have hcontents :
      Tree.contents [declarationTree type declared e] = e.declaration type declared := by
    simp [declarationTree, declaration, contents_tree]
  simpa [Tree.contents, Tree.leavesAll] using hcontents

theorem initializer?_declarationTree :
    (declarationTree type declared e).initializer? = some (declared, e) := by
  simp [Tree.initializer?, declarationTree, Tree.part?, Tree.parts?_cons, part?_tree, Part.ofNode,
    Tier.ofProduction?]

/-- The initializer is one level deeper than the declaration. -/
theorem declarationTree_wellShaped (htype : type.1 ∈ Kind.dataTypes) :
    (declarationTree type declared e).WellShaped (e.nesting + 1) := by
  have hdataType : (Shape.node [.dataType]).Matches (e.nesting + 1)
      [.node .dataType [.word type]] :=
    .node (List.mem_singleton_self _) (Shape.matches_word htype)
  have hvariable : (Shape.childrenOf .variableDeclaration).Matches (e.nesting + 1)
      ([.node .dataType [.word type]] ++ ((([.word (.identifier, declared)] ++
        ([.symbol .assign] ++ [e.tree])) ++ []) ++ [.symbol .semicolon])) :=
    .seq hdataType (.seq (.seq (.seq (Shape.matches_name declared) (.left
      (.seq (Shape.matches_symbol _) (matches_deeper (matches_tree e))))) .none)
      (Shape.matches_symbol _))
  have hdeclaration : (Shape.node [.declaration]).Matches (e.nesting + 1) _ :=
    .node (List.mem_singleton_self _) (.node (p := .variableDeclaration) (by decide) hvariable)
  exact .node (List.mem_singleton_self _) (.more hdeclaration .none)

theorem nesting_declarationTree : e.nesting + 1 ≤ (declarationTree type declared e).nesting := by
  have hall : ∀ q ∈ Shape.expressions, q.opens (some .variableDeclaration) false = true := by
    decide
  have hvalue : Tree.Opens (some .variableDeclaration) true (e.nesting + 1)
      ([.node .dataType [.word type], .word (.identifier, declared), .symbol .assign] ++
        ([e.tree] ++ [.symbol .semicolon])) :=
    .append_right _ ((opens_deeper (opens_tree e) hall).append_left _)
  have hopens : Tree.Opens none true (e.nesting + 1) [declarationTree type declared e] :=
    .node (.node (.node hvalue))
  refine hopens 0 0 _ fun o ho => ?_
  rw [Tree.openingsAll_singleton] at ho
  rw [Nat.zero_add]
  exact Tree.nesting_le_iff.1 (Nat.le_refl _) o ho

end Expression

namespace Parse

/-- An expression is read back from its text, and the tree folds to it again: so every operator
takes the operands that its level and the parentheses give it. The initializer opens one level of
nesting, and beyond the limit it is refused. -/
theorem ofTokens_declaration (type : Kind × String) (declared : String) (e : Expression)
    {tokens : List Token} (htype : type.1 ∈ Kind.dataTypes)
    (htokens : tokens.map Token.content = e.declaration type declared) :
    (e.nesting + 1 ≤ Limits.nesting → ∃ root, (ofTokens tokens).result = .ok root ∧
      root.initializer? = some (declared, e)) ∧
    (Limits.nesting < e.nesting + 1 → (ofTokens tokens).successful = false) := by
  have hshape := e.declarationTree_wellShaped type declared htype
  have hcontents := e.contents_declarationTree type declared
  have hkind (v w : Token) (hvw : v.content = w.content) : v.kind = w.kind := congrArg Prod.fst hvw
  have hbefore : Token.beforeMarker tokens = tokens := by
    have hmarker : ∀ c ∈ tokens.map Token.content, c.1 ≠ .endMarker := by
      rw [htokens, ← hcontents, List.forall_mem_map]
      exact fun t ht => (hshape.leaf_kind t ht).1
    rw [List.forall_mem_map] at hmarker
    simpa [Token.beforeMarker, Token.content, List.takeWhile_eq_self_iff] using hmarker
  constructor
  · intro hle
    obtain ⟨root, halike, hleaves⟩ := Tree.exists_alike (hcontents.trans htokens.symm)
    refine ⟨root, result_eq_ok_iff.2 ⟨halike.wellShaped hkind (hshape.mono hle), ?_⟩, ?_⟩
    · rw [hleaves, hbefore]
    · rw [← halike.initializer?, e.initializer?_declarationTree]
  · intro hlt
    by_contra hsuccessful
    have hresult : (ofTokens tokens).result = .ok (ofTokens tokens).root :=
      if_pos (by simpa using hsuccessful)
    obtain ⟨hroot, hleaves⟩ := result_eq_ok_iff.1 hresult
    rw [hbefore] at hleaves
    obtain ⟨t, halike, ht⟩ : ∃ t, Tree.Alike _ [(ofTokens tokens).root] [t] ∧
        t.leaves = (e.declarationTree type declared).leaves :=
      Tree.exists_alike (by rw [hleaves, htokens, ← hcontents])
    have hsame := halike.wellShaped hkind hroot
    rw [hsame.eq_of_leaves hshape ht] at hsame
    exact absurd ((e.nesting_declarationTree type declared).trans hsame.nesting_le)
      (Nat.not_le.2 hlt)

/-- In `int v = a = -b ^ c ^ 2 - (d - e[1]) - f(x && y, z);` there are operators of most levels, and
parentheses around the right operand of a difference. -/
theorem ofTokens_declaration_mixed :
    let one : Constant := ⟨.integerLiteral, "1", by decide⟩
    let two : Constant := ⟨.integerLiteral, "2", by decide⟩
    let minus : Operator := ⟨.additive, .minus, by decide⟩
    let power : Expression := .power (.signed ⟨.minus, by decide⟩ (.name "b"))
      (.power (.name "c") (.constant two))
    let call : Expression :=
      .call "f" [.binary ⟨.logicalAnd, .and, by decide⟩ (.name "x") (.name "y"), .name "z"]
    let e : Expression := .assign "a" none
      (.binary minus (.binary minus power (.binary minus (.name "d") (.subscript "e" one))) call)
    let text := e.declaration (.intKeyword, "int") "v"
    text.map (·.2) = ["int", "v", "=", "a", "=", "-", "b", "^", "c", "^", "2", "-", "(", "d", "-",
      "e", "[", "1", "]", ")", "-", "f", "(", "x", "&&", "y", ",", "z", ")", ";"] ∧
    ∃ root, (ofTokens (text.map fun c => ⟨c.1, c.2, .start⟩)).result = .ok root ∧
      root.initializer? = some ("v", e) := by
  intro one two minus power call e text
  refine ⟨by decide +kernel, ?_⟩
  exact (ofTokens_declaration (.intKeyword, "int") "v" e (by decide) (by decide +kernel)).1
    (by decide)

end Parse
end CoreLang
