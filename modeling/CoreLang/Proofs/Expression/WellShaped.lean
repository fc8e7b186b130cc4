import CoreLang.Proofs.Expression.Concrete

/-! The tree of an expression is one of the grammar. It opens exactly as many levels of nesting as
the expression asks for. -/
namespace CoreLang

namespace Shape
variable {shape : Shape} {d : Nat} {ts us : List Tree}

theorem matches_star_concat (h : (star shape).Matches d ts) (h' : shape.Matches d us) :
    (seq shape (star shape)).Matches d (ts ++ us) := by
  generalize hstar : star shape = all at h
  induction h with
  | none =>
    rw [List.nil_append, ← List.append_nil us]
    exact .seq h' .none
  | more hone _ _ ih =>
    cases hstar
    have hall := ih h' rfl
    rw [List.append_assoc]
    generalize _ ++ us = vs at hall
    cases hall with
    | seq hnext hrest => exact .seq hone (.more hnext hrest)
  | leaf | node | deeper | nodeOf | empty | seq | left | right => cases hstar

theorem matches_word {kinds : List Kind} {c : Kind × String} (h : c.1 ∈ kinds) :
    (leaf kinds).Matches d [.word c] :=
  .leaf (t := ⟨c.1, c.2, .start⟩) h

theorem matches_symbol (k : Kind) : (one k).Matches d [.symbol k] :=
  matches_word (List.mem_singleton_self k)

theorem matches_enclosed {p : Production} {level : Nat} {t : Tree} (least : Nat)
    (h : (node [p]).Matches d [t]) (hp : p ∈ expressions.drop level) (hleast : least ≤ 9) :
    (node (expressions.drop least)).Matches (Expression.parentheses least level + d)
      [t.enclosed least level] := by
  unfold Expression.parentheses Tree.enclosed
  split
  · have hinside : expression.Matches (1 + d) [t] := by
      rw [Nat.add_comm]
      exact (h.node_mono (by simpa using List.mem_of_mem_drop hp)).deeper_of_node
    have hfactor : .factor ∈ expressions.drop least :=
      (List.drop_subset_drop_left expressions hleast) (by decide)
    exact .node hfactor (.right (.left (.seq (matches_symbol _) (.seq hinside (matches_symbol _)))))
  · rename_i hle
    rw [Nat.zero_add]
    have hdrop := List.drop_subset_drop_left expressions (Nat.not_lt.1 hle)
    exact h.node_mono (by simpa using hdrop hp)

theorem tighter_production (tier : Tier) :
    tighter tier.production = expressions.drop (tier.level + 1) := by cases tier <;> rfl

theorem production_mem (tier : Tier) : tier.production ∈ expressions.drop tier.level := by
  cases tier <;> decide

theorem mem_drop_level {tier : Tier} {p : Production} (hp : p ∈ expressions.drop tier.level) :
    p = tier.production ∨ p ∈ tighter tier.production := by
  revert hp
  cases tier <;> cases p <;> decide

theorem not_mem_tighter (tier : Tier) : tier.production ∉ tighter tier.production := by
  cases tier <;> decide

theorem childrenOf_production (tier : Tier) :
    childrenOf tier.production = chain tier.production tier.operators := by cases tier <;> rfl

/-- A run of operators goes on with one operator more. -/
theorem matches_chain_concat {tier : Tier} {t r : Tree} {c : Kind × String}
    (hl : (node (expressions.drop tier.level)).Matches d [t]) (hc : c.1 ∈ tier.operators)
    (hr : (node (expressions.drop (tier.level + 1))).Matches d [r]) :
    (node [tier.production]).Matches d
      [.node tier.production (t.operands tier.production ++ [.word c, r])] := by
  refine .node (List.mem_singleton_self _) ?_
  rw [childrenOf_production]
  have hstep : (seq (leaf tier.operators) (node (tighter tier.production))).Matches d
      ([.word c] ++ [r]) := .seq (matches_word hc) (tighter_production tier ▸ hr)
  cases hl with
  | @node _ _ p children hp hchildren =>
    rcases mem_drop_level hp with rfl | hp
    · have hoperands : (Tree.node tier.production children).operands tier.production = children :=
        if_pos rfl
      rw [hoperands]
      rw [childrenOf_production] at hchildren
      cases hchildren with
      | seq hfirst hrest =>
        rw [List.append_assoc]
        cases hrest with
        | seq hnext hrest =>
          exact .seq hfirst (matches_star_concat (.more hnext hrest) hstep)
    · have hne : p ≠ tier.production := by
        rintro rfl
        exact not_mem_tighter tier hp
      have hoperands : (Tree.node p children).operands tier.production = [.node p children] :=
        if_neg (by simpa [Tree.production?] using hne)
      rw [hoperands]
      exact .seq (.node hp hchildren) (.seq hstep .none)

theorem matches_intersperse {t : Tree} (ht : expression.Matches d [t])
    (hts : ∀ u ∈ ts, expression.Matches d [u]) :
    (childrenOf .argumentList).Matches d ((t :: ts).intersperse (.symbol .comma)) := by
  induction ts generalizing t with
  | nil => exact .seq ht .none
  | cons u ts ih =>
    obtain ⟨hu, hts⟩ := List.forall_mem_cons.1 hts
    rw [List.intersperse_cons_cons]
    have hrest := ih hu hts
    generalize (u :: ts).intersperse _ = vs at hrest
    cases hrest with
    | seq hfirst hrest => exact .seq ht (.more (.seq (matches_symbol _) hfirst) hrest)

theorem matches_argumentList (h : ∀ u ∈ ts, expression.Matches d [u]) :
    (either empty (node [.argumentList])).Matches d (Tree.argumentList ts) := by
  cases ts with
  | nil => exact .left .empty
  | cons t ts =>
    obtain ⟨ht, hts⟩ := List.forall_mem_cons.1 h
    exact .right (.node (List.mem_singleton_self _) (matches_intersperse ht hts))

theorem matches_constant (c : Constant) : (node [.const]).Matches d [c.tree] :=
  .node (List.mem_singleton_self _) (matches_word c.isConstant)

theorem matches_subscript (c : Constant) : subscript.Matches d c.subscript :=
  .seq (matches_symbol _) (.seq (matches_constant c) (matches_symbol _))

theorem matches_name (n : String) : (one .identifier).Matches d [.word (.identifier, n)] :=
  matches_word (List.mem_singleton_self _)

theorem matches_optional_subscript (index? : Option Constant) :
    (optional subscript).Matches d ((index?.map Constant.subscript).getD []) := by
  cases index? with
  | none => exact .right .empty
  | some index => exact .left (matches_subscript index)

theorem matches_variable (n : String) (index? : Option Constant) :
    (node [.factor]).Matches d
      [.node .factor (.word (.identifier, n) :: (index?.map Constant.subscript).getD [])] :=
  .node (List.mem_singleton_self _)
    (.left (.seq (matches_name n) (.right (matches_optional_subscript index?))))

theorem matches_call (n : String) (h : ∀ u ∈ ts, expression.Matches d [u]) :
    (node [.factor]).Matches d
      [.node .factor (.word (.identifier, n) :: .symbol .leftParenthesis ::
        Tree.argumentList ts ++ [.symbol .rightParenthesis])] := by
  have hlist : (all [one .leftParenthesis, either empty (node [.argumentList]),
      one .rightParenthesis]).Matches d _ :=
    .seq (matches_symbol _) (.seq (matches_argumentList h) (matches_symbol _))
  have hcall : (childrenOf .factor).Matches d ([.word (.identifier, n)] ++ _) :=
    .left (.seq (matches_name n) (.left hlist))
  exact .node (List.mem_singleton_self _) hcall

end Shape

namespace Expression
open Shape

theorem production_mem (e : Expression) : e.production ∈ expressions.drop e.level := by
  cases e with
  | binary op => exact Shape.production_mem op.tier
  | constant | name | call | subscript | signed | power | assign =>
    simp [production, level, expressions]

theorem matches_deeper {e : Expression} {d : Nat} {t : Tree}
    (h : (node [e.production]).Matches d [t]) : expression.Matches (d + 1) [t] := by
  have hmem : e.production ∈ expressions := List.mem_of_mem_drop e.production_mem
  exact (h.node_mono (by simpa using hmem)).deeper_of_node

theorem level_le (tier : Tier) : tier.level + 1 ≤ 9 := by cases tier <;> decide

mutual

/-- The tree keeps to the grammar with as many levels as the expression asks for. -/
theorem matches_tree (e : Expression) : (node [e.production]).Matches e.nesting [e.tree] := by
  cases e with
  | constant c => exact .node (List.mem_singleton_self _) (.right (.right (matches_constant c)))
  | name n => exact matches_variable n none
  | call n arguments => exact matches_call n (matches_treeEach arguments)
  | subscript n index => exact matches_variable n (some index)
  | signed sign e =>
    have he := matches_enclosed 8 (matches_tree e) e.production_mem (by decide)
    exact .node (List.mem_singleton_self _) (.seq (matches_word sign.isSign) he.deeper_of_node)
  | binary op l r =>
    have hlevel := Nat.le_of_lt (level_le op.tier)
    have hl := matches_enclosed _ (matches_tree l) l.production_mem hlevel
    have hr := matches_enclosed _ (matches_tree r) r.production_mem (level_le op.tier)
    exact matches_chain_concat (hl.mono (Nat.le_max_left _ _)) op.isOperator
      (hr.mono (Nat.le_max_right _ _))
  | power b e =>
    have hb := matches_enclosed 8 (matches_tree b) b.production_mem (by decide)
    have he := matches_enclosed 7 (matches_tree e) e.production_mem (by decide)
    exact .node (List.mem_singleton_self _) (.seq (hb.mono (Nat.le_max_left _ _))
      (.seq (matches_symbol _) (he.deeper_of_node.mono (Nat.le_max_right _ _))))
  | assign n index? value =>
    have htarget : (childrenOf .assignment).Matches (value.nesting + 1)
        ([.word (.identifier, n)] ++ (_ ++ ([.symbol .assign] ++ [value.tree]))) :=
      .seq (matches_name n) (.seq (matches_optional_subscript index?)
        (.seq (matches_symbol _) (matches_deeper (matches_tree value))))
    exact .node (List.mem_singleton_self _) htarget

theorem matches_treeEach (es : List Expression) :
    ∀ t ∈ treeEach es, expression.Matches (nestingEach es) [t] := by
  cases es with
  | nil => nofun
  | cons e rest =>
    rw [treeEach, List.forall_mem_cons]
    exact ⟨(matches_deeper (matches_tree e)).mono (Nat.le_max_left _ _),
      fun t ht => (matches_treeEach rest t ht).mono (Nat.le_max_right _ _)⟩

end

end Expression

namespace Tree

/-- Below the parent the trees open at least so many levels at one time. -/
def Opens (parent : Option Production) (first : Bool) (n : Nat) (ts : List Tree) : Prop :=
  ∀ level index d, (∀ o ∈ openingsAll parent first level index ts, o.level ≤ level + d) → n ≤ d

section
variable {parent : Option Production} {first : Bool} {n m : Nat} {ts us : List Tree}

theorem Opens.append_left (h : Opens parent first n ts) (us : List Tree) :
    Opens parent first n (ts ++ us) := by
  intro level index d ho
  rw [openingsAll_append, List.forall_mem_append] at ho
  exact h level index d ho.1

theorem Opens.append_right (ts : List Tree) (h : Opens parent (first && ts.isEmpty) n us) :
    Opens parent first n (ts ++ us) := by
  intro level index d ho
  rw [openingsAll_append, List.forall_mem_append] at ho
  exact h level _ d ho.2

theorem Opens.max (h : Opens parent first n ts) (h' : Opens parent first m ts) :
    Opens parent first (max n m) ts :=
  fun level index d ho => Nat.max_le.2 ⟨h level index d ho, h' level index d ho⟩

theorem opens_zero : Opens parent first 0 ts := fun _ _ d _ => Nat.zero_le d

/-- A node opens the levels of its children, and one more where it opens a level itself. -/
theorem Opens.node {p : Production} (h : Opens (some p) true n ts) :
    Opens parent first (n + (p.opens parent first).toNat) [.node p ts] := by
  intro level index d ho
  rw [openingsAll_singleton, openingsIn] at ho
  split at ho
  · rename_i hopens
    obtain ⟨hself, ho⟩ := List.forall_mem_cons.1 ho
    obtain ⟨d, rfl⟩ : ∃ k, d = k + 1 := ⟨d - 1, by have : level + 1 ≤ level + d := hself; omega⟩
    have hn : n ≤ d := h (level + 1) index d fun o hmem => by have := ho o hmem; omega
    simpa [hopens] using hn
  · rename_i hopens
    simpa [Bool.eq_false_iff.2 hopens] using h level index d ho

end

theorem opens_enclosed {parent : Option Production} {first opens : Bool} {p : Production}
    {n : Nat} {children : List Tree} (least level : Nat) (hp : p ∈ Shape.expressions)
    (hopens : ∀ q ∈ Shape.expressions, q.opens parent first = opens)
    (h : Opens (some p) true n children) :
    Opens parent first (Expression.parentheses least level + n + opens.toNat)
      [(node p children).enclosed least level] := by
  unfold Expression.parentheses enclosed
  split
  · have hinner : Opens (some .factor) false (n + 1) [node p children] := by
      have hall : ∀ q ∈ Shape.expressions, q.opens (some .factor) false = true := by decide
      have hnode : Opens (some .factor) false _ _ := h.node
      rwa [hall p hp] at hnode
    have hfactor : Opens (some .factor) true (n + 1)
        [symbol .leftParenthesis, node p children, symbol .rightParenthesis] :=
      .append_right [symbol .leftParenthesis] (hinner.append_left [symbol .rightParenthesis])
    rw [Nat.add_comm 1 n, ← hopens .factor (by decide)]
    exact hfactor.node
  · rw [Nat.zero_add, ← hopens p hp]
    exact h.node

theorem Opens.operands {tier : Tier} {n : Nat} {t : Tree}
    (h : Opens (some tier.production) true n [t]) :
    Opens (some tier.production) true n (t.operands tier.production) := by
  unfold Tree.operands
  split
  · rename_i hp
    cases t with
    | leaf => cases hp
    | node p children =>
      obtain rfl := Option.some.inj hp
      intro level index d ho
      refine h level index d fun o hmem => ho o ?_
      rwa [Form.openingsAll_node (by cases tier <;> rfl)] at hmem
  · exact h

end Tree

namespace Expression
open CoreLang.Tree

theorem opens_operand (tier : Tier) (first : Bool) :
    ∀ q ∈ Shape.expressions, q.opens (some tier.production) first = false := by
  cases tier <;> cases first <;> decide

theorem mem_expressions (e : Expression) : e.production ∈ Shape.expressions :=
  List.mem_of_mem_drop e.production_mem

theorem opens_enclosed {e : Expression} {parent : Option Production} {first opens : Bool} {n : Nat}
    (h : Opens (some e.production) true n e.tree.children) (least : Nat)
    (hopens : ∀ q ∈ Shape.expressions, q.opens parent first = opens) :
    Opens parent first (parentheses least e.level + n + opens.toNat)
      [e.tree.enclosed least e.level] := by
  rw [tree_eq]
  exact Tree.opens_enclosed least e.level e.mem_expressions hopens h

theorem opens_deeper {e : Expression} {parent : Option Production} {first : Bool} {n : Nat}
    (h : Opens (some e.production) true n e.tree.children)
    (hopens : ∀ q ∈ Shape.expressions, q.opens parent first = true) :
    Opens parent first (n + 1) [e.tree] := by
  have hnode : Opens parent first _ _ := h.node
  rwa [hopens _ e.mem_expressions, ← tree_eq] at hnode

theorem opens_argumentList {ts : List Tree} {n : Nat}
    (h : Opens (some .argumentList) true n (ts.intersperse (.symbol .comma))) :
    Opens (some .factor) false n (argumentList ts) := by
  cases ts with
  | nil => exact h
  | cons t ts => exact h.node

mutual

/-- The tree opens as many levels as the expression says. -/
theorem opens_tree (e : Expression) :
    Opens (some e.production) true e.nesting e.tree.children := by
  cases e with
  | constant | name | subscript => exact opens_zero
  | call n arguments =>
    have harguments := opens_argumentList (opens_treeEach true arguments)
    exact .append_left (.append_right [_, .symbol .leftParenthesis] harguments) _
  | signed sign e =>
    have hall : ∀ q ∈ Shape.expressions, q.opens (some .unary) false = true := by decide
    exact .append_right [.symbol sign.kind] (opens_enclosed (opens_tree e) 8 hall)
  | binary op l r =>
    have hl := opens_enclosed (opens_tree l) op.tier.level (opens_operand op.tier true)
    refine .max (hl.operands.append_left _) (.append_right _ (.append_right [.symbol op.kind] ?_))
    exact opens_enclosed (opens_tree r) (op.tier.level + 1) (opens_operand op.tier _)
  | power b e =>
    have hbase : ∀ q ∈ Shape.expressions, q.opens (some .exponent) true = false := by decide
    have hexponent : ∀ q ∈ Shape.expressions, q.opens (some .exponent) false = true := by decide
    have hb := opens_enclosed (opens_tree b) 8 hbase
    have he := opens_enclosed (opens_tree e) 7 hexponent
    exact .max (hb.append_left _) (.append_right [_, .symbol .exponent] he)
  | assign n index? value =>
    have hall : ∀ q ∈ Shape.expressions, q.opens (some .assignment) false = true := by decide
    have hvalue := opens_deeper (opens_tree value) hall
    exact .append_right _ (.append_right [.symbol .assign] hvalue)

theorem opens_treeEach (first : Bool) (es : List Expression) :
    Opens (some .argumentList) first (nestingEach es)
      ((treeEach es).intersperse (.symbol .comma)) := by
  have hall : ∀ q ∈ Shape.expressions, q.opens (some .argumentList) first = true := by
    cases first <;> decide
  cases es with
  | nil => exact opens_zero
  | cons e rest =>
    have he := opens_deeper (opens_tree e) hall
    cases rest with
    | nil => exact he.max opens_zero
    | cons e' rest =>
      rw [treeEach, treeEach, List.intersperse_cons_cons]
      exact .max (he.append_left _)
        (.append_right [e.tree, .symbol .comma] (opens_treeEach _ (e' :: rest)))

end

end Expression
end CoreLang
