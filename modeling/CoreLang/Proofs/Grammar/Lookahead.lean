import CoreLang.Proofs.Grammar.Starts

/-! What the looks that go beyond one token see on the leaves of a tree: the token after a declared
name, the `if` after an `else`, and the sign after a name with or without a subscript. -/
namespace CoreLang.Grammar
open Form
variable {n : Nat} {ts : List Tree}

theorem kindAhead_two {t u : Token} (ht : t.kind ∈ Kind.dataTypes) (hu : u.kind = .identifier)
    (rest : List Token) : kindAhead 2 (t :: u :: rest) = kindAhead 0 rest := by
  have hne : t.kind ≠ .endMarker := by
    rintro heq
    rw [heq] at ht
    exact absurd ht (by decide)
  simp [kindAhead, hne, hu]

theorem kindAhead_two_of_opening {form : Form} {k : Kind}
    (ho : form.opening = [Kind.dataTypes, [.identifier], [k]]) (h : form.Derives n ts)
    (rest : List Token) : kindAhead 2 (Tree.leavesAll ts ++ rest) = k := by
  obtain ⟨read, more, heq, hopens, -⟩ := h.opens
  rw [ho] at hopens
  match read, hopens with
  | [t, u, v], ⟨ht, hu, hv, _⟩ =>
    rw [heq, List.append_assoc]
    exact (kindAhead_two ht (List.mem_singleton.1 hu) _).trans (List.mem_singleton.1 hv)

theorem sees_two_functionDeclaration (h : functionDeclaration.Derives n ts) (rest : List Token)
    (kinds : List Kind) : (Look.sees 2 kinds).holds (Tree.leavesAll ts ++ rest) =
      decide (.leftParenthesis ∈ kinds) := by
  rw [Look.holds, kindAhead_two_of_opening rfl h]

theorem sees_two_arrayDeclaration (h : arrayDeclaration.Derives n ts) (rest : List Token)
    (kinds : List Kind) : (Look.sees 2 kinds).holds (Tree.leavesAll ts ++ rest) =
      decide (.leftBracket ∈ kinds) := by
  rw [Look.holds, kindAhead_two_of_opening rfl h]

theorem kindAhead_two_variableDeclaration (h : variableDeclaration.Derives n ts)
    (rest : List Token) :
    kindAhead 2 (Tree.leavesAll ts ++ rest) ∈ [Kind.assign, .comma, .semicolon] := by
  cases h with | node h =>
  cases h with | seq hd h =>
  cases hd with | node hd =>
  cases hd with | token hd =>
  cases h with | seq h hend =>
  cases h with | seq h hmore =>
  cases h with | seq hi hvalue =>
  cases hi with | token hi =>
  simp only [Tree.leavesAll_node_cons, Tree.leavesAll_leaf, Tree.leavesAll_nil,
    Tree.leavesAll_append, List.cons_append, List.nil_append, List.append_assoc]
  rw [kindAhead_two hd (List.mem_singleton.1 hi)]
  have hnext := hvalue.kindAhead_mem_head
    (hmore.kindAhead_mem_head (hend.kindAhead_mem_starts rfl rest))
  revert hnext
  generalize kindAhead 0 _ = kind
  revert kind
  decide

theorem sees_two_variableDeclaration (h : variableDeclaration.Derives n ts) (rest : List Token)
    {kinds : List Kind} (hk : ∀ k ∈ [Kind.assign, .comma, .semicolon], k ∉ kinds) :
    (Look.sees 2 kinds).holds (Tree.leavesAll ts ++ rest) = false :=
  decide_eq_false (hk _ (kindAhead_two_variableDeclaration h rest))

theorem kindAhead_elseClause {c : Nested} (h : (elseClause c).Derives n ts) (rest : List Token) :
    kindAhead 0 (Tree.leavesAll ts ++ rest) = .elseKeyword ∧
      kindAhead 1 (Tree.leavesAll ts ++ rest) ∈ c.starts := by
  obtain ⟨read, more, heq, hopens, -⟩ := h.opens
  match read, hopens with
  | [t, u], ⟨ht, hu, _⟩ =>
    have ht := List.mem_singleton.1 ht
    rw [heq]
    simpa [kindAhead, ht] using hu

/-- If a name comes first, then no `=` follows it, also behind a subscript, and a bracket that
follows it opens a subscript. -/
inductive Plain : List Token → Prop where
  | other {tokens} (h : kindAhead 0 tokens ≠ .identifier) : Plain tokens
  | name {tokens} (h : kindAhead 1 tokens ∉ [Kind.assign, .leftBracket]) : Plain tokens
  | subscript {t left constant right rest} (ht : t.kind = .identifier)
    (hl : left.kind = .leftBracket) (hc : constant.kind ∈ Kind.constants)
    (hr : right.kind = .rightBracket) (ha : kindAhead 0 rest ≠ .assign) :
    Plain (t :: left :: constant :: right :: rest)

theorem afterBracket?_subscript {constant right : Token} (hc : constant.kind ∈ Kind.constants)
    (hr : right.kind = .rightBracket) (rest : List Token) :
    afterBracket? (constant :: right :: rest) = some rest := by
  have hne : constant.kind ≠ .rightBracket ∧ constant.kind ≠ .endMarker := by
    constructor <;> rintro heq <;> rw [heq] at hc <;> exact absurd hc (by decide)
  simp [afterBracket?, hne, hr]

theorem Plain.looks {tokens : List Token} (h : Plain tokens) :
    Look.unclosedSubscript.holds tokens = false ∧ Look.assignment.holds tokens = false := by
  cases h with
  | other h => simp [Look.holds, h]
  | name h =>
    simp only [List.mem_cons, List.not_mem_nil, or_false, not_or] at h
    simp [Look.holds, h]
  | subscript ht hl hc hr ha =>
    simp [Look.holds, kindAhead, ht, hl, afterBracket?_subscript hc hr, ha]

theorem leavesAll_optional_subscript {look : Look}
    (h : (optional look subscript).Derives n ts) :
    Tree.leavesAll ts = [] ∨ ∃ left constant right, Tree.leavesAll ts = [left, constant, right] ∧
      left.kind = .leftBracket ∧ constant.kind ∈ Kind.constants ∧ right.kind = .rightBracket := by
  cases h with
  | yes h =>
    obtain ⟨read, more, heq, hopens, hfixed⟩ := h.opens
    match read, hopens with
    | [left, constant, right], ⟨hl, hc, hr, _⟩ =>
      refine .inr ⟨left, constant, right, ?_, List.mem_singleton.1 hl, hc, List.mem_singleton.1 hr⟩
      rw [heq, hfixed rfl, List.append_nil]
  | no h =>
    cases h with
    | empty => exact .inl rfl

/-- Followed by a token that goes on neither with a subscript nor with an assignment, the leaves of
the form are plain. -/
def Naming (n : Nat) (form : Form) : Prop :=
  ∀ ts rest, form.Derives n ts → kindAhead 0 rest ∉ [Kind.assign, .leftBracket] →
    Plain (Tree.leavesAll ts ++ rest)

theorem naming_of_starts {form : Form} (hr : form.reads = true)
    (hs : .identifier ∉ form.starts) : Naming n form := by
  intro ts rest h _
  refine .other fun heq => hs ?_
  rw [← heq]
  exact h.kindAhead_mem_starts hr rest

theorem naming_suffixed {p : Production} {operand suffix : Form} {look : Look}
    (h : Naming n operand) (hr : suffix.reads = true)
    (hs : ∀ k ∈ suffix.starts, k ∉ [Kind.assign, .leftBracket]) :
    Naming n (suffixed p operand look suffix) := by
  intro ts rest hd hrest
  cases hd with
  | alone hd => exact h ts rest hd hrest
  | @suffixed _ _ _ _ _ us vs hd hd' =>
    rw [Tree.leavesAll_node, Tree.leavesAll_append, List.append_assoc]
    exact h us _ hd (hs _ (hd'.kindAhead_mem_starts hr rest))

theorem naming_name : Naming n name := by
  intro ts rest h hrest
  cases h with | seq hi h =>
  cases hi with | token hi =>
  have hi := List.mem_singleton.1 hi
  simp only [Tree.leavesAll_leaf, List.cons_append, List.nil_append]
  cases h with
  | yes h =>
    refine .name ?_
    have hp := List.mem_singleton.1 (h.kindAhead_mem_starts rfl rest)
    simp [kindAhead, hi, hp]
  | no h =>
    rcases leavesAll_optional_subscript h with hnil | ⟨left, constant, right, heq, hl, hc, hr⟩
    · refine .name ?_
      simpa [kindAhead, hi, hnil] using hrest
    · rw [heq]
      refine .subscript hi hl hc hr ?_
      simpa using fun ha => hrest (by simp [ha])

theorem naming_factor : Naming n factor := by
  intro ts rest h hrest
  cases h with | node h =>
  rw [Tree.leavesAll_node]
  cases h with
  | yes h => exact naming_name _ rest h hrest
  | no h => exact naming_of_starts (by decide) (by decide) _ rest h hrest

theorem naming_unary : Naming n unary := by
  intro ts rest h hrest
  cases h with
  | yes h => exact naming_of_starts (by decide) (by decide) _ rest h hrest
  | no h => exact naming_factor _ rest h hrest

theorem naming_logicalOr : Naming n logicalOr := by
  have hpower : Naming n power := naming_suffixed naming_unary rfl (by decide)
  have hmultiplicative : Naming n multiplicative := naming_suffixed hpower rfl (by decide)
  have hadditive : Naming n additive := naming_suffixed hmultiplicative rfl (by decide)
  have hrelational : Naming n relational := naming_suffixed hadditive rfl (by decide)
  have hequality : Naming n equality := naming_suffixed hrelational rfl (by decide)
  have hlogicalAnd : Naming n logicalAnd := naming_suffixed hequality rfl (by decide)
  exact naming_suffixed hlogicalAnd rfl (by decide)

theorem looks_assignment (h : assignment.Derives n ts) (rest : List Token) :
    Look.unclosedSubscript.holds (Tree.leavesAll ts ++ rest) = false ∧
      Look.assignment.holds (Tree.leavesAll ts ++ rest) = true := by
  cases h with | node h =>
  cases h with | seq hi h =>
  cases hi with | token hi =>
  cases h with | seq hsub h =>
  cases h with | seq ha h =>
  cases ha with | token ha =>
  have hi := List.mem_singleton.1 hi
  have ha := List.mem_singleton.1 ha
  rcases leavesAll_optional_subscript hsub with hnil | ⟨left, constant, right, heq, hl, hc, hr⟩
  · simp [Tree.leavesAll_append, hnil, Look.holds, kindAhead, hi, ha]
  · simp [Tree.leavesAll_append, heq, Look.holds, kindAhead, hi, ha, hl,
      afterBracket?_subscript hc hr]

end CoreLang.Grammar
