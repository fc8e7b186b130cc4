import CoreLang.Grammar.Derivation

/-! The trees of the language, said node by node: which children a node of each production has.
Nothing here is taken from the rules that the parser runs; that both describe the same trees is
`Tree.wellShaped_iff`. -/
namespace CoreLang

/-- A regular expression over the children of a node. -/
inductive Shape where
  /-- One leaf of the given kinds. -/
  | leaf (kinds : List Kind)
  /-- One node of the given productions. -/
  | node (productions : List Production)
  /-- One node of the given productions, which opens a level of nesting. -/
  | deeper (productions : List Production)
  /-- One node whose children are given here and not by its production alone. -/
  | nodeOf (production : Production) (children : Shape)
  | empty
  | seq (first second : Shape)
  | either (left right : Shape)
  | star (body : Shape)
deriving DecidableEq

namespace Shape

def one (kind : Kind) : Shape := leaf [kind]

def all : List Shape → Shape
  | [] => empty
  | [shape] => shape
  | shape :: rest => seq shape (all rest)

def anyOf : List Shape → Shape
  | [] => node []
  | [shape] => shape
  | shape :: rest => either shape (anyOf rest)

def optional (shape : Shape) : Shape := either shape empty

def commaSeparated (shape : Shape) : Shape := seq shape (star (seq (one .comma) shape))

def expressions : List Production :=
  [.assignment, .logicalOr, .logicalAnd, .equality, .relational, .additive, .multiplicative,
   .exponent, .unary, .factor]

/-- The productions of expressions that bind tighter than a given one. -/
def tighter (p : Production) : List Production := (expressions.dropWhile (· ≠ p)).drop 1

def expression : Shape := deeper expressions

/-- At least two operands, with an operator between any two. Each operand binds tighter. -/
def chain (p : Production) (operators : List Kind) : Shape :=
  let operand := node (tighter p)
  let step := seq (leaf operators) operand
  seq operand (seq step (star step))

def subscript : Shape := all [one .leftBracket, node [.const], one .rightBracket]

def guardedBlock : Shape :=
  all [one .leftParenthesis, expression, one .rightParenthesis, deeper [.block]]

/-- The children of a node of each production. -/
def childrenOf : Production → Shape
  | .program => star (node [.declaration])
  | .declaration => node [.functionDeclaration, .arrayDeclaration, .variableDeclaration]
  | .variableDeclaration =>
    all [node [.dataType],
      commaSeparated (seq (one .identifier) (optional (seq (one .assign) expression))),
      one .semicolon]
  | .arrayDeclaration =>
    all [node [.dataType], one .identifier, one .leftBracket, optional (node [.const]),
      one .rightBracket,
      optional (all [one .assign, one .leftBrace, either empty (node [.argumentList]),
        one .rightBrace]),
      one .semicolon]
  | .functionDeclaration =>
    all [node [.dataType], one .identifier, one .leftParenthesis, node [.parameterList],
      one .rightParenthesis, either (deeper [.block]) (one .semicolon)]
  | .parameterList =>
    either (one .voidKeyword)
      (optional (commaSeparated (seq (node [.dataType]) (one .identifier))))
  | .dataType => leaf [.intKeyword, .floatKeyword, .charKeyword, .boolKeyword]
  | .argumentList => commaSeparated expression
  | .block => all [one .leftBrace, node [.blockItemList], one .rightBrace]
  | .blockItemList => star (node [.blockItem])
  | .blockItem => node [.arrayDeclaration, .variableDeclaration, .statement]
  | .statement =>
    anyOf [node [.returnStatement], node [.ifStatement], node [.whileStatement],
      node [.forStatement], node [.inputStatement], node [.outputStatement], one .semicolon,
      deeper [.block], node [.expressionStatement]]
  | .expressionStatement => seq expression (one .semicolon)
  | .returnStatement => all [one .returnKeyword, either empty expression, one .semicolon]
  | .ifStatement =>
    all [one .ifKeyword, guardedBlock,
      star (nodeOf .elseClause (seq (one .elseKeyword) (deeper [.block]))),
      optional (nodeOf .elseClause (seq (one .elseKeyword) (deeper [.ifStatement])))]
  | .elseClause => seq (one .elseKeyword) (deeper [.block, .ifStatement])
  | .whileStatement => seq (one .whileKeyword) guardedBlock
  | .forStatement =>
    all [one .forKeyword, one .leftParenthesis,
      either (node [.arrayDeclaration, .variableDeclaration]) (seq expression (one .semicolon)),
      expression, one .semicolon, expression, one .rightParenthesis, deeper [.block]]
  | .inputStatement =>
    all [one .scanfKeyword, one .leftParenthesis, one .string,
      star (all [one .comma, one .ampersand, one .identifier]), one .rightParenthesis,
      one .semicolon]
  | .outputStatement =>
    all [one .printfKeyword, one .leftParenthesis,
      either (seq (one .string) (star (seq (one .comma) expression))) (one .identifier),
      one .rightParenthesis, one .semicolon]
  | .assignment => all [one .identifier, optional subscript, one .assign, expression]
  | .logicalOr => chain .logicalOr [.or]
  | .logicalAnd => chain .logicalAnd [.and]
  | .equality => chain .equality [.equal, .notEqual]
  | .relational => chain .relational [.less, .lessEqual, .greater, .greaterEqual]
  | .additive => chain .additive [.plus, .minus]
  | .multiplicative => chain .multiplicative [.multiply, .divide, .modulo]
  | .exponent =>
    seq (node [.unary, .factor]) (seq (one .exponent) (deeper [.exponent, .unary, .factor]))
  | .unary => seq (leaf [.not, .plus, .minus]) (deeper [.unary, .factor])
  | .factor =>
    anyOf [
      seq (one .identifier)
        (either (all [one .leftParenthesis, either empty (node [.argumentList]),
          one .rightParenthesis]) (optional subscript)),
      all [one .leftParenthesis, expression, one .rightParenthesis],
      node [.const]]
  | .const =>
    leaf [.integerLiteral, .floatLiteral, .characterLiteral, .trueKeyword, .falseKeyword]

end Shape

/-- `shape.Matches depth ts`: the trees have the shape down to their leaves, with at most `depth`
levels of nesting open at one time. -/
inductive Shape.Matches : Shape → Nat → List Tree → Prop where
  | leaf {kinds depth} {t : Token} (hk : t.kind ∈ kinds) :
    Matches (.leaf kinds) depth [.leaf (leafLabel t.kind) t]
  | node {productions depth p ts} (hp : p ∈ productions)
    (h : Matches (childrenOf p) depth ts) :
    Matches (.node productions) depth [.node p ts]
  | deeper {productions depth p ts} (hp : p ∈ productions)
    (h : Matches (childrenOf p) depth ts) :
    Matches (.deeper productions) (depth + 1) [.node p ts]
  | nodeOf {production children depth ts} (h : Matches children depth ts) :
    Matches (.nodeOf production children) depth [.node production ts]
  | empty {depth} : Matches .empty depth []
  | seq {first second depth ts us} (h : Matches first depth ts) (h' : Matches second depth us) :
    Matches (.seq first second) depth (ts ++ us)
  | left {left right depth ts} (h : Matches left depth ts) : Matches (.either left right) depth ts
  | right {left right depth ts} (h : Matches right depth ts) :
    Matches (.either left right) depth ts
  | none {body depth} : Matches (.star body) depth []
  | more {body depth ts us} (h : Matches body depth ts) (h' : Matches (.star body) depth us) :
    Matches (.star body) depth (ts ++ us)

theorem Shape.Matches.node_mono {ps qs : List Production} {depth : Nat} {ts : List Tree}
    (h : (Shape.node ps).Matches depth ts) (hsub : ps ⊆ qs) : (Shape.node qs).Matches depth ts := by
  cases h with
  | node hp h => exact .node (hsub hp) h

theorem Shape.Matches.mono {shape : Shape} {depth depth' : Nat} {ts : List Tree}
    (h : shape.Matches depth ts) (hle : depth ≤ depth') : shape.Matches depth' ts := by
  induction h generalizing depth' with
  | leaf hk => exact .leaf hk
  | node hp _ ih => exact .node hp (ih hle)
  | deeper hp _ ih =>
    obtain ⟨depth', rfl⟩ : ∃ d, depth' = d + 1 := ⟨depth' - 1, by omega⟩
    exact .deeper hp (ih (by omega))
  | nodeOf _ ih => exact .nodeOf (ih hle)
  | empty => exact .empty
  | seq _ _ ih ih' => exact .seq (ih hle) (ih' hle)
  | left _ ih => exact .left (ih hle)
  | right _ ih => exact .right (ih hle)
  | none => exact .none
  | more _ _ ih ih' => exact .more (ih hle) (ih' hle)

theorem Shape.Matches.deeper_of_node {ps : List Production} {depth : Nat} {ts : List Tree}
    (h : (Shape.node ps).Matches depth ts) : (Shape.deeper ps).Matches (depth + 1) ts := by
  cases h with
  | node hp h => exact .deeper hp h

/-- A tree of a whole program, with at most `depth` levels of nesting open at one time. -/
def Tree.WellShaped (t : Tree) (depth : Nat) : Prop := (Shape.node [.program]).Matches depth [t]

namespace Form

/-- The productions of the node that the form leaves, if it always leaves one node. -/
def heads : Form → Option (List Production)
  | node p _ => if p = .elseClause then none else some [p]
  | branch _ yes no =>
    match yes.heads, no.heads with
    | some ps, some qs => some (ps ++ qs)
    | _, _ => none
  | suffixed p operand _ _ => operand.heads.map (p :: ·)
  | abandon _ => some []
  | _ => none

def shape : Form → Shape
  | token kinds _ => .leaf kinds
  | empty => .empty
  | seq first second => .seq first.shape second.shape
  | branch look yes no =>
    match (branch look yes no).heads with
    | some ps => .node ps
    | none => .either yes.shape no.shape
  | many _ body => .star body.shape
  | node p body => if p = .elseClause then .nodeOf p body.shape else .node [p]
  | suffixed p operand _ _ =>
    match operand.heads with
    | some ps => .node (p :: ps)
    | none => .either operand.shape (.node [p])
  | nested c => .deeper ((Grammar.rule c).heads.getD [])
  | items _ item => .star item.shape
  | abandon _ => .node []

/-- Every node that the form leaves has the shape of its production. -/
def fits : Form → Bool
  | seq first second => first.fits && second.fits
  | branch _ yes no => yes.fits && no.fits
  | many _ body => body.fits
  | node p body => (p = .elseClause || body.shape = .childrenOf p) && body.fits
  | suffixed p operand _ suffix =>
    operand.heads.isSome && (seq operand suffix).shape = .childrenOf p && operand.fits &&
      suffix.fits
  | items _ item => item.fits
  | _ => true

theorem rule_fits (c : Nested) :
    (Grammar.rule c).fits = true ∧ (Grammar.rule c).heads.isSome = true := by
  cases c <;> decide +kernel

theorem program_fits : (node .program (items [] Grammar.declaration)).fits = true := by
  decide +kernel

theorem shape_of_heads {form : Form} {ps : List Production} (h : form.heads = some ps) :
    form.shape = .node ps := by
  cases form with
  | branch look yes no => rw [shape, h]
  | node p body =>
    unfold heads at h
    split at h
    · cases h
    · rename_i hp
      rw [shape, if_neg hp, Option.some.inj h]
  | suffixed p operand look suffix =>
    obtain ⟨qs, hq, rfl⟩ := Option.map_eq_some_iff.1 h
    simp [shape, hq]
  | abandon cause => rw [shape, Option.some.inj h]
  | token | empty | seq | many | nested | items => cases h

/-- The forms of one node leave a node of each production that heads them. -/
theorem derives_node_of_heads {p : Production} {depth : Nat} {ts : List Tree}
    (hbody : ∀ form : Form, form.fits = true → form.shape = .childrenOf p → form.Derives depth ts)
    (form : Form) (hf : form.fits = true) {ps : List Production} (hh : form.heads = some ps)
    (hp : p ∈ ps) : form.Derives depth [.node p ts] := by
  induction form generalizing ps with
  | node q body =>
    simp only [heads] at hh
    split at hh
    · cases hh
    · rename_i hq
      obtain rfl := Option.some.inj hh
      obtain rfl := List.mem_singleton.1 hp
      simp only [fits, hq, decide_false, Bool.false_or, Bool.and_eq_true, decide_eq_true_eq] at hf
      exact .node (hbody body hf.2 hf.1)
  | branch look yes no ih ih' =>
    obtain ⟨hf₁, hf₂⟩ := Bool.and_eq_true_iff.1 hf
    simp only [heads] at hh
    split at hh
    · rename_i hq hr
      obtain rfl := Option.some.inj hh
      rcases List.mem_append.1 hp with hp | hp
      · exact .yes (ih hf₁ hq hp)
      · exact .no (ih' hf₂ hr hp)
    · cases hh
  | suffixed q operand look suffix ih =>
    obtain ⟨qs, hq, rfl⟩ := Option.map_eq_some_iff.1 hh
    simp only [fits, Bool.and_eq_true, decide_eq_true_eq] at hf
    rcases List.mem_cons.1 hp with rfl | hp
    · have h := hbody (seq operand suffix) (by simp [fits, hf]) hf.1.1.2
      cases h with
      | seq h h' => exact .suffixed h h'
    · exact .alone (ih hf.1.2 hq hp)
  | abandon cause =>
    obtain rfl := Option.some.inj hh
    cases hp
  | token | empty | seq | many | nested | items => cases hh

theorem matches_of_derives {form : Form} {depth : Nat} {ts : List Tree}
    (h : form.Derives depth ts) (hf : form.fits = true) : form.shape.Matches depth ts := by
  induction h with
  | token hk => exact .leaf hk
  | empty => exact .empty
  | seq _ _ ih ih' =>
    obtain ⟨hf₁, hf₂⟩ := Bool.and_eq_true_iff.1 hf
    exact .seq (ih hf₁) (ih' hf₂)
  | yes _ ih =>
    have h := ih (Bool.and_eq_true_iff.1 hf).1
    simp only [shape, heads]
    split
    · rename_i hh
      split at hh
      · rename_i hq _
        rw [shape_of_heads hq] at h
        exact h.node_mono (Option.some.inj hh ▸ List.subset_append_left _ _)
      · cases hh
    · exact .left h
  | no _ ih =>
    have h := ih (Bool.and_eq_true_iff.1 hf).2
    simp only [shape, heads]
    split
    · rename_i hh
      split at hh
      · rename_i _ hq
        rw [shape_of_heads hq] at h
        exact h.node_mono (Option.some.inj hh ▸ List.subset_append_right _ _)
      · cases hh
    · exact .right h
  | none => exact .none
  | more _ _ ih ih' => exact .more (ih hf) (ih' hf)
  | @node p body depth ts _ ih =>
    simp only [fits, Bool.and_eq_true, Bool.or_eq_true, decide_eq_true_eq] at hf
    have hb := ih hf.2
    by_cases hp : p = .elseClause
    · simpa [shape, hp] using Shape.Matches.nodeOf hb
    · rw [hf.1.resolve_left hp] at hb
      simpa [shape, hp] using Shape.Matches.node (List.mem_singleton_self p) hb
  | alone _ ih =>
    simp only [fits, Bool.and_eq_true] at hf
    have h := ih hf.1.2
    obtain ⟨ps, hps⟩ := Option.isSome_iff_exists.1 hf.1.1.1
    rw [shape_of_heads hps] at h
    simpa [shape, hps] using h.node_mono (List.subset_cons_self _ ps)
  | @suffixed p operand look suffix depth ts us _ _ ih ih' =>
    simp only [fits, Bool.and_eq_true, decide_eq_true_eq] at hf
    have h := Shape.Matches.seq (ih hf.1.2) (ih' hf.2)
    obtain ⟨ps, hps⟩ := Option.isSome_iff_exists.1 hf.1.1.1
    rw [← shape, hf.1.1.2] at h
    simpa [shape, hps] using Shape.Matches.node List.mem_cons_self h
  | @nested c depth ts _ ih =>
    obtain ⟨hr, hh⟩ := rule_fits c
    obtain ⟨ps, hps⟩ := Option.isSome_iff_exists.1 hh
    have h := ih hr
    rw [shape_of_heads hps] at h
    simpa [shape, hps] using h.deeper_of_node
  | noItem => exact .none
  | item _ _ ih ih' => exact .more (ih hf) (ih' hf)

theorem heads_of_shape {form : Form} {ps : List Production} (h : form.shape = .node ps) :
    form.heads = some ps := by
  cases form with
  | branch look yes no =>
    rw [shape] at h
    split at h
    · rename_i hh
      rw [hh, Shape.node.inj h]
    · cases h
  | node p body =>
    rw [shape] at h
    split at h
    · cases h
    · rename_i hp
      rw [heads, if_neg hp, Shape.node.inj h]
  | suffixed p operand look suffix =>
    rw [shape] at h
    split at h
    · rename_i hh
      rw [heads, hh, ← Shape.node.inj h]
      rfl
    · cases h
  | abandon cause => rw [heads, ← Shape.node.inj h]
  | token | empty | seq | many | nested | items => cases h

theorem shape_eq_either {form : Form} {left right : Shape} (hf : form.fits = true)
    (h : form.shape = .either left right) :
    ∃ look yes no, form = branch look yes no ∧ yes.shape = left ∧ no.shape = right := by
  cases form with
  | branch look yes no =>
    rw [shape] at h
    split at h
    · cases h
    · cases h
      exact ⟨look, yes, no, rfl, rfl, rfl⟩
  | node p body =>
    rw [shape] at h
    split at h <;> cases h
  | suffixed p operand look suffix =>
    simp only [fits, Bool.and_eq_true] at hf
    obtain ⟨ps, hps⟩ := Option.isSome_iff_exists.1 hf.1.1.1
    simp [shape, hps] at h
  | token | empty | seq | many | nested | items | abandon => cases h

theorem derives_of_matches {sh : Shape} {depth : Nat} {ts : List Tree}
    (h : sh.Matches depth ts) (form : Form) (hf : form.fits = true) (hs : form.shape = sh) :
    form.Derives depth ts := by
  induction h generalizing form with
  | node hp _ ih => exact derives_node_of_heads ih form hf (heads_of_shape hs) hp
  | deeper hp _ ih =>
    cases form with
    | nested c =>
      obtain ⟨hr, hh⟩ := rule_fits c
      obtain ⟨ps, hps⟩ := Option.isSome_iff_exists.1 hh
      rw [shape, hps] at hs
      cases hs
      exact .nested (derives_node_of_heads ih _ hr hps hp)
    | branch | node | suffixed => rw [shape] at hs; split at hs <;> cases hs
    | token | empty | seq | many | items | abandon => cases hs
  | leaf hk =>
    cases form with
    | token kinds cause => cases hs; exact .token hk
    | branch | node | suffixed => rw [shape] at hs; split at hs <;> cases hs
    | nested | empty | seq | many | items | abandon => cases hs
  | nodeOf _ ih =>
    cases form with
    | node p body =>
      rw [shape] at hs
      split at hs
      · cases hs
        exact .node (ih body (Bool.and_eq_true_iff.1 hf).2 rfl)
      · cases hs
    | branch | suffixed => rw [shape] at hs; split at hs <;> cases hs
    | token | nested | empty | seq | many | items | abandon => cases hs
  | empty =>
    cases form with
    | empty => exact .empty
    | branch | node | suffixed => rw [shape] at hs; split at hs <;> cases hs
    | token | nested | seq | many | items | abandon => cases hs
  | seq _ _ ih ih' =>
    cases form with
    | seq first second =>
      obtain ⟨hf₁, hf₂⟩ := Bool.and_eq_true_iff.1 hf
      cases hs
      exact .seq (ih first hf₁ rfl) (ih' second hf₂ rfl)
    | branch | node | suffixed => rw [shape] at hs; split at hs <;> cases hs
    | token | nested | empty | many | items | abandon => cases hs
  | left _ ih =>
    obtain ⟨look, yes, no, rfl, hy, -⟩ := shape_eq_either hf hs
    exact .yes (ih yes (Bool.and_eq_true_iff.1 hf).1 hy)
  | right _ ih =>
    obtain ⟨look, yes, no, rfl, -, hn⟩ := shape_eq_either hf hs
    exact .no (ih no (Bool.and_eq_true_iff.1 hf).2 hn)
  | none =>
    cases form with
    | many => exact .none
    | items => exact .noItem
    | branch | node | suffixed => rw [shape] at hs; split at hs <;> cases hs
    | token | nested | empty | seq | abandon => cases hs
  | more _ _ ih ih' =>
    cases form with
    | many look body => cases hs; exact .more (ih body hf rfl) (ih' _ hf rfl)
    | items stops item => cases hs; exact .item (ih item hf rfl) (ih' _ hf rfl)
    | branch | node | suffixed => rw [shape] at hs; split at hs <;> cases hs
    | token | nested | empty | seq | abandon => cases hs

end Form

/-- The rules that the parser runs leave exactly the trees of the language. -/
theorem Tree.wellShaped_iff {t : Tree} {depth : Nat} : t.WellShaped depth ↔ t.IsProgram depth :=
  ⟨fun h => Form.derives_of_matches h _ Form.program_fits rfl,
    fun h => Form.matches_of_derives h Form.program_fits⟩

end CoreLang
