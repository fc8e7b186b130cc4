import CoreLang.Proofs.Expression.Fold
import CoreLang.Proofs.Grammar.Nesting

/-! The concrete tree of an expression. Operators of one level that follow one another stand in one
node, and parentheses stand in a node of their own. -/
namespace CoreLang

namespace Tree

def word (c : Kind × String) : Tree := leaf (leafLabel c.1) ⟨c.1, c.2, .start⟩

def symbol (k : Kind) : Tree := word (Symbol.content k)

/-- The tree of an expression of a level, at a place for levels from `least` on. -/
def enclosed (least level : Nat) (t : Tree) : Tree :=
  if level < least then node .factor [symbol .leftParenthesis, t, symbol .rightParenthesis] else t

/-- A left operand: the operands and operators of a node of the same production, or a tree of any
other production. -/
def operands (p : Production) (t : Tree) : List Tree :=
  if t.production? = some p then t.children else [t]

def argumentList : List Tree → List Tree
  | [] => []
  | t :: ts => [node .argumentList ((t :: ts).intersperse (symbol .comma))]

end Tree

def Constant.tree (c : Constant) : Tree := .node .const [.word (c.kind, c.lexeme)]

def Constant.subscript (c : Constant) : List Tree :=
  [.symbol .leftBracket, c.tree, .symbol .rightBracket]

namespace Expression

mutual

def tree : Expression → Tree
  | constant c => .node .factor [c.tree]
  | name n => .node .factor [.word (.identifier, n)]
  | call n arguments =>
    .node .factor (.word (.identifier, n) :: .symbol .leftParenthesis ::
      Tree.argumentList (treeEach arguments) ++ [.symbol .rightParenthesis])
  | subscript n index => .node .factor (.word (.identifier, n) :: index.subscript)
  | signed sign e => .node .unary [.symbol sign.kind, e.tree.enclosed 8 e.level]
  | binary op l r =>
    .node op.tier.production
      ((l.tree.enclosed op.tier.level l.level).operands op.tier.production ++
        [.symbol op.kind, r.tree.enclosed (op.tier.level + 1) r.level])
  | power b e =>
    .node .exponent [b.tree.enclosed 8 b.level, .symbol .exponent, e.tree.enclosed 7 e.level]
  | assign n index? value =>
    .node .assignment (.word (.identifier, n) :: (index?.map Constant.subscript).getD [] ++
      [.symbol .assign, value.tree])

def treeEach : List Expression → List Tree
  | [] => []
  | e :: rest => e.tree :: treeEach rest

end

def production : Expression → Production
  | constant _ | name _ | call _ _ | subscript _ _ => .factor
  | signed _ _ => .unary
  | binary op _ _ => op.tier.production
  | power _ _ => .exponent
  | assign _ _ _ => .assignment

theorem tree_eq (e : Expression) : e.tree = .node e.production e.tree.children := by
  cases e <;> rfl

end Expression

/-! The leaves of the tree are the text of the expression. -/
namespace Tree

def contents (ts : List Tree) : List (Kind × String) := (leavesAll ts).map Token.content

@[simp] theorem contents_nil : contents [] = [] := rfl

@[simp] theorem contents_word_cons (c : Kind × String) (ts : List Tree) :
    contents (word c :: ts) = c :: contents ts := rfl

@[simp] theorem contents_symbol_cons (k : Kind) (ts : List Tree) :
    contents (symbol k :: ts) = Symbol.content k :: contents ts := rfl

@[simp] theorem contents_node (p : Production) (children : List Tree) :
    contents [node p children] = contents children := by simp [contents]

@[simp] theorem contents_append (ts us : List Tree) :
    contents (ts ++ us) = contents ts ++ contents us := by simp [contents, leavesAll_append]

@[simp] theorem contents_cons_cons (t u : Tree) (ts : List Tree) :
    contents (t :: u :: ts) = contents [t] ++ contents (u :: ts) := contents_append [t] (u :: ts)

@[simp] theorem contents_enclosed (least level : Nat) (t : Tree) :
    contents [t.enclosed least level] = Expression.enclosed least level (contents [t]) := by
  unfold enclosed Expression.enclosed
  split <;> simp

@[simp] theorem contents_operands (p : Production) (t : Tree) :
    contents (t.operands p) = contents [t] := by
  unfold operands
  split
  · rename_i h
    cases t with
    | leaf => cases h
    | node => rw [contents_node, children]
  · rfl

theorem contents_intersperse (ts : List Tree) :
    contents (ts.intersperse (symbol .comma)) =
      ((ts.map fun t => contents [t]).intersperse [Symbol.content .comma]).flatten := by
  induction ts with
  | nil => rfl
  | cons t ts ih =>
    cases ts with
    | nil => simp
    | cons u ts =>
      simp only [List.map_cons, List.intersperse_cons_cons, List.flatten_cons] at ih ⊢
      rw [contents_cons_cons, contents_symbol_cons, ih, List.singleton_append]

@[simp] theorem contents_argumentList (ts : List Tree) : contents (argumentList ts) =
    ((ts.map fun t => contents [t]).intersperse [Symbol.content .comma]).flatten := by
  rw [← contents_intersperse]
  cases ts with
  | nil => rfl
  | cons => simp [argumentList]

end Tree

open CoreLang.Tree

@[simp] theorem Constant.contents_tree (c : Constant) : contents [c.tree] = [(c.kind, c.lexeme)] :=
  rfl

@[simp] theorem Constant.contents_subscript (c : Constant) :
    contents c.subscript = Expression.subscriptText c := rfl

namespace Expression

mutual

theorem contents_tree (e : Expression) : contents [e.tree] = e.print := by
  cases e with
  | constant | name | subscript => simp [tree, print]
  | call n arguments => simp [tree, print, contents_treeEach arguments]
  | signed sign e => simp [tree, print, contents_tree e]
  | binary op l r => simp [tree, print, contents_tree l, contents_tree r]
  | power b e => simp [tree, print, contents_tree b, contents_tree e]
  | assign n index? value => cases index? <;> simp [tree, print, contents_tree value]

theorem contents_treeEach (es : List Expression) :
    (treeEach es).map (fun t => contents [t]) = printEach es := by
  cases es with
  | nil => rfl
  | cons e rest =>
    rw [treeEach, printEach, List.map_cons, contents_tree e, contents_treeEach rest]

end

end Expression

/-! The tree stands for the expression. -/
namespace Tree

@[simp] theorem part?_word (c : Kind × String) : (word c).part? = some (.word c) := rfl

@[simp] theorem part?_symbol (k : Kind) : (symbol k).part? = some (.word (Symbol.content k)) := rfl

@[simp] theorem parts?_nil : parts? [] = some [] := rfl

theorem part?_enclosed {t : Tree} {e : Expression} (h : t.part? = some (.value e))
    (least level : Nat) : (t.enclosed least level).part? = some (.value e) := by
  unfold enclosed
  split
  · simp [part?, parts?_cons, h, Part.ofNode, Tier.ofProduction?]
  · exact h

theorem parts?_operands {t : Tree} {e : Expression} (h : t.part? = some (.value e)) (tier : Tier) :
    ∃ first rest, parts? (t.operands tier.production) = some (.value first :: rest) ∧
      tier.join first rest = some e := by
  unfold operands
  split
  · rename_i hp
    cases t with
    | leaf => cases hp
    | node p children =>
      obtain rfl := Option.some.inj hp
      obtain ⟨parts, hparts, hvalue⟩ := Option.bind_eq_some_iff.1 h
      rw [Part.ofNode_production] at hvalue
      match parts, hvalue with
      | .value first :: rest, hvalue =>
        obtain ⟨e', hjoin, he⟩ := Option.map_eq_some_iff.1 hvalue
        cases he
        exact ⟨first, rest, hparts, hjoin⟩
  · exact ⟨e, [], by simp [parts?_cons, h], rfl⟩

end Tree

@[simp] theorem Constant.part?_tree (c : Constant) : c.tree.part? = some (.constant c) := by
  simp [tree, part?, parts?_cons, Part.ofNode, Tier.ofProduction?, c.isConstant]

namespace Expression

theorem parts?_binary (op : Operator) {l r : Tree} {e e' : Expression}
    (hl : l.part? = some (.value e)) (hr : r.part? = some (.value e')) :
    (Tree.node op.tier.production
      (l.operands op.tier.production ++ [.symbol op.kind, r])).part? =
        some (.value (.binary op e e')) := by
  obtain ⟨first, rest, hparts, hjoin⟩ := parts?_operands hl op.tier
  have hlast : parts? [.symbol op.kind, r] =
      some [.word (Symbol.content op.kind), .value e'] := by simp [parts?_cons, hr]
  have hkind : (Symbol.content op.kind).1 ∈ op.tier.operators := op.isOperator
  rw [part?, parts?_append, hparts, hlast]
  change Part.ofNode op.tier.production (.value first :: (rest ++ _)) = _
  rw [Part.ofNode_production, Part.ofTier, Tier.join_append hjoin, Tier.join, dif_pos hkind]
  rfl

theorem parts?_intersperse {ts : List Tree} {parts : List Part} (h : parts? ts = some parts) :
    parts? (ts.intersperse (symbol .comma)) =
      some (parts.intersperse (.word (Symbol.content .comma))) := by
  induction ts generalizing parts with
  | nil => cases h; rfl
  | cons t ts ih =>
    rw [parts?_cons] at h
    obtain ⟨part, hpart, h⟩ := Option.bind_eq_some_iff.1 h
    obtain ⟨more, hmore, rfl⟩ := Option.map_eq_some_iff.1 h
    cases ts with
    | nil => cases hmore; simp [parts?_cons, hpart]
    | cons u ts =>
      obtain ⟨next, rest, rfl⟩ : ∃ next rest, more = next :: rest := by
        rw [parts?_cons] at hmore
        obtain ⟨next, -, h⟩ := Option.bind_eq_some_iff.1 hmore
        obtain ⟨rest, -, rfl⟩ := Option.map_eq_some_iff.1 h
        exact ⟨next, rest, rfl⟩
      rw [List.intersperse_cons_cons, List.intersperse_cons_cons, parts?_cons, parts?_cons,
        ih hmore]
      simp [hpart]

theorem values_intersperse (es : List Expression) (c : Kind × String) :
    Part.values ((es.map .value).intersperse (.word c)) = es := by
  induction es with
  | nil => rfl
  | cons e es ih =>
    cases es with
    | nil => rfl
    | cons =>
      rw [List.map_cons, List.map_cons, List.intersperse_cons_cons, Part.values,
        Part.values_word_cons]
      exact congrArg _ ih

theorem parts?_argumentList {ts : List Tree} {es : List Expression}
    (h : parts? ts = some (es.map .value)) (hne : ts ≠ []) :
    parts? (argumentList ts) = some [.arguments es] := by
  obtain ⟨t, ts, rfl⟩ := List.exists_cons_of_ne_nil hne
  rw [argumentList, parts?_cons, part?, parts?_intersperse h]
  simp [values_intersperse]

mutual

theorem part?_tree (e : Expression) : e.tree.part? = some (.value e) := by
  cases e with
  | constant c => simp [tree, part?, parts?_cons, Part.ofNode, Tier.ofProduction?]
  | name n => simp [tree, part?, parts?_cons, Part.ofNode, Tier.ofProduction?]
  | call n arguments =>
    have hparts := parts?_treeEach arguments
    cases arguments with
    | nil =>
      simp [tree, treeEach, argumentList, part?, parts?_cons, Part.ofNode, Tier.ofProduction?]
    | cons e rest =>
      have harguments := parts?_argumentList hparts nofun
      simp [tree, part?, parts?_cons, parts?_append, harguments, Part.ofNode, Tier.ofProduction?]
  | subscript n index =>
    simp [tree, part?, parts?_cons, Constant.subscript, Part.ofNode, Tier.ofProduction?]
  | signed sign e =>
    have he := part?_enclosed (part?_tree e) 8 e.level
    have hkind := sign.isSign
    simp_all [tree, part?, parts?_cons, Part.ofNode, Tier.ofProduction?, Symbol.content]
  | binary op l r =>
    exact parts?_binary op (part?_enclosed (part?_tree l) _ _) (part?_enclosed (part?_tree r) _ _)
  | power b e =>
    have hb := part?_enclosed (part?_tree b) 8 b.level
    have he := part?_enclosed (part?_tree e) 7 e.level
    simp [tree, part?, parts?_cons, hb, he, Part.ofNode, Tier.ofProduction?]
  | assign n index? value =>
    cases index? <;>
      simp [tree, part?, parts?_cons, Constant.subscript, part?_tree value, Part.ofNode,
        Tier.ofProduction?]

theorem parts?_treeEach (es : List Expression) :
    parts? (treeEach es) = some (es.map .value) := by
  cases es with
  | nil => rfl
  | cons e rest => simp [treeEach, parts?_cons, part?_tree e, parts?_treeEach rest]

end

end Expression
end CoreLang
