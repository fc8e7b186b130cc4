import CoreLang.Proofs.Expression.Syntax
import CoreLang.Proofs.Grammar.Alike

/-! The expression that a concrete tree stands for. The operands of a run of operators are joined
from the left, powers and assignments stay as they are nested, and parentheses are dropped. -/
namespace CoreLang

/-- What a child of a node contributes to it. -/
inductive Part where
  | word (content : Kind × String)
  | constant (c : Constant)
  | value (e : Expression)
  | arguments (es : List Expression)
  /-- A declaration of a name with an initializer. -/
  | initialized (n : String) (e : Expression)

namespace Tier

def production : Tier → Production
  | logicalOr => .logicalOr
  | logicalAnd => .logicalAnd
  | equality => .equality
  | relational => .relational
  | additive => .additive
  | multiplicative => .multiplicative

def ofProduction? : Production → Option Tier
  | .logicalOr => some logicalOr
  | .logicalAnd => some logicalAnd
  | .equality => some equality
  | .relational => some relational
  | .additive => some additive
  | .multiplicative => some multiplicative
  | _ => none

def join (tier : Tier) (first : Expression) : List Part → Option Expression
  | [] => some first
  | .word c :: .value next :: rest =>
    if h : c.1 ∈ tier.operators then tier.join (.binary ⟨tier, c.1, h⟩ first next) rest else none
  | _ => none

theorem join_append {tier : Tier} {first e : Expression} {parts : List Part}
    (h : tier.join first parts = some e) (more : List Part) :
    tier.join first (parts ++ more) = tier.join e more := by
  fun_induction tier.join first parts with
  | case1 first =>
    obtain rfl := Option.some.inj h
    rfl
  | case2 first c next rest hc ih =>
    rw [List.cons_append, List.cons_append, join, dif_pos hc]
    exact ih h
  | case3 | case4 => cases h

end Tier

namespace Part

/-- The values of arguments that stand between commas. -/
def values : List Part → List Expression
  | [] => []
  | .value e :: rest => e :: values rest
  | _ :: rest => values rest

theorem values_word_cons (c : Kind × String) (parts : List Part) :
    values (.word c :: parts) = values parts := rfl

/-- What a node of operators of one level contributes. -/
def ofTier (tier : Tier) : List Part → Option Part
  | .value first :: rest => (tier.join first rest).map .value
  | _ => none

def ofNode (p : Production) (parts : List Part) : Option Part :=
  match Tier.ofProduction? p with
  | some tier => ofTier tier parts
  | none =>
    match p, parts with
    | .const, [.word c] =>
      if h : c.1 ∈ Kind.constants then some (.constant ⟨c.1, c.2, h⟩) else none
    | .factor, [.constant c] => some (.value (.constant c))
    | .factor, [.word n] => some (.value (.name n.2))
    | .factor, [.word _, .value e, .word _] => some (.value e)
    | .factor, [.word n, .word _, .word _] => some (.value (.call n.2 []))
    | .factor, [.word n, .word _, .arguments es, .word _] => some (.value (.call n.2 es))
    | .factor, [.word n, .word _, .constant c, .word _] => some (.value (.subscript n.2 c))
    | .argumentList, parts => some (.arguments (values parts))
    | .unary, [.word c, .value e] =>
      if h : c.1 ∈ [Kind.not, .plus, .minus] then some (.value (.signed ⟨c.1, h⟩ e)) else none
    | .exponent, [.value b, .word _, .value e] => some (.value (.power b e))
    | .assignment, [.word n, .word _, .value e] => some (.value (.assign n.2 none e))
    | .assignment, [.word n, .word _, .constant c, .word _, .word _, .value e] =>
      some (.value (.assign n.2 (some c) e))
    | .dataType, [.word c] => some (.word c)
    | .variableDeclaration, [.word _, .word n, .word _, .value e, .word _] =>
      some (.initialized n.2 e)
    | .declaration, [.initialized n e] | .program, [.initialized n e] => some (.initialized n e)
    | _, _ => none

@[simp] theorem ofNode_production (tier : Tier) (parts : List Part) :
    ofNode tier.production parts = ofTier tier parts := by cases tier <;> rfl

@[simp] theorem ofNode_argumentList (parts : List Part) :
    ofNode .argumentList parts = some (.arguments (values parts)) := rfl

end Part

namespace Tree

mutual

def part? : Tree → Option Part
  | leaf _ t => some (.word t.content)
  | node p children => (parts? children).bind (Part.ofNode p)

def parts? : List Tree → Option (List Part)
  | [] => some []
  | t :: rest =>
    match t.part?, parts? rest with
    | some part, some parts => some (part :: parts)
    | _, _ => none

end

theorem parts?_cons (t : Tree) (ts : List Tree) :
    parts? (t :: ts) = t.part?.bind fun part => (parts? ts).map (part :: ·) := by
  rw [parts?]
  cases t.part? <;> cases parts? ts <;> rfl

theorem parts?_append (ts us : List Tree) :
    parts? (ts ++ us) = (parts? ts).bind fun parts => (parts? us).map (parts ++ ·) := by
  induction ts with
  | nil => simp [parts?]
  | cons t ts ih =>
    rw [List.cons_append, parts?_cons, parts?_cons, ih]
    cases t.part? <;> cases parts? ts <;> cases parts? us <;> rfl

/-- The parts are those of the contents of the tokens. -/
theorem Alike.parts? {R : Token → Token → Prop} (hcontent : ∀ t u, R t u → t.content = u.content)
    {ts us : List Tree} (h : Alike R ts us) : Tree.parts? ts = Tree.parts? us := by
  induction h with
  | nil => rfl
  | leaf htoken _ ih => rw [parts?_cons, parts?_cons, part?, part?, hcontent _ _ htoken, ih]
  | node _ _ ih ih' => rw [parts?_cons, parts?_cons, part?, part?, ih, ih']

/-- The name and the initializer in the tree of a program that declares one variable. -/
def initializer? (t : Tree) : Option (String × Expression) :=
  match t.part? with
  | some (.initialized n e) => some (n, e)
  | _ => none

end Tree
end CoreLang
