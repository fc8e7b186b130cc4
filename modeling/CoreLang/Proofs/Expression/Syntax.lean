import CoreLang.Grammar.Declaration
import CoreLang.Token.Symbol

/-! Expressions without the marks that group them, and their text with as few parentheses as the
levels of the operators allow. Nothing here is taken from the rules that the parser runs. -/
namespace CoreLang

def Symbol.content (k : Kind) : Kind × String :=
  (k, ((table.find? (·.2 = k)).map fun entry => String.ofList entry.1).getD "")

/-- The levels of operators that associate to the left, from the loosest to the tightest. -/
inductive Tier where
  | logicalOr | logicalAnd | equality | relational | additive | multiplicative
deriving DecidableEq

namespace Tier

def operators : Tier → List Kind
  | logicalOr => [.or]
  | logicalAnd => [.and]
  | equality => [.equal, .notEqual]
  | relational => [.less, .lessEqual, .greater, .greaterEqual]
  | additive => [.plus, .minus]
  | multiplicative => [.multiply, .divide, .modulo]

/-- How tight the operators bind. Assignment is looser, and powers are tighter. -/
def level : Tier → Nat
  | logicalOr => 1
  | logicalAnd => 2
  | equality => 3
  | relational => 4
  | additive => 5
  | multiplicative => 6

end Tier

/-- An operator of one of these levels. -/
structure Operator where
  tier : Tier
  kind : Kind
  isOperator : kind ∈ tier.operators
deriving DecidableEq

/-- An operator that stands before its operand. -/
structure Sign where
  kind : Kind
  isSign : kind ∈ [Kind.not, .plus, .minus]
deriving DecidableEq

/-- A literal number or character, or a truth value, as it is written. -/
structure Constant where
  kind : Kind
  lexeme : String
  isConstant : kind ∈ Kind.constants
deriving DecidableEq

inductive Expression where
  | constant (c : Constant)
  | name (n : String)
  | call (n : String) (arguments : List Expression)
  | subscript (n : String) (index : Constant)
  | signed (sign : Sign) (operand : Expression)
  | binary (op : Operator) (left right : Expression)
  | power (base exponent : Expression)
  /-- The target is a name, or a name with a subscript. -/
  | assign (n : String) (index? : Option Constant) (value : Expression)

namespace Expression

/-- The levels, from assignment, which binds loosest, to names and constants. -/
def level : Expression → Nat
  | assign _ _ _ => 0
  | binary op _ _ => op.tier.level
  | power _ _ => 7
  | signed _ _ => 8
  | constant _ | name _ | call _ _ | subscript _ _ => 9

/-- The text of an expression of a level, at a place for levels from `least` on. -/
def enclosed (least level : Nat) (text : List (Kind × String)) : List (Kind × String) :=
  if level < least then
    Symbol.content .leftParenthesis :: text ++ [Symbol.content .rightParenthesis]
  else text

def subscriptText (c : Constant) : List (Kind × String) :=
  [Symbol.content .leftBracket, (c.kind, c.lexeme), Symbol.content .rightBracket]

mutual

/-- The contents of the tokens of an expression. An operator that associates to the left takes an
expression of its own level on the left and tighter ones on the right. A sign and the left side of a
power take those from the level of signs on, 8, and the right side of a power those from the level
of powers on, 7. -/
def print : Expression → List (Kind × String)
  | constant c => [(c.kind, c.lexeme)]
  | name n => [(.identifier, n)]
  | call n arguments =>
    (.identifier, n) :: Symbol.content .leftParenthesis ::
      ((printEach arguments).intersperse [Symbol.content .comma]).flatten ++
        [Symbol.content .rightParenthesis]
  | subscript n index => (.identifier, n) :: subscriptText index
  | signed sign e => Symbol.content sign.kind :: enclosed 8 e.level e.print
  | binary op l r =>
    enclosed op.tier.level l.level l.print ++
      Symbol.content op.kind :: enclosed (op.tier.level + 1) r.level r.print
  | power b e =>
    enclosed 8 b.level b.print ++ Symbol.content .exponent :: enclosed 7 e.level e.print
  | assign n index? value =>
    (.identifier, n) :: (index?.map subscriptText).getD [] ++ Symbol.content .assign :: value.print

def printEach : List Expression → List (List (Kind × String))
  | [] => []
  | e :: rest => e.print :: printEach rest

end

/-- The levels of nesting that parentheses open at a place for levels from `least` on. -/
def parentheses (least level : Nat) : Nat := if level < least then 1 else 0

mutual

/-- The greatest number of levels of nesting that are open at one time inside an expression. The
operand of a sign, the exponent, every argument, the assigned value and the inside of parentheses
open a level each. -/
def nesting : Expression → Nat
  | constant _ | name _ | subscript _ _ => 0
  | call _ arguments => nestingEach arguments
  | signed _ e => parentheses 8 e.level + e.nesting + 1
  | binary op l r =>
    max (parentheses op.tier.level l.level + l.nesting)
      (parentheses (op.tier.level + 1) r.level + r.nesting)
  | power b e =>
    max (parentheses 8 b.level + b.nesting) (parentheses 7 e.level + e.nesting + 1)
  | assign _ _ value => value.nesting + 1

def nestingEach : List Expression → Nat
  | [] => 0
  | e :: rest => max (e.nesting + 1) (nestingEach rest)

end

def declaration (type : Kind × String) (declared : String) (e : Expression) :
    List (Kind × String) :=
  type :: (.identifier, declared) :: Symbol.content .assign :: e.print ++
    [Symbol.content .semicolon]

end Expression
end CoreLang
