import CoreLang.Grammar.Form

/-! Expressions, from the tightest level to the loosest. -/
namespace CoreLang.Grammar
open Form

/-- A literal number or character, `true` or `false`. -/
def constant (cause : Cause) : Form := node .const (token Kind.constants cause)

def subscript : Form := all [one .leftBracket, constant .subscript, one .rightBracket]

def arguments : Form := node .argumentList (commaSeparated (nested .expression))

def name : Form :=
  seq (one .identifier)
    (branch (.sees 0 [.leftParenthesis])
      (all [one .leftParenthesis,
        branch (.sees 0 [.rightParenthesis]) empty arguments,
        one .rightParenthesis])
      (optional (.sees 0 [.leftBracket]) subscript))

def parenthesized : Form :=
  all [one .leftParenthesis, nested .expression, one .rightParenthesis]

def factor : Form :=
  node .factor
    (byKind (constant .factor) [(.identifier, name), (.leftParenthesis, parenthesized)])

def signs : List Kind := [.not, .plus, .minus]

def unary : Form :=
  branch (.sees 0 signs) (node .unary (seq (token signs .factor) (nested .unary))) factor

/-- Powers associate to the right. -/
def power : Form :=
  suffixed .exponent unary (.sees 0 [.exponent]) (seq (one .exponent) (nested .power))

def multiplicative : Form :=
  leftAssociative .multiplicative [.multiply, .divide, .modulo] power

def additive : Form := leftAssociative .additive [.plus, .minus] multiplicative

def relational : Form :=
  leftAssociative .relational [.less, .lessEqual, .greater, .greaterEqual] additive

def equality : Form := leftAssociative .equality [.equal, .notEqual] relational

def logicalAnd : Form := leftAssociative .logicalAnd [.and] equality

def logicalOr : Form := leftAssociative .logicalOr [.or] logicalAnd

/-- A value is assigned to a name or to a name with a subscript. -/
def assignment : Form :=
  node .assignment
    (all [one .identifier, optional (.sees 0 [.leftBracket]) subscript, one .assign,
      nested .expression])

/-- Assignment associates to the right. To tell it from the other expressions the parser looks for
the end of a subscript, and gives up when there is none. -/
def expression : Form :=
  branch .unclosedSubscript (abandon .unclosedSubscript)
    (branch .assignment assignment logicalOr)

end CoreLang.Grammar
