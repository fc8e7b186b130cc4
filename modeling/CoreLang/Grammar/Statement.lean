import CoreLang.Grammar.Declaration

/-! Statements and blocks. -/
namespace CoreLang.Grammar
open Form

def guardedBlock : Form :=
  all [one .leftParenthesis, nested .expression, one .rightParenthesis, nested .block]

def returnStatement : Form :=
  node .returnStatement
    (all [one .returnKeyword, branch (.sees 0 [.semicolon]) empty (nested .expression),
      one .semicolon])

def elseClause (body : Nested) : Form := node .elseClause (seq (one .elseKeyword) (nested body))

/-- Any number of `else` blocks may follow, and one `else if` at the very end. -/
def ifStatement : Form :=
  node .ifStatement
    (all [one .ifKeyword, guardedBlock,
      many (.both (.sees 0 [.elseKeyword]) (.not (.sees 1 [.ifKeyword]))) (elseClause .block),
      optional (.sees 0 [.elseKeyword]) (elseClause .ifStatement)])

def whileStatement : Form := node .whileStatement (seq (one .whileKeyword) guardedBlock)

/-- The header has three clauses. A declaration in the first one brings its own semicolon. -/
def forStatement : Form :=
  node .forStatement
    (all [one .forKeyword, one .leftParenthesis,
      branch (.sees 0 Kind.dataTypes) localDeclaration (seq (nested .expression) (one .semicolon)),
      nested .expression, one .semicolon, nested .expression, one .rightParenthesis,
      nested .block])

def inputStatement : Form :=
  node .inputStatement
    (all [one .scanfKeyword, one .leftParenthesis, one .string,
      many (.sees 0 [.comma]) (all [one .comma, one .ampersand, one .identifier]),
      one .rightParenthesis, one .semicolon])

def outputStatement : Form :=
  node .outputStatement
    (all [one .printfKeyword, one .leftParenthesis,
      branch (.sees 0 [.string])
        (seq (one .string) (many (.sees 0 [.comma]) (seq (one .comma) (nested .expression))))
        (token [.identifier] .printfArgument),
      one .rightParenthesis, one .semicolon])

def expressionStatement : Form :=
  node .expressionStatement (seq (nested .expression) (one .semicolon))

def statement : Form :=
  node .statement
    (byKind expressionStatement
      [(.returnKeyword, returnStatement), (.ifKeyword, ifStatement),
       (.whileKeyword, whileStatement), (.forKeyword, forStatement),
       (.scanfKeyword, inputStatement), (.printfKeyword, outputStatement),
       (.semicolon, one .semicolon), (.leftBrace, nested .block)])

def blockItem : Form :=
  node .blockItem (branch (.sees 0 Kind.dataTypes) localDeclaration statement)

/-- Damage in a block costs only the items it touches. -/
def block : Form :=
  node .block
    (all [one .leftBrace, node .blockItemList (items [.rightBrace] blockItem), one .rightBrace])

/-- The rule of each construct that opens a level of nesting. -/
def rule : Nested → Form
  | .expression => expression
  | .power => power
  | .unary => unary
  | .block => block
  | .ifStatement => ifStatement

end CoreLang.Grammar
