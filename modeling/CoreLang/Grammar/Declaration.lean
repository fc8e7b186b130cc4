import CoreLang.Grammar.Expression

/-! Declarations of variables, arrays and functions. -/
namespace CoreLang.Grammar
open Form

def dataType : Form := node .dataType (token Kind.dataTypes .dataType)

/-- A declared name and the value it may be given. -/
def declarator : Form :=
  seq (one .identifier)
    (optional (.sees 0 [.assign]) (seq (one .assign) (nested .expression)))

def variableDeclaration : Form :=
  node .variableDeclaration (all [dataType, commaSeparated declarator, one .semicolon])

def arrayValues : Form :=
  all [one .assign, one .leftBrace, branch (.sees 0 [.rightBrace]) empty arguments,
    one .rightBrace]

def arrayDeclaration : Form :=
  node .arrayDeclaration
    (all [dataType, one .identifier, one .leftBracket,
      optional (.sees 0 Kind.constants) (constant .subscript), one .rightBracket,
      optional (.sees 0 [.assign]) arrayValues, one .semicolon])

/-- `void` alone, parameters with their types, or nothing. -/
def parameters : Form :=
  node .parameterList
    (branch (.sees 0 [.voidKeyword]) (one .voidKeyword)
      (optional (.sees 0 Kind.dataTypes) (commaSeparated (seq dataType (one .identifier)))))

def functionDeclaration : Form :=
  node .functionDeclaration
    (all [dataType, one .identifier, one .leftParenthesis, parameters, one .rightParenthesis,
      branch (.sees 0 [.leftBrace]) (nested .block) (one .semicolon)])

/-- A declaration inside a block. The token after the name tells arrays from variables. -/
def localDeclaration : Form :=
  branch (.sees 2 [.leftBracket]) arrayDeclaration variableDeclaration

def declaration : Form :=
  node .declaration
    (branch (.sees 2 [.leftParenthesis]) functionDeclaration localDeclaration)

end CoreLang.Grammar
