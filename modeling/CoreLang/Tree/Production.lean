/-! The productions that name the inner nodes of a tree. -/
namespace CoreLang

inductive Production where
  | program | declaration | variableDeclaration | arrayDeclaration | functionDeclaration
  | parameterList | dataType | argumentList
  | block | blockItemList | blockItem | statement
  | expressionStatement | returnStatement | ifStatement | elseClause
  | whileStatement | forStatement | inputStatement | outputStatement
  | assignment | logicalOr | logicalAnd | equality | relational | additive | multiplicative
  | exponent | unary | factor | const
deriving DecidableEq

namespace Production

def all : List Production :=
  [.program, .declaration, .variableDeclaration, .arrayDeclaration, .functionDeclaration,
   .parameterList, .dataType, .argumentList,
   .block, .blockItemList, .blockItem, .statement,
   .expressionStatement, .returnStatement, .ifStatement, .elseClause,
   .whileStatement, .forStatement, .inputStatement, .outputStatement,
   .assignment, .logicalOr, .logicalAnd, .equality, .relational, .additive, .multiplicative,
   .exponent, .unary, .factor, .const]

def name : Production → String
  | program => "Program"
  | declaration => "Declaration"
  | variableDeclaration => "Variable_Declaration"
  | arrayDeclaration => "Array_Declaration"
  | functionDeclaration => "Function_Declaration"
  | parameterList => "Parameter_List"
  | dataType => "Data_Type"
  | argumentList => "Argument_List"
  | block => "Block"
  | blockItemList => "Block_Item_List"
  | blockItem => "Block_Item"
  | statement => "Statement"
  | expressionStatement => "Expression_Statement"
  | returnStatement => "Return_Statement"
  | ifStatement => "If_Statement"
  | elseClause => "Else_Clause"
  | whileStatement => "While_Statement"
  | forStatement => "For_Statement"
  | inputStatement => "Input_Statement"
  | outputStatement => "Output_Statement"
  | assignment => "Assignment"
  | logicalOr => "Logical_Or"
  | logicalAnd => "Logical_And"
  | equality => "Equality"
  | relational => "Relational"
  | additive => "Additive"
  | multiplicative => "Multiplicative"
  | exponent => "Exponent"
  | unary => "Unary_Exp"
  | factor => "Factor"
  | const => "Const"

def ofName? (s : String) : Option Production := all.find? (·.name = s)

theorem ofName?_name (p : Production) : ofName? p.name = some p := by cases p <;> decide

end Production
end CoreLang
