import CoreLang.Tree

/-! Trees as indented text. -/
namespace CoreLang.Tree

/-- The labels of the leaves that name data types. -/
def typeLabels : List String := ["int", "float", "char", "bool"]

/-- A leaf as text: a string without quotes, a keyword as it was written, and any other token with
the name of its kind. -/
def leafText (label : String) (t : Token) : String :=
  if t.kind = .string then t.kind.name ++ ": " ++ t.lexeme
  else if t.kind.isKeyword ∨ label ∈ typeLabels then t.lexeme
  else t.kind.name ++ ": \"" ++ t.lexeme ++ "\""

def indent (depth : Nat) : String := String.ofList (List.replicate (2 * depth) ' ')

mutual

/-- A tree as text, without a line break at the end. The children of a node stand below it, one
level deeper, with a comma after each but the last. -/
def outlineAt (depth : Nat) : Tree → String
  | leaf label token => indent depth ++ leafText label token
  | node production [] => indent depth ++ production.name ++ "()"
  | node production (first :: rest) =>
    indent depth ++ production.name ++ "(\n" ++ outlineAt (depth + 1) first ++
      outlineAll (depth + 1) rest ++ "\n" ++ indent depth ++ ")"

def outlineAll (depth : Nat) : List Tree → String
  | [] => ""
  | t :: rest => ",\n" ++ outlineAt depth t ++ outlineAll depth rest

end

def outline (t : Tree) : String := t.outlineAt 0

end CoreLang.Tree
