/-! What the arguments of the command ask for. -/
namespace CoreLang.Command

structure Options where
  file : String
  outDir : String
  tokensOnly : Bool
deriving DecidableEq

inductive Request where
  | run (options : Options)
  /-- A text to show, and no more. -/
  | answer (text : String)
deriving DecidableEq

/-- What reads the arguments. It gives a request, or else what is said to arguments that are
refused. -/
structure CommandLine where
  request : List String → Except String Request
  usage : String

end CoreLang.Command
