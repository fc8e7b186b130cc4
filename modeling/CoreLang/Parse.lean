import CoreLang.Parse.Run
import CoreLang.Source.Lexed

/-! Parsing whole programs. -/
namespace CoreLang

/-- The result of one parse. The tree holds whatever was read, also after errors. -/
structure Parse where
  root : Tree
  errors : List SyntaxError
  /-- The parser had not found back from an error when the tokens ended. -/
  panicked : Bool
deriving DecidableEq

structure ParseFailure where
  errors : List SyntaxError
deriving DecidableEq

instance : ToString ParseFailure where
  toString f :=
    s!"Parsing failed with {f.errors.length} error(s)" ++
      match f.errors with
      | [] => ""
      | first :: _ => s!"; first: {first}"

namespace Parse

/-- The tree, unless the parse ended in panic. -/
def tree? (p : Parse) : Option Tree := if p.panicked then none else some p.root

def successful (p : Parse) : Bool := !p.panicked && p.errors.isEmpty

/-- The tree of a successful parse, or else the errors. -/
def result (p : Parse) : Except ParseFailure Tree :=
  if p.successful then .ok p.root else .error ⟨p.errors⟩

end Parse

namespace ParserState

/-- Reads declarations up to the end marker. An error that ends the parse keeps the declarations
before it. -/
def program (s : ParserState) : Tree × ParserState :=
  let o := s.runItems [] (Grammar.declaration.run (Nested.run Limits.nesting)) s.rest.length
  let s :=
    match o.fatal? with
    | none => o.state
    | some e => o.state.giveUp e
  (.node .program o.trees, s)

/-- Parses the tokens that are left. The errors go with the result; the place in the tokens and the
panic stay. -/
def parse (s : ParserState) : Parse × ParserState :=
  let (root, s) := s.program
  (⟨root, s.errors, s.panic⟩, { s with errors := [] })

end ParserState

namespace Parse

def ofTokens (tokens : List Token) : Parse := (ParserState.ofTokens tokens).parse.1

def ofSource (source : String) : Parse := ofTokens (Lexed.ofSource source).tokens

end Parse
end CoreLang
