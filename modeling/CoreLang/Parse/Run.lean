import CoreLang.Grammar.Statement
import CoreLang.Parse.State

/-! Parsing by forms. -/
namespace CoreLang

/-- How a form ends: with trees, or at an error. A fatal error ends the whole parse. -/
inductive Outcome where
  | done (trees : List Tree) (state : ParserState)
  | stopped (error : SyntaxError) (fatal : Bool) (state : ParserState)
deriving DecidableEq

namespace Outcome

/-- Goes on where the first part ended and joins the trees. -/
def andThen (o : Outcome) (next : ParserState → Outcome) : Outcome :=
  match o with
  | stopped e fatal s => stopped e fatal s
  | done trees s =>
    match next s with
    | stopped e fatal s => stopped e fatal s
    | done more s => done (trees ++ more) s

def mapTrees (f : List Tree → List Tree) : Outcome → Outcome
  | done trees s => done (f trees) s
  | stopped e fatal s => stopped e fatal s

end Outcome

/-- The end of a list of items: the trees of the sound items, and the error that ended the whole
parse, if one did. -/
structure ItemsOutcome where
  trees : List Tree
  fatal? : Option SyntaxError
  state : ParserState
deriving DecidableEq

namespace ParserState

/-- Runs `body` as long as the look holds, for at most `rounds` rounds. -/
def runMany (look : Look) (body : ParserState → Outcome) : Nat → ParserState → Outcome
  | 0, s => .done [] s
  | rounds + 1, s =>
    if look.holds s.tokens then (body s).andThen (runMany look body rounds) else .done [] s

/-- Runs `item` up to a token of the given kinds or the end marker, for at most `rounds` rounds.
After a damaged item the error is recorded and parsing resumes. -/
def runItems (stops : List Kind) (item : ParserState → Outcome) :
    Nat → ParserState → ItemsOutcome
  | 0, s => ⟨[], none, s⟩
  | rounds + 1, s =>
    if s.atEnd ∨ s.current.kind ∈ stops then ⟨[], none, s⟩
    else match item s with
      | .done trees s =>
        let more := runItems stops item rounds s
        { more with trees := trees ++ more.trees }
      | .stopped e false s => runItems stops item rounds (s.record e).resume
      | .stopped e true s => ⟨[], some e, s⟩

end ParserState

/-- Runs a form, given how the nested constructs run. Every round of a repetition reads a token, so
the tokens that are left bound their number. -/
def Form.run (call : Nested → ParserState → Outcome) : Form → ParserState → Outcome
  | token kinds cause, s =>
    if s.current.kind ∈ kinds then
      .done [.leaf (leafLabel s.current.kind) s.current] s.advance
    else .stopped (s.error cause) false s
  | empty, s => .done [] s
  | seq first second, s => (first.run call s).andThen (second.run call)
  | branch look yes no, s => if look.holds s.tokens then yes.run call s else no.run call s
  | many look body, s => s.runMany look (body.run call) s.rest.length
  | node production body, s => (body.run call s).mapTrees fun trees => [.node production trees]
  | suffixed production operand look suffix, s =>
    match operand.run call s with
    | .stopped e fatal s => .stopped e fatal s
    | .done trees s =>
      if look.holds s.tokens then
        (suffix.run call s).mapTrees fun more => [.node production (trees ++ more)]
      else .done trees s
  | nested construct, s => call construct s
  | items stops item, s =>
    let o := s.runItems stops (item.run call) s.rest.length
    match o.fatal? with
    | none => .done o.trees o.state
    | some e => .stopped e true o.state
  | abandon cause, s => .stopped (s.error cause) true s

/-- Runs a nested construct with so many levels free. Without a free level the parse ends. -/
def Nested.run : Nat → Nested → ParserState → Outcome
  | 0, _, s => .stopped (s.error .tooDeep) true s
  | levels + 1, construct, s => (Grammar.rule construct).run (Nested.run levels) s

end CoreLang
