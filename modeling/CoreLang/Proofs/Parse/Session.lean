import CoreLang.Proofs.Parse.Trace

/-! Several questions to one parser. Its first parse reads all that there is, so later ones find an
empty program, and only the panic of the first one stays. -/
namespace CoreLang

namespace Parse

/-- What can be asked of a parser. -/
inductive Question where
  | parse
  | parseProgram
  /-- The result of a parse. -/
  | intoResult
  | inPanic
deriving DecidableEq

inductive Answer where
  | parse (p : Parse)
  | result (r : Except ParseFailure Tree)
  | panic (panicked : Bool)

def Question.parses : Question → Bool
  | .inPanic => false
  | _ => true

def answer (p : Parse) : Question → Answer
  | .parse => .parse p
  | .parseProgram | .intoResult => .result p.result
  | .inPanic => .panic p.panicked

/-- A parse of no tokens at all. -/
def empty (panicked : Bool) : Parse := ⟨.node .program [], [], panicked⟩

theorem result_empty (panicked : Bool) :
    (empty panicked).result = if panicked then .error ⟨[]⟩ else .ok (.node .program []) := by
  cases panicked <;> rfl

end Parse

namespace ParserState

def ask (s : ParserState) (q : Parse.Question) : Parse.Answer × ParserState :=
  if q.parses then (s.parse.1.answer q, s.parse.2) else (.panic s.panic, s)

/-- The answers to questions that are asked one after another. -/
def session (s : ParserState) : List Parse.Question → List Parse.Answer
  | [] => []
  | q :: rest => (s.ask q).1 :: (s.ask q).2.session rest

/-- At the end marker there is nothing to parse. -/
theorem parse_of_atEnd {s : ParserState} (he : s.atEnd = true) (herrors : s.errors = []) :
    s.parse = (.empty s.panic, s) := by
  have hitems : s.runItems [] (Grammar.declaration.run (Nested.run Limits.nesting)) s.rest.length =
      ⟨[], none, s⟩ := by
    cases s.rest.length with
    | zero => rfl
    | succ rounds => rw [runItems, if_pos (.inl he)]
  obtain ⟨current, rest, index, panic, errors⟩ := s
  obtain rfl : errors = [] := herrors
  simp only [parse, program, hitems, Parse.empty]

theorem session_of_atEnd {s : ParserState} (he : s.atEnd = true) (herrors : s.errors = [])
    (questions : List Parse.Question) :
    s.session questions = questions.map (Parse.empty s.panic).answer := by
  induction questions with
  | nil => rfl
  | cons q rest ih =>
    have hask : s.ask q = ((Parse.empty s.panic).answer q, s) := by
      rw [ask, parse_of_atEnd he herrors]
      cases q <;> rfl
    rw [session, hask, ih, List.map_cons]

/-- A new parser has not panicked. From its first parse on it is spent: that parse tells all there
is, and each later one gives an empty program, without errors, but in the same panic. So later the
empty program is accepted, unless the first parse ended in panic. -/
theorem session_eq (tokens : List Token) (questions : List Parse.Question) :
    ((ofTokens tokens).session questions =
      (questions.takeWhile (!·.parses)).map (fun _ => .panic false) ++
        match questions.dropWhile (!·.parses) with
        | [] => []
        | first :: later => (Parse.ofTokens tokens).answer first ::
            later.map (Parse.empty (Parse.ofTokens tokens).panicked).answer) ∧
      (Parse.empty (Parse.ofTokens tokens).panicked).result =
        if (Parse.ofTokens tokens).panicked then .error ⟨[]⟩ else .ok (.node .program []) := by
  refine ⟨?_, Parse.result_empty _⟩
  induction questions with
  | nil => rfl
  | cons q rest ih =>
    rw [session, ask]
    cases hq : q.parses with
    | false => simp [hq, ih]
    | true =>
      have hrest := session_of_atEnd (atEnd_parse (ofTokens_closed tokens)) rfl rest
      simp only [hq, Bool.not_true, Bool.false_eq_true, not_false_eq_true,
        List.takeWhile_cons_of_neg, List.dropWhile_cons_of_neg, List.map_nil, List.nil_append,
        if_true, hrest]
      rfl

end ParserState
end CoreLang
