import CoreLang.Proofs.Parse.Carried

/-! A run does not depend on the tokens that were read before it. Behind more tokens the same run
finds the same errors, each with so many more tokens before it. -/
namespace CoreLang

def SyntaxError.later (e : SyntaxError) (before : Nat) : SyntaxError :=
  { e with index := e.index + before }

def Stop.later (stop : Stop) (before : Nat) : Stop := ⟨stop.error.later before, stop.fatal⟩

namespace ParserState

def later (s : ParserState) (before : Nat) : ParserState :=
  { s with index := s.index + before, errors := s.errors.map (·.later before) }

section
variable (s : ParserState) (before : Nat)

@[simp] theorem later_atEnd : (s.later before).atEnd = s.atEnd := rfl

theorem later_record (e : SyntaxError) :
    (s.later before).record (e.later before) = (s.record e).later before := by
  simp [record, later]

theorem later_next (t : Token) (rest : List Token) :
    { s.later before with current := t, rest := rest, index := (s.later before).index + 1 } =
      { s with current := t, rest := rest, index := s.index + 1 }.later before := by
  simp [later, Nat.add_right_comm]

end

end ParserState

theorem carries_later (before : Nat) :
    Carries (·.later before) (·.later before) where
  current _ := rfl
  holds _ _ := rfl
  error _ _ := rfl
  record s e := s.later_record before e
  panic _ _ := rfl
  next {s t rest} _ hr := ⟨rest, hr, s.later_next before t rest⟩
  last hr := hr

theorem Form.Runs.later {n : Nat} {form : Form} {s s' : ParserState} {ts : List Tree}
    {stop : Option Stop} (h : form.Runs n s ts stop s') (before : Nat) :
    form.Runs n (s.later before) ts (stop.map (·.later before)) (s'.later before) :=
  (carries_later before).runs h

end CoreLang
