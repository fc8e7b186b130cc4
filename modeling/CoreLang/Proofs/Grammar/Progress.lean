import CoreLang.Grammar.Statement

/-! What the rules promise about the tokens they read. The promises are checked on the rules by
computation, and what follows from them holds for every run. -/
namespace CoreLang
open Form

/-- A look that never holds at an end marker. -/
def Look.needsToken : Look → Bool
  | sees _ kinds => .endMarker ∉ kinds
  | both a b => a.needsToken || b.needsToken
  | not _ => false
  | assignment => true
  | unclosedSubscript => true

theorem Look.holds_eq_false {look : Look} {t : Token} {rest : List Token}
    (h : look.needsToken = true) (hk : t.kind = .endMarker) :
    look.holds (t :: rest) = false := by
  induction look with
  | sees ahead kinds => cases ahead <;> simpa [holds, kindAhead, hk, needsToken] using h
  | both a b iha ihb =>
    rcases Bool.or_eq_true_iff.1 h with h | h
    · simp [holds, iha h]
    · simp [holds, ihb h]
  | not a => cases h
  | assignment => simp [holds, kindAhead, hk]
  | unclosedSubscript => simp [holds, kindAhead, hk]

namespace Form

/-- The form reads a token wherever it is not stopped. -/
def reads : Form → Bool
  | token _ _ => true
  | empty => false
  | seq first second => first.reads || second.reads
  | branch _ yes no => yes.reads && no.reads
  | many _ _ => false
  | node _ body => body.reads
  | suffixed _ operand _ _ => operand.reads
  | nested _ => true
  | items _ _ => false
  | abandon _ => true

/-- A token comes first, and the form itself reads it. -/
def headed : Form → Bool
  | token _ _ => true
  | seq first _ => first.headed
  | branch _ yes no => yes.headed && no.headed
  | node _ body => body.headed
  | suffixed _ operand _ _ => operand.headed
  | _ => false

/-- No list of items comes before the first token. -/
def grounded : Form → Bool
  | seq first second => first.grounded && (first.reads || second.grounded)
  | branch _ yes no => yes.grounded && no.grounded
  | many _ body => body.grounded
  | node _ body => body.grounded
  | suffixed _ operand _ suffix => operand.grounded && (operand.reads || suffix.grounded)
  | items _ _ => false
  | _ => true

/-- The form reads neither an end marker nor a faulty token, and what it repeats reads a token. -/
def proper : Form → Bool
  | token kinds _ => kinds.all fun kind => kind ≠ .endMarker && !kind.isError
  | empty => true
  | seq first second => first.proper && second.proper
  | branch _ yes no => yes.proper && no.proper
  | many look body => look.needsToken && body.reads && body.proper
  | node _ body => body.proper
  | suffixed _ operand _ suffix => operand.proper && suffix.proper
  | nested _ => true
  | items _ item => item.reads && item.grounded && item.proper
  | abandon _ => true

theorem reads_of_headed {form : Form} (h : form.headed = true) : form.reads = true := by
  induction form with
  | token => rfl
  | seq first second ih => exact Bool.or_eq_true_iff.2 (.inl (ih h))
  | branch look yes no ih ih' =>
    obtain ⟨h₁, h₂⟩ := Bool.and_eq_true_iff.1 h
    exact Bool.and_eq_true_iff.2 ⟨ih h₁, ih' h₂⟩
  | node _ _ ih | suffixed _ _ _ _ ih => exact ih h
  | empty | many | nested | items | abandon => cases h

theorem rule_reads (c : Nested) : (Grammar.rule c).reads = true := by cases c <;> rfl

theorem rule_grounded (c : Nested) : (Grammar.rule c).grounded = true := by cases c <;> rfl

theorem rule_proper (c : Nested) : (Grammar.rule c).proper = true := by cases c <;> decide

end Form

/-- The items of a whole program. -/
def Grammar.program : Form := .items [] declaration

theorem Grammar.declaration_headed : declaration.headed = true := rfl

theorem Grammar.program_proper : program.proper = true := by decide

end CoreLang
