import CoreLang.Grammar.Derivation
import CoreLang.Proofs.Grammar.Progress

/-! The kinds of tokens that forms begin with. They are worked out on the rules, and every tree of
the grammar keeps to them. -/
namespace CoreLang

theorem Tree.leavesAll_append (ts us : List Tree) :
    leavesAll (ts ++ us) = leavesAll ts ++ leavesAll us := by
  simp only [leavesAll_eq_flatMap, List.flatMap_append]

@[simp] theorem Tree.leavesAll_nil : leavesAll [] = [] := rfl

@[simp] theorem Tree.leavesAll_leaf (label : String) (t : Token) (ts : List Tree) :
    leavesAll (leaf label t :: ts) = t :: leavesAll ts := rfl

@[simp] theorem Tree.leavesAll_node (p : Production) (ts : List Tree) :
    leavesAll [node p ts] = leavesAll ts := by simp [leavesAll, leaves]

@[simp] theorem Tree.leavesAll_node_cons (p : Production) (ts us : List Tree) :
    leavesAll (node p ts :: us) = leavesAll ts ++ leavesAll us := rfl

/-- A token of the kind, for places where any token does. -/
def Kind.token (k : Kind) : Token := ⟨k, "", .start⟩

/-- The kinds of the tokens that a nested construct begins with. -/
def Nested.starts : Nested → List Kind
  | .expression | .power | .unary =>
    .identifier :: .leftParenthesis :: Grammar.signs ++ Kind.constants
  | .block => [.leftBrace]
  | .ifStatement => [.ifKeyword]

namespace Form

/-- The kinds of the tokens that the form begins with, if it reads any. -/
def starts : Form → List Kind
  | token kinds _ => kinds
  | empty => []
  | seq first second => first.starts ++ if first.reads then [] else second.starts
  | branch _ yes no => yes.starts ++ no.starts
  | many _ body => body.starts
  | node _ body => body.starts
  | suffixed _ operand _ suffix => operand.starts ++ if operand.reads then [] else suffix.starts
  | nested c => c.starts
  | items _ item => item.starts
  | abandon _ => []

/-- The kinds of the next token, if a token of the kinds `follow` comes after the form. -/
def head (form : Form) (follow : List Kind) : List Kind :=
  form.starts ++ if form.reads then [] else follow

theorem rule_starts (c : Nested) : (Grammar.rule c).starts ⊆ c.starts := by cases c <;> decide

namespace Derives
variable {form : Form} {depth : Nat} {ts : List Tree}

theorem leaves_eq_nil_or (h : form.Derives depth ts) :
    Tree.leavesAll ts = [] ∧ form.reads = false ∨
      ∃ t rest, Tree.leavesAll ts = t :: rest ∧ t.kind ∈ form.starts := by
  induction h with
  | token hk => exact .inr ⟨_, _, rfl, hk⟩
  | empty | none | noItem => exact .inl ⟨rfl, rfl⟩
  | seq _ _ ih ih' | suffixed _ _ ih ih' =>
    simp only [Tree.leavesAll_node, Tree.leavesAll_append, starts, reads]
    rcases ih with ⟨hnil, hr⟩ | ⟨t, rest, hcons, hk⟩
    · rcases ih' with ⟨hnil', hr'⟩ | ⟨t, rest, hcons, hk⟩
      · exact .inl ⟨by rw [hnil, hnil', List.append_nil], by simp [hr, hr']⟩
      · refine .inr ⟨t, rest, by rw [hnil, hcons, List.nil_append], List.mem_append_right _ ?_⟩
        simpa [hr] using hk
    · exact .inr ⟨t, _, by rw [hcons]; rfl, List.mem_append_left _ hk⟩
  | yes _ ih =>
    rcases ih with ⟨hnil, hr⟩ | ⟨t, rest, hcons, hk⟩
    · exact .inl ⟨hnil, by simp [reads, hr]⟩
    · exact .inr ⟨t, rest, hcons, List.mem_append_left _ hk⟩
  | no _ ih =>
    rcases ih with ⟨hnil, hr⟩ | ⟨t, rest, hcons, hk⟩
    · exact .inl ⟨hnil, by simp [reads, hr]⟩
    · exact .inr ⟨t, rest, hcons, List.mem_append_right _ hk⟩
  | more _ _ ih ih' | item _ _ ih ih' =>
    rw [Tree.leavesAll_append]
    rcases ih with ⟨hnil, -⟩ | ⟨t, rest, hcons, hk⟩
    · rwa [hnil, List.nil_append]
    · exact .inr ⟨t, _, by rw [hcons]; rfl, hk⟩
  | node _ ih =>
    rw [Tree.leavesAll_node]
    exact ih
  | alone _ ih =>
    rcases ih with ⟨hnil, hr⟩ | ⟨t, rest, hcons, hk⟩
    · exact .inl ⟨hnil, hr⟩
    · exact .inr ⟨t, rest, hcons, List.mem_append_left _ hk⟩
  | @nested c _ _ _ ih =>
    rcases ih with ⟨-, hr⟩ | ⟨t, rest, hcons, hk⟩
    · rw [rule_reads] at hr
      cases hr
    · exact .inr ⟨t, rest, hcons, rule_starts c hk⟩

theorem kindAhead_mem_head (h : form.Derives depth ts) {rest : List Token} {follow : List Kind}
    (hf : kindAhead 0 rest ∈ follow) :
    kindAhead 0 (Tree.leavesAll ts ++ rest) ∈ form.head follow := by
  rcases h.leaves_eq_nil_or with ⟨hnil, hr⟩ | ⟨t, more, hcons, hk⟩
  · simp [head, hnil, hr, hf]
  · rw [hcons]
    exact List.mem_append_left _ hk

theorem kindAhead_mem_starts (h : form.Derives depth ts) (hr : form.reads = true)
    (rest : List Token) : kindAhead 0 (Tree.leavesAll ts ++ rest) ∈ form.starts := by
  simpa [head, hr] using h.kindAhead_mem_head (List.mem_singleton_self (kindAhead 0 rest))

end Derives

/-- The form reads one token for each place of its opening. -/
def fixed : Form → Bool
  | token _ _ | empty => true
  | seq first second => first.fixed && second.fixed
  | node _ body => body.fixed
  | _ => false

/-- The kinds of the tokens that the form is sure to read first, place by place. -/
def opening : Form → List (List Kind)
  | token kinds _ => [kinds]
  | seq first second => first.opening ++ if first.fixed then second.opening else []
  | node _ body => body.opening
  | nested c => [c.starts]
  | _ => []

/-- The tokens are one of the kinds of each place. -/
def Opens : List Token → List (List Kind) → Prop
  | [], [] => True
  | t :: read, kinds :: places => t.kind ∈ kinds ∧ Opens read places
  | _, _ => False

theorem Opens.append {read read' : List Token} {places places' : List (List Kind)}
    (h : Opens read places) (h' : Opens read' places') :
    Opens (read ++ read') (places ++ places') := by
  induction places generalizing read with
  | nil => cases read with
    | nil => exact h'
    | cons => exact h.elim
  | cons kinds places ih => cases read with
    | nil => exact h.elim
    | cons t read => exact ⟨h.1, ih h.2⟩

theorem Derives.opens {form : Form} {depth : Nat} {ts : List Tree} (h : form.Derives depth ts) :
    ∃ read rest, Tree.leavesAll ts = read ++ rest ∧ Opens read form.opening ∧
      (form.fixed = true → rest = []) := by
  induction h with
  | token hk => exact ⟨[_], [], rfl, ⟨hk, trivial⟩, fun _ => rfl⟩
  | empty => exact ⟨[], [], rfl, trivial, fun _ => rfl⟩
  | @seq first second _ _ us _ _ ih ih' =>
    obtain ⟨read, rest, heq, hopens, hfixed⟩ := ih
    obtain ⟨read', rest', heq', hopens', hfixed'⟩ := ih'
    cases hf : first.fixed with
    | true =>
      refine ⟨read ++ read', rest', ?_, ?_, fun h => hfixed' (Bool.and_eq_true_iff.1 h).2⟩
      · rw [Tree.leavesAll_append, heq, hfixed hf, heq', List.append_nil, List.append_assoc]
      · simpa [opening, hf] using hopens.append hopens'
    | false =>
      refine ⟨read, rest ++ Tree.leavesAll us, ?_, ?_, ?_⟩
      · rw [Tree.leavesAll_append, heq, List.append_assoc]
      · simpa [opening, hf] using hopens
      · simp [fixed, hf]
  | node _ ih =>
    rw [Tree.leavesAll_node]
    exact ih
  | @nested c _ _ h _ =>
    rcases h.leaves_eq_nil_or with ⟨-, hr⟩ | ⟨t, rest, hcons, hk⟩
    · rw [rule_reads] at hr
      cases hr
    · exact ⟨[t], rest, hcons, ⟨rule_starts c hk, trivial⟩, nofun⟩
  | yes | no | none | more | alone | suffixed | noItem | item =>
    exact ⟨[], _, rfl, trivial, nofun⟩

end Form
end CoreLang
