import CoreLang.Proofs.Grammar.Shape
import CoreLang.Proofs.Grammar.Starts

/-! Beginnings of programs. A form that has been read in part can be completed, since no form of the
grammar is without trees. -/
namespace CoreLang

/-- The tokens are the leaves of a tree of the language, however deep it is. -/
def Token.Sentence (ts : List Token) : Prop := ∃ t depth, Tree.WellShaped t depth ∧ t.leaves = ts

/-- The tokens are the beginning of a sentence. -/
def Token.Viable (ts : List Token) : Prop := ∃ more, Sentence (ts ++ more)

namespace Form

/-- Some tree of the form begins with the tokens. -/
def Begins (form : Form) (read : List Token) : Prop :=
  ∃ depth ts more, form.Derives depth ts ∧ Tree.leavesAll ts = read ++ more

section
variable {read : List Token} {depth : Nat} {ts : List Tree}

theorem Derives.begins {form : Form} (h : form.Derives depth ts)
    (hread : Tree.leavesAll ts = read) : form.Begins read :=
  ⟨depth, ts, [], h, by rw [hread, List.append_nil]⟩

theorem Begins.nil {form : Form} (h : form.Begins read) : form.Begins [] := by
  obtain ⟨depth, ts, more, h, hread⟩ := h
  exact ⟨depth, ts, _, h, rfl⟩

theorem Begins.seq {first second : Form} (h : first.Begins read) (h' : second.Begins []) :
    (seq first second).Begins read := by
  obtain ⟨depth, ts, more, h, hread⟩ := h
  obtain ⟨depth', us, rest, h', -⟩ := h'
  refine ⟨max depth depth', ts ++ us, more ++ Tree.leavesAll us, ?_, ?_⟩
  · exact .seq (h.mono (Nat.le_max_left _ _)) (h'.mono (Nat.le_max_right _ _))
  · rw [Tree.leavesAll_append, hread, List.append_assoc]

theorem Begins.seq_right {first second : Form} (h : first.Derives depth ts)
    (h' : second.Begins read) : (Form.seq first second).Begins (Tree.leavesAll ts ++ read) := by
  obtain ⟨depth', us, more, h', hread⟩ := h'
  refine ⟨max depth depth', ts ++ us, more, ?_, ?_⟩
  · exact .seq (h.mono (Nat.le_max_left _ _)) (h'.mono (Nat.le_max_right _ _))
  · rw [Tree.leavesAll_append, hread, List.append_assoc]

theorem Begins.yes {look : Look} {yes no : Form} (h : yes.Begins read) :
    (branch look yes no).Begins read := by
  obtain ⟨depth, ts, more, h, hread⟩ := h
  exact ⟨depth, ts, more, .yes h, hread⟩

theorem Begins.no {look : Look} {yes no : Form} (h : no.Begins read) :
    (branch look yes no).Begins read := by
  obtain ⟨depth, ts, more, h, hread⟩ := h
  exact ⟨depth, ts, more, .no h, hread⟩

theorem Begins.many {look : Look} {body : Form} (h : body.Begins read) :
    (many look body).Begins read := by
  obtain ⟨depth, ts, more, h, hread⟩ := h
  exact ⟨depth, ts ++ [], more, .more h .none, by rw [List.append_nil, hread]⟩

theorem Begins.more {look : Look} {body : Form} (h : body.Derives depth ts)
    (h' : (Form.many look body).Begins read) :
    (Form.many look body).Begins (Tree.leavesAll ts ++ read) := by
  obtain ⟨depth', us, more, h', hread⟩ := h'
  refine ⟨max depth depth', ts ++ us, more, ?_, ?_⟩
  · exact .more (h.mono (Nat.le_max_left _ _)) (h'.mono (Nat.le_max_right _ _))
  · rw [Tree.leavesAll_append, hread, List.append_assoc]

theorem Begins.node {p : Production} {body : Form} (h : body.Begins read) :
    (node p body).Begins read := by
  obtain ⟨depth, ts, more, h, hread⟩ := h
  exact ⟨depth, [.node p ts], more, .node h, by rw [Tree.leavesAll_node, hread]⟩

theorem Begins.alone {p : Production} {operand suffix : Form} {look : Look}
    (h : operand.Begins read) : (suffixed p operand look suffix).Begins read := by
  obtain ⟨depth, ts, more, h, hread⟩ := h
  exact ⟨depth, ts, more, .alone h, hread⟩

theorem Begins.suffixed {p : Production} {operand suffix : Form} {look : Look}
    (h : operand.Derives depth ts) (h' : suffix.Begins read) :
    (suffixed p operand look suffix).Begins (Tree.leavesAll ts ++ read) := by
  obtain ⟨depth', us, more, h', hread⟩ := h'
  refine ⟨max depth depth', [.node p (ts ++ us)], more, ?_, ?_⟩
  · exact .suffixed (h.mono (Nat.le_max_left _ _)) (h'.mono (Nat.le_max_right _ _))
  · rw [Tree.leavesAll_node, Tree.leavesAll_append, hread, List.append_assoc]

theorem Begins.nested {c : Nested} (h : (Grammar.rule c).Begins read) :
    (nested c).Begins read := by
  obtain ⟨depth, ts, more, h, hread⟩ := h
  exact ⟨depth + 1, ts, more, .nested h, hread⟩

theorem Begins.items {stops : List Kind} {item : Form} (h : item.Begins read) :
    (items stops item).Begins read := by
  obtain ⟨depth, ts, more, h, hread⟩ := h
  exact ⟨depth, ts ++ [], more, .item h .noItem, by rw [List.append_nil, hread]⟩

theorem Begins.item {stops : List Kind} {item : Form} (h : item.Derives depth ts)
    (h' : (Form.items stops item).Begins read) :
    (Form.items stops item).Begins (Tree.leavesAll ts ++ read) := by
  obtain ⟨depth', us, more, h', hread⟩ := h'
  refine ⟨max depth depth', ts ++ us, more, ?_, ?_⟩
  · exact .item (h.mono (Nat.le_max_left _ _)) (h'.mono (Nat.le_max_right _ _))
  · rw [Tree.leavesAll_append, hread, List.append_assoc]

end

def productive (given : List Nested) : Form → Bool
  | token kinds _ => !kinds.isEmpty
  | empty => true
  | seq first second => first.productive given && second.productive given
  | branch _ yes no => yes.productive given || no.productive given
  | many _ _ => true
  | node _ body => body.productive given
  | suffixed _ operand _ _ => operand.productive given
  | nested c => c ∈ given
  | items _ _ => true
  | abandon _ => false

theorem begins_of_productive {given : List Nested} (hgiven : ∀ c ∈ given, (nested c).Begins [])
    (form : Form) (h : form.productive given = true) : form.Begins [] := by
  induction form with
  | token kinds cause =>
    cases kinds with
    | nil => cases h
    | cons k kinds =>
      exact ⟨0, _, [k.token], .token (t := k.token) List.mem_cons_self, rfl⟩
  | empty => exact (Derives.empty : Derives _ 0 _).begins rfl
  | seq first second ih ih' =>
    obtain ⟨h₁, h₂⟩ := Bool.and_eq_true_iff.1 h
    exact .seq (ih h₁) (ih' h₂)
  | branch look yes no ih ih' =>
    rcases Bool.or_eq_true_iff.1 h with h | h
    · exact .yes (ih h)
    · exact .no (ih' h)
  | many => exact (Derives.none : Derives _ 0 _).begins rfl
  | node p body ih => exact .node (ih h)
  | suffixed p operand look suffix ih => exact .alone (ih h)
  | nested c => exact hgiven c (of_decide_eq_true h)
  | items => exact (Derives.noItem : Derives _ 0 _).begins rfl
  | abandon => cases h

theorem nested_begins (c : Nested) : (nested c).Begins [] := by
  have hexpression : (nested .expression).Begins [] :=
    .nested (begins_of_productive (by simp) _ (show productive [] _ = true by decide))
  have hblock : (nested .block).Begins [] :=
    .nested (begins_of_productive (by simp) _ (show productive [] _ = true by decide))
  have hgiven : ∀ c ∈ [Nested.expression, .block], (nested c).Begins [] := by
    simp [hexpression, hblock]
  refine .nested (begins_of_productive hgiven _ ?_)
  cases c <;> decide

def constructs : List Nested := [.expression, .power, .unary, .block, .ifStatement]

/-- The error of a lone token names the kind that the other alternative begins with. -/
def namesOther : Form → Form → Bool
  | seq (token kinds _) second, token _ cause =>
    cause.expectedKind?.any (· ∈ kinds) && second.productive constructs
  | _, _ => false

/-- Each error names only kinds that go on with a tree of the form, and what comes after a token can
be completed. -/
def honest : Form → Bool
  | token kinds cause => !kinds.isEmpty && cause.expectedKind?.all (· ∈ kinds)
  | empty => true
  | seq first second =>
    first.honest && second.honest && second.productive constructs
  | branch _ yes no => yes.honest && (no.honest || yes.namesOther no)
  | many _ body => body.honest
  | node _ body => body.honest
  | suffixed _ operand _ suffix => operand.honest && suffix.honest
  | nested _ => true
  | items _ item => item.honest
  | abandon cause => cause = .unclosedSubscript

theorem token_begins {kinds : List Kind} {cause : Cause} (h : (token kinds cause).honest = true)
    {ext : Option Token} (hext : ∀ t ∈ ext, cause.expectedKind? = some t.kind) :
    (token kinds cause).Begins ext.toList := by
  obtain ⟨hne, hall⟩ := Bool.and_eq_true_iff.1 h
  cases ext with
  | none =>
    have hproductive : (token kinds cause).productive constructs = true := hne
    exact begins_of_productive (fun c _ => nested_begins c) _ hproductive
  | some t =>
    rw [hext t rfl] at hall
    have hk : t.kind ∈ kinds := of_decide_eq_true hall
    exact (Derives.token hk : Derives _ 0 _).begins rfl

theorem begins_of_namesOther {yes : Form} {kinds : List Kind} {cause : Cause}
    (h : yes.namesOther (token kinds cause) = true) {ext : Option Token}
    (hext : ∀ t ∈ ext, cause.expectedKind? = some t.kind) : yes.Begins ext.toList := by
  unfold namesOther at h
  split at h
  · rename_i kinds' cause' second _ _ heq
    cases heq
    obtain ⟨hany, hsecond⟩ := Bool.and_eq_true_iff.1 h
    have hrest := begins_of_productive (fun c _ => nested_begins c) _ hsecond
    obtain ⟨k, hk, hmem⟩ := (Option.any_eq_true _ _).1 hany
    have hbegins : ∀ t : Token, t.kind = k → (seq (token kinds' cause') second).Begins [t] := by
      rintro t rfl
      exact .seq ((Derives.token (of_decide_eq_true hmem) : Derives _ 0 _).begins rfl) hrest
    cases ext with
    | none => exact (hbegins k.token rfl).nil
    | some t => exact hbegins t (Option.some.inj ((hext t rfl).symm.trans hk))
  · cases h

theorem rule_honest (c : Nested) : (Grammar.rule c).honest = true := by
  cases c <;> decide +kernel

end Form

theorem Grammar.program_honest : program.honest = true := by decide +kernel

/-- What begins a list of declarations begins a sentence. -/
theorem Token.viable_of_begins {read : List Token} (h : Grammar.program.Begins read) :
    Viable read := by
  obtain ⟨depth, ts, more, h, hread⟩ := h
  exact ⟨more, .node .program ts, depth, Tree.wellShaped_iff.2 (.node h), hread⟩

end CoreLang
