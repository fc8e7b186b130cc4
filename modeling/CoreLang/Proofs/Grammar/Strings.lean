import CoreLang.Proofs.Grammar.Nesting

/-! Strings stand inside: among the children of a node another one comes after every string. -/
namespace CoreLang

/-- Trees whose leaves have the labels of their kinds and whose strings come before other trees, here
and among the children of each node. -/
inductive Tree.StringsInside : List Tree → Prop
  | nil : StringsInside []
  | leaf {t : Token} {ts : List Tree} : (t.kind = .string → ts ≠ []) → StringsInside ts →
      StringsInside (.leaf (leafLabel t.kind) t :: ts)
  | node {p : Production} {children ts : List Tree} : StringsInside children → StringsInside ts →
      StringsInside (.node p children :: ts)

namespace Form

/-- A string may be the last tree of the form. -/
def endsInString : Form → Bool
  | token kinds _ => .string ∈ kinds
  | empty => false
  | seq first second => second.endsInString || (!second.reads && first.endsInString)
  | branch _ yes no => yes.endsInString || no.endsInString
  | many _ body => body.endsInString
  | node _ _ => false
  | suffixed _ operand _ _ => operand.endsInString
  | nested _ => false
  | items _ item => item.endsInString
  | abandon _ => false

/-- No node of the form has a string for its last child. -/
def keepsInside : Form → Bool
  | token _ _ => true
  | empty => true
  | seq first second => first.keepsInside && second.keepsInside
  | branch _ yes no => yes.keepsInside && no.keepsInside
  | many _ body => body.keepsInside
  | node _ body => !body.endsInString && body.keepsInside
  | suffixed _ operand _ suffix =>
    !(seq operand suffix).endsInString && operand.keepsInside && suffix.keepsInside
  | nested _ => true
  | items _ item => item.keepsInside
  | abandon _ => true

theorem rule_keepsInside (c : Nested) :
    (Grammar.rule c).keepsInside = true ∧ (Grammar.rule c).endsInString = false := by
  cases c <;> decide +kernel

theorem program_keepsInside :
    (node .program (items [] Grammar.declaration)).keepsInside = true := by
  decide +kernel

theorem endsInString_seq {first second : Form} {depth : Nat} {ts : List Tree} (us : List Tree)
    (h : second.Derives depth ts) (hlast : us ≠ [] ∨ (seq first second).endsInString = false) :
    (us ≠ [] ∨ second.endsInString = false) ∧ (ts ++ us ≠ [] ∨ first.endsInString = false) := by
  rcases hlast with hus | hends
  · exact ⟨.inl hus, .inl fun happend => hus (List.append_eq_nil_iff.1 happend).2⟩
  · simp only [endsInString, Bool.or_eq_false_iff, Bool.and_eq_false_iff, Bool.not_eq_false'] at hends
    obtain ⟨hsecond, hreads | hfirst⟩ := hends
    · exact ⟨.inr hsecond,
        .inl fun happend => ne_nil_of_reads h hreads (List.append_eq_nil_iff.1 happend).1⟩
    · exact ⟨.inr hsecond, .inr hfirst⟩

theorem Derives.stringsInside {form : Form} {depth : Nat} {ts us : List Tree}
    (h : form.Derives depth ts) (hform : form.keepsInside = true) (hus : Tree.StringsInside us)
    (hlast : us ≠ [] ∨ form.endsInString = false) : Tree.StringsInside (ts ++ us) := by
  induction h generalizing us with
  | token hkind =>
    refine .leaf (fun hstring => ?_) hus
    rw [hstring] at hkind
    exact hlast.resolve_right (by simpa [endsInString] using hkind)
  | empty | none | noItem => exact hus
  | seq _ h' ih ih' =>
    obtain ⟨hfirst, hsecond⟩ := Bool.and_eq_true_iff.1 hform
    obtain ⟨hlast', hlast⟩ := endsInString_seq us h' hlast
    rw [List.append_assoc]
    exact ih hfirst (ih' hsecond hus hlast') hlast
  | yes _ ih =>
    exact ih (Bool.and_eq_true_iff.1 hform).1 hus
      (hlast.imp_right fun hends => (Bool.or_eq_false_iff.1 hends).1)
  | no _ ih =>
    exact ih (Bool.and_eq_true_iff.1 hform).2 hus
      (hlast.imp_right fun hends => (Bool.or_eq_false_iff.1 hends).2)
  | more _ _ ih ih' | item _ _ ih ih' =>
    rw [List.append_assoc]
    refine ih hform (ih' hform hus hlast) (hlast.imp_left fun hne happend => ?_)
    exact hne (List.append_eq_nil_iff.1 happend).2
  | node _ ih =>
    simp only [keepsInside, Bool.and_eq_true, Bool.not_eq_true'] at hform
    have hchildren := ih hform.2 .nil (.inr hform.1)
    rw [List.append_nil] at hchildren
    exact .node hchildren hus
  | alone _ ih =>
    simp only [keepsInside, Bool.and_eq_true] at hform
    exact ih hform.1.2 hus hlast
  | suffixed _ h' ih ih' =>
    simp only [keepsInside, Bool.and_eq_true, Bool.not_eq_true'] at hform
    obtain ⟨⟨hends, hoperand⟩, hsuffix⟩ := hform
    obtain ⟨hlast', hlast⟩ := endsInString_seq [] h' (.inr hends)
    have hchildren := ih hoperand (ih' hsuffix .nil hlast') hlast
    rw [List.append_nil] at hchildren
    exact .node hchildren hus
  | nested _ ih =>
    obtain ⟨hrule, hends⟩ := rule_keepsInside _
    exact ih hrule hus (.inr hends)

end Form

/-- Trees of whole programs keep their strings inside. -/
theorem Tree.WellShaped.stringsInside {t : Tree} {depth : Nat} (h : t.WellShaped depth) :
    StringsInside [t] :=
  Form.Derives.stringsInside (wellShaped_iff.1 h) Form.program_keepsInside .nil (.inr rfl)

end CoreLang
