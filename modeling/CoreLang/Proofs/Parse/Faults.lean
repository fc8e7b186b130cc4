import CoreLang.Proofs.Grammar.Viable
import CoreLang.Proofs.Parse.Soundness

/-! The first error of a run. Up to it everything fits the grammar, so what was read before it can
be completed to a tree, also with a token of the kind that the error asks for. -/
namespace CoreLang

/-- The run from `s` to `s'` adds errors, and `e` is the first of them. -/
def Faults (s s' : ParserState) (stop : Option Stop) (e : SyntaxError) : Prop :=
  ∃ more, s'.errors ++ (stop.map (·.error)).toList = s.errors ++ e :: more

/-- The error comes neither from the limit of nesting nor from the search for a closing bracket. -/
def SyntaxError.Recoverable (e : SyntaxError) : Prop :=
  e.cause ≠ .tooDeep ∧ e.cause ≠ .unclosedSubscript

namespace Form.Runs
variable {n : Nat} {form form' : Form} {s s' s'' : ParserState} {ts us : List Tree}
  {stop stop' : Option Stop} {e : SyntaxError}

theorem exists_new (h : form.Runs n s ts stop s') :
    ∃ new, s'.errors = s.errors ++ new ∧ (∀ e ∈ new, s.Names e) ∧
      ∀ e, Faults s s' stop e ↔ (new ++ (stop.map (·.error)).toList).head? = some e := by
  obtain ⟨new, hnew, hnames⟩ := h.exists_errors
  refine ⟨new, hnew, hnames, fun e => ?_⟩
  rw [Faults, hnew, List.append_assoc]
  constructor
  · rintro ⟨more, hmore⟩
    rw [List.append_cancel_left hmore]
    rfl
  · intro hhead
    obtain ⟨more, hmore⟩ := List.head?_eq_some_iff.1 hhead
    exact ⟨more, by rw [hmore]⟩

theorem names_of_faults (h : form.Runs n s ts stop s') (he : Faults s s' stop e) : s.Names e := by
  obtain ⟨new, -, hnames, hiff⟩ := h.exists_new
  rcases List.mem_append.1 (List.mem_of_head? ((hiff e).1 he)) with hm | hm
  · exact hnames e hm
  · cases stop with
    | none => cases hm
    | some stop =>
      obtain rfl := List.mem_singleton.1 hm
      exact h.names_stop rfl

theorem faults_cases (h : form.Runs n s ts none s') (h' : form'.Runs n s' us stop s'')
    (he : Faults s s'' stop e) :
    Faults s s' none e ∨ s'.errors = s.errors ∧ Faults s' s'' stop e := by
  obtain ⟨new, hnew, -, hiff⟩ := h.exists_new
  obtain ⟨more, hmore⟩ := he
  cases new with
  | nil =>
    rw [List.append_nil] at hnew
    exact .inr ⟨hnew, more, by rw [hmore, hnew]⟩
  | cons e' new =>
    obtain ⟨new', hnew', -⟩ := h'.exists_errors
    rw [hnew', hnew, List.append_assoc, List.append_assoc] at hmore
    have hcons := List.append_cancel_left hmore
    rw [List.cons_append, List.cons.injEq] at hcons
    refine .inl ((hiff e).2 ?_)
    rw [List.cons_append, List.head?_cons, hcons.1]

theorem faults_of_resume {e₀ : SyntaxError} {fatal : Bool}
    (h : form.Runs n s ts (some ⟨e₀, fatal⟩) s')
    (h' : form'.Runs n (s'.record e₀).resume us stop s'') (he : Faults s s'' stop e) :
    Faults s s' (some ⟨e₀, fatal⟩) e := by
  obtain ⟨new, hnew, -, hiff⟩ := h.exists_new
  obtain ⟨new', hnew', -⟩ := h'.exists_errors
  obtain ⟨more, hmore⟩ := he
  rw [hnew', ParserState.resume_errors, ParserState.record, hnew] at hmore
  simp only [List.append_assoc] at hmore
  have hcons := List.append_cancel_left hmore
  refine (hiff e).2 ?_
  cases new with
  | nil => simpa using congrArg List.head? hcons
  | cons e' new => simpa using congrArg List.head? hcons

/-- A first part without errors is read before the first error of the second part. -/
theorem take_of_faults (h : form.Runs n s ts none s') (h' : form'.Runs n s' us stop s'')
    (hclean : s'.errors = s.errors) (he : Faults s' s'' stop e) (ext : List Token) :
    s.tokens.take (e.index - s.index) ++ ext =
      Tree.leavesAll ts ++ (s'.tokens.take (e.index - s'.index) ++ ext) := by
  have hpass := h.passes_leaves hclean (by simp)
  rw [hpass.take_tokens (h'.names_of_faults he).1, List.append_assoc]

theorem not_faults (he : s'.errors = s.errors) : ¬Faults s s' none e := by
  rintro ⟨more, hmore⟩
  simp [he] at hmore

theorem eq_of_faults {e₀ : SyntaxError} {fatal : Bool} (he : Faults s s (some ⟨e₀, fatal⟩) e) :
    e = e₀ := by
  obtain ⟨more, hmore⟩ := he
  simpa [eq_comm] using congrArg List.head? (List.append_cancel_left hmore)

/-- Up to its first error a run reads the beginning of a tree. The same holds with a token of the
kind that the error asks for. -/
theorem begins (h : form.Runs n s ts stop s') (hh : form.honest = true)
    (he : Faults s s' stop e) (hr : e.Recoverable) {ext : Option Token}
    (hext : ∀ t ∈ ext, e.expected? = some t.kind) :
    form.Begins (s.tokens.take (e.index - s.index) ++ ext.toList) := by
  induction h with
  | token | empty | done | finish => exact absurd he (not_faults rfl)
  | mismatch hk =>
    obtain rfl := eq_of_faults he
    simpa [ParserState.error] using token_begins hh hext
  | seq h h' ih ih' =>
    obtain ⟨hh, hproductive⟩ := Bool.and_eq_true_iff.1 hh
    obtain ⟨hh₁, hh₂⟩ := Bool.and_eq_true_iff.1 hh
    rcases h.faults_cases h' he with he | ⟨hclean, he⟩
    · exact .seq (ih hh₁ he) (begins_of_productive (fun c _ => nested_begins c) _ hproductive)
    · rw [h.take_of_faults h' hclean he]
      exact .seq_right (h.derives (.inl rfl)) (ih' hh₂ he)
  | seqStopped _ ih =>
    obtain ⟨hh, hproductive⟩ := Bool.and_eq_true_iff.1 hh
    exact .seq (ih (Bool.and_eq_true_iff.1 hh).1 he)
      (begins_of_productive (fun c _ => nested_begins c) _ hproductive)
  | yes _ _ ih => exact .yes (ih (Bool.and_eq_true_iff.1 hh).1 he)
  | @no _ _ yes no _ _ _ _ _ h ih =>
    rcases Bool.or_eq_true_iff.1 (Bool.and_eq_true_iff.1 hh).2 with hh | hh
    · exact .no (ih hh he)
    · cases no with
      | token kinds cause =>
        cases h with
        | token => exact absurd he (not_faults rfl)
        | mismatch =>
          obtain rfl := eq_of_faults he
          simpa [ParserState.error] using (begins_of_namesOther hh hext).yes
      | _ => simp [namesOther] at hh
  | more _ h h' ih ih' =>
    rcases h.faults_cases h' he with he | ⟨hclean, he⟩
    · exact .many (ih hh he)
    · rw [h.take_of_faults h' hclean he]
      exact .more (h.derives (.inl rfl)) (ih' hh he)
  | moreStopped _ _ ih => exact .many (ih hh he)
  | node _ ih => exact .node (ih hh he)
  | alone _ _ ih => exact .alone (ih (Bool.and_eq_true_iff.1 hh).1 he)
  | suffixed h _ h' ih ih' =>
    obtain ⟨hh₁, hh₂⟩ := Bool.and_eq_true_iff.1 hh
    rcases h.faults_cases h' he with he | ⟨hclean, he⟩
    · exact .alone (ih hh₁ he)
    · rw [h.take_of_faults h' hclean he]
      exact .suffixed (h.derives (.inl rfl)) (ih' hh₂ he)
  | suffixedStopped _ ih => exact .alone (ih (Bool.and_eq_true_iff.1 hh).1 he)
  | nested _ ih => exact .nested (ih (rule_honest _) he)
  | tooDeep =>
    obtain rfl := eq_of_faults he
    exact absurd rfl hr.1
  | item _ h h' ih ih' =>
    rcases h.faults_cases h' he with he | ⟨hclean, he⟩
    · exact .items (ih hh he)
    · rw [h.take_of_faults h' hclean he]
      exact .item (h.derives (.inl rfl)) (ih' hh he)
  | damaged _ h h' ih => exact .items (ih hh (h.faults_of_resume h' he))
  | ruined _ _ ih => exact .items (ih hh he)
  | abandon =>
    obtain rfl := eq_of_faults he
    exact absurd (of_decide_eq_true hh) hr.2

end Form.Runs
end CoreLang
