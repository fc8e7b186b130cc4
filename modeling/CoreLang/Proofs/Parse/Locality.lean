import CoreLang.Proofs.Parse.Faults

/-! What a run does up to a token is decided by the tokens up to there. If the tokens are as in a
run without errors, then no error is found among them. -/
namespace CoreLang

theorem kindAhead_congr {j : Nat} {a b : List Token}
    (h : ∀ i ≤ j, (a[i]?).map (·.kind) = (b[i]?).map (·.kind)) : kindAhead j a = kindAhead j b := by
  induction j generalizing a b with
  | zero =>
    have h₀ := h 0 (Nat.le_refl 0)
    cases a <;> cases b <;> simp_all [kindAhead]
  | succ j ih =>
    have h₀ := h 0 (Nat.zero_le _)
    cases a with
    | nil => cases b <;> simp_all [kindAhead]
    | cons t a =>
      cases b with
      | nil => simp at h₀
      | cons u b =>
        have hrest : ∀ i ≤ j, (a[i]?).map (·.kind) = (b[i]?).map (·.kind) := by
          intro i hi
          simpa using h (i + 1) (by omega)
        simp only [List.getElem?_cons_zero, Option.map_some, Option.some.injEq] at h₀
        rw [kindAhead, kindAhead, h₀, ih hrest]

namespace ParserState

/-- Both parsers stand at the same index, and up to index `p` they see tokens of the same kinds. -/
structure Agree (p : Nat) (s s' : ParserState) : Prop where
  index : s.index = s'.index
  kinds : ∀ j, s.index + j ≤ p → (s.tokens[j]?).map (·.kind) = (s'.tokens[j]?).map (·.kind)

namespace Agree
variable {p : Nat} {s s' s₁ s₁' : ParserState}

theorem kindAhead (h : s.Agree p s') {j : Nat} (hj : s.index + j ≤ p) :
    kindAhead j s.tokens = CoreLang.kindAhead j s'.tokens :=
  kindAhead_congr fun i hi => h.kinds i (by omega)

theorem current (h : s.Agree p s') (hp : s.index ≤ p) : s.current.kind = s'.current.kind :=
  h.kindAhead (j := 0) hp

theorem sees (h : s.Agree p s') (hp : s.index ≤ p) (kinds : List Kind) :
    (Look.sees 0 kinds).holds s.tokens = (Look.sees 0 kinds).holds s'.tokens := by
  rw [Look.holds, Look.holds, h.kindAhead hp]

theorem passes (h : s.Agree p s') {read read' : List Token} (hread : s.Passes read s₁)
    (hread' : s'.Passes read' s₁') (hi : s₁.index = s₁'.index) : s₁.Agree p s₁' where
  index := hi
  kinds := by
    intro j hj
    have := h.index
    have := hread.index
    have := hread'.index
    rw [hread.getElem?_tokens, hread'.getElem?_tokens, ← show read.length = read'.length by omega]
    exact h.kinds _ (by omega)

end Agree
end ParserState

/-- The run ends at index `p` at the latest, or it finds its first error there or before. -/
def Within (p : Nat) (s s' : ParserState) (stop : Option Stop) : Prop :=
  (stop = none ∧ s'.errors = s.errors ∧ s'.index ≤ p) ∨
    ∃ e, Faults s s' stop e ∧ e.index ≤ p ∧ e.Recoverable

namespace Within
variable {p n : Nat} {form form' : Form} {s s' s'' : ParserState} {ts us : List Tree}
  {stop : Option Stop}

theorem index_le (hw : Within p s s' stop) (h : form.Runs n s ts stop s') : s.index ≤ p := by
  rcases hw with ⟨-, -, hle⟩ | ⟨e, he, hle, -⟩
  · exact Nat.le_trans h.index_le hle
  · exact Nat.le_trans (h.names_of_faults he).1 hle

theorem end_le (hw : Within p s s' none) (hclean : s'.errors = s.errors) : s'.index ≤ p := by
  rcases hw with ⟨-, -, hle⟩ | ⟨e, he, -⟩
  · exact hle
  · exact absurd he (Form.Runs.not_faults hclean)

theorem first (hw : Within p s s'' stop) (h : form.Runs n s ts none s')
    (h' : form'.Runs n s' us stop s'') : Within p s s' none := by
  rcases hw with ⟨-, hclean, hle⟩ | ⟨e, he, hle, hr⟩
  · exact .inl ⟨rfl, (h.errors_eq_of_trans h' hclean).1, Nat.le_trans h'.index_le hle⟩
  · rcases h.faults_cases h' he with he | ⟨hclean, he⟩
    · exact .inr ⟨e, he, hle, hr⟩
    · exact .inl ⟨rfl, hclean, Nat.le_trans (h'.names_of_faults he).1 hle⟩

theorem second (hw : Within p s s'' stop) (h : form.Runs n s ts none s')
    (h' : form'.Runs n s' us stop s'') (hclean : s'.errors = s.errors) :
    Within p s' s'' stop := by
  rcases hw with ⟨hstop, hclean', hle⟩ | ⟨e, he, hle, hr⟩
  · exact .inl ⟨hstop, hclean'.trans hclean.symm, hle⟩
  · rcases h.faults_cases h' he with he | ⟨-, he⟩
    · exact absurd he (Form.Runs.not_faults hclean)
    · exact .inr ⟨e, he, hle, hr⟩

theorem of_resume {e₀ : SyntaxError} {fatal : Bool} (hw : Within p s s'' stop)
    (h : form.Runs n s ts (some ⟨e₀, fatal⟩) s')
    (h' : form'.Runs n (s'.record e₀).resume us stop s'') :
    Within p s s' (some ⟨e₀, fatal⟩) := by
  rcases hw with ⟨-, hclean, -⟩ | ⟨e, he, hle, hr⟩
  · exact absurd hclean (h.errors_ne_of_resume h')
  · exact .inr ⟨e, h.faults_of_resume h' he, hle, hr⟩

end Within

namespace Form

/-- A run of the form that keeps to tokens as in a run without errors is without errors itself, and
ends at the same place. -/
def Local (n : Nat) (form : Form) : Prop :=
  ∀ ⦃p s ts stop s₁ m s' us s₁'⦄, form.Runs n s ts stop s₁ → form.Runs m s' us none s₁' →
    s₁'.errors = s'.errors → s.Agree p s' → Within p s s₁ stop →
      stop = none ∧ s₁.errors = s.errors ∧ s₁.index = s₁'.index

section
variable {n p : Nat} {kinds : List Kind}

theorem Local.agree {form : Form} {s s₁ s' s₁' : ParserState} {ts us : List Tree} {m : Nat}
    (h : form.Runs n s ts none s₁) (k : form.Runs m s' us none s₁') (ha : s.Agree p s')
    (hi : s₁.index = s₁'.index) : s₁.Agree p s₁' := by
  obtain ⟨read, hread, -⟩ := h.exists_passes
  obtain ⟨read', hread', -⟩ := k.exists_passes
  exact ha.passes hread hread' hi

/-- After a first part that is local, the rest is compared from agreeing places on. -/
theorem Local.trans {first rest rest' : Form} {m : Nat} {s s₁ s₂ s' s₁' s₂' : ParserState}
    {ts us vs ws : List Tree} {stop : Option Stop} (hfirst : first.Local n)
    (h : first.Runs n s ts none s₁) (h' : rest.Runs n s₁ us stop s₂)
    (k : first.Runs m s' vs none s₁') (k' : rest'.Runs m s₁' ws none s₂')
    (hk : s₂'.errors = s'.errors) (ha : s.Agree p s') (hw : Within p s s₂ stop)
    (hrest : s₂'.errors = s₁'.errors → s₁.Agree p s₁' → Within p s₁ s₂ stop →
      stop = none ∧ s₂.errors = s₁.errors ∧ s₂.index = s₂'.index) :
    stop = none ∧ s₂.errors = s.errors ∧ s₂.index = s₂'.index := by
  obtain ⟨hk₁, hk₂⟩ := k.errors_eq_of_trans k' hk
  obtain ⟨-, hclean, hi⟩ := hfirst h k hk₁ ha (hw.first h h')
  obtain ⟨hstop, hclean', hi'⟩ := hrest hk₂ (Local.agree h k ha hi) (hw.second h h' hclean)
  exact ⟨hstop, hclean'.trans hclean, hi'⟩

theorem Local.seq {first second : Form} (hfirst : first.Local n) (hsecond : second.Local n) :
    (seq first second).Local n := by
  intro p s ts stop s₁ m s' us s₁' h k hk ha hw
  cases k with
  | seq k k' =>
    cases h with
    | seq h h' => exact hfirst.trans h h' k k' hk ha hw (hsecond h' k')
    | seqStopped h => cases (hfirst h k (k.errors_eq_of_trans k' hk).1 ha hw).1

/-- The alternatives are local if agreeing runs take the same one. -/
theorem Local.branch {look : Look} {yes no : Form} (hyes : yes.Local n) (hno : no.Local n)
    (hlook : ∀ ⦃p s ts stop s₁ m s' us s₁'⦄, (branch look yes no).Runs n s ts stop s₁ →
      (branch look yes no).Runs m s' us none s₁' → s₁'.errors = s'.errors → s.Agree p s' →
        Within p s s₁ stop → look.holds s.tokens = look.holds s'.tokens) :
    (branch look yes no).Local n := by
  intro p s ts stop s₁ m s' us s₁' h k hk ha hw
  have hsame := hlook h k hk ha hw
  cases h with
  | yes hl h =>
    cases k with
    | yes _ k => exact hyes h k hk ha hw
    | no hl' => rw [hl, hl'] at hsame; cases hsame
  | no hl h =>
    cases k with
    | yes hl' => rw [hl, hl'] at hsame; cases hsame
    | no _ k => exact hno h k hk ha hw

theorem Local.many {body : Form} (hbody : body.Local n) :
    (many (.sees 0 kinds) body).Local n := by
  intro p s ts stop s₁ m s' us s₁' h k hk ha hw
  have hsame := ha.sees (hw.index_le h) kinds
  generalize hform : Form.many (.sees 0 kinds) body = form at h
  induction h generalizing s' us with
  | done hl =>
    cases hform
    cases k with
    | done => exact ⟨rfl, rfl, ha.index⟩
    | more hl' => rw [hl, hl'] at hsame; cases hsame
  | more hl h h' _ ih =>
    cases hform
    cases k with
    | done hl' => rw [hl, hl'] at hsame; cases hsame
    | more _ k k' =>
      refine hbody.trans h h' k k' hk ha hw fun hk₂ ha' hw' => ?_
      exact ih hbody k' hk₂ ha' hw' (ha'.sees (hw'.index_le h') kinds) rfl
  | moreStopped hl h =>
    cases hform
    cases k with
    | done hl' => rw [hl, hl'] at hsame; cases hsame
    | more _ k k' =>
      cases (hbody h k (k.errors_eq_of_trans k' hk).1 ha hw).1
  | token | mismatch | empty | seq | seqStopped | yes | no | node | alone | suffixed
  | suffixedStopped | nested | tooDeep | finish | item | damaged | ruined | abandon => cases hform

theorem Local.node {body : Form} (hbody : body.Local n) (production : Production) :
    (node production body).Local n := by
  intro p s ts stop s₁ m s' us s₁' h k hk ha hw
  cases h with
  | node h =>
    cases k with
    | node k => exact hbody h k hk ha hw

theorem Local.suffixed {production : Production} {operand suffix : Form}
    (hoperand : operand.Local n) (hsuffix : suffix.Local n) :
    (suffixed production operand (.sees 0 kinds) suffix).Local n := by
  intro p s ts stop s₁ m s' us s₁' h k hk ha hw
  cases k with
  | alone k hl' =>
    cases h with
    | alone h => exact hoperand h k hk ha hw
    | suffixed h hl h' =>
      obtain ⟨-, hclean, hi⟩ := hoperand h k hk ha (hw.first h h')
      have ha' := Local.agree h k ha hi
      have hsame := ha'.sees ((hw.second h h' hclean).index_le h') kinds
      rw [hl, hl'] at hsame; cases hsame
    | suffixedStopped h => cases (hoperand h k hk ha hw).1
  | suffixed k hl' k' =>
    obtain ⟨hk₁, -⟩ := k.errors_eq_of_trans k' hk
    cases h with
    | alone h hl =>
      obtain ⟨-, hclean, hi⟩ := hoperand h k hk₁ ha hw
      have hsame := (Local.agree h k ha hi).sees (hw.end_le hclean) kinds
      rw [hl, hl'] at hsame; cases hsame
    | suffixed h hl h' => exact hoperand.trans h h' k k' hk ha hw (hsuffix h' k')
    | suffixedStopped h => cases (hoperand h k hk₁ ha hw).1

theorem Local.items {stops : List Kind} {item : Form} (hitem : item.Local n) :
    (items stops item).Local n := by
  intro p s ts stop s₁ m s' us s₁' h k hk ha hw
  have hcurrent := ha.current (hw.index_le h)
  generalize hform : Form.items stops item = form at h
  induction h generalizing s' us with
  | finish hs =>
    cases hform
    cases k with
    | finish => exact ⟨rfl, rfl, ha.index⟩
    | item hs' | damaged hs' => exact absurd (by rwa [ParserState.atEnd, ← hcurrent]) hs'
  | item hs h h' _ ih =>
    cases hform
    cases k with
    | finish hs' => exact absurd (by rwa [ParserState.atEnd, hcurrent]) hs
    | item _ k k' =>
      refine hitem.trans h h' k k' hk ha hw fun hk₂ ha' hw' => ?_
      exact ih hitem k' hk₂ ha' hw' (ha'.current (hw'.index_le h')) rfl
    | damaged _ k k' => exact absurd hk (k.errors_ne_of_resume k')
  | damaged hs h h' _ =>
    cases hform
    cases k with
    | finish hs' => exact absurd (by rwa [ParserState.atEnd, hcurrent]) hs
    | item _ k k' =>
      cases (hitem h k (k.errors_eq_of_trans k' hk).1 ha (hw.of_resume h h')).1
    | damaged _ k k' => exact absurd hk (k.errors_ne_of_resume k')
  | ruined hs h =>
    cases hform
    cases k with
    | finish hs' => exact absurd (by rwa [ParserState.atEnd, hcurrent]) hs
    | item _ k k' =>
      cases (hitem h k (k.errors_eq_of_trans k' hk).1 ha hw).1
    | damaged _ k k' => exact absurd hk (k.errors_ne_of_resume k')
  | token | mismatch | empty | seq | seqStopped | yes | no | done | more | moreStopped | node
  | alone | suffixed | suffixedStopped | nested | tooDeep | abandon => cases hform

end

/-- No look of the form goes beyond the next token, if the known forms are left aside. -/
def nearsighted (known : List Form) : Form → Bool
  | seq first second =>
    seq first second ∈ known || first.nearsighted known && second.nearsighted known
  | branch look yes no =>
    branch look yes no ∈ known ||
      (look matches .sees 0 _) && yes.nearsighted known && no.nearsighted known
  | many look body => (look matches .sees 0 _) && body.nearsighted known
  | node _ body => body.nearsighted known
  | suffixed _ operand look suffix =>
    (look matches .sees 0 _) && operand.nearsighted known && suffix.nearsighted known
  | items _ item => item.nearsighted known
  | _ => true

theorem local_of_nearsighted {n : Nat} {known : List Form} (hknown : ∀ f ∈ known, f.Local n)
    (hnested : ∀ c : Nested, (nested c).Local n) (form : Form)
    (hform : form.nearsighted known = true) : form.Local n := by
  induction form with
  | token kinds cause =>
    intro p s ts stop s₁ m s' us s₁' h k hk ha hw
    have hcurrent := ha.current (hw.index_le h)
    cases k with
    | token hk' =>
      cases h with
      | token => exact ⟨rfl, rfl, congrArg (· + 1) ha.index⟩
      | mismatch hk => exact absurd (hcurrent ▸ hk') hk
  | empty =>
    intro p s ts stop s₁ m s' us s₁' h k hk ha hw
    cases h
    cases k
    exact ⟨rfl, rfl, ha.index⟩
  | seq first second ih ih' =>
    rcases Bool.or_eq_true_iff.1 hform with hform | hform
    · exact hknown _ (of_decide_eq_true hform)
    · obtain ⟨h₁, h₂⟩ := Bool.and_eq_true_iff.1 hform
      exact .seq (ih h₁) (ih' h₂)
  | branch look yes no ih ih' =>
    rcases Bool.or_eq_true_iff.1 hform with hform | hform
    · exact hknown _ (of_decide_eq_true hform)
    · simp only [Bool.and_eq_true] at hform
      obtain ⟨⟨hlook, hyes⟩, hno⟩ := hform
      split at hlook
      · refine .branch (ih hyes) (ih' hno) ?_
        intro p s ts stop s₁ m s' us s₁' h _ _ ha hw
        exact ha.sees (hw.index_le h) _
      · cases hlook
  | many look body ih =>
    obtain ⟨hlook, hbody⟩ := Bool.and_eq_true_iff.1 hform
    split at hlook
    · exact .many (ih hbody)
    · cases hlook
  | node production body ih => exact .node (ih hform) production
  | suffixed production operand look suffix ih ih' =>
    simp only [nearsighted, Bool.and_eq_true] at hform
    obtain ⟨⟨hlook, hoperand⟩, hsuffix⟩ := hform
    split at hlook
    · exact .suffixed (ih hoperand) (ih' hsuffix)
    · cases hlook
  | nested c => exact hnested c
  | items stops item ih => exact .items (ih hform)
  | abandon cause =>
    intro p s ts stop s₁ m s' us s₁' h k
    cases k

theorem local_of_nearsighted_nil {n : Nat} (hnested : ∀ c : Nested, (nested c).Local n)
    {form : Form} (h : form.nearsighted [] = true) : form.Local n :=
  local_of_nearsighted (by simp) hnested form h

end Form
end CoreLang
