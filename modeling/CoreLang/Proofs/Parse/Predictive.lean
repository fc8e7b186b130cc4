import CoreLang.Proofs.Parse.Runs

/-! One token of lookahead is enough for most forms. Where the kinds at which a form goes on differ
from those at which it ends, the parser reads every tree of the form. The few forms that look
further ahead are proved on their own and taken as known here. -/
namespace CoreLang

/-- The parser reads all trees of the form, wherever a token of the kinds `follow` comes next. -/
def Form.Complete (n : Nat) (follow : List Kind) (form : Form) : Prop :=
  ∀ ts (s : ParserState) rest, form.Derives n ts → s.tokens = Tree.leavesAll ts ++ rest →
    rest ≠ [] → kindAhead 0 rest ∈ follow →
      ∃ s', form.Runs n s ts none s' ∧ s'.tokens = rest ∧ s'.errors = s.errors

/-- The kinds of the tokens that may come next after a nested construct. -/
def Nested.follow : Nested → List Kind
  | .expression => [.semicolon, .comma, .rightParenthesis, .rightBrace]
  | .power =>
    [.semicolon, .comma, .rightParenthesis, .rightBrace, .multiply, .divide, .modulo, .plus,
     .minus, .less, .lessEqual, .greater, .greaterEqual, .equal, .notEqual, .and, .or]
  | .unary =>
    [.semicolon, .comma, .rightParenthesis, .rightBrace, .multiply, .divide, .modulo, .plus,
     .minus, .less, .lessEqual, .greater, .greaterEqual, .equal, .notEqual, .and, .or, .exponent]
  | .block => Kind.all
  | .ifStatement => Kind.all.filter (· ≠ .elseKeyword)

namespace Form

/-- The next token alone decides what the form does, if a token of the kinds `follow` comes after it
and the known forms are left aside. -/
def predictive (known : List (Form × List Kind)) (follow : List Kind) : Form → Bool
  | token kinds _ => .endMarker ∉ kinds
  | empty => true
  | seq first second =>
    known.any (fun f => f.1 = seq first second && follow ⊆ f.2) ||
      first.predictive known (second.head follow) && second.predictive known follow
  | branch look yes no =>
    known.any (fun f => f.1 = branch look yes no && follow ⊆ f.2) ||
      match look with
      | .sees 0 kinds =>
        yes.head follow ⊆ kinds && (no.head follow).all (· ∉ kinds) &&
          yes.predictive known follow && no.predictive known follow
      | _ => false
  | many look body =>
    match look with
    | .sees 0 kinds =>
      body.reads && body.starts ⊆ kinds && follow.all (· ∉ kinds) &&
        body.predictive known (body.starts ++ follow)
    | _ => false
  | node p body =>
    known.any (fun f => f.1 = node p body && follow ⊆ f.2) || body.predictive known follow
  | suffixed _ operand look suffix =>
    match look with
    | .sees 0 kinds =>
      suffix.reads && suffix.starts ⊆ kinds && follow.all (· ∉ kinds) &&
        operand.predictive known (suffix.starts ++ follow) && suffix.predictive known follow
    | _ => false
  | nested c => follow ⊆ c.follow
  | items stops item =>
    item.reads && item.starts.all (fun kind => kind ≠ .endMarker && kind ∉ stops) &&
      follow ⊆ .endMarker :: stops && item.predictive known (item.starts ++ follow)
  | abandon _ => true

theorem Complete.mono {n : Nat} {follow follow' : List Kind} {form : Form}
    (h : form.Complete n follow) (hsub : follow' ⊆ follow) : form.Complete n follow' :=
  fun ts s rest hd ht hne hf => h ts s rest hd ht hne (hsub hf)

theorem complete_of_known {n : Nat} {known : List (Form × List Kind)} {follow : List Kind}
    {form : Form} (hknown : ∀ f ∈ known, f.1.Complete n f.2)
    (h : known.any (fun f => f.1 = form && follow ⊆ f.2) = true) : form.Complete n follow := by
  obtain ⟨⟨f, kinds⟩, hmem, hf⟩ := List.any_eq_true.1 h
  simp only [Bool.and_eq_true, decide_eq_true_eq] at hf
  obtain ⟨rfl, hsub⟩ := hf
  exact (hknown _ hmem).mono hsub

section
variable {n : Nat} {follow kinds : List Kind}

theorem token_complete {cause : Cause} (h : .endMarker ∉ kinds) :
    (token kinds cause).Complete n follow := by
  intro ts s rest hd ht hne hf
  cases hd with
  | @token _ _ _ t hk =>
    obtain ⟨t', rest', rfl⟩ := List.exists_cons_of_ne_nil hne
    obtain ⟨rfl, hr⟩ : s.current = t ∧ s.rest = t' :: rest' := by
      simpa [ParserState.tokens] using ht
    have he : s.atEnd = false := by
      simp only [ParserState.atEnd, decide_eq_false_iff_not]
      rintro heq
      exact h (heq ▸ hk)
    exact ⟨_, .token hk he hr, rfl, rfl⟩

theorem Complete.seq {first second : Form} (h : first.Complete n (second.head follow))
    (h' : second.Complete n follow) : (seq first second).Complete n follow := by
  intro ts s rest hd ht hne hf
  cases hd with
  | @seq _ _ _ us vs hd hd' =>
    rw [Tree.leavesAll_append, List.append_assoc] at ht
    obtain ⟨s', hrun, ht', he⟩ :=
      h us s _ hd ht (List.append_ne_nil_of_right_ne_nil _ hne) (hd'.kindAhead_mem_head hf)
    obtain ⟨s'', hrun', ht'', he'⟩ := h' vs s' rest hd' ht' hne hf
    exact ⟨s'', .seq hrun hrun', ht'', by rw [he', he]⟩

theorem Complete.branch {look : Look} {yes no : Form} (hyes : yes.Complete n follow)
    (hno : no.Complete n follow)
    (hin : ∀ ts rest, yes.Derives n ts → kindAhead 0 rest ∈ follow →
      look.holds (Tree.leavesAll ts ++ rest) = true)
    (hout : ∀ ts rest, no.Derives n ts → kindAhead 0 rest ∈ follow →
      look.holds (Tree.leavesAll ts ++ rest) = false) :
    (branch look yes no).Complete n follow := by
  intro ts s rest hd ht hne hf
  cases hd with
  | yes hd =>
    obtain ⟨s', hrun, hs'⟩ := hyes ts s rest hd ht hne hf
    exact ⟨s', .yes (by rw [ht, hin ts rest hd hf]) hrun, hs'⟩
  | no hd =>
    obtain ⟨s', hrun, hs'⟩ := hno ts s rest hd ht hne hf
    exact ⟨s', .no (by rw [ht, hout ts rest hd hf]) hrun, hs'⟩

theorem Complete.exists_many {look : Look} {body : Form} {tail : List Token}
    (hbody : body.Complete n (body.starts ++ [kindAhead 0 tail]))
    (hin : ∀ ts rest, body.Derives n ts → look.holds (Tree.leavesAll ts ++ rest) = true)
    (hout : look.holds tail = false) (htail : tail ≠ []) {ts : List Tree} {s : ParserState}
    (hd : (many look body).Derives n ts) (ht : s.tokens = Tree.leavesAll ts ++ tail) :
    ∃ s', (many look body).Runs n s ts none s' ∧ s'.tokens = tail ∧ s'.errors = s.errors := by
  generalize hform : Form.many look body = form at hd
  induction hd generalizing s with
  | none =>
    cases hform
    exact ⟨s, .done (by rw [ht]; exact hout), ht, rfl⟩
  | @more _ _ _ us vs hd hd' _ ih =>
    cases hform
    rw [Tree.leavesAll_append, List.append_assoc] at ht
    obtain ⟨s', hrun, ht', he⟩ := hbody us s _ hd ht
      (List.append_ne_nil_of_right_ne_nil _ htail)
      (hd'.kindAhead_mem_head (List.mem_singleton_self _))
    obtain ⟨s'', hrun', ht'', he'⟩ := ih hbody hin ht' rfl
    exact ⟨s'', .more (by rw [ht, hin us _ hd]) hrun hrun', ht'', by rw [he', he]⟩
  | token | empty | seq | yes | no | node | alone | suffixed | nested | noItem | item => cases hform

theorem Complete.many {body : Form} (hbody : body.Complete n (body.starts ++ follow))
    (hr : body.reads = true) (hin : body.starts ⊆ kinds) (hout : ∀ k ∈ follow, k ∉ kinds) :
    (many (.sees 0 kinds) body).Complete n follow := by
  intro ts s rest hd ht hne hf
  refine Complete.exists_many (hbody.mono ?_) (fun us more hd => ?_) ?_ hne hd ht
  · exact List.append_subset.2 ⟨List.subset_append_left _ _, by simp [hf]⟩
  · exact decide_eq_true (hin (hd.kindAhead_mem_starts hr more))
  · exact decide_eq_false (hout _ hf)

theorem Complete.node {body : Form} (h : body.Complete n follow) (p : Production) :
    (node p body).Complete n follow := by
  intro ts s rest hd ht hne hf
  cases hd with
  | node hd =>
    obtain ⟨s', hrun, hs'⟩ := h _ s rest hd (by rwa [Tree.leavesAll_node] at ht) hne hf
    exact ⟨s', .node hrun, hs'⟩

theorem Complete.suffixed {p : Production} {operand suffix : Form}
    (hoperand : operand.Complete n (suffix.starts ++ follow)) (hsuffix : suffix.Complete n follow)
    (hr : suffix.reads = true) (hin : suffix.starts ⊆ kinds) (hout : ∀ k ∈ follow, k ∉ kinds) :
    (suffixed p operand (.sees 0 kinds) suffix).Complete n follow := by
  intro ts s rest hd ht hne hf
  cases hd with
  | alone hd =>
    obtain ⟨s', hrun, ht', he⟩ :=
      hoperand ts s rest hd ht hne (List.mem_append_right _ hf)
    have hl : (Look.sees 0 kinds).holds s'.tokens = false := by
      rw [ht']
      exact decide_eq_false (hout _ hf)
    exact ⟨s', .alone hrun hl, ht', he⟩
  | @suffixed _ _ _ _ _ us vs hd hd' =>
    rw [Tree.leavesAll_node, Tree.leavesAll_append, List.append_assoc] at ht
    have hk := hd'.kindAhead_mem_starts hr rest
    obtain ⟨s', hrun, ht', he⟩ :=
      hoperand us s _ hd ht (List.append_ne_nil_of_right_ne_nil _ hne) (List.mem_append_left _ hk)
    have hl : (Look.sees 0 kinds).holds s'.tokens = true := by
      rw [ht']
      exact decide_eq_true (hin hk)
    obtain ⟨s'', hrun', ht'', he'⟩ := hsuffix vs s' rest hd' ht' hne hf
    exact ⟨s'', .suffixed hrun hl hrun', ht'', by rw [he', he]⟩

theorem Complete.leftAssociative {p : Production} {operators : List Kind} {operand : Form}
    (h : operand.Complete n (operators ++ follow)) (he : .endMarker ∉ operators)
    (hout : ∀ k ∈ follow, k ∉ operators) :
    (leftAssociative p operators operand).Complete n follow := by
  have hstep : (Form.seq (token operators .factor) operand).Complete n (operators ++ follow) :=
    .seq (token_complete he) h
  have hmany : (Form.many (.sees 0 operators) (.seq (token operators .factor) operand)).Complete
      n follow := by
    refine .many (hstep.mono ?_) rfl ?_ hout <;> simp [starts, reads]
  have hrest : (Form.seq (.seq (token operators .factor) operand)
      (.many (.sees 0 operators) (.seq (token operators .factor) operand))).Complete n follow :=
    .seq (hstep.mono (by simp [head, starts, reads])) hmany
  refine .suffixed (h.mono ?_) hrest rfl ?_ hout <;> simp [starts, reads]

theorem Complete.items {stops : List Kind} {item : Form}
    (hitem : item.Complete n (item.starts ++ follow)) (hr : item.reads = true)
    (hout : ∀ k ∈ item.starts, k ≠ .endMarker ∧ k ∉ stops) (hin : follow ⊆ .endMarker :: stops) :
    (items stops item).Complete n follow := by
  intro ts s rest hd ht hne hf
  generalize hform : Form.items stops item = form at hd
  induction hd generalizing s with
  | noItem =>
    cases hform
    have hk : s.current.kind ∈ Kind.endMarker :: stops := by
      change kindAhead 0 s.tokens ∈ _
      rw [ht]
      exact hin hf
    refine ⟨s, .finish ?_, ht, rfl⟩
    simpa [ParserState.atEnd] using List.mem_cons.1 hk
  | @item _ _ _ us vs hd hd' _ ih =>
    cases hform
    rw [Tree.leavesAll_append, List.append_assoc] at ht
    have hk : s.current.kind ∈ item.starts := by
      change kindAhead 0 s.tokens ∈ _
      rw [ht]
      exact hd.kindAhead_mem_starts hr _
    obtain ⟨s', hrun, ht', he⟩ :=
      hitem us s _ hd ht (List.append_ne_nil_of_right_ne_nil _ hne) (hd'.kindAhead_mem_head hf)
    obtain ⟨s'', hrun', ht'', he'⟩ := ih hitem s' ht' rfl
    refine ⟨s'', .item ?_ hrun hrun', ht'', by rw [he', he]⟩
    simpa [ParserState.atEnd] using hout _ hk
  | token | empty | seq | yes | no | none | more | node | alone | suffixed | nested => cases hform

end

/-- Predictive forms are complete if the known forms and the nested constructs are. -/
theorem complete_of_predictive {n : Nat} {known : List (Form × List Kind)}
    (hknown : ∀ f ∈ known, f.1.Complete n f.2)
    (hnested : ∀ c : Nested, (nested c).Complete n c.follow) (form : Form) {follow : List Kind}
    (h : form.predictive known follow = true) : form.Complete n follow := by
  induction form generalizing follow with
  | token kinds cause => exact token_complete (of_decide_eq_true h)
  | empty =>
    intro ts s rest hd ht hne hf
    cases hd with
    | empty => exact ⟨s, .empty, ht, rfl⟩
  | seq first second ih ih' =>
    rcases Bool.or_eq_true_iff.1 h with h | h
    · exact complete_of_known hknown h
    · obtain ⟨h₁, h₂⟩ := Bool.and_eq_true_iff.1 h
      exact .seq (ih h₁) (ih' h₂)
  | branch look yes no ih ih' =>
    rcases Bool.or_eq_true_iff.1 h with h | h
    · exact complete_of_known hknown h
    · split at h
      · simp only [Bool.and_eq_true, decide_eq_true_eq, List.all_eq_true] at h
        obtain ⟨⟨⟨hin, hout⟩, hyes⟩, hno⟩ := h
        exact .branch (ih hyes) (ih' hno)
          (fun _ _ hd hf => decide_eq_true (hin (hd.kindAhead_mem_head hf)))
          (fun _ _ hd hf => by simpa [Look.holds] using hout _ (hd.kindAhead_mem_head hf))
      · cases h
  | many look body ih =>
    unfold predictive at h
    split at h
    · simp only [Bool.and_eq_true, decide_eq_true_eq, List.all_eq_true] at h
      obtain ⟨⟨⟨hr, hin⟩, hout⟩, hbody⟩ := h
      exact .many (ih hbody) hr hin hout
    · cases h
  | node p body ih =>
    rcases Bool.or_eq_true_iff.1 h with h | h
    · exact complete_of_known hknown h
    · exact (ih h).node p
  | suffixed p operand look suffix ih ih' =>
    unfold predictive at h
    split at h
    · simp only [Bool.and_eq_true, decide_eq_true_eq, List.all_eq_true] at h
      obtain ⟨⟨⟨⟨hr, hin⟩, hout⟩, hoperand⟩, hsuffix⟩ := h
      exact .suffixed (ih hoperand) (ih' hsuffix) hr hin hout
    · cases h
  | nested c => exact (hnested c).mono (of_decide_eq_true h)
  | items stops item ih =>
    simp only [predictive, Bool.and_eq_true, decide_eq_true_eq, List.all_eq_true] at h
    obtain ⟨⟨⟨hr, hout⟩, hin⟩, hitem⟩ := h
    exact .items (ih hitem) hr hout hin
  | abandon cause =>
    intro ts s rest hd
    cases hd

theorem complete_of_predictive_nil {n : Nat}
    (hnested : ∀ c : Nested, (nested c).Complete n c.follow) {form : Form} {follow : List Kind}
    (h : form.predictive [] follow = true) : form.Complete n follow :=
  complete_of_predictive (by simp) hnested form h

end Form
end CoreLang
