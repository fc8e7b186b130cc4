import CoreLang.Parse
import CoreLang.Proofs.Grammar.Starts
import CoreLang.Proofs.Parse.Passes

/-! Runs of forms as a relation, without rounds and without levels as calls. Each rule says what one
kind of form does, and all facts about the parser are read off the rules. The parser's own result is
the only one that the relation allows. -/
namespace CoreLang

structure Stop where
  error : SyntaxError
  fatal : Bool

/-- `form.Runs levels s trees stop s'`: with so many levels free the form runs from `s` to `s'` and
leaves the trees, up to the stop if there is one. A fatal stop among items keeps the sound ones. -/
inductive Form.Runs :
    Nat → Form → ParserState → List Tree → Option Stop → ParserState → Prop where
  | token {n kinds cause t rest} {s : ParserState} (hk : s.current.kind ∈ kinds)
    (he : s.atEnd = false) (hr : s.rest = t :: rest) :
    Runs n (.token kinds cause) s [.leaf (leafLabel s.current.kind) s.current] none
      { s with current := t, rest := rest, index := s.index + 1 }
  | mismatch {n kinds cause} {s : ParserState} (hk : s.current.kind ∉ kinds) :
    Runs n (.token kinds cause) s [] (some ⟨s.error cause, false⟩) s
  | empty {n s} : Runs n .empty s [] none s
  | seq {n first second s s' s'' ts us stop} (h : Runs n first s ts none s')
    (h' : Runs n second s' us stop s'') : Runs n (.seq first second) s (ts ++ us) stop s''
  | seqStopped {n first second s s' ts e} (h : Runs n first s ts (some e) s') :
    Runs n (.seq first second) s ts (some e) s'
  | yes {n look yes no s s' ts stop} (hl : look.holds s.tokens = true)
    (h : Runs n yes s ts stop s') : Runs n (.branch look yes no) s ts stop s'
  | no {n look yes no s s' ts stop} (hl : look.holds s.tokens = false)
    (h : Runs n no s ts stop s') : Runs n (.branch look yes no) s ts stop s'
  | done {n look body s} (hl : look.holds s.tokens = false) : Runs n (.many look body) s [] none s
  | more {n look body s s' s'' ts us stop} (hl : look.holds s.tokens = true)
    (h : Runs n body s ts none s') (h' : Runs n (.many look body) s' us stop s'') :
    Runs n (.many look body) s (ts ++ us) stop s''
  | moreStopped {n look body s s' ts e} (hl : look.holds s.tokens = true)
    (h : Runs n body s ts (some e) s') : Runs n (.many look body) s ts (some e) s'
  | node {n production body s s' ts stop} (h : Runs n body s ts stop s') :
    Runs n (.node production body) s [.node production ts] stop s'
  | alone {n production operand look suffix s s' ts} (h : Runs n operand s ts none s')
    (hl : look.holds s'.tokens = false) :
    Runs n (.suffixed production operand look suffix) s ts none s'
  | suffixed {n production operand look suffix s s' s'' ts us stop}
    (h : Runs n operand s ts none s') (hl : look.holds s'.tokens = true)
    (h' : Runs n suffix s' us stop s'') :
    Runs n (.suffixed production operand look suffix) s [.node production (ts ++ us)] stop s''
  | suffixedStopped {n production operand look suffix s s' ts e}
    (h : Runs n operand s ts (some e) s') :
    Runs n (.suffixed production operand look suffix) s ts (some e) s'
  | nested {n construct s s' ts stop} (h : Runs n (Grammar.rule construct) s ts stop s') :
    Runs (n + 1) (.nested construct) s ts stop s'
  | tooDeep {construct s} :
    Runs 0 (.nested construct) s [] (some ⟨s.error .tooDeep, true⟩) s
  | finish {n stops item} {s : ParserState} (hs : s.atEnd = true ∨ s.current.kind ∈ stops) :
    Runs n (.items stops item) s [] none s
  | item {n stops item s s' s'' ts us stop} (hs : ¬(s.atEnd = true ∨ s.current.kind ∈ stops))
    (h : Runs n item s ts none s') (h' : Runs n (.items stops item) s' us stop s'') :
    Runs n (.items stops item) s (ts ++ us) stop s''
  | damaged {n stops item s s' s'' ts us e stop}
    (hs : ¬(s.atEnd = true ∨ s.current.kind ∈ stops)) (h : Runs n item s ts (some ⟨e, false⟩) s')
    (h' : Runs n (.items stops item) (s'.record e).resume us stop s'') :
    Runs n (.items stops item) s us stop s''
  | ruined {n stops item s s' ts e} (hs : ¬(s.atEnd = true ∨ s.current.kind ∈ stops))
    (h : Runs n item s ts (some ⟨e, true⟩) s') :
    Runs n (.items stops item) s [] (some ⟨e, true⟩) s'
  | abandon {n cause s} : Runs n (.abandon cause) s [] (some ⟨s.error cause, true⟩) s

namespace Form.Runs
variable {n : Nat} {form : Form} {s s' : ParserState} {ts : List Tree} {stop : Option Stop}

theorem seq_inv {first second : Form} (h : (Form.seq first second).Runs n s ts stop s') :
    ∃ us stop₁ s₁, first.Runs n s us stop₁ s₁ ∧
      match stop₁ with
      | none => ∃ vs, second.Runs n s₁ vs stop s' ∧ us ++ vs = ts
      | some e => us = ts ∧ some e = stop ∧ s₁ = s' := by
  cases h with
  | seq h₁ h₂ => exact ⟨_, _, _, h₁, _, h₂, rfl⟩
  | seqStopped h₁ => exact ⟨_, _, _, h₁, rfl, rfl, rfl⟩

theorem branch_inv {look : Look} {yes no : Form} (h : (Form.branch look yes no).Runs n s ts stop s') :
    (if look.holds s.tokens then yes else no).Runs n s ts stop s' := by
  cases h with
  | yes hl h => rwa [if_pos hl]
  | no hl h => rwa [hl]

/-- As long as its look holds, a repetition is its body and then the repetition again. -/
theorem many_inv {look : Look} {body : Form} (h : (Form.many look body).Runs n s ts stop s') :
    if look.holds s.tokens then (Form.seq body (.many look body)).Runs n s ts stop s'
    else [] = ts ∧ none = stop ∧ s = s' := by
  cases h with
  | done hl => simp [hl]
  | more hl h₁ h₂ => rw [if_pos hl]; exact .seq h₁ h₂
  | moreStopped hl h₁ => rw [if_pos hl]; exact .seqStopped h₁

theorem suffixed_inv {production : Production} {operand suffix : Form} {look : Look}
    (h : (Form.suffixed production operand look suffix).Runs n s ts stop s') :
    ∃ us stop₁ s₁, operand.Runs n s us stop₁ s₁ ∧
      match stop₁ with
      | none =>
        if look.holds s₁.tokens then
          ∃ vs, suffix.Runs n s₁ vs stop s' ∧ [.node production (us ++ vs)] = ts
        else us = ts ∧ none = stop ∧ s₁ = s'
      | some e => us = ts ∧ some e = stop ∧ s₁ = s' := by
  cases h with
  | alone h₁ hl => exact ⟨_, _, _, h₁, by simp [hl]⟩
  | suffixed h₁ hl h₂ => exact ⟨_, _, _, h₁, by simp only [hl]; exact ⟨_, h₂, rfl⟩⟩
  | suffixedStopped h₁ => exact ⟨_, _, _, h₁, rfl, rfl, rfl⟩

theorem items_inv {stops : List Kind} {item : Form} (h : (Form.items stops item).Runs n s ts stop s') :
    if s.atEnd = true ∨ s.current.kind ∈ stops then [] = ts ∧ none = stop ∧ s = s'
    else ∃ us stop₁ s₁, item.Runs n s us stop₁ s₁ ∧
      match stop₁ with
      | none => ∃ vs, (Form.items stops item).Runs n s₁ vs stop s' ∧ us ++ vs = ts
      | some ⟨e, false⟩ => (Form.items stops item).Runs n (s₁.record e).resume ts stop s'
      | some ⟨e, true⟩ => [] = ts ∧ some ⟨e, true⟩ = stop ∧ s₁ = s' := by
  cases h with
  | finish hs => simp [hs]
  | item hs h₁ h₂ => rw [if_neg hs]; exact ⟨_, _, _, h₁, _, h₂, rfl⟩
  | damaged hs h₁ h₂ => rw [if_neg hs]; exact ⟨_, _, _, h₁, h₂⟩
  | ruined hs h₁ => rw [if_neg hs]; exact ⟨_, _, _, h₁, rfl, rfl, rfl⟩

/-- A run has one result only. -/
theorem unique {us : List Tree} {stop' : Option Stop} {s'' : ParserState}
    (h : form.Runs n s ts stop s') (h' : form.Runs n s us stop' s'') :
    ts = us ∧ stop = stop' ∧ s' = s'' := by
  induction h generalizing us stop' s'' with
  | token hk _ hr =>
    cases h' with
    | token _ _ hr' => rw [hr] at hr'; cases hr'; exact ⟨rfl, rfl, rfl⟩
    | mismatch hk' => exact absurd hk hk'
  | mismatch hk =>
    cases h' with
    | token hk' => exact absurd hk' hk
    | mismatch => exact ⟨rfl, rfl, rfl⟩
  | empty | tooDeep | abandon => cases h'; exact ⟨rfl, rfl, rfl⟩
  | seq _ _ ih ih' =>
    obtain ⟨_, _, _, h₁, hrest⟩ := h'.seq_inv
    obtain ⟨rfl, rfl, rfl⟩ := ih h₁
    obtain ⟨_, h₂, rfl⟩ := hrest
    obtain ⟨rfl, rfl, rfl⟩ := ih' h₂
    exact ⟨rfl, rfl, rfl⟩
  | seqStopped _ ih =>
    obtain ⟨_, _, _, h₁, hrest⟩ := h'.seq_inv
    obtain ⟨rfl, rfl, rfl⟩ := ih h₁
    exact hrest
  | yes hl _ ih => exact ih (by simpa [hl] using h'.branch_inv)
  | no hl _ ih => exact ih (by simpa [hl] using h'.branch_inv)
  | done hl => simpa [hl] using h'.many_inv
  | more hl _ _ ih ih' =>
    have h' := h'.many_inv
    rw [if_pos hl] at h'
    obtain ⟨_, _, _, h₁, hrest⟩ := h'.seq_inv
    obtain ⟨rfl, rfl, rfl⟩ := ih h₁
    obtain ⟨_, h₂, rfl⟩ := hrest
    obtain ⟨rfl, rfl, rfl⟩ := ih' h₂
    exact ⟨rfl, rfl, rfl⟩
  | moreStopped hl _ ih =>
    have h' := h'.many_inv
    rw [if_pos hl] at h'
    obtain ⟨_, _, _, h₁, hrest⟩ := h'.seq_inv
    obtain ⟨rfl, rfl, rfl⟩ := ih h₁
    exact hrest
  | node _ ih =>
    cases h' with
    | node h₁ =>
      obtain ⟨rfl, rfl, rfl⟩ := ih h₁
      exact ⟨rfl, rfl, rfl⟩
  | alone _ hl ih =>
    obtain ⟨_, _, _, h₁, hrest⟩ := h'.suffixed_inv
    obtain ⟨rfl, rfl, rfl⟩ := ih h₁
    simpa [hl] using hrest
  | suffixed _ hl _ ih ih' =>
    obtain ⟨_, _, _, h₁, hrest⟩ := h'.suffixed_inv
    obtain ⟨rfl, rfl, rfl⟩ := ih h₁
    obtain ⟨_, h₂, rfl⟩ := by simpa only [hl] using hrest
    obtain ⟨rfl, rfl, rfl⟩ := ih' h₂
    exact ⟨rfl, rfl, rfl⟩
  | suffixedStopped _ ih =>
    obtain ⟨_, _, _, h₁, hrest⟩ := h'.suffixed_inv
    obtain ⟨rfl, rfl, rfl⟩ := ih h₁
    exact hrest
  | nested _ ih =>
    cases h' with
    | nested h₁ => exact ih h₁
  | finish hs => simpa [hs] using h'.items_inv
  | item hs _ _ ih ih' =>
    have h' := h'.items_inv
    rw [if_neg hs] at h'
    obtain ⟨_, _, _, h₁, hrest⟩ := h'
    obtain ⟨rfl, rfl, rfl⟩ := ih h₁
    obtain ⟨_, h₂, rfl⟩ := hrest
    obtain ⟨rfl, rfl, rfl⟩ := ih' h₂
    exact ⟨rfl, rfl, rfl⟩
  | damaged hs _ _ ih ih' =>
    have h' := h'.items_inv
    rw [if_neg hs] at h'
    obtain ⟨_, _, _, h₁, hrest⟩ := h'
    obtain ⟨rfl, rfl, rfl⟩ := ih h₁
    exact ih' hrest
  | ruined hs _ ih =>
    have h' := h'.items_inv
    rw [if_neg hs] at h'
    obtain ⟨_, _, _, h₁, hrest⟩ := h'
    obtain ⟨rfl, rfl, rfl⟩ := ih h₁
    exact hrest

/-- A run stops at the token that its error names. -/
theorem error_of_stop (h : form.Runs n s ts stop s') {e : Stop} (he : e ∈ stop) :
    e.error = s'.error e.error.cause := by
  induction h with
  | token | empty | done | alone | finish => cases he
  | mismatch | tooDeep | abandon => cases he; rfl
  | seqStopped _ ih | yes _ _ ih | no _ _ ih | moreStopped _ _ ih | node _ ih
  | suffixedStopped _ ih | nested _ ih | ruined _ _ ih => exact ih he
  | seq _ _ _ ih' | more _ _ _ _ ih' | suffixed _ _ _ _ ih' | item _ _ _ _ ih'
  | damaged _ _ _ _ ih' => exact ih' he

theorem exists_passes (h : form.Runs n s ts stop s') :
    ∃ read, s.Passes read s' ∧ (Tree.leavesAll ts).Sublist read := by
  induction h with
  | token hk he hr => exact ⟨_, ParserState.passes_next _ he hr, .refl _⟩
  | mismatch | empty | done | tooDeep | finish | abandon => exact ⟨[], .refl _, .refl _⟩
  | seqStopped _ ih | yes _ _ ih | no _ _ ih | moreStopped _ _ ih | alone _ _ ih
  | suffixedStopped _ ih | nested _ ih => exact ih
  | node _ ih => simpa [Tree.leavesAll, Tree.leaves] using ih
  | ruined _ _ ih =>
    obtain ⟨read, h, -⟩ := ih
    exact ⟨read, h, List.nil_sublist _⟩
  | seq _ _ ih ih' | more _ _ _ ih ih' | item _ _ _ ih ih' =>
    obtain ⟨read, h, hs⟩ := ih
    obtain ⟨read', h', hs'⟩ := ih'
    exact ⟨_, h.trans h', by rw [Tree.leavesAll_append]; exact hs.append hs'⟩
  | suffixed _ _ _ ih ih' =>
    obtain ⟨read, h, hs⟩ := ih
    obtain ⟨read', h', hs'⟩ := ih'
    refine ⟨_, h.trans h', ?_⟩
    simpa [Tree.leavesAll, Tree.leaves, Tree.leavesAll_append] using hs.append hs'
  | @damaged _ _ _ _ s' _ _ _ e _ _ _ _ ih ih' =>
    obtain ⟨read, h, -⟩ := ih
    obtain ⟨skipped, hskip⟩ := (s'.record e).exists_passes_resume
    obtain ⟨read', h', hs⟩ := ih'
    exact ⟨_, ((h.record e).trans hskip).trans h', hs.trans (List.sublist_append_right _ _)⟩

theorem index_le (h : form.Runs n s ts stop s') : s.index ≤ s'.index := by
  obtain ⟨read, hp, -⟩ := h.exists_passes
  exact hp.index_le

theorem names_stop (h : form.Runs n s ts stop s') {e : Stop} (he : e ∈ stop) :
    s.Names e.error := by
  obtain ⟨read, hp, -⟩ := h.exists_passes
  rw [h.error_of_stop he]
  exact hp.names (s'.names_error _)

/-- A run only adds errors, and they stand where it reads or further on. -/
theorem exists_errors (h : form.Runs n s ts stop s') :
    ∃ new, s'.errors = s.errors ++ new ∧ ∀ e ∈ new, s.Names e := by
  induction h with
  | token | mismatch | empty | done | tooDeep | finish | abandon => exact ⟨[], by simp, by simp⟩
  | seqStopped _ ih | yes _ _ ih | no _ _ ih | moreStopped _ _ ih | node _ ih | alone _ _ ih
  | suffixedStopped _ ih | nested _ ih | ruined _ _ ih => exact ih
  | seq h _ ih ih' | more _ h _ ih ih' | suffixed h _ _ ih ih' | item _ h _ ih ih' =>
    obtain ⟨new, he, hnames⟩ := ih
    obtain ⟨new', he', hnames'⟩ := ih'
    obtain ⟨read, hp, -⟩ := h.exists_passes
    refine ⟨new ++ new', by rw [he', he, List.append_assoc], fun e hm => ?_⟩
    rcases List.mem_append.1 hm with hm | hm
    · exact hnames e hm
    · exact hp.names (hnames' e hm)
  | @damaged _ _ _ s s' _ _ _ e _ _ h _ ih ih' =>
    obtain ⟨new, he, hnames⟩ := ih
    obtain ⟨new', he', hnames'⟩ := ih'
    obtain ⟨read, hp, -⟩ := h.exists_passes
    obtain ⟨skipped, hskip⟩ := (s'.record e).exists_passes_resume
    refine ⟨new ++ e :: new', ?_, fun e' hm => ?_⟩
    · rw [he', ParserState.resume_errors, ParserState.record, he]
      simp
    · rcases List.mem_append.1 hm with hm | hm
      · exact hnames e' hm
      · rcases List.mem_cons.1 hm with rfl | hm
        · exact h.names_stop rfl
        · exact ((hp.record e).trans hskip).names (hnames' e' hm)

theorem errors_eq_of_trans {form' : Form} {s'' : ParserState} {us : List Tree}
    {stop' : Option Stop} (h : form.Runs n s ts stop s') (h' : form'.Runs n s' us stop' s'')
    (he : s''.errors = s.errors) : s'.errors = s.errors ∧ s''.errors = s'.errors := by
  obtain ⟨new, hnew, -⟩ := h.exists_errors
  obtain ⟨new', hnew', -⟩ := h'.exists_errors
  rw [hnew', hnew, List.append_assoc, List.append_right_eq_self, List.append_eq_nil_iff] at he
  exact ⟨by rw [hnew, he.1, List.append_nil], by rw [hnew', he.2, List.append_nil]⟩

/-- A recorded error stays. -/
theorem errors_ne_of_resume {e : SyntaxError} {form' : Form} {s'' : ParserState} {us : List Tree}
    {stop' : Option Stop} (h : form.Runs n s ts stop s')
    (h' : form'.Runs n (s'.record e).resume us stop' s'') : s''.errors ≠ s.errors := by
  obtain ⟨new, hnew, -⟩ := h.exists_errors
  obtain ⟨new', hnew', -⟩ := h'.exists_errors
  rw [hnew', ParserState.resume_errors, ParserState.record, hnew]
  simp

/-- Where nothing is wrong, all tokens that are read become leaves. -/
theorem passes_leaves (h : form.Runs n s ts stop s') (he : s'.errors = s.errors)
    (hf : ∀ e ∈ stop, e.fatal = false) : s.Passes (Tree.leavesAll ts) s' := by
  induction h with
  | token hk hat hr => exact ParserState.passes_next _ hat hr
  | mismatch | empty | done | tooDeep | finish | abandon => exact .refl _
  | seqStopped _ ih | yes _ _ ih | no _ _ ih | moreStopped _ _ ih | alone _ _ ih
  | suffixedStopped _ ih | nested _ ih => exact ih he hf
  | node _ ih => simpa [Tree.leavesAll, Tree.leaves] using ih he hf
  | ruined => cases hf _ rfl
  | seq h h' ih ih' | more _ h h' ih ih' | item _ h h' ih ih' =>
    obtain ⟨hl, hr⟩ := h.errors_eq_of_trans h' he
    rw [Tree.leavesAll_append]
    exact (ih hl (by simp)).trans (ih' hr hf)
  | suffixed h _ h' ih ih' =>
    obtain ⟨hl, hr⟩ := h.errors_eq_of_trans h' he
    simpa [Tree.leavesAll, Tree.leaves, Tree.leavesAll_append] using
      (ih hl (by simp)).trans (ih' hr hf)
  | damaged _ h h' => exact absurd he (h.errors_ne_of_resume h')

theorem closed (h : form.Runs n s ts stop s') (hs : s.Closed) : s'.Closed := by
  obtain ⟨read, hp, -⟩ := h.exists_passes
  exact hp.closed hs

/-- A damaged item costs a token at least: the one it begins with, or the one it stops at. -/
theorem exists_passes_resume (h : form.Runs n s ts stop s') (hs : s.Closed)
    (he : s.atEnd = false) (e : SyntaxError) :
    ∃ read, s.Passes read (s'.record e).resume ∧ read ≠ [] := by
  obtain ⟨read, hp, -⟩ := h.exists_passes
  obtain ⟨skipped, hskip⟩ := (s'.record e).exists_passes_resume
  refine ⟨_, (hp.record e).trans hskip, fun hnil => ?_⟩
  obtain ⟨rfl, rfl⟩ := List.append_eq_nil_iff.1 hnil
  have hcurrent : s'.atEnd = false := by
    have ht := hp.tokens
    simp only [ParserState.tokens, List.nil_append, List.cons.injEq] at ht
    rw [← he, ParserState.atEnd, ParserState.atEnd, ht.1]
  have hlt := ParserState.index_lt_resume (hp.record e |>.closed hs) hcurrent
  simp [hskip.index] at hlt

end Form.Runs
end CoreLang
