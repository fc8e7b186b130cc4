import CoreLang.Proofs.Parse.Adequacy

/-! No token is lost without an error, and every error costs a token. -/
namespace CoreLang

namespace Form.Runs
variable {n : Nat} {form : Form} {s s' : ParserState} {ts : List Tree} {stop : Option Stop}

theorem leaves_ne_nil (h : form.Runs n s ts stop s') (hstop : stop = none)
    (hr : form.reads = true) : Tree.leavesAll ts ≠ [] := by
  induction h with
  | token => simp [Tree.leavesAll, Tree.leaves]
  | seq _ _ ih ih' =>
    rw [Tree.leavesAll_append]
    rcases Bool.or_eq_true_iff.1 hr with hr | hr
    · exact List.append_ne_nil_of_left_ne_nil (ih rfl hr) _
    · exact List.append_ne_nil_of_right_ne_nil _ (ih' hstop hr)
  | yes _ _ ih => exact ih hstop (Bool.and_eq_true_iff.1 hr).1
  | no _ _ ih => exact ih hstop (Bool.and_eq_true_iff.1 hr).2
  | node _ ih => simpa [Tree.leavesAll, Tree.leaves] using ih hstop hr
  | alone _ _ ih => exact ih rfl hr
  | suffixed _ _ _ ih =>
    simp only [Tree.leavesAll, Tree.leaves, Tree.leavesAll_append, List.append_nil]
    exact List.append_ne_nil_of_left_ne_nil (ih rfl hr) _
  | @nested _ c _ _ _ _ _ ih => exact ih hstop (rule_reads c)
  | empty | done | more | finish | item | damaged => cases hr
  | mismatch | seqStopped | moreStopped | suffixedStopped | tooDeep | ruined | abandon =>
    cases hstop

theorem eq_or_leaves_ne_nil (h : form.Runs n s ts stop s') (hg : form.grounded = true) :
    s' = s ∨ Tree.leavesAll ts ≠ [] := by
  induction h with
  | token => exact .inr (by simp [Tree.leavesAll, Tree.leaves])
  | mismatch | empty | done | tooDeep | abandon => exact .inl rfl
  | seq h h' ih ih' =>
    obtain ⟨hg₁, hg₂⟩ := Bool.and_eq_true_iff.1 hg
    rw [Tree.leavesAll_append]
    rcases ih hg₁ with rfl | hne
    · rcases Bool.or_eq_true_iff.1 hg₂ with hr | hg₂
      · exact .inr (List.append_ne_nil_of_left_ne_nil (h.leaves_ne_nil rfl hr) _)
      · exact (ih' hg₂).imp_right fun hne => List.append_ne_nil_of_right_ne_nil _ hne
    · exact .inr (List.append_ne_nil_of_left_ne_nil hne _)
  | seqStopped _ ih => exact ih (Bool.and_eq_true_iff.1 hg).1
  | yes _ _ ih => exact ih (Bool.and_eq_true_iff.1 hg).1
  | no _ _ ih => exact ih (Bool.and_eq_true_iff.1 hg).2
  | more _ _ _ ih ih' =>
    rw [Tree.leavesAll_append]
    rcases ih hg with rfl | hne
    · exact (ih' hg).imp_right fun hne => List.append_ne_nil_of_right_ne_nil _ hne
    · exact .inr (List.append_ne_nil_of_left_ne_nil hne _)
  | moreStopped _ _ ih => exact ih hg
  | node _ ih => simpa [Tree.leavesAll, Tree.leaves] using ih hg
  | alone _ _ ih => exact ih (Bool.and_eq_true_iff.1 hg).1
  | suffixed h _ h' ih ih' =>
    obtain ⟨hg₁, hg₂⟩ := Bool.and_eq_true_iff.1 hg
    simp only [Tree.leavesAll, Tree.leaves, Tree.leavesAll_append, List.append_nil]
    rcases ih hg₁ with rfl | hne
    · rcases Bool.or_eq_true_iff.1 hg₂ with hr | hg₂
      · exact .inr (List.append_ne_nil_of_left_ne_nil (h.leaves_ne_nil rfl hr) _)
      · exact (ih' hg₂).imp_right fun hne => List.append_ne_nil_of_right_ne_nil _ hne
    · exact .inr (List.append_ne_nil_of_left_ne_nil hne _)
  | suffixedStopped _ ih => exact ih (Bool.and_eq_true_iff.1 hg).1
  | @nested _ c _ _ _ _ _ ih => exact ih (rule_grounded c)
  | finish | item | damaged | ruined => cases hg

/-- A form that begins with a token of its own is not fatally stopped before it has read one. -/
theorem leaves_ne_nil_of_fatal (h : form.Runs n s ts stop s') (hh : form.headed = true)
    {e : SyntaxError} (hstop : stop = some ⟨e, true⟩) : Tree.leavesAll ts ≠ [] := by
  induction h with
  | token => cases hstop
  | mismatch => cases hstop
  | seq h h' =>
    rw [Tree.leavesAll_append]
    refine List.append_ne_nil_of_left_ne_nil (h.leaves_ne_nil rfl ?_) _
    exact reads_of_headed hh
  | seqStopped _ ih => exact ih hh hstop
  | yes _ _ ih => exact ih (Bool.and_eq_true_iff.1 hh).1 hstop
  | no _ _ ih => exact ih (Bool.and_eq_true_iff.1 hh).2 hstop
  | node _ ih => simpa [Tree.leavesAll, Tree.leaves] using ih hh hstop
  | alone => cases hstop
  | suffixed h =>
    simp only [Tree.leavesAll, Tree.leaves, Tree.leavesAll_append, List.append_nil]
    exact List.append_ne_nil_of_left_ne_nil (h.leaves_ne_nil rfl (reads_of_headed hh)) _
  | suffixedStopped _ ih => exact ih hh hstop
  | empty | done | more | moreStopped | nested | tooDeep | finish | item | damaged | ruined
  | abandon => cases hh

/-- If the errors and leaves of a damaged item are no more than its tokens, then its own error is
paid for too: a leaf of it is lost, or a token is skipped. -/
theorem damaged_cost {e : SyntaxError} (h : form.Runs n s ts stop s') (hs : s.Closed)
    (he : s.atEnd = false) (hg : form.grounded = true)
    (hcost : s'.errors.length + (Tree.leavesAll ts).length + s.index ≤
      s.errors.length + s'.index) :
    (s'.record e).resume.errors.length + s.index ≤
      s.errors.length + (s'.record e).resume.index := by
  obtain ⟨skipped, hskip⟩ := (s'.record e).exists_passes_resume
  have hle : s'.index ≤ (s'.record e).resume.index := hskip.index_le
  have herrors : (s'.record e).resume.errors.length = s'.errors.length + 1 := by
    simp [ParserState.resume_errors, ParserState.record]
  rcases h.eq_or_leaves_ne_nil hg with rfl | hne
  · have hlt : s'.index < (s'.record e).resume.index :=
      ParserState.index_lt_resume (s := s'.record e) hs he
    omega
  · have hpos := List.length_pos_iff.2 hne
    omega

/-- Errors and leaves together are no more than the tokens that are passed. -/
theorem errors_length_add_leaves_le (h : form.Runs n s ts stop s') (hs : s.Closed)
    (hp : form.proper = true) :
    s'.errors.length + (Tree.leavesAll ts).length + s.index ≤ s.errors.length + s'.index := by
  induction h with
  | token => simp [Tree.leavesAll, Tree.leaves]; omega
  | mismatch | empty | done | tooDeep | finish | abandon => simp [Tree.leavesAll]
  | seq h _ ih ih' =>
    obtain ⟨hp₁, hp₂⟩ := Bool.and_eq_true_iff.1 hp
    have hfirst := ih hs hp₁
    have hsecond := ih' (h.closed hs) hp₂
    simp only [Tree.leavesAll_append, List.length_append]
    omega
  | seqStopped _ ih => exact ih hs (Bool.and_eq_true_iff.1 hp).1
  | yes _ _ ih => exact ih hs (Bool.and_eq_true_iff.1 hp).1
  | no _ _ ih => exact ih hs (Bool.and_eq_true_iff.1 hp).2
  | more _ h _ ih ih' | item _ h _ ih ih' =>
    have hfirst := ih hs (Bool.and_eq_true_iff.1 hp).2
    have hsecond := ih' (h.closed hs) hp
    simp only [Tree.leavesAll_append, List.length_append]
    omega
  | moreStopped _ _ ih => exact ih hs (Bool.and_eq_true_iff.1 hp).2
  | node _ ih => simpa [Tree.leavesAll, Tree.leaves] using ih hs hp
  | alone _ _ ih => exact ih hs (Bool.and_eq_true_iff.1 hp).1
  | suffixed h _ _ ih ih' =>
    obtain ⟨hp₁, hp₂⟩ := Bool.and_eq_true_iff.1 hp
    have hfirst := ih hs hp₁
    have hsecond := ih' (h.closed hs) hp₂
    simp only [Tree.leavesAll, Tree.leaves, Tree.leavesAll_append, List.append_nil,
      List.length_append]
    omega
  | suffixedStopped _ ih => exact ih hs (Bool.and_eq_true_iff.1 hp).1
  | @nested _ c _ _ _ _ _ ih => exact ih hs (rule_proper c)
  | @damaged _ _ _ _ s' _ _ _ e _ hitems h _ ih ih' =>
    obtain ⟨hp', hitem⟩ := Bool.and_eq_true_iff.1 hp
    have hcost := h.damaged_cost (e := e) hs (by simpa using (not_or.1 hitems).1)
      (Bool.and_eq_true_iff.1 hp').2 (ih hs hitem)
    obtain ⟨skipped, hskip⟩ := (s'.record e).exists_passes_resume
    have hrest := ih' (hskip.closed (h.closed hs)) hp
    omega
  | ruined _ _ ih =>
    have hitem := ih hs (Bool.and_eq_true_iff.1 hp).2
    simp only [Tree.leavesAll, List.length_nil]
    omega

/-- A fatal error costs the item that it stops. -/
theorem items_cost {stops : List Kind} {item : Form}
    (h : (Form.items stops item).Runs n s ts stop s') (hs : s.Closed)
    (hp : (Form.items stops item).proper = true) (hh : item.headed = true) :
    s'.errors.length + stop.toList.length + (Tree.leavesAll ts).length + s.index ≤
      s.errors.length + s'.index := by
  obtain ⟨hp', hitem⟩ := Bool.and_eq_true_iff.1 hp
  generalize hform : Form.items stops item = form at h
  induction h with
  | finish => simp [Tree.leavesAll]
  | item _ h _ _ ih' =>
    cases hform
    have hfirst := h.errors_length_add_leaves_le hs hitem
    have hrest := ih' (h.closed hs) rfl
    simp only [Tree.leavesAll_append, List.length_append]
    omega
  | @damaged _ _ _ _ s' _ _ _ e _ hitems h _ _ ih' =>
    cases hform
    have hcost := h.damaged_cost (e := e) hs (by simpa using (not_or.1 hitems).1)
      (Bool.and_eq_true_iff.1 hp').2 (h.errors_length_add_leaves_le hs hitem)
    obtain ⟨skipped, hskip⟩ := (s'.record e).exists_passes_resume
    have hrest := ih' (hskip.closed (h.closed hs)) rfl
    omega
  | ruined _ h =>
    cases hform
    have hcost := h.errors_length_add_leaves_le hs hitem
    have hpos := List.length_pos_iff.2 (h.leaves_ne_nil_of_fatal hh rfl)
    simp only [Tree.leavesAll, Option.toList, List.length_singleton, List.length_nil]
    omega
  | token | mismatch | empty | seq | seqStopped | yes | no | done | more | moreStopped | node
  | alone | suffixed | suffixedStopped | nested | tooDeep | abandon => cases hform

/-- Only an error makes the parser panic. -/
theorem panic_eq (h : form.Runs n s ts stop s') (he : s'.errors = s.errors) :
    s'.panic = s.panic := by
  induction h with
  | token | mismatch | empty | done | tooDeep | finish | abandon => rfl
  | seqStopped _ ih | yes _ _ ih | no _ _ ih | moreStopped _ _ ih | node _ ih | alone _ _ ih
  | suffixedStopped _ ih | nested _ ih | ruined _ _ ih => exact ih he
  | seq h h' ih ih' | more _ h h' ih ih' | suffixed h _ h' ih ih' | item _ h h' ih ih' =>
    obtain ⟨hl, hr⟩ := h.errors_eq_of_trans h' he
    rw [ih' hr, ih hl]
  | damaged _ h h' => exact absurd he (h.errors_ne_of_resume h')

theorem items_end {stops : List Kind} {item : Form}
    (h : (Form.items stops item).Runs n s ts none s') :
    s'.atEnd = true ∨ s'.current.kind ∈ stops := by
  generalize hform : Form.items stops item = form at h
  generalize hstop : (none : Option Stop) = stop at h
  induction h with
  | finish hs => cases hform; exact hs
  | item _ _ _ _ ih' | damaged _ _ _ _ ih' => exact ih' hform hstop
  | ruined => cases hstop
  | token | mismatch | empty | seq | seqStopped | yes | no | done | more | moreStopped | node
  | alone | suffixed | suffixedStopped | nested | tooDeep | abandon => cases hform

end Form.Runs

namespace Parse
variable (tokens : List Token)

theorem errors_length_add_leaves_le :
    (ofTokens tokens).errors.length + (ofTokens tokens).root.leaves.length ≤
      (Token.beforeMarker tokens).length := by
  obtain ⟨ts, stop, s, h, -, hparse⟩ := exists_runs tokens
  have hcost := h.items_cost (ParserState.ofTokens_closed tokens) Grammar.program_proper
    Grammar.declaration_headed
  obtain ⟨read, hpass, -⟩ := h.exists_passes
  have hindex := hpass.index
  rw [← ParserState.beforeMarker_ofTokens, hpass.beforeMarker, hparse]
  simp only [ParserState.ofTokens_index, ParserState.ofTokens_errors, List.length_nil]
    at hcost hindex
  simp only [Tree.leaves, List.length_append]
  cases stop <;> simp at hcost ⊢ <;> omega

theorem leaves_eq_of_errors_eq_nil (h : (ofTokens tokens).errors = []) :
    (ofTokens tokens).panicked = false ∧
      (ofTokens tokens).root.leaves = Token.beforeMarker tokens := by
  obtain ⟨ts, stop, s, hrun, -, hparse⟩ := exists_runs tokens
  rw [hparse] at h ⊢
  obtain ⟨herrors, hstop⟩ := List.append_eq_nil_iff.1 h
  obtain rfl : stop = none := by cases stop <;> simp_all
  have hclean : s.errors = (ParserState.ofTokens tokens).errors := by
    rw [herrors, ParserState.ofTokens_errors]
  refine ⟨by simp [hrun.panic_eq hclean], ?_⟩
  have hend : s.atEnd = true := hrun.items_end.resolve_right (by simp)
  rw [← ParserState.beforeMarker_ofTokens]
  exact ((hrun.passes_leaves hclean (by simp)).beforeMarker_of_atEnd hend).symm

/-- A parse succeeds exactly if it reports no error, and exactly if all tokens before the first end
marker are leaves of its tree. Every error costs a token, and no parse panics silently. -/
theorem successful_iff :
    ((ofTokens tokens).successful = true ↔ (ofTokens tokens).errors = []) ∧
      ((ofTokens tokens).successful = true ↔
        (ofTokens tokens).root.leaves = Token.beforeMarker tokens) ∧
      (ofTokens tokens).errors.length + (ofTokens tokens).root.leaves.length ≤
        (Token.beforeMarker tokens).length ∧
      ((ofTokens tokens).panicked = true → (ofTokens tokens).errors ≠ []) := by
  have hcost := errors_length_add_leaves_le tokens
  have hiff : (ofTokens tokens).successful = true ↔ (ofTokens tokens).errors = [] := by
    simp only [successful, Bool.and_eq_true, Bool.not_eq_true', List.isEmpty_iff]
    exact ⟨fun h => h.2, fun h => ⟨(leaves_eq_of_errors_eq_nil tokens h).1, h⟩⟩
  refine ⟨hiff, hiff.trans ⟨fun h => (leaves_eq_of_errors_eq_nil tokens h).2, fun h => ?_⟩, hcost,
    fun hp h => ?_⟩
  · rw [h] at hcost
    exact List.length_eq_zero_iff.1 (by omega)
  · simp [(leaves_eq_of_errors_eq_nil tokens h).1] at hp

end Parse
end CoreLang
