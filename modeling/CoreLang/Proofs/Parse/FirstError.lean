import CoreLang.Proofs.Parse.Foresight

/-! The first error of a parse stands at the earliest token that can be blamed: what comes before it
begins a program, and with it no program begins. -/
namespace CoreLang

namespace Parse
variable {tokens sentence : List Token} {e : SyntaxError}

theorem exists_faults (h : (ofTokens tokens).errors.head? = some e) :
    ∃ ts stop s, Grammar.program.Runs Limits.nesting (.ofTokens tokens) ts stop s ∧
      Faults (.ofTokens tokens) s stop e := by
  obtain ⟨ts, stop, s, hrun, -, hparse⟩ := exists_runs tokens
  rw [hparse] at h
  obtain ⟨more, hmore⟩ := List.head?_eq_some_iff.1 h
  exact ⟨ts, stop, s, hrun, more, by rw [ParserState.ofTokens_errors]; exact hmore⟩

/-- No sentence has tokens of the same kinds up to the first error. -/
theorem not_sentence (h : (ofTokens tokens).errors.head? = some e) (hr : e.Recoverable)
    (hkinds : ∀ j ≤ e.index, ((ParserState.ofTokens tokens).tokens[j]?).map (·.kind) =
      ((ParserState.ofTokens sentence).tokens[j]?).map (·.kind)) :
    ¬Token.Sentence sentence := by
  rintro ⟨t, depth, hshape, rfl⟩
  obtain ⟨ts, stop, s, hrun, hfaults⟩ := exists_faults h
  obtain ⟨us, s', -, k, hk⟩ := runs_leaves hshape
  have ha : (ParserState.ofTokens tokens).Agree e.index (.ofTokens t.leaves) :=
    ⟨by simp, fun j hj => hkinds j (by simpa using hj)⟩
  obtain ⟨rfl, hclean, -⟩ := Form.program_local _ hrun k (by rw [hk, ParserState.ofTokens_errors])
    ha (.inr ⟨e, hfaults, Nat.le_refl _, hr⟩)
  exact Form.Runs.not_faults hclean hfaults

/-- The tokens before the first error begin a sentence, also with a token of the kind that the error
asks for. With the token of the error they begin none, where an end marker ends the sentence. -/
theorem first_error (h : (ofTokens tokens).errors.head? = some e) (hr : e.Recoverable) :
    (ParserState.ofTokens tokens).tokens[e.index]? = some e.found ∧
      Token.Viable (tokens.take e.index) ∧
      (e.found.kind ≠ .endMarker → ¬Token.Viable (tokens.take e.index ++ [e.found])) ∧
      (e.found.kind = .endMarker → ¬Token.Sentence (tokens.take e.index)) ∧
      ∀ t : Token, e.expected? = some t.kind → Token.Viable (tokens.take e.index ++ [t]) := by
  obtain ⟨ts, stop, s, hrun, hfaults⟩ := exists_faults h
  obtain ⟨marker, htokens, -, hlen, -⟩ := ParserState.ofTokens_tokens tokens
  obtain ⟨-, hfound⟩ := hrun.names_of_faults hfaults
  rw [ParserState.ofTokens_index, Nat.sub_zero] at hfound
  have hle : e.index ≤ tokens.length := by
    obtain ⟨hlt, -⟩ := List.getElem?_eq_some_iff.1 hfound
    rw [htokens, List.length_append] at hlt
    omega
  have htake : (ParserState.ofTokens tokens).tokens.take e.index = tokens.take e.index := by
    rw [htokens, List.take_append_of_le_length hle]
  have hlength : (tokens.take e.index).length = e.index := List.length_take_of_le hle
  have hbefore : ∀ j < e.index,
      (ParserState.ofTokens tokens).tokens[j]? = (tokens.take e.index)[j]? := by
    intro j hj
    rw [← htake, List.getElem?_take_of_lt hj]
  have hviable : ∀ ext : Option Token, (∀ t ∈ ext, e.expected? = some t.kind) →
      Token.Viable (tokens.take e.index ++ ext.toList) := by
    intro ext hext
    have hbegins := hrun.begins Grammar.program_honest hfaults hr hext
    rw [ParserState.ofTokens_index, Nat.sub_zero, htake] at hbegins
    exact Token.viable_of_begins hbegins
  refine ⟨hfound, by simpa using hviable none (by simp), ?_, ?_, ?_⟩
  · rintro - ⟨more, hsentence⟩
    refine not_sentence h hr (fun j hj => congrArg _ ?_) hsentence
    obtain ⟨marker', htokens', -⟩ :=
      ParserState.ofTokens_tokens (tokens.take e.index ++ [e.found] ++ more)
    rw [htokens', List.append_assoc, List.append_assoc]
    rcases Nat.lt_or_eq_of_le hj with hj | rfl
    · rw [hbefore j hj, List.getElem?_append_left (by omega)]
    · rw [hfound, List.getElem?_append_right (by omega), hlength, Nat.sub_self]
      rfl
  · intro hkind hsentence
    refine not_sentence h hr (fun j hj => ?_) hsentence
    obtain ⟨t, depth, hshape, hleaves⟩ := hsentence
    obtain ⟨m, htokens', hm⟩ := ParserState.exists_marker_of_unmarked
      (hleaves ▸ fun u hu => (hshape.leaf_kind u hu).1)
    rw [htokens']
    rcases Nat.lt_or_eq_of_le hj with hj | rfl
    · rw [hbefore j hj, List.getElem?_append_left (by omega)]
    · rw [hfound, List.getElem?_append_right (by omega), hlength, Nat.sub_self]
      simp [hkind, hm]
  · intro t ht
    exact hviable (some t) (by simpa using ht)

/-- After a type and a name a semicolon is missing, and a semicolon would do. -/
theorem first_error_unfinished :
    let tokens := [Kind.intKeyword.token, Kind.identifier.token]
    let e : SyntaxError := ⟨.expected .semicolon, .endMarker ⟨1, 2⟩, 2⟩
    (ofTokens tokens).errors.head? = some e ∧ e.Recoverable ∧ Token.Viable tokens ∧
      ¬Token.Sentence tokens ∧ ∀ t : Token, t.kind = .semicolon → Token.Viable (tokens ++ [t]) := by
  intro tokens e
  have h : (ofTokens tokens).errors.head? = some e := by decide +kernel
  have hr : e.Recoverable := ⟨by decide, by decide⟩
  obtain ⟨-, hviable, -, hsentence, hexpected⟩ := first_error h hr
  exact ⟨h, hr, hviable, hsentence rfl, fun t ht => hexpected t (congrArg some ht.symm)⟩

end Parse
end CoreLang
