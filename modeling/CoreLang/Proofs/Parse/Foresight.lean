import CoreLang.Proofs.Parse.Completeness
import CoreLang.Proofs.Parse.Locality

/-! The forms that look further ahead than one token are local too. Where two runs decide
differently, they differ only behind tokens with which both alternatives can begin, and a run over
those alone finds no error. -/
namespace CoreLang
open Form Grammar

namespace Form
variable {n : Nat}

/-- A run of a local form gets past tokens that can begin the form. -/
theorem Local.not_within {form : Form} (hlocal : form.Local n)
    (hcomplete : ∀ d, form.Complete d [.semicolon]) {read : List Token} (hread : form.Begins read)
    {p : Nat} {s s₁ : ParserState} {ts : List Tree} {stop : Option Stop}
    (h : form.Runs n s ts stop s₁)
    (hkinds : ∀ j, s.index + j ≤ p → (s.tokens[j]?).map (·.kind) = (read[j]?).map (·.kind))
    (hlong : p < s.index + read.length) : ¬Within p s s₁ stop := by
  intro hw
  have hp := hw.index_le h
  obtain ⟨depth, us, more, hd, hleaves⟩ := hread
  obtain ⟨t, rest, hcons⟩ : ∃ t rest, read = t :: rest :=
    List.exists_cons_of_ne_nil (by rintro rfl; simp at hlong; omega)
  let s' : ParserState := ⟨t, rest ++ more ++ [Kind.semicolon.token], s.index, false, []⟩
  have ht : s'.tokens = Tree.leavesAll us ++ [Kind.semicolon.token] := by
    simp [s', ParserState.tokens, hleaves, hcons]
  obtain ⟨s₁', k, -, hk⟩ :=
    hcomplete depth us s' [Kind.semicolon.token] hd ht (by simp) (by simp [kindAhead, Kind.token])
  have ha : s.Agree p s' := by
    refine ⟨rfl, fun j hj => ?_⟩
    rw [hkinds j hj, ht, hleaves, List.append_assoc, List.getElem?_append_left (by omega)]
  obtain ⟨rfl, hclean, hi⟩ := hlocal h k hk ha hw
  have hend := hw.end_le hclean
  have hpass := (k.passes_leaves hk (by simp)).index
  simp only [hleaves, List.length_append, s'] at hpass
  omega

/-- The trees of the form begin with a type and a name, and any type and any name begin one. -/
structure Declares (form : Form) : Prop where
  opens : ∀ {depth ts}, form.Derives depth ts → ∃ t u rest, Tree.leavesAll ts = t :: u :: rest ∧
    t.kind ∈ Kind.dataTypes ∧ u.kind = .identifier
  begins : ∀ t u : Token, t.kind ∈ Kind.dataTypes → u.kind = .identifier → form.Begins [t, u]

theorem dataType_derives {t : Token} (ht : t.kind ∈ Kind.dataTypes) :
    dataType.Derives 0 [.node .dataType [.leaf (leafLabel t.kind) t]] := .node (.token ht)

theorem one_derives {t : Token} {k : Kind} (ht : t.kind = k) :
    (one k).Derives 0 [.leaf (leafLabel t.kind) t] := .token (List.mem_singleton.2 ht)

theorem begins_of_check (form : Form) (h : form.productive constructs = true) : form.Begins [] :=
  begins_of_productive (fun c _ => nested_begins c) form h

theorem declares_node (p : Production) {rest : Form} (h : rest.productive constructs = true) :
    Declares (node p (seq dataType (seq (one .identifier) rest))) where
  opens hd := by
    cases hd with | node hd =>
    cases hd with | seq ht hd =>
    cases ht with | node ht =>
    cases ht with | token ht =>
    cases hd with | seq hu hd =>
    cases hu with | token hu =>
    exact ⟨_, _, _, by rw [Tree.leavesAll_node]; rfl, ht, List.mem_singleton.1 hu⟩
  begins t u ht hu :=
    .node (.seq_right (dataType_derives ht) (.seq_right (one_derives hu) (begins_of_check _ h)))

theorem declares_functionDeclaration : Declares functionDeclaration :=
  declares_node _ (by decide)

theorem declares_arrayDeclaration : Declares arrayDeclaration := declares_node _ (by decide)

theorem declares_variableDeclaration : Declares variableDeclaration where
  opens h := by
    obtain ⟨read, more, heq, hopens, -⟩ := h.opens
    match read, hopens with
    | [t, u], ⟨ht, hu, _⟩ => exact ⟨t, u, _, heq, ht, List.mem_singleton.1 hu⟩
  begins t u ht hu := by
    have hvalue : declarator.Begins [u] :=
      .seq_right (one_derives hu) (begins_of_check _ (by decide))
    refine .node (.seq_right (dataType_derives ht) (.seq (.seq hvalue ?_) ?_))
    · exact begins_of_check _ (by decide)
    · exact begins_of_check _ (by decide)

theorem Declares.branch {look : Look} {yes no : Form} (hyes : Declares yes) (hno : Declares no) :
    Declares (branch look yes no) where
  opens h := by
    cases h with
    | yes h => exact hyes.opens h
    | no h => exact hno.opens h
  begins t u ht hu := .no (hno.begins t u ht hu)

theorem Local.branch_of_declares {kinds : List Kind} {yes no : Form} (hyes : yes.Local n)
    (hno : no.Local n) (hyes' : Declares yes) (hno' : Declares no)
    (hcyes : ∀ d, yes.Complete d [.semicolon]) (hcno : ∀ d, no.Complete d [.semicolon]) :
    (Form.branch (.sees 2 kinds) yes no).Local n := by
  refine .branch hyes hno ?_
  intro p s ts stop s₁ m s' us s₁' h k hk ha hw
  by_cases hp : s.index + 2 ≤ p
  · rw [Look.holds, Look.holds, ha.kindAhead hp]
  · exfalso
    obtain ⟨t, u, rest, hleaves, ht, hu⟩ := (hyes'.branch hno').opens (k.derives (.inl rfl))
    have hpass := k.passes_leaves hk (by simp)
    have hkinds : ∀ j, s.index + j ≤ p →
        (s.tokens[j]?).map (·.kind) = ([t, u][j]?).map (·.kind) := by
      intro j hj
      rw [ha.kinds j hj, hpass.tokens, hleaves]
      obtain rfl | rfl : j = 0 ∨ j = 1 := by omega
      · rfl
      · rfl
    have hlong : p < s.index + [t, u].length := by simp; omega
    cases h with
    | yes _ h => exact hyes.not_within hcyes (hyes'.begins t u ht hu) h hkinds hlong hw
    | no _ h => exact hno.not_within hcno (hno'.begins t u ht hu) h hkinds hlong hw

theorem lt_of_within_elseClause {c : Nested} {p : Nat} {s s₁ : ParserState} {ts : List Tree}
    {stop : Option Stop} (h : (elseClause c).Runs n s ts stop s₁)
    (hk : s.current.kind = .elseKeyword) (hw : Within p s s₁ stop) : s.index < p := by
  cases h with | node h =>
  cases h with
  | seq ht h =>
    have hw' := hw.second ht h (by cases ht; rfl)
    cases ht with | token => exact hw'.index_le h
  | seqStopped ht =>
    cases ht with | mismatch hne => exact absurd (List.mem_singleton.2 hk) hne

theorem lt_of_within_elseClauses {p : Nat} {s s₁ : ParserState} {ts : List Tree}
    {stop : Option Stop} (h : elseClauses.Runs n s ts stop s₁)
    (hk : s.current.kind = .elseKeyword) (hw : Within p s s₁ stop) : s.index < p := by
  have hsees : (Look.sees 0 [.elseKeyword]).holds s.tokens = true := by
    simp [Look.holds, kindAhead, ParserState.tokens, hk]
  cases h with
  | seq hmany hlast =>
    cases hmany with
    | done =>
      cases hlast with
      | yes _ h => exact lt_of_within_elseClause h hk hw
      | no hl => rw [hsees] at hl; cases hl
    | more _ h h' => exact lt_of_within_elseClause h hk (hw.first h (.seq h' hlast))
  | seqStopped hmany =>
    cases hmany with
    | more _ h h' => exact lt_of_within_elseClause h hk (hw.first h h')
    | moreStopped _ h => exact lt_of_within_elseClause h hk hw

/-- A name, a constant in brackets, and more. -/
def Subscripted (tokens : List Token) : Prop :=
  ∃ t left constant right rest, tokens = t :: left :: constant :: right :: rest ∧
    t.kind = .identifier ∧ left.kind = .leftBracket ∧ constant.kind ∈ Kind.constants ∧
      right.kind = .rightBracket

/-- Where the form is not stopped and a name and a bracket come first, they begin a subscript. -/
def Subscripts (form : Form) : Prop :=
  ∀ ⦃n s ts s'⦄, form.Runs n s ts none s' → s.current.kind = .identifier →
    kindAhead 1 s.tokens = .leftBracket → Subscripted s.tokens

theorem subscripts_suffixed {p : Production} {operand suffix : Form} {look : Look}
    (h : Subscripts operand) : Subscripts (suffixed p operand look suffix) := by
  intro n s ts s' hrun hname hbracket
  cases hrun with
  | alone hrun => exact h hrun hname hbracket
  | suffixed hrun => exact h hrun hname hbracket

/-- The subscript is read as soon as its bracket is seen. -/
theorem subscripted_of_runs {s s' : ParserState} {ts : List Tree} {t u : Token}
    {rest : List Token} (h : (optional (.sees 0 [.leftBracket]) subscript).Runs n s ts none s')
    (ht : t.kind = .identifier) (hu : u.kind = .leftBracket) (hs : s.tokens = u :: rest) :
    Subscripted (t :: s.tokens) := by
  cases h with
  | yes _ h =>
    cases h with | seq h₁ h =>
    cases h₁ with | @token _ _ _ constant _ _ hk₁ he₁ hr₁ =>
    cases h with | seq h₂ h =>
    cases h₂ with | node h₂ =>
    cases h₂ with | @token _ _ _ right rest _ hk₂ he₂ hr₂ =>
    cases h with | token hk₃ he₃ hr₃ =>
    have htokens : s.tokens = s.current :: constant :: right :: rest := by
      rw [ParserState.tokens, hr₁]
      exact congrArg _ (congrArg _ hr₂)
    exact ⟨t, _, constant, right, rest, by rw [htokens], ht, List.mem_singleton.1 hk₁, hk₂,
      List.mem_singleton.1 hk₃⟩
  | no hl =>
    simp [Look.holds, kindAhead, hs, hu] at hl

theorem subscripts_name : Subscripts name := by
  intro n s ts s' h hname hbracket
  cases h with | seq h₁ h =>
  cases h₁ with | @token _ _ _ u rest _ hk he hr =>
  have hu : u.kind = .leftBracket := by
    simpa [kindAhead, ParserState.tokens, hname, hr] using hbracket
  rw [ParserState.tokens, hr]
  cases h with
  | yes hl => simp [Look.holds, kindAhead, ParserState.tokens, hu] at hl
  | no _ h => exact subscripted_of_runs h hname hu rfl

theorem subscripts_unary : Subscripts unary := by
  intro n s ts s' h hname hbracket
  cases h with
  | yes hl => simp [Look.holds, kindAhead, ParserState.tokens, hname, signs] at hl
  | no _ h =>
    cases h with | node h =>
    cases h with
    | yes _ h => exact subscripts_name h hname hbracket
    | no hl => simp [Look.holds, kindAhead, ParserState.tokens, hname] at hl

theorem subscripts_logicalOr : Subscripts logicalOr := by
  have hmultiplicative : Subscripts multiplicative :=
    subscripts_suffixed (subscripts_suffixed subscripts_unary)
  have hrelational : Subscripts relational :=
    subscripts_suffixed (subscripts_suffixed hmultiplicative)
  exact subscripts_suffixed (subscripts_suffixed (subscripts_suffixed hrelational))

theorem subscripts_assignment : Subscripts assignment := by
  intro n s ts s' h hname hbracket
  cases h with | node h =>
  cases h with | seq h₁ h =>
  cases h₁ with | @token _ _ _ u rest _ hk he hr =>
  have hu : u.kind = .leftBracket := by
    simpa [kindAhead, ParserState.tokens, hname, hr] using hbracket
  rw [ParserState.tokens, hr]
  cases h with | seq h =>
  exact subscripted_of_runs h hname hu rfl

section
variable {t left constant right : Token} (hl : left.kind = .leftBracket)
  (hc : constant.kind ∈ Kind.constants) (hr : right.kind = .rightBracket)
include hl hc hr

theorem subscript_derives : subscript.Derives 0
    [.leaf (leafLabel left.kind) left,
      .node .const [.leaf (leafLabel constant.kind) constant],
      .leaf (leafLabel right.kind) right] :=
  .seq (one_derives hl) (.seq (.node (.token hc)) (one_derives hr))

theorem assignment_begins (ht : t.kind = .identifier) :
    assignment.Begins [t, left, constant, right] :=
  .node (.seq_right (one_derives ht) (.seq_right (.yes (subscript_derives hl hc hr))
    (begins_of_check _ (by decide))))

theorem logicalOr_begins (ht : t.kind = .identifier) :
    logicalOr.Begins [t, left, constant, right] := by
  refine .alone (.alone (.alone (.alone (.alone (.alone (.alone (.no (.node (.yes ?_)))))))))
  exact .seq_right (one_derives ht)
    (.no (.yes ((subscript_derives hl hc hr).begins rfl)))

end

theorem Subscripted.congr {a b : List Token} (hb : Subscripted b)
    (h : ∀ j ≤ 3, (a[j]?).map (·.kind) = (b[j]?).map (·.kind)) : Subscripted a := by
  obtain ⟨t, left, constant, right, rest, rfl, ht, hl, hc, hr⟩ := hb
  have h₀ := h 0 (by omega)
  have h₁ := h 1 (by omega)
  have h₂ := h 2 (by omega)
  have h₃ := h 3 (by omega)
  match a with
  | [] | [_] | [_, _] | [_, _, _] => simp at h₃
  | t' :: left' :: constant' :: right' :: rest' =>
    simp only [List.getElem?_cons_zero, List.getElem?_cons_succ, Option.map_some,
      Option.some.injEq] at h₀ h₁ h₂ h₃
    exact ⟨t', left', constant', right', rest', rfl, h₀.trans ht, h₁.trans hl, h₂ ▸ hc,
      h₃.trans hr⟩

theorem Subscripted.assignment_holds {tokens : List Token} (h : Subscripted tokens) :
    Look.assignment.holds tokens = decide (kindAhead 0 (tokens.drop 4) = .assign) := by
  obtain ⟨t, left, constant, right, rest, rfl, ht, hl, hc, hr⟩ := h
  simp [Look.holds, kindAhead, ht, hl, afterBracket?_subscript hc hr]

/-- Where runs of an expression disagree on the assignment, what they have in common is the
beginning of a name with a subscript. -/
theorem exists_subscript {p m : Nat} {s s' s₁' : ParserState} {us : List Tree}
    (k : (branch .assignment assignment logicalOr).Runs m s' us none s₁') (ha : s.Agree p s')
    (hp : s.index ≤ p)
    (hne : Look.assignment.holds s.tokens ≠ Look.assignment.holds s'.tokens) :
    ∃ t left constant right : Token, t.kind = .identifier ∧ left.kind = .leftBracket ∧
      constant.kind ∈ Kind.constants ∧ right.kind = .rightBracket ∧ p < s.index + 4 ∧
        ∀ j, s.index + j ≤ p →
          (s.tokens[j]?).map (·.kind) = ([t, left, constant, right][j]?).map (·.kind) := by
  have h₀ := ha.kindAhead (j := 0) hp
  have hname : kindAhead 0 s'.tokens = .identifier := by
    by_cases hname : kindAhead 0 s'.tokens = .identifier
    · exact hname
    · simp [Look.holds, h₀, hname] at hne
  by_cases hp₁ : s.index + 1 ≤ p
  · have h₁ := ha.kindAhead hp₁
    have hbracket : kindAhead 1 s'.tokens = .leftBracket := by
      by_cases hbracket : kindAhead 1 s'.tokens = .leftBracket
      · exact hbracket
      · simp [Look.holds, h₀, h₁, hbracket] at hne
    have hsub : Subscripted s'.tokens := by
      cases k with
      | yes _ k => exact subscripts_assignment k hname hbracket
      | no _ k => exact subscripts_logicalOr k hname hbracket
    have hp₄ : p < s.index + 4 := by
      by_cases hp₄ : s.index + 4 ≤ p
      · have hsub' := hsub.congr fun j hj => ha.kinds j (by omega)
        have hnext : kindAhead 0 (s.tokens.drop 4) = kindAhead 0 (s'.tokens.drop 4) := by
          refine kindAhead_congr fun j hj => ?_
          rw [List.getElem?_drop, List.getElem?_drop]
          exact ha.kinds _ (by omega)
        rw [hsub'.assignment_holds, hsub.assignment_holds, hnext] at hne
        exact absurd rfl hne
      · omega
    obtain ⟨t, left, constant, right, rest, heq, ht, hl, hc, hr⟩ := hsub
    refine ⟨t, left, constant, right, ht, hl, hc, hr, hp₄, fun j hj => ?_⟩
    rw [ha.kinds j hj, heq]
    obtain rfl | rfl | rfl | rfl : j = 0 ∨ j = 1 ∨ j = 2 ∨ j = 3 := by omega
    all_goals rfl
  · refine ⟨s'.current, Kind.leftBracket.token, Kind.integerLiteral.token, Kind.rightBracket.token,
      hname, rfl, by decide, rfl, by omega, fun j hj => ?_⟩
    rw [ha.kinds j hj, show j = 0 by omega]
    rfl

section
variable (hnested : ∀ c : Nested, (nested c).Local n)
include hnested

/-- By induction on the number of tokens up to the place where the runs may part. -/
theorem elseClauses_local : elseClauses.Local n := by
  have hbody : (elseClause .block).Local n :=
    local_of_nearsighted_nil hnested (by decide)
  have hlast : (optional (.sees 0 [.elseKeyword]) (elseClause .ifStatement)).Local n :=
    local_of_nearsighted_nil hnested (by decide)
  intro p s
  generalize hd : p - s.index = d
  induction d using Nat.strongRecOn generalizing s with | _ d ih =>
  intro ts stop s₁ m s' us s₁' h k hk ha hw
  have hp := hw.index_le h
  have hlook : (Look.both (.sees 0 [.elseKeyword]) (.not (.sees 1 [.ifKeyword]))).holds s.tokens =
      (Look.both (.sees 0 [.elseKeyword]) (.not (.sees 1 [.ifKeyword]))).holds s'.tokens := by
    by_cases he : s.current.kind = .elseKeyword
    · have hlt := lt_of_within_elseClauses h he hw
      have h₀ := ha.kindAhead (j := 0) hp
      have h₁ := ha.kindAhead (j := 1) hlt
      simp only [Look.holds, h₀, h₁]
    · have he' : s'.current.kind ≠ .elseKeyword := ha.current hp ▸ he
      simp [Look.holds, kindAhead, ParserState.tokens, he, he']
  have hround : ∀ {t t' : ParserState} {vs vs' ws ws' : List Tree},
      (elseClause .block).Runs n s vs none t → elseClauses.Runs n t ws stop s₁ →
        (elseClause .block).Runs m s' vs' none t' → elseClauses.Runs m t' ws' none s₁' →
          stop = none ∧ s₁.errors = s.errors ∧ s₁.index = s₁'.index := by
    intro t t' vs vs' ws ws' h h' k k'
    refine hbody.trans h h' k k' hk ha hw fun hk₂ ha' hw' => ?_
    have hlt := h.index_lt rfl (show (elseClause .block).reads = true from rfl)
    have hle := hw'.index_le h'
    exact ih (p - t.index) (by omega) rfl h' k' hk₂ ha' hw'
  cases k with | seq k k' =>
  cases h with
  | seq h h' =>
    cases h with
    | done hl =>
      cases k with
      | done => exact hlast h' k' hk ha hw
      | more hl' => rw [hl, hl'] at hlook; cases hlook
    | more hl h hmore =>
      cases k with
      | done hl' => rw [hl, hl'] at hlook; cases hlook
      | more _ k kmore => exact hround h (.seq hmore h') k (.seq kmore k')
  | seqStopped h =>
    cases h with
    | more hl h hmore =>
      cases k with
      | done hl' => rw [hl, hl'] at hlook; cases hlook
      | more _ k kmore => exact hround h (.seqStopped hmore) k (.seq kmore k')
    | moreStopped hl h =>
      cases k with
      | done hl' => rw [hl, hl'] at hlook; cases hlook
      | more _ k kmore =>
        cases (hbody h k (k.errors_eq_of_trans (.seq kmore k') hk).1 ha hw).1

theorem expression_local : expression.Local n := by
  have hassignment : assignment.Local n :=
    local_of_nearsighted_nil hnested (by decide)
  have hlogicalOr : logicalOr.Local n :=
    local_of_nearsighted_nil hnested (by decide)
  have habandon : (abandon .unclosedSubscript).Local n :=
    local_of_nearsighted_nil hnested (by decide)
  have hsemicolon : [Kind.semicolon] ⊆ Nested.expression.follow := by decide
  refine .branch habandon (.branch hassignment hlogicalOr ?_) ?_
  · intro p s ts stop s₁ m s' us s₁' h k hk ha hw
    by_cases hne : Look.assignment.holds s.tokens = Look.assignment.holds s'.tokens
    · exact hne
    · exfalso
      obtain ⟨t, left, constant, right, ht, hl, hc, hr, hlong, hkinds⟩ :=
        exists_subscript k ha (hw.index_le h) hne
      cases h with
      | yes _ h =>
        exact hassignment.not_within
          (fun d => (assignment_complete (nested_complete d)).mono hsemicolon)
          (assignment_begins hl hc hr ht) h hkinds hlong hw
      | no _ h =>
        exact hlogicalOr.not_within
          (fun d => (logicalOr_complete (nested_complete d)).mono hsemicolon)
          (logicalOr_begins hl hc hr ht) h hkinds hlong hw
  · intro p s ts stop s₁ m s' us s₁' h k hk ha hw
    cases k with
    | yes _ k => cases k
    | no hl' =>
      cases h with
      | yes _ h =>
        cases h with | abandon =>
        rcases hw with ⟨hstop, -⟩ | ⟨e, he, -, hr⟩
        · cases hstop
        · obtain rfl := Runs.eq_of_faults he
          exact absurd rfl hr.2
      | no hl => rw [hl, hl']

theorem localDeclaration_local : localDeclaration.Local n := by
  have harray : arrayDeclaration.Local n :=
    local_of_nearsighted_nil hnested (by decide)
  have hvariable : variableDeclaration.Local n :=
    local_of_nearsighted_nil hnested (by decide)
  exact .branch_of_declares harray hvariable declares_arrayDeclaration
    declares_variableDeclaration
    (fun d => (arrayDeclaration_complete (nested_complete d)).mono (by decide))
    (fun d => (variableDeclaration_complete (nested_complete d)).mono (by decide))

theorem declaration_local : declaration.Local n := by
  have hfunction : functionDeclaration.Local n :=
    local_of_nearsighted_nil hnested (by decide)
  exact .node (.branch_of_declares hfunction (localDeclaration_local hnested)
    declares_functionDeclaration
    (declares_arrayDeclaration.branch declares_variableDeclaration)
    (fun d => (functionDeclaration_complete (nested_complete d)).mono (by decide))
    (fun d => (localDeclaration_complete (nested_complete d)).mono (by decide))) _

theorem rule_local (c : Nested) : (Grammar.rule c).Local n := by
  have hknown : ∀ f ∈ [localDeclaration, elseClauses], f.Local n := by
    simp only [List.forall_mem_cons, List.not_mem_nil, false_imp_iff, implies_true, and_true]
    exact ⟨localDeclaration_local hnested, elseClauses_local hnested⟩
  cases c with
  | expression => exact expression_local hnested
  | power => exact local_of_nearsighted hknown hnested _ (by decide +kernel)
  | unary => exact local_of_nearsighted hknown hnested _ (by decide +kernel)
  | block => exact local_of_nearsighted hknown hnested _ (by decide +kernel)
  | ifStatement => exact local_of_nearsighted hknown hnested _ (by decide +kernel)

end

theorem nested_local (n : Nat) (c : Nested) : (nested c).Local n := by
  induction n generalizing c with
  | zero =>
    intro p s ts stop s₁ m s' us s₁' h k hk ha hw
    cases h with | tooDeep =>
    rcases hw with ⟨hstop, -⟩ | ⟨e, he, -, hr⟩
    · cases hstop
    · obtain rfl := Runs.eq_of_faults he
      exact absurd rfl hr.1
  | succ n ih =>
    intro p s ts stop s₁ m s' us s₁' h k hk ha hw
    cases h with | nested h =>
    cases k with | nested k =>
    exact rule_local ih c h k hk ha hw

theorem program_local (n : Nat) : Grammar.program.Local n :=
  .items (declaration_local (nested_local n))

end Form
end CoreLang
