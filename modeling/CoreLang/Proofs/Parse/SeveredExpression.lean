import CoreLang.Proofs.Parse.SeveredLooks

/-! Expressions where the text ends. Only inside a subscript does the search for its closing bracket
fail, and only where the expression begins with that subscript does the parser search. A target that
nothing is assigned to yet is read as a value. -/
namespace CoreLang
open Form Grammar

namespace Grammar
variable {n : Nat} {ts : List Tree} {read more : List Token} {m : Token}

/-- The text ends inside the brackets of the subscript with which it begins. -/
def WithinSubscript (read more : List Token) : Prop :=
  Subscripted (read ++ more) ∧ (read.length = 2 ∨ read.length = 3)

theorem WithinSubscript.unclosedSubscript_holds (h : WithinSubscript read more)
    (hm : m.kind = .endMarker) : Look.unclosedSubscript.holds (read ++ [m]) = true := by
  obtain ⟨⟨t, left, constant, right, rest, heq, ht, hl, hc, hr⟩, hlen⟩ := h
  have hconstant : constant.kind ≠ .rightBracket := by
    rintro hk
    rw [hk] at hc
    exact absurd hc (by decide)
  match read, hlen with
  | [_, _], _ =>
    obtain ⟨rfl, rfl, -⟩ : _ = t ∧ _ = left ∧ _ := by simpa using heq
    simp [Look.holds, kindAhead, ht, hl, afterBracket?, hm]
  | [_, _, _], _ =>
    obtain ⟨rfl, rfl, rfl, -⟩ : _ = t ∧ _ = left ∧ _ = constant ∧ _ := by simpa using heq
    simp [Look.holds, kindAhead, ht, hl, afterBracket?, hm, hconstant]

/-- Anywhere else the beginning of a plain text is plain. -/
theorem Plain.of_append (h : Plain (read ++ more)) (hne : read ≠ [])
    (hout : ¬WithinSubscript read more) (hm : m.kind = .endMarker) : Plain (read ++ [m]) := by
  have hpos := List.length_pos_iff.2 hne
  have hone (h : read.length ≤ 1) : Plain (read ++ [m]) :=
    .name (by rw [kindAhead_append_of_le hm h]; decide)
  generalize htokens : read ++ more = tokens at h
  cases h with
  | other h =>
    refine .other ?_
    rwa [kindAhead_append_of_lt hpos [m] more, htokens]
  | name h =>
    rcases Nat.lt_or_ge 1 read.length with hlt | hle
    · refine .name ?_
      rwa [kindAhead_append_of_lt hlt [m] more, htokens]
    · exact hone hle
  | @subscript t left constant right rest ht hl hc hr ha =>
    have hout' : ¬(read.length = 2 ∨ read.length = 3) := fun hlength =>
      hout ⟨⟨t, left, constant, right, rest, htokens, ht, hl, hc, hr⟩, hlength⟩
    match read, hne with
    | [_], _ => exact hone (by simp)
    | [_, _], _ => exact absurd (.inl rfl) hout'
    | [_, _, _], _ => exact absurd (.inr rfl) hout'
    | _ :: _ :: _ :: _ :: read, _ =>
      obtain ⟨rfl, rfl, rfl, rfl, rfl⟩ :
          _ = t ∧ _ = left ∧ _ = constant ∧ _ = right ∧ _ = rest := by simpa using htokens
      refine .subscript ht hl hc hr ?_
      cases read with
      | nil => simp [kindAhead, hm]
      | cons => exact ha

theorem exists_target (hd : assignment.Derives n ts) : ∃ t us sign vs,
    ts = [.node .assignment
      (.leaf (leafLabel t.kind) t :: us ++ .leaf (leafLabel sign.kind) sign :: vs)] ∧
    t.kind = .identifier ∧ (optional (.sees 0 [.leftBracket]) subscript).Derives n us ∧
      sign.kind = .assign ∧ (nested .expression).Derives n vs := by
  cases hd with | node hd =>
  cases hd with | seq hi hd =>
  cases hi with | token hi =>
  cases hd with | seq hsub hd =>
  cases hd with | seq hs hd =>
  cases hs with | token hs =>
  exact ⟨_, _, _, _, rfl, List.mem_singleton.1 hi, hsub, List.mem_singleton.1 hs, hd⟩

/-- A name with a subscript comes first where a name and a bracket do. -/
theorem subscripted_of_derives (hd : (branch .assignment assignment logicalOr).Derives n ts)
    (h : [Kind.identifier, .leftBracket] <+: (Tree.leavesAll ts).map (·.kind)) :
    Subscripted (Tree.leavesAll ts) := by
  cases hd with
  | no hd =>
    have hplain := naming_logicalOr ts [] hd (by decide)
    rw [List.append_nil] at hplain
    obtain ⟨rest, hrest⟩ := h
    obtain ⟨t, us, heq, ht, hus⟩ := List.map_eq_cons_iff.1 hrest.symm
    obtain ⟨left, vs, rfl, hl, -⟩ := List.map_eq_cons_iff.1 hus
    rw [heq] at hplain ⊢
    cases hplain with
    | other h => exact absurd ht h
    | name h => simp [kindAhead, ht, hl] at h
    | subscript ht hl hc hr => exact ⟨_, _, _, _, _, rfl, ht, hl, hc, hr⟩
  | yes hd =>
    obtain ⟨t, us, sign, vs, rfl, ht, hsub, hs, -⟩ := exists_target hd
    rcases leavesAll_optional_subscript hsub with hnil | ⟨left, constant, right, heq, hl, hc, hr⟩
    · simp [Tree.leavesAll_append, hnil, hs] at h
    · exact ⟨t, left, constant, right, sign :: Tree.leavesAll vs,
        by simp [Tree.leavesAll_append, heq], ht, hl, hc, hr⟩

section
variable {us : List Tree} {t sign : Token} (ht : t.kind = .identifier)
  (hsub : (optional (.sees 0 [.leftBracket]) subscript).Derives n us)
include ht hsub

theorem looks_target (hs : sign.kind = .assign) (rest : List Token) :
    Look.unclosedSubscript.holds (t :: (Tree.leavesAll us ++ sign :: rest)) = false ∧
      Look.assignment.holds (t :: (Tree.leavesAll us ++ sign :: rest)) = true := by
  rcases leavesAll_optional_subscript hsub with hnil | ⟨left, constant, right, heq, hl, hc, hr⟩
  · simp [hnil, Look.holds, kindAhead, ht, hs]
  · simp [heq, Look.holds, kindAhead, ht, hl, hs, afterBracket?_subscript hc hr]

theorem logicalOr_derives_target :
    logicalOr.Derives n [.node .factor (.leaf (leafLabel t.kind) t :: us)] :=
  .alone (.alone (.alone (.alone (.alone (.alone (.alone (.no (.node (.yes
    (.seq (.token (List.mem_singleton.2 ht)) (.no hsub)))))))))))

theorem exists_value {parent : Option Production} {index : Nat}
    (hread : t :: Tree.leavesAll us = read ++ more) (hne : read ≠ [])
    (hout : ¬(read.length = 2 ∨ read.length = 3)) :
    ∃ vs, logicalOr.Derives n vs ∧ Tree.leavesAll vs = read ∧ Tree.cutSites parent index
      (.leaf (leafLabel t.kind) t :: us) (index + read.length) = [] := by
  obtain ⟨u, read, rfl⟩ := List.exists_cons_of_ne_nil hne
  obtain ⟨rfl, hus⟩ : t = u ∧ Tree.leavesAll us = read ++ more := by simpa using hread
  cases read with
  | nil =>
    refine ⟨_, logicalOr_derives_target ht (.no .empty), rfl, ?_⟩
    have hname :
        index + [t].length ≤ index + (Tree.leavesAll [.leaf (leafLabel t.kind) t]).length :=
      Nat.le_refl _
    exact Tree.cutSites_append_left hname
  | cons v read =>
    obtain rfl : more = [] := by
      rcases leavesAll_optional_subscript hsub with hnil | ⟨left, constant, right, heq, -⟩
      · simp [hnil] at hus
      · have hlength := congrArg List.length (heq.symm.trans hus)
        simp only [List.length_cons, List.length_append, List.length_nil] at hlength hout
        exact List.length_eq_zero_iff.1 (by omega)
    rw [List.append_nil] at hus
    refine ⟨_, logicalOr_derives_target ht hsub, by simp [hus], ?_⟩
    exact Tree.cutSites_eq_nil_of_ge (by simp [hus])

end

end Grammar

namespace Form
variable {n : Nat} {parent : Option Production} {ts : List Tree} {s : ParserState}
  {read more : List Token} {m : Token}

section
variable (hassignment : assignment.Severable n none) (hlogicalOr : logicalOr.Severable n none)
  (hleaves : Tree.leavesAll ts = read ++ more) (hne : read ≠ [])
  (hout : ¬WithinSubscript read more) (ht : s.tokens = read ++ [m]) (hm : m.kind = .endMarker)
include hlogicalOr hleaves hne hout ht hm

theorem plain_severed (hd : logicalOr.Derives n ts) :
    ∃ us stop s', expression.Runs (n + 1) s us stop s' ∧ Severed m (s.index + read.length) s.errors
      (Tree.cutSites none s.index ts (s.index + read.length)) stop s' := by
  have hplain : Plain (read ++ [m]) := by
    have hplain := naming_logicalOr ts [] hd (by decide)
    rw [List.append_nil, hleaves] at hplain
    exact hplain.of_append hne hout hm
  obtain ⟨us, stop, s', hrun, hsevered⟩ := hlogicalOr hd hleaves hne ht hm
  rw [← ht] at hplain
  exact ⟨us, stop, s', .no hplain.looks.1
    (.no hplain.looks.2 hrun), hsevered⟩

include hassignment

theorem assignment_severed (hd : assignment.Derives n ts) :
    ∃ us stop s', expression.Runs (n + 1) s us stop s' ∧ Severed m (s.index + read.length) s.errors
      (Tree.cutSites none s.index ts (s.index + read.length)) stop s' := by
  obtain ⟨t, us, sign, vs, rfl, hi, hsub, hs, hv⟩ := exists_target hd
  have hparts : (t :: Tree.leavesAll us) ++ (sign :: Tree.leavesAll vs) = read ++ more := by
    simpa [Tree.leavesAll_append] using hleaves
  rcases cut_cases hparts with ⟨rest, hread⟩ | ⟨read', rfl, hread', hne'⟩
  · have hlength : ¬(read.length = 2 ∨ read.length = 3) := by
      intro hlength
      rcases leavesAll_optional_subscript hsub with hnil | ⟨left, constant, right, heq, hl, hc, hr⟩
      · have hlength' := congrArg List.length hread
        simp only [hnil, List.length_cons, List.length_append, List.length_nil] at hlength'
        omega
      · rw [heq] at hparts
        exact hout ⟨⟨t, left, constant, right, _, hparts.symm, hi, hl, hc, hr⟩, hlength⟩
    obtain ⟨ws, hd', hws, hcut⟩ := exists_value hi hsub hread hne hlength
    have hplain : Plain s.tokens := by
      rw [ht, ← hws]
      exact naming_logicalOr ws [m] hd' (by simp [kindAhead, hm])
    obtain ⟨us', stop, s', hrun, hsevered⟩ :=
      hlogicalOr hd' (by rw [hws, List.append_nil]) hne ht hm
    refine ⟨us', stop, s', .no hplain.looks.1
      (.no hplain.looks.2 hrun), ?_⟩
    rw [Severed.node_iff (by decide) (Site.not_cutsSubscript rfl), Tree.cutSites_append_left, hcut]
    · rwa [Tree.cutSites_eq_nil_of_ge (Nat.le_of_eq (by rw [hws]))] at hsevered
    · rw [Tree.leavesAll_leaf, hread, List.length_append]
      omega
  · obtain ⟨u, read, rfl⟩ := List.exists_cons_of_ne_nil hne'
    obtain ⟨rfl, -⟩ : sign = u ∧ _ := by simpa using hread'
    have htokens : s.tokens = t :: (Tree.leavesAll us ++ sign :: (read ++ [m])) := by simp [ht]
    obtain ⟨hclosed, hlook⟩ := looks_target hi hsub hs (read ++ [m])
    rw [← htokens] at hclosed hlook
    obtain ⟨us', stop, s', hrun, hsevered⟩ := hassignment hd hleaves hne ht hm
    exact ⟨us', stop, s', .no hclosed (.yes hlook hrun), hsevered⟩

end

/-- Below no operator, and below any. -/
def operandPlaces : List (Option Production) := none :: Production.operations.map some

theorem isWhole_of_mem_operandPlaces (p : Production) (h : parent ∈ operandPlaces) :
    p.isWhole parent = false := by
  rcases List.mem_cons.1 h with rfl | h
  · simp [Production.isWhole]
  · obtain ⟨q, hq, rfl⟩ := List.mem_map.1 h
    simp [Production.isWhole, hq]

/-- The form runs as it should wherever the text of an operand ends, and up to the kinds `follow` if
the text goes on. -/
structure Operand (n : Nat) (follow : List Kind) (form : Form) : Prop where
  severable : ∀ parent ∈ operandPlaces, form.Severable n parent
  complete : form.Complete (n + 1) follow
  calm : form.calm = true

theorem Operand.leftAssociative {p : Production} {operators follow : List Kind} {operand : Form}
    (h : Operand n (operators ++ follow) operand) (hp : p ≠ .block ∧ some p ∈ operandPlaces)
    (hend : .endMarker ∉ operators) (hout : ∀ k ∈ follow, k ∉ operators) :
    Operand n follow (leftAssociative p operators operand) := by
  have hoperand : operand.Complete (n + 1) operators :=
    h.complete.mono (List.subset_append_left _ _)
  have hstep : (Form.seq (token operators .factor) operand).Severable n (some p) :=
    (token_severable hend).seq (h.severable _ hp.2) (token_complete hend)
      (calm_of_calm n operand h.calm)
  have hread : (Form.seq (token operators .factor) operand).Complete (n + 1) operators :=
    .seq (token_complete hend) hoperand
  have hmany : (Form.many (.sees 0 operators) (.seq (token operators .factor) operand)).Severable n
      (some p) := by
    refine .many hstep (hread.mono ?_) rfl ?_ hend <;> simp [starts, reads]
  have hrest := hstep.seq hmany (hread.mono (by simp [starts, reads]))
    (calm_of_calm n _ (by simp [Form.calm, Look.holds, kindAhead, Kind.token, hend]))
  refine ⟨fun parent hparent => ?_, .leftAssociative h.complete hend hout, ?_⟩
  · refine .suffixed (h.severable parent hparent) (h.severable _ hp.2) hrest (hoperand.mono ?_) hp.1
      (isWhole_of_mem_operandPlaces p hparent) ?_ hend <;> simp [starts, reads]
  · simp [Form.leftAssociative, Form.calm, h.calm, Look.holds, kindAhead, Kind.token, hend]

/-- Level by level, so that no level is gone through for each place anew. -/
theorem logicalOr_severable (hnested : ∀ (c : Nested) (parent), c.standsBelow parent = true →
    (nested c).Severable n parent) : logicalOr.Severable n none := by
  have hpower : Operand n Nested.power.follow power := by
    have hall : operandPlaces.all (power.severable [] ·) = true := by decide +kernel
    refine ⟨fun parent h => severable_nil hnested (List.all_eq_true.1 hall parent h), ?_, rfl⟩
    exact complete_of_predictive_nil (nested_complete _) (by decide)
  have hlogicalOr : Operand n [] logicalOr := by
    refine .leftAssociative ?_ (by decide) (by decide) (by decide)
    refine .leftAssociative ?_ (by decide) (by decide) (by decide)
    refine .leftAssociative ?_ (by decide) (by decide) (by decide)
    refine .leftAssociative ?_ (by decide) (by decide) (by decide)
    refine .leftAssociative ?_ (by decide) (by decide) (by decide)
    refine .leftAssociative ?_ (by decide) (by decide) (by decide)
    exact ⟨hpower.severable, hpower.complete.mono (by decide), hpower.calm⟩
  exact hlogicalOr.severable none List.mem_cons_self

/-- The search for the closing bracket of the subscript with which an expression begins ends the
parse. -/
theorem subscript_severed {p : Production} {us : List Tree} (hp : p ∈ Shape.expressions)
    (hparent : Nested.expression.standsBelow parent = true)
    (hleaves : (Tree.node p us).leaves = read ++ more) (hin : WithinSubscript read more)
    (ht : s.tokens = read ++ [m]) (hm : m.kind = .endMarker) :
    ∃ stop, expression.Runs (n + 1) s [] stop s ∧ Severed m (s.index + read.length) s.errors
      (Tree.cutSites parent s.index [.node p us] (s.index + read.length)) stop s := by
  have hlook := hin.unclosedSubscript_holds hm
  obtain ⟨⟨t, left, constant, right, rest, heq, hi, hl, -⟩, hlength⟩ := hin
  have htokens : (Tree.node p us).leaves = t :: left :: constant :: right :: rest :=
    hleaves.trans heq
  have hcurrent : s.current = t := by
    obtain ⟨u, read, rfl⟩ := List.exists_cons_of_ne_nil (l := read) (by rintro rfl; simp at hlength)
    exact (List.cons.inj ht).1.trans (List.cons.inj heq).1
  have hcut : (Site.mk parent s.index (.node p us)).Cut (s.index + read.length) := by
    refine ⟨Nat.lt_add_of_pos_right (by omega), ?_⟩
    simp only [htokens, List.length_cons]
    omega
  refine ⟨_, .yes (ht ▸ hlook) .abandon, ?_⟩
  refine .subscript (x := ⟨parent, s.index, .node p us⟩) ?_ ⟨?_, hcut, ?_, ?_⟩ ?_ rfl
  · simp [Tree.cutSites_node, hcut]
  · simp only [Site.isExpression, Tree.production?, Option.any_some, Production.isWhole,
      Bool.and_eq_true, decide_eq_true_eq]
    exact ⟨hp, hparent⟩
  · exact ⟨_, by simp [htokens, hi, hl]; rfl⟩
  · simp only
    omega
  · simp [htokens, hcurrent]

/-- The search for a closing bracket goes with the head of the expression alone. -/
theorem expression_severable (hassignment : assignment.Severable n none)
    (hlogicalOr : logicalOr.Severable n none)
    (hparent : Nested.expression.standsBelow parent = true) : expression.Severable n parent := by
  intro ts s read more m hd hleaves hne ht hm
  obtain ⟨p, us, hp, rfl⟩ := exists_node_of_heads hd (by decide +kernel)
    (show expression.heads = some Shape.expressions from rfl)
  cases hd with | yes hd => cases hd | no hd =>
  have hstart := subscripted_of_derives hd
  by_cases hin : WithinSubscript read more
  · rw [Tree.leavesAll_node] at hleaves
    obtain ⟨stop, hrun, hsevered⟩ := subscript_severed hp hparent hleaves hin ht hm
    exact ⟨[], stop, s, hrun, hsevered⟩
  · have hblock : p ≠ .block := by
      rintro rfl
      exact absurd hp (by decide)
    have hnot : ¬(Site.mk parent s.index (.node p us)).CutsSubscript (s.index + read.length) := by
      rintro ⟨-, -, hkinds, hge, hle⟩
      refine hin ⟨hleaves ▸ hstart ?_, ?_⟩
      · rw [Tree.leavesAll_node]
        exact hkinds
      · simp only at hge hle
        omega
    obtain ⟨vs, stop, s', hrun, hsevered⟩ : ∃ vs stop s', expression.Runs (n + 1) s vs stop s' ∧
        Severed m (s.index + read.length) s.errors
          (Tree.cutSites none s.index [.node p us] (s.index + read.length)) stop s' := by
      cases hd with
      | yes hd => exact assignment_severed hassignment hlogicalOr hleaves hne hin ht hm hd
      | no hd => exact plain_severed hlogicalOr hleaves hne hin ht hm hd
    rw [Severed.node_iff hblock (Site.not_cutsSubscript (by simp [Production.isWhole]))]
      at hsevered
    exact ⟨vs, stop, s', hrun, (Severed.node_iff hblock hnot).2 hsevered⟩

end Form
end CoreLang
