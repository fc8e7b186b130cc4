import CoreLang.Proofs.Parse.Foresight
import CoreLang.Proofs.Parse.Severed

/-! The forms that look further ahead than one token, where the text ends before the token they look
for. Another alternative is taken then than in the whole text, and it ends in the same way, unless
the parser gives up in search of a closing bracket. -/
namespace CoreLang
open Form Grammar

section
variable {read more : List Token} {m : Token} {j : Nat}

theorem kindAhead_append_of_lt (h : j < read.length) (a b : List Token) :
    kindAhead j (read ++ a) = kindAhead j (read ++ b) := by
  refine kindAhead_congr fun i hi => ?_
  rw [List.getElem?_append_left (by omega), List.getElem?_append_left (by omega)]

theorem kindAhead_append_of_le (hm : m.kind = .endMarker) (h : read.length ≤ j) :
    kindAhead j (read ++ [m]) = .endMarker := by
  induction read generalizing j with
  | nil => cases j <;> simp [kindAhead, hm]
  | cons t read ih =>
    obtain ⟨j, rfl⟩ : ∃ i, j = i + 1 := ⟨j - 1, by simp only [List.length_cons] at h; omega⟩
    simp only [List.length_cons, Nat.add_le_add_iff_right] at h
    simp [kindAhead, ih h]

end

namespace Tree

theorem cutSites_declared {parent : Option Production} {index i : Nat} {p : Production}
    {a b : String} {t u : Token} {rest : List Tree} (hlt : index < i) (hle : i ≤ index + 2) :
    cutSites parent index (node p [leaf a t] :: leaf b u :: rest) i = [] := by
  have hopening : cutSites parent index ([node p [leaf a t]] ++ [leaf b u]) i = [] := by
    rw [cutSites_append_right (by simp; omega)]
    rfl
  rw [← hopening]
  have hlast : i ≤ index + (leavesAll [node p [leaf a t], leaf b u]).length := by
    simp
    omega
  exact cutSites_append_left hlast

end Tree

namespace Form
variable {n : Nat} {parent : Option Production}

/-- Where the text ends before the token that tells the declarations apart, the form stops there. -/
def Undecided (n : Nat) (form : Form) : Prop :=
  ∀ ⦃s : ParserState⦄ ⦃t u m : Token⦄ ⦃read : List Token⦄, t.kind ∈ Kind.dataTypes →
    u.kind = .identifier → read ≠ [] → read <+: [t, u] → s.tokens = read ++ [m] →
      m.kind = .endMarker → ∃ us stop s', form.Runs (n + 1) s us stop s' ∧
        Severed m (s.index + read.length) s.errors [] stop s'

theorem undecided_variableDeclaration (h : variableDeclaration.Severable n none) :
    variableDeclaration.Undecided n := by
  rintro s t u m read ht hu hne ⟨rest, hread⟩ hs hm
  have hname : declarator.Derives n [.leaf (leafLabel u.kind) u] :=
    .seq (.token (List.mem_singleton.2 hu)) (.no .empty)
  have hend : (one .semicolon).Derives n [.leaf "SEMICOLON" Kind.semicolon.token] :=
    .token (t := Kind.semicolon.token) (by decide)
  have hd : variableDeclaration.Derives n [.node .variableDeclaration
      [.node .dataType [.leaf (leafLabel t.kind) t], .leaf (leafLabel u.kind) u,
        .leaf "SEMICOLON" Kind.semicolon.token]] :=
    .node (.seq (.node (.token ht)) (.seq (.seq hname .none) hend))
  have hwhole : [t, u, Kind.semicolon.token] = read ++ (rest ++ [Kind.semicolon.token]) := by
    simp [← List.append_assoc, hread]
  obtain ⟨us, stop, s', hrun, hsevered⟩ := h hd hwhole hne hs hm
  have hpos := List.length_pos_iff.2 hne
  have hle : read.length ≤ 2 := List.IsPrefix.length_le ⟨rest, hread⟩
  rw [Severed.node_iff (by decide) (Site.not_cutsSubscript (by decide)),
    Tree.cutSites_declared (by omega) (by omega)] at hsevered
  exact ⟨us, stop, s', hrun, hsevered⟩

theorem Undecided.no {kinds : List Kind} {no : Form} (h : no.Undecided n) (yes : Form)
    (hk : .endMarker ∉ kinds) : (Form.branch (.sees 2 kinds) yes no).Undecided n := by
  intro s t u m read ht hu hne hread hs hm
  obtain ⟨us, stop, s', hrun, hsevered⟩ := h ht hu hne hread hs hm
  have hle : read.length ≤ 2 := hread.length_le
  have hl : (Look.sees 2 kinds).holds s.tokens = false := by
    rw [hs, Look.holds, kindAhead_append_of_le hm hle]
    exact decide_eq_false hk
  exact ⟨us, stop, s', .no hl hrun, hsevered⟩

/-- The token behind a type and a name decides, as soon as it is there. -/
theorem Severable.branch_of_undecided {p : Production} {kinds : List Kind} {rest no : Form}
    (hyes : (Form.node p (.seq dataType (.seq (one .identifier) rest))).Severable n parent)
    (hno : no.Severable n parent) (hshort : no.Undecided n) (hp : p ≠ .block)
    (hwhole : p.isWhole parent = false) (hk : .endMarker ∉ kinds)
    (hin : ∀ ts more, (Form.node p (.seq dataType (.seq (one .identifier) rest))).Derives n ts →
      (Look.sees 2 kinds).holds (Tree.leavesAll ts ++ more) = true)
    (hout : ∀ ts more, no.Derives n ts →
      (Look.sees 2 kinds).holds (Tree.leavesAll ts ++ more) = false) :
    (Form.branch (.sees 2 kinds) (.node p (.seq dataType (.seq (one .identifier) rest)))
      no).Severable n parent := by
  intro ts s read more m hd hleaves hne ht hm
  have hlook {ts} (h : Tree.leavesAll ts = read ++ more) (hlong : 2 < read.length) :
      (Look.sees 2 kinds).holds s.tokens = (Look.sees 2 kinds).holds (Tree.leavesAll ts ++ []) := by
    rw [ht, h, List.append_nil, Look.holds, Look.holds, kindAhead_append_of_lt hlong]
  have hnone (hshort : read.length ≤ 2) : (Look.sees 2 kinds).holds s.tokens = false := by
    rw [ht, Look.holds, kindAhead_append_of_le hm hshort]
    exact decide_eq_false hk
  rcases Nat.lt_or_ge 2 read.length with hlong | hlen
  · cases hd with
    | yes hd =>
      obtain ⟨us, stop, s', hrun, hsevered⟩ := hyes hd hleaves hne ht hm
      exact ⟨us, stop, s', .yes ((hlook hleaves hlong).trans (hin _ _ hd)) hrun, hsevered⟩
    | no hd =>
      obtain ⟨us, stop, s', hrun, hsevered⟩ := hno hd hleaves hne ht hm
      exact ⟨us, stop, s', .no ((hlook hleaves hlong).trans (hout _ _ hd)) hrun, hsevered⟩
  · cases hd with
    | yes hd =>
      cases hd with | node hd =>
      cases hd with | seq htype hd =>
      cases htype with | node htype =>
      cases htype with | @token _ _ _ t htype =>
      cases hd with | seq hname hd =>
      cases hname with | @token _ _ _ u hname =>
      have hbegin : [t, u] <+: read ++ more := hleaves ▸ ⟨_, rfl⟩
      have hread : read <+: [t, u] :=
        List.prefix_of_prefix_length_le (List.prefix_append _ _) hbegin hlen
      obtain ⟨us, stop, s', hrun, hsevered⟩ :=
        hshort htype (List.mem_singleton.1 hname) hne hread ht hm
      refine ⟨us, stop, s', .no (hnone hlen) hrun, ?_⟩
      have hpos := List.length_pos_iff.2 hne
      rw [Severed.node_iff hp (Site.not_cutsSubscript hwhole), List.cons_append, List.nil_append,
        List.cons_append, List.nil_append, Tree.cutSites_declared (by omega) (by omega)]
      exact hsevered
    | no hd =>
      obtain ⟨us, stop, s', hrun, hsevered⟩ := hno hd hleaves hne ht hm
      exact ⟨us, stop, s', .no (hnone hlen) hrun, hsevered⟩

/-- An `else` with nothing behind it is read as one before a block. -/
theorem elseClause_runs {s : ParserState} {t m : Token} (ht : t.kind = .elseKeyword)
    (hs : s.tokens = [t, m]) (hm : m.kind = .endMarker) (c : Nested) :
    ∃ us stop s', (elseClause c).Runs (n + 1) s us stop s' ∧ stop.isSome = true ∧
      Severed m (s.index + 1) s.errors [] stop s' := by
  obtain ⟨hcurrent, hrest⟩ := List.cons.inj hs
  have he : s.atEnd = false := by simp [ParserState.atEnd, hcurrent, ht]
  have hk : s.current.kind ∈ [Kind.elseKeyword] := by simp [hcurrent, ht]
  obtain ⟨us, cause, hrun⟩ :=
    nested_halts n c { s with current := m, rest := [], index := s.index + 1 } m rfl hm
  refine ⟨_, _, _, .node (.seq (.token hk he hrest) hrun), rfl, .plain (by simp) rfl rfl rfl rfl ?_⟩
  exact fun e h => ⟨cause, (Option.mem_some_iff.1 h).symm⟩

theorem elseClauses_more {s s' s'' : ParserState} {ts us : List Tree} {stop : Option Stop}
    (hl : (Look.both (.sees 0 [.elseKeyword]) (.not (.sees 1 [.ifKeyword]))).holds s.tokens = true)
    (h : (elseClause .block).Runs n s ts none s') (h' : elseClauses.Runs n s' us stop s'') :
    ∃ vs, elseClauses.Runs n s vs stop s'' := by
  cases h' with
  | seq hmany hlast => exact ⟨_, .seq (.more hl h hmany) hlast⟩
  | seqStopped hmany => exact ⟨_, .seqStopped (.more hl h hmany)⟩

/-- What the loop over the `else` blocks sees at a clause, also at the beginning of one. -/
theorem look_elseClause {c : Nested} {ts : List Tree} (hd : (elseClause c).Derives n ts)
    {read more : List Token} {m : Token} (hleaves : Tree.leavesAll ts = read ++ more)
    (hne : read ≠ []) : kindAhead 0 (read ++ [m]) = .elseKeyword ∧
      (read.length = 1 ∨ kindAhead 1 (read ++ [m]) ∈ c.starts) := by
  obtain ⟨h₀, h₁⟩ := kindAhead_elseClause hd []
  rw [List.append_nil, hleaves] at h₀ h₁
  have hpos := List.length_pos_iff.2 hne
  refine ⟨(kindAhead_append_of_lt hpos _ _).trans h₀, ?_⟩
  rcases Nat.lt_or_ge 1 read.length with hlt | hle
  · exact .inr (kindAhead_append_of_lt hlt [m] more ▸ h₁)
  · exact .inl (by omega)

section
variable (hnested : ∀ (c : Nested) (parent), c.standsBelow parent = true →
  (nested c).Severable n parent)
include hnested

theorem severable_nil {form : Form} (h : form.severable [] parent = true) :
    form.Severable n parent :=
  severable_of_severable (by simp) hnested form h

theorem localDeclaration_undecided : localDeclaration.Undecided n :=
  (undecided_variableDeclaration (severable_nil hnested (by decide +kernel))).no _ (by decide)

theorem localDeclaration_severable (parent : Option Production) :
    localDeclaration.Severable n parent := by
  have harray : arrayDeclaration.Severable n parent :=
    .node (severable_nil hnested (by decide +kernel)) (by decide) rfl
  have hvariable : variableDeclaration.Severable n parent :=
    .node (severable_nil hnested (by decide +kernel)) (by decide) rfl
  refine .branch_of_undecided harray hvariable ?_ (by decide) rfl (by decide) ?_ ?_
  · exact undecided_variableDeclaration (severable_nil hnested (by decide +kernel))
  · exact fun _ more hd => sees_two_arrayDeclaration hd more _
  · exact fun _ more hd => sees_two_variableDeclaration hd more (by decide)

theorem declaration_severable (parent : Option Production) : declaration.Severable n parent := by
  have hfunction : functionDeclaration.Severable n (some .declaration) :=
    severable_nil hnested (by decide +kernel)
  refine .node (.branch_of_undecided hfunction (localDeclaration_severable hnested _)
    (localDeclaration_undecided hnested) (by decide) rfl (by decide) ?_ ?_) (by decide) rfl
  · exact fun _ more hd => sees_two_functionDeclaration hd more _
  · intro ts more hd
    cases hd with
    | yes hd => exact sees_two_arrayDeclaration hd more _
    | no hd => exact sees_two_variableDeclaration hd more (by decide)

/-- Where the text ends directly behind an `else`, a block is missing and no `if`. -/
theorem lastElse_severable {ts : List Tree} {s : ParserState} {read more : List Token} {m : Token}
    (hd : (optional (.sees 0 [.elseKeyword]) (elseClause .ifStatement)).Derives n ts)
    (hleaves : Tree.leavesAll ts = read ++ more) (hne : read ≠ []) (ht : s.tokens = read ++ [m])
    (hm : m.kind = .endMarker) : ∃ us stop s', elseClauses.Runs (n + 1) s us stop s' ∧
      Severed m (s.index + read.length) s.errors
        (Tree.cutSites parent s.index ts (s.index + read.length)) stop s' := by
  cases hd with
  | no hd => exact absurd hleaves (by cases hd; simp [hne])
  | yes hd =>
    obtain ⟨h₀, h₁⟩ := look_elseClause (m := m) hd hleaves hne
    rcases h₁ with hone | h₁
    · obtain ⟨t, rfl⟩ := List.length_eq_one_iff.1 hone
      obtain ⟨us, stop, s', hrun, hstop, hsevered⟩ := elseClause_runs h₀ ht hm .block
      obtain ⟨e, rfl⟩ := Option.isSome_iff_exists.1 hstop
      have hl : (Look.both (.sees 0 [.elseKeyword]) (.not (.sees 1 [.ifKeyword]))).holds s.tokens =
          true := by
        have htk : t.kind = .elseKeyword := h₀
        simp [Look.holds, kindAhead, ht, htk, hm]
      refine ⟨_, _, s', .seqStopped (.moreStopped hl hrun), ?_⟩
      cases hd with | node hd =>
      cases hd with | seq helse hd =>
      cases helse with | token helse =>
      rw [Severed.node_iff (by decide) (Site.not_cutsSubscript rfl),
        Tree.cutSites_append_left (by simp), Tree.cutSites_leaf]
      exact hsevered
    · have hif := List.mem_singleton.1 h₁
      have hl : (Look.both (.sees 0 [.elseKeyword]) (.not (.sees 1 [.ifKeyword]))).holds s.tokens =
          false := by simp [Look.holds, ht, hif]
      have hl' : (Look.sees 0 [.elseKeyword]).holds s.tokens = true := by simp [Look.holds, ht, h₀]
      have hlast : (elseClause .ifStatement).Severable n parent :=
        .node (severable_nil hnested (by decide +kernel)) (by decide) rfl
      obtain ⟨us, stop, s', hrun, hsevered⟩ := hlast hd hleaves hne ht hm
      exact ⟨_, stop, s', .seq (.done hl) (.yes hl' hrun), hsevered⟩

theorem elseClauses_severable (parent : Option Production) : elseClauses.Severable n parent := by
  have hblock : (elseClause .block).Severable n parent :=
    .node (severable_nil hnested (by decide +kernel)) (by decide) rfl
  have hcomplete : (elseClause .block).Complete (n + 1) Kind.all :=
    complete_of_predictive_nil (nested_complete _) (by decide)
  intro ts s read more m hd hleaves hne ht hm
  cases hd with
  | @seq _ _ _ us vs hd hlast =>
    generalize hform : many (.both (.sees 0 [.elseKeyword]) (.not (.sees 1 [.ifKeyword])))
      (elseClause .block) = form at hd
    induction hd generalizing s read with
    | none =>
      cases hform
      exact lastElse_severable hnested hlast hleaves hne ht hm
    | @more _ _ _ us us' hd hd' _ ih =>
      cases hform
      rw [List.append_assoc, Tree.leavesAll_append] at hleaves
      rw [List.append_assoc]
      rcases cut_cases hleaves with ⟨rest, hus⟩ | ⟨read', rfl, hvs, hne'⟩
      · have hl : (Look.both (.sees 0 [.elseKeyword]) (.not (.sees 1 [.ifKeyword]))).holds
            s.tokens = true := by
          obtain ⟨h₀, h₁⟩ := look_elseClause (m := m) hd hus hne
          have hif : kindAhead 1 (read ++ [m]) ≠ .ifKeyword := by
            rcases h₁ with hone | h₁
            · simp [kindAhead_append_of_le hm (Nat.le_of_eq hone)]
            · simp [List.mem_singleton.1 h₁]
          simp [Look.holds, ht, h₀, hif]
        rw [Tree.cutSites_append_of_leaves hus]
        obtain ⟨ws, stop, s', hrun, hsevered⟩ := hblock hd hus hne ht hm
        cases stop with
        | some e => exact ⟨ws, some e, s', .seqStopped (.moreStopped hl hrun), hsevered⟩
        | none =>
          obtain ⟨ws', stop, hrest, hsevered'⟩ :=
            hsevered.exists_runs_calm hm (calm_of_calm _ elseClauses rfl)
          obtain ⟨ws, hrun⟩ := elseClauses_more hl hrun hrest
          exact ⟨ws, stop, s', hrun, hsevered'⟩
      · have hl : (Look.both (.sees 0 [.elseKeyword]) (.not (.sees 1 [.ifKeyword]))).holds
            s.tokens = true := by
          obtain ⟨h₀, h₁⟩ := kindAhead_elseClause hd (read' ++ [m])
          rw [List.append_assoc] at ht
          simp [Look.holds, ht, h₀, List.mem_singleton.1 h₁]
        rw [List.append_assoc] at ht
        obtain ⟨s', hrun, ht', he, hi⟩ :=
          hcomplete.exists_runs hd ht (by simp) (Kind.mem_all _)
        obtain ⟨ws, stop, s'', hrest, hsevered⟩ :=
          ih hnested hblock hcomplete hne' ht' hlast hvs rfl
        obtain ⟨ws, hrun⟩ := elseClauses_more hl hrun hrest
        exact ⟨ws, stop, s'', hrun, hsevered.append hi he⟩
    | token | empty | seq | yes | no | node | alone | suffixed | nested | noItem | item =>
      cases hform

end

end Form
end CoreLang
