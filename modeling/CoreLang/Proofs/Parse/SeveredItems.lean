import CoreLang.Proofs.Parse.Resumption
import CoreLang.Proofs.Parse.SeveredExpression

/-! Blocks where the text ends. An error at the end is recorded by the innermost list of items,
which finds nothing to go on with; the block around it then lacks its brace, and this is an error of
the item that the block belongs to. -/
namespace CoreLang
open Form Grammar

/-- How a run over items ends at the marker `m` behind `i` tokens: for good, or with the error of
the last item recorded. -/
inductive Unfinished (m : Token) (i : Nat) (errors : List SyntaxError) (cut : List Site) :
    Option Stop → ParserState → Prop where
  | fatal {e s} (h : Severed m i errors cut (some ⟨e, true⟩) s) :
    Unfinished m i errors cut (some ⟨e, true⟩) s
  | recorded {stop s s'} (h : Severed m i errors cut stop s) (hstop : ∀ e ∈ stop, e.fatal = false)
    (ht : s'.tokens = [m]) (hi : s'.index = i)
    (he : s'.errors = s.errors ++ (stop.map (·.error)).toList) : Unfinished m i errors cut none s'

namespace Unfinished
variable {m : Token} {i : Nat} {errors : List SyntaxError} {cut : List Site} {x : Site}
  {stop : Option Stop} {s s' s'' : ParserState}

theorem append {parent : Option Production} {us vs : List Tree} {read : List Token}
    (hindex : s'.index = s.index + (Tree.leavesAll us).length) (herrors : s'.errors = s.errors)
    (h : Unfinished m (s'.index + read.length) s'.errors
      (Tree.cutSites parent s'.index vs (s'.index + read.length)) stop s'') :
    Unfinished m (s.index + (Tree.leavesAll us ++ read).length) s.errors
      (Tree.cutSites parent s.index (us ++ vs) (s.index + (Tree.leavesAll us ++ read).length))
      stop s'' := by
  have hlength : s.index + (Tree.leavesAll us ++ read).length = s'.index + read.length := by
    rw [List.length_append, hindex, Nat.add_assoc]
  cases h with
  | fatal h => exact .fatal (h.append hindex herrors)
  | recorded h hstop ht hi he =>
    exact .recorded (h.append hindex herrors) hstop ht (hi.trans hlength.symm) he

theorem node {parent : Option Production} {index : Nat} {p : Production} {children : List Tree}
    (hp : p ≠ .block) (hwhole : p.isWhole parent = false)
    (h : Unfinished m i errors (Tree.cutSites (some p) index children i) stop s) :
    Unfinished m i errors (Tree.cutSites parent index [.node p children] i) stop s := by
  cases h with
  | fatal h => exact .fatal ((Severed.node_iff hp (Site.not_cutsSubscript hwhole)).2 h)
  | recorded h hstop ht hi he =>
    exact .recorded ((Severed.node_iff hp (Site.not_cutsSubscript hwhole)).2 h) hstop ht hi he

theorem place (h : Unfinished m i errors cut none s) : s.tokens = [m] ∧ s.index = i := by
  cases h with | recorded h hstop ht hi => exact ⟨ht, hi⟩

theorem exists_first (h : Unfinished m i errors cut none s) : (∀ x ∈ cut, ¬x.CutsSubscript i) ∧
    ∃ first : Option Cause, s.errors = errors ++ (first.map fun cause => ⟨cause, m, i⟩).toList ++
        List.replicate (cut.filter (·.isBlock)).length (.missingBrace m i) ∧
      ∀ x ∈ (cut.filter (·.isBlock)).getLast?, first = none ↔ x.SoundUpTo i := by
  cases h with
  | @recorded stop _ _ h hstop ht hi he =>
    cases h with
    | subscript => cases hstop _ rfl
    | plain hcut hblocks ht' hi' he' hplain =>
      rw [hblocks]
      cases stop with
      | none => exact ⟨hcut, none, by simp [he, he'], by simp⟩
      | some e =>
        obtain ⟨cause, rfl⟩ := hplain e rfl
        exact ⟨hcut, some cause, by simp [he, he'], by simp⟩
    | @block first b bs _ hcut hblocks ht' hi' he' hfirst =>
      rw [hblocks, List.length_cons, List.replicate_succ']
      exact ⟨hcut, first, by simp [he, he'], hfirst⟩

theorem index_eq_of_mem (h : Unfinished m i [] cut none s) {e : SyntaxError} (he : e ∈ s.errors) :
    e.index = i := by
  obtain ⟨-, first, herrors, -⟩ := h.exists_first
  rw [herrors, List.nil_append] at he
  rcases List.mem_append.1 he with he | he
  · obtain ⟨cause, -, rfl⟩ := Option.map_eq_some_iff.1 (Option.mem_toList.1 he)
    rfl
  · rw [List.eq_of_mem_replicate he]
    rfl

theorem severed (h : Unfinished m i errors cut none s) (hblock : x.isBlock = true)
    (hx : ¬x.CutsSubscript i) (hsound : s.errors = errors ↔ x.SoundUpTo i) :
    Severed m i errors (x :: cut) (some ⟨.missingBrace m i, false⟩) s := by
  obtain ⟨ht, hi⟩ := h.place
  obtain ⟨hcut, first, he, hfirst⟩ := h.exists_first
  refine .block (by simpa [hx] using hcut) (List.filter_cons_of_pos hblock) ht hi he ?_
  cases hblocks : cut.filter (·.isBlock) with
  | nil =>
    have hnone : first = none ↔ s.errors = errors := by cases first <;> simp [he, hblocks]
    simpa using hnone.trans hsound
  | cons b bs => simpa [hblocks] using hfirst

end Unfinished

def Tree.blockOf (t : Token) (vs : List Tree) (e : Token) : Tree :=
  .node .block ([.leaf (leafLabel t.kind) t] ++
    ([.node .blockItemList vs] ++ [.leaf (leafLabel e.kind) e]))

namespace Form
variable {n : Nat} {parent : Option Production} {s s' : ParserState} {read more : List Token}
  {m : Token}

/-- A run to the end of the text adds errors exactly if the text is no text of the form. -/
theorem Runs.errors_eq_iff {form : Form} {us : List Tree} (h : form.Runs n s us none s')
    (hcomplete : ∀ d, form.Complete d [.endMarker]) (hs : s.tokens = read ++ [m])
    (hs' : s'.tokens = [m]) (hm : m.kind = .endMarker) :
    s'.errors = s.errors ↔ ∃ depth ts, form.Derives depth ts ∧ Tree.leavesAll ts = read := by
  constructor
  · intro he
    have htokens := (h.passes_leaves he (by simp)).tokens
    rw [hs, hs'] at htokens
    exact ⟨n, us, h.derives (.inl rfl), (List.append_cancel_right htokens).symm⟩
  · rintro ⟨depth, ts, hd, rfl⟩
    obtain ⟨t, hrun, -, he⟩ := hcomplete (max n depth) ts s [m] (hd.mono (Nat.le_max_right _ _)) hs
      (by simp) (List.mem_singleton.2 hm)
    obtain ⟨-, -, rfl⟩ := (h.mono (by simp) (Nat.le_max_left _ _)).unique hrun
    exact he

theorem not_stopped {stops : List Kind} {item : Form}
    (hout : ∀ k ∈ item.starts, k ≠ .endMarker ∧ k ∉ stops)
    (h : kindAhead 0 s.tokens ∈ item.starts) : ¬(s.atEnd = true ∨ s.current.kind ∈ stops) := by
  simpa [ParserState.atEnd] using hout s.current.kind h

theorem runs_finish {stops : List Kind} {item : Form} (hs : s.tokens = [m])
    (hm : m.kind = .endMarker) : (items stops item).Runs n s [] none s :=
  .finish (.inl (by rw [ParserState.atEnd_of_tokens hs, hm]; rfl))

section
variable {stops : List Kind} {item : Form} (hitem : item.Severable n parent)
  (hcomplete : item.Complete (n + 1) item.starts) (hr : item.reads = true)
  (hout : ∀ k ∈ item.starts, k ≠ .endMarker ∧ k ∉ stops)
include hitem hout

/-- The text ends within an item. -/
theorem item_unfinished {ts : List Tree} (hd : item.Derives n ts)
    (hleaves : Tree.leavesAll ts = read ++ more) (hne : read ≠ []) (ht : s.tokens = read ++ [m])
    (hm : m.kind = .endMarker) : ∃ us stop s', (items stops item).Runs (n + 1) s us stop s' ∧
      Unfinished m (s.index + read.length) s.errors
        (Tree.cutSites parent s.index ts (s.index + read.length)) stop s' := by
  have hs := not_stopped hout (ht ▸ hd.kindAhead_mem_starts_of_prefix hleaves hne [m])
  obtain ⟨us, stop, s', hrun, hsevered⟩ := hitem hd hleaves hne ht hm
  match stop with
  | some ⟨e, true⟩ => exact ⟨[], _, s', .ruined hs hrun, .fatal hsevered⟩
  | none =>
    obtain ⟨htokens, hindex⟩ := hsevered.place (by simp)
    refine ⟨us ++ [], none, s', .item hs hrun (runs_finish htokens hm), ?_⟩
    exact .recorded hsevered (by simp) htokens hindex (by simp)
  | some ⟨e, false⟩ =>
    obtain ⟨htokens, hindex⟩ := hsevered.place (by simp)
    have hat : (s'.record e).atEnd = true := by
      rw [ParserState.atEnd_of_tokens (s := s'.record e) htokens, hm]
      rfl
    have hresume := ParserState.resume_of_atEnd hat
    have htokens' : (s'.record e).resume.tokens = [m] := hresume ▸ htokens
    refine ⟨[], none, _, .damaged hs hrun (runs_finish htokens' hm), ?_⟩
    exact .recorded hsevered (by simp) htokens' (hresume ▸ hindex) (hresume ▸ rfl)

include hcomplete hr

/-- By induction on the items: those before the last token are read, and the text ends within the
next one. -/
theorem items_unfinished {ts : List Tree} (hd : (items stops item).Derives n ts)
    (hleaves : Tree.leavesAll ts = read ++ more) (ht : s.tokens = read ++ [m])
    (hm : m.kind = .endMarker) : ∃ us stop s', (items stops item).Runs (n + 1) s us stop s' ∧
      Unfinished m (s.index + read.length) s.errors
        (Tree.cutSites parent s.index ts (s.index + read.length)) stop s' := by
  by_cases hne : read = []
  · subst hne
    have hnone : Severed m (s.index + ([] : List Token).length) s.errors [] none s :=
      .plain (by simp) rfl ht rfl rfl (by simp)
    rw [Tree.cutSites_eq_nil_of_le (by simp)]
    exact ⟨[], none, s, runs_finish ht hm, .recorded hnone (by simp) ht rfl (by simp)⟩
  generalize hform : Form.items stops item = form at hd
  induction hd generalizing s read with
  | noItem => exact absurd (List.append_eq_nil_iff.1 hleaves.symm).1 hne
  | @item _ _ _ us vs hd hd' _ ih =>
    cases hform
    rw [Tree.leavesAll_append] at hleaves
    rcases cut_cases hleaves with ⟨rest, hus⟩ | ⟨read', rfl, hvs, hne'⟩
    · rw [Tree.cutSites_append_of_leaves hus]
      exact item_unfinished hitem hout hd hus hne ht hm
    · rw [List.append_assoc] at ht
      have hs := not_stopped hout (ht ▸ hd.kindAhead_mem_starts hr _)
      obtain ⟨s', hrun, ht', he, hi⟩ := hcomplete.exists_runs hd ht (by simp)
        (hd'.kindAhead_mem_starts_of_prefix hvs hne' [m])
      obtain ⟨ws, stop, s'', hrun', hunfinished⟩ := ih hitem hcomplete hvs ht' hne' rfl
      exact ⟨_, stop, s'', .item hs hrun hrun', hunfinished.append hi he⟩
  | token | empty | seq | yes | no | none | more | node | alone | suffixed | nested => cases hform

end

theorem blockItems_complete (n : Nat) (follow : List Kind)
    (h : (items [.rightBrace] blockItem).predictive farsighted follow = true) :
    (items [.rightBrace] blockItem).Complete n follow :=
  complete_of_predictive (farsighted_complete (nested_complete n)) (nested_complete n) _ h

section
variable {t e : Token} {vs : List Tree}

theorem exists_blockOf {ts : List Tree} (hd : block.Derives n ts) :
    ∃ t vs e, ts = [Tree.blockOf t vs e] ∧ t.kind = .leftBrace ∧
      (items [.rightBrace] blockItem).Derives n vs := by
  cases hd with | node hd =>
  cases hd with | seq hk hd =>
  cases hk with | token hk =>
  cases hd with | seq hvs he =>
  cases hvs with | node hvs =>
  cases he with | token he =>
  exact ⟨_, _, _, rfl, List.mem_singleton.1 hk, hvs⟩

theorem cutSites_blockOf {index i : Nat} (hlt : index < i)
    (hle : i ≤ index + 1 + (Tree.leavesAll vs).length) :
    Tree.cutSites parent index [.blockOf t vs e] i = ⟨parent, index, .blockOf t vs e⟩ ::
      Tree.cutSites (some .block) (index + 1) [.node .blockItemList vs] i := by
  have hcut : (Site.mk parent index (.blockOf t vs e)).Cut i := by
    refine ⟨hlt, ?_⟩
    simp [Tree.blockOf, Tree.leaves]
    omega
  rw [Tree.blockOf, Tree.cutSites_node, ← Tree.blockOf, if_pos hcut, List.singleton_append,
    Tree.cutSites_append_right (by simp; omega), Tree.cutSites_append_left (by simpa using hle)]
  rfl

theorem blockOf_severed (hitem : blockItem.Severable n (some .blockItemList))
    (ht : t.kind = .leftBrace) (hvs : (items [.rightBrace] blockItem).Derives n vs)
    (hleaves : Tree.leavesAll vs = read ++ more) (hs : s.tokens = t :: (read ++ [m]))
    (hm : m.kind = .endMarker) : ∃ us stop s', block.Runs (n + 1) s us stop s' ∧
      Severed m (s.index + 1 + read.length) s.errors
        (Tree.cutSites parent s.index [.blockOf t vs e] (s.index + 1 + read.length)) stop s' := by
  have hbrace : (one .leftBrace).Complete (n + 1) Kind.all := token_complete (by decide)
  obtain ⟨s₁, hopen, hs₁, he₁, hi₁⟩ :=
    hbrace.exists_runs (.token (List.mem_singleton.2 ht)) hs (by simp) (Kind.mem_all _)
  rw [← show s₁.index = s.index + 1 from hi₁, ← he₁]
  have hcomplete : blockItem.Complete (n + 1) blockItem.starts :=
    complete_of_predictive (farsighted_complete (nested_complete _)) (nested_complete _) _
      (by decide +kernel)
  obtain ⟨us, stop, s', hrun, hunfinished⟩ :=
    items_unfinished hitem hcomplete rfl (by decide) hvs hleaves hs₁ hm
  have hlist : Unfinished m (s₁.index + read.length) s₁.errors
      (Tree.cutSites (some .block) s₁.index [.node .blockItemList vs] (s₁.index + read.length))
      stop s' := hunfinished.node (by decide) rfl
  have hindex : s₁.index = s.index + 1 := hi₁
  rw [cutSites_blockOf (by omega) (by rw [hleaves, List.length_append]; omega), ← hindex]
  cases stop with
  | some stop =>
    cases hlist with | fatal h =>
    exact ⟨_, _, s', .node (.seq hopen (.seqStopped (.node hrun))), h.cons_fatal _⟩
  | none =>
    obtain ⟨htokens, hindex'⟩ := hlist.place
    have hcurrent : s'.current = m := (List.cons.inj htokens).1
    have hmissing : s'.error (.expected .rightBrace) =
        .missingBrace m (s₁.index + read.length) := by
      rw [ParserState.error, hcurrent, hindex']
      rfl
    have hclose : (one .rightBrace).Runs (n + 1) s' []
        (some ⟨.missingBrace m (s₁.index + read.length), false⟩) s' := by
      rw [← hmissing]
      exact .mismatch (by simp [hcurrent, hm])
    refine ⟨_, _, s', .node (.seq hopen (.seq (.node hrun) hclose)), hlist.severed rfl ?_ ?_⟩
    · exact Site.not_cutsSubscript (by simp [Production.isWhole, Shape.expressions])
    · have hheld : ((Tree.blockOf t vs e).leaves.take (s₁.index + read.length - s.index)).drop 1 =
          read := by
        rw [show s₁.index + read.length - s.index = read.length + 1 by omega]
        simp [Tree.blockOf, Tree.leaves, hleaves]
      rw [hrun.errors_eq_iff (fun d => blockItems_complete d _ (by decide +kernel)) hs₁ htokens hm,
        Site.SoundUpTo, hheld]

end

theorem block_severable (hitem : blockItem.Severable n (some .blockItemList))
    (parent : Option Production) : block.Severable n parent := by
  intro ts s read more m hd hleaves hne ht hm
  by_cases hmore : more = []
  · subst hmore
    rw [List.append_nil] at hleaves
    subst hleaves
    have hcomplete : block.Complete (n + 1) [.endMarker] :=
      (rule_complete (nested_complete (n + 1)) .block).mono (by decide)
    exact hcomplete.severed hd ht hm
  · obtain ⟨t, vs, e, rfl, hk, hvs⟩ := exists_blockOf hd
    obtain ⟨u, read, rfl⟩ := List.exists_cons_of_ne_nil hne
    obtain ⟨rfl, hparts⟩ : t = u ∧ Tree.leavesAll vs ++ [e] = read ++ more := by
      simpa [Tree.blockOf, Tree.leavesAll_append] using hleaves
    rcases cut_cases hparts with ⟨rest, hread⟩ | ⟨read', rfl, hrest, hne'⟩
    · obtain ⟨us, stop, s', hrun, hsevered⟩ := blockOf_severed hitem hk hvs hread ht hm
      refine ⟨us, stop, s', hrun, ?_⟩
      rwa [List.length_cons, Nat.add_comm read.length 1, ← Nat.add_assoc]
    · have hlength := congrArg List.length hrest
      simp only [List.length_append, List.length_singleton] at hlength
      have := List.length_pos_iff.2 hne'
      exact absurd (List.length_eq_zero_iff.1 (by omega)) hmore

theorem rule_severable (hnested : ∀ (c : Nested) (parent), c.standsBelow parent = true →
    (nested c).Severable n parent) (c : Nested) (h : c.standsBelow parent = true) :
    (Grammar.rule c).Severable n parent := by
  have hform {form : Form} {parent : Option Production}
      (h : form.severable [localDeclaration, elseClauses] parent = true) :
      form.Severable n parent := by
    refine severable_of_severable ?_ hnested form h
    simp only [List.forall_mem_cons, List.not_mem_nil, false_imp_iff, implies_true, and_true]
    exact ⟨localDeclaration_severable hnested, elseClauses_severable hnested⟩
  cases c with
  | expression =>
    exact expression_severable (hform (by decide +kernel)) (logicalOr_severable hnested) h
  | power =>
    obtain rfl : parent = some .exponent := of_decide_eq_true h
    exact hform (by decide +kernel)
  | unary =>
    obtain rfl : parent = some .unary := of_decide_eq_true h
    exact hform (by decide +kernel)
  | block => exact block_severable (hform (by decide +kernel)) parent
  | ifStatement => exact .node (hform (by decide +kernel)) (by decide) rfl

/-- By induction on the levels that are open. -/
theorem nested_severable (n : Nat) (c : Nested) (parent : Option Production)
    (h : c.standsBelow parent = true) : (nested c).Severable n parent := by
  induction n generalizing c parent with
  | zero =>
    intro ts s read more m hd
    cases hd
  | succ n ih =>
    intro ts s read more m hd hleaves hne ht hm
    cases hd with
    | nested hd =>
      obtain ⟨us, stop, s', hrun, hsevered⟩ := rule_severable ih c h hd hleaves hne ht hm
      exact ⟨us, stop, s', .nested hrun, hsevered⟩

end Form
end CoreLang
