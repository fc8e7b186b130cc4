import CoreLang.Proofs.Grammar.Shape
import CoreLang.Proofs.Parse.Adequacy

/-! Every parse leaves a tree of the language, whatever its tokens are: damaged items leave nothing
behind, and what is left of the tokens keeps its order. -/
namespace CoreLang

/-- A form that is not stopped leaves trees of the grammar. Lists of items do so in any case. -/
theorem Form.Runs.derives {n : Nat} {form : Form} {s s' : ParserState} {ts : List Tree}
    {stop : Option Stop} (h : form.Runs n s ts stop s')
    (hstop : stop = none ∨ ∃ stops item, form = .items stops item) : form.Derives n ts := by
  induction h with
  | token hk => exact .token hk
  | empty => exact .empty
  | seq _ _ ih ih' => exact .seq (ih (.inl rfl)) (ih' (.inl (hstop.resolve_right nofun)))
  | yes _ _ ih => exact .yes (ih (.inl (hstop.resolve_right nofun)))
  | no _ _ ih => exact .no (ih (.inl (hstop.resolve_right nofun)))
  | done => exact .none
  | more _ _ _ ih ih' => exact .more (ih (.inl rfl)) (ih' (.inl (hstop.resolve_right nofun)))
  | node _ ih => exact .node (ih (.inl (hstop.resolve_right nofun)))
  | alone _ _ ih => exact .alone (ih (.inl rfl))
  | suffixed _ _ _ ih ih' =>
    exact .suffixed (ih (.inl rfl)) (ih' (.inl (hstop.resolve_right nofun)))
  | nested _ ih => exact .nested (ih (.inl (hstop.resolve_right nofun)))
  | finish => exact .noItem
  | item _ _ _ ih ih' => exact .item (ih (.inl rfl)) (ih' (.inr ⟨_, _, rfl⟩))
  | damaged _ _ _ _ ih' => exact ih' (.inr ⟨_, _, rfl⟩)
  | ruined => exact .noItem
  | mismatch | seqStopped | moreStopped | suffixedStopped | tooDeep | abandon =>
    rcases hstop with hstop | ⟨_, _, hform⟩
    · cases hstop
    · cases hform

theorem Form.Derives.leaf_kind {form : Form} {depth : Nat} {ts : List Tree}
    (h : form.Derives depth ts) (hp : form.proper = true) :
    ∀ t ∈ Tree.leavesAll ts, t.kind ≠ .endMarker ∧ t.kind.isError = false := by
  induction h with
  | token hk =>
    have := List.all_eq_true.1 hp _ hk
    simpa [Tree.leavesAll, Tree.leaves] using this
  | empty | none | noItem => simp [Tree.leavesAll]
  | seq _ _ ih ih' =>
    obtain ⟨hp₁, hp₂⟩ := Bool.and_eq_true_iff.1 hp
    simpa only [Tree.leavesAll_append, List.forall_mem_append] using ⟨ih hp₁, ih' hp₂⟩
  | yes _ ih => exact ih (Bool.and_eq_true_iff.1 hp).1
  | no _ ih => exact ih (Bool.and_eq_true_iff.1 hp).2
  | more _ _ ih ih' =>
    have hbody := (Bool.and_eq_true_iff.1 hp).2
    simpa only [Tree.leavesAll_append, List.forall_mem_append] using ⟨ih hbody, ih' hp⟩
  | node _ ih => simpa [Tree.leavesAll, Tree.leaves] using ih hp
  | alone _ ih => exact ih (Bool.and_eq_true_iff.1 hp).1
  | suffixed _ _ ih ih' =>
    obtain ⟨hp₁, hp₂⟩ := Bool.and_eq_true_iff.1 hp
    simp only [Tree.leavesAll, Tree.leaves, List.append_nil, Tree.leavesAll_append,
      List.forall_mem_append]
    exact ⟨ih hp₁, ih' hp₂⟩
  | @nested c _ _ _ ih => exact ih (rule_proper c)
  | item _ _ ih ih' =>
    have hitem := (Bool.and_eq_true_iff.1 hp).2
    simpa only [Tree.leavesAll_append, List.forall_mem_append] using ⟨ih hitem, ih' hp⟩

theorem Tree.WellShaped.leaf_kind {t : Tree} {depth : Nat} (h : t.WellShaped depth) :
    ∀ u ∈ t.leaves, u.kind ≠ .endMarker ∧ u.kind.isError = false := by
  have hleaf := (Tree.wellShaped_iff.1 h).leaf_kind Grammar.program_proper
  simpa [Tree.leavesAll] using hleaf

namespace Parse

/-- Any tokens give a tree of the language, also where errors were found. Its leaves are some of the
tokens before the first end marker, in their order, and none of them is faulty. -/
theorem root_wellShaped (tokens : List Token) :
    (ofTokens tokens).root.WellShaped Limits.nesting ∧
      (ofTokens tokens).root.leaves.Sublist (Token.beforeMarker tokens) ∧
      ∀ t ∈ (ofTokens tokens).root.leaves, t.kind ≠ .endMarker ∧ t.kind.isError = false := by
  obtain ⟨ts, stop, s, h, -, hparse⟩ := exists_runs tokens
  have hd := h.derives (.inr ⟨_, _, rfl⟩)
  obtain ⟨read, hpass, hsub⟩ := h.exists_passes
  have hshape : (Tree.node .program ts).WellShaped Limits.nesting :=
    Tree.wellShaped_iff.2 (.node hd)
  rw [hparse]
  refine ⟨hshape, ?_, hshape.leaf_kind⟩
  rw [← ParserState.beforeMarker_ofTokens, hpass.beforeMarker]
  exact hsub.trans (List.sublist_append_left _ _)

end Parse
end CoreLang
