import CoreLang.Proofs.Grammar.Sites
import CoreLang.Proofs.Parse.Completeness

/-! The limit of nesting is exact. With fewer levels than a program needs the parser follows the same
run up to the first subtree for which no level is free, and there it ends for good. -/
namespace CoreLang

namespace Tree
variable {n level index : Nat} {parent : Option Production} {first : Bool} {ts us : List Tree}

/-- The first subtree among the trees that opens a level beyond those that are free. -/
def overflow? (n : Nat) (parent : Option Production) (first : Bool) (level index : Nat)
    (ts : List Tree) : Option Opening :=
  (openingsAll parent first level index ts).find? (·.level = level + n + 1)

theorem overflow?_node {p : Production} (h : p.opens parent first = false) :
    overflow? n parent first level index [.node p ts] =
      overflow? n (some p) true level index ts := by
  rw [overflow?, Form.openingsAll_node h, overflow?]

theorem overflow?_append : overflow? n parent first level index (ts ++ us) =
    (overflow? n parent first level index ts).or
      (overflow? n parent (first && ts.isEmpty) level (index + (leavesAll ts).length) us) := by
  rw [overflow?, openingsAll_append, List.find?_append]
  rfl

end Tree

namespace Form

/-- What the form does with `n` free levels on the text of the trees: it reads them, or, where a
subtree opens one level too many, it stops at the first token of that subtree and for good. -/
def Copes (n : Nat) (form : Form) (s : ParserState) (ts : List Tree) (s' : ParserState) :
    Option Opening → Prop
  | none => form.Runs n s ts none s'
  | some o => ∃ us stopped, form.Runs n s us (some ⟨stopped.error .tooDeep, true⟩) stopped ∧
      stopped.errors = s.errors ∧ stopped.index = o.index ∧
      o.tree.leaves.head? = some stopped.current

variable {n depth level : Nat} {parent : Option Production} {first : Bool} {form : Form}
  {s s' s'' : ParserState} {ts us : List Tree} {stop : Option Stop}

/-- The form copes if a part of it does, which ends as the form ends. -/
theorem Copes.lift {a : Form} {m : Nat} {over? : Option Opening} (h : a.Copes n s ts s' over?)
    (hdone : a.Runs n s ts none s' → form.Runs m s us none s')
    (hstopped : ∀ {vs t e}, a.Runs n s vs (some ⟨e, true⟩) t →
      ∃ ws, form.Runs m s ws (some ⟨e, true⟩) t) : form.Copes m s us s' over? := by
  cases over? with
  | none => exact hdone h
  | some o =>
    obtain ⟨vs, stopped, hrun, hplace⟩ := h
    obtain ⟨ws, hrun'⟩ := hstopped hrun
    exact ⟨ws, stopped, hrun', hplace⟩

/-- Of two parts that run one after another the first one that does not cope decides. -/
theorem Copes.or {a b : Form} {over? over'? : Option Opening} {join : List Tree → List Tree}
    (he : s'.errors = s.errors) (h : a.Copes n s ts s' over?) (h' : b.Copes n s' us s'' over'?)
    (hfirst : ∀ {vs t e}, a.Runs n s vs (some ⟨e, true⟩) t →
      ∃ ws, form.Runs n s ws (some ⟨e, true⟩) t)
    (hrest : ∀ {vs stop t}, a.Runs n s ts none s' → b.Runs n s' vs stop t →
      form.Runs n s (join vs) stop t) : form.Copes n s (join us) s'' (over?.or over'?) := by
  cases over? with
  | some o =>
    obtain ⟨vs, stopped, hrun, hplace⟩ := h
    obtain ⟨ws, hrun'⟩ := hfirst hrun
    exact ⟨ws, stopped, hrun', hplace⟩
  | none =>
    rw [Option.none_or]
    cases over'? with
    | none => exact hrest h h'
    | some o =>
      obtain ⟨vs, stopped, hrun, herrors, hplace⟩ := h'
      exact ⟨join vs, stopped, hrest h hrun, herrors.trans he, hplace⟩

theorem Copes.append {a b : Form} {join : List Tree → List Tree}
    (hclean : a.Runs depth s ts none s') (he : s'.errors = s.errors)
    (h : a.Copes n s ts s' (Tree.overflow? n parent first level s.index ts))
    (h' : b.Copes n s' us s'' (Tree.overflow? n parent (first && ts.isEmpty) level s'.index us))
    (hfirst : ∀ {vs t e}, a.Runs n s vs (some ⟨e, true⟩) t →
      ∃ ws, form.Runs n s ws (some ⟨e, true⟩) t)
    (hrest : ∀ {vs stop t}, a.Runs n s ts none s' → b.Runs n s' vs stop t →
      form.Runs n s (join vs) stop t) :
    form.Copes n s (join us) s'' (Tree.overflow? n parent first level s.index (ts ++ us)) := by
  rw [Tree.overflow?_append, ← (hclean.passes_leaves he (by simp)).index]
  exact .or he h h' hfirst hrest

theorem Runs.head?_leavesAll (h : form.Runs n s ts none s') (he : s'.errors = s.errors)
    (hr : form.reads = true) : (Tree.leavesAll ts).head? = some s.current := by
  obtain ⟨u, rest, hcons⟩ := List.exists_cons_of_ne_nil (h.leaves_ne_nil rfl hr)
  have htokens := (h.passes_leaves he (by simp)).tokens
  rw [hcons, ParserState.tokens, List.cons_append, List.cons.injEq] at htokens
  rw [hcons, List.head?_cons, htokens.1]

theorem copes_nested {c : Nested} (h : (Grammar.rule c).Runs depth s ts none s')
    (he : s'.errors = s.errors) (hc : (nested c).placed parent first = true)
    (hrule : ∀ n level, (Grammar.rule c).Copes n s ts s'
      (Tree.overflow? n none true level s.index ts)) :
    (nested c).Copes n s ts s' (Tree.overflow? n parent first level s.index ts) := by
  have hd := h.derives (.inl rfl)
  obtain ⟨t, rfl, hopenings⟩ := openingsAll_nested level s.index hd hc
  cases n with
  | zero =>
    have hover : Tree.overflow? 0 parent first level s.index [t] = some ⟨level + 1, s.index, t⟩ := by
      rw [Tree.overflow?, hopenings]
      simp
    rw [hover]
    refine ⟨[], s, .tooDeep, rfl, rfl, ?_⟩
    simpa [Tree.leavesAll] using h.head?_leavesAll he (rule_reads c)
  | succ n =>
    have hover : Tree.overflow? (n + 1) parent first level s.index [t] =
        Tree.overflow? n none true (level + 1) s.index [t] := by
      rw [Tree.overflow?, hopenings, List.find?_cons_of_neg (by simp), Tree.overflow?,
        show level + (n + 1) + 1 = level + 1 + n + 1 by omega]
    rw [hover]
    exact (hrule n (level + 1)).lift .nested fun hrun => ⟨_, .nested hrun⟩

/-- A run without errors at some depth is followed with any number of free levels. -/
theorem Runs.copes (h : form.Runs depth s ts stop s') (hstop : stop = none)
    (he : s'.errors = s.errors) (n : Nat) (hp : form.placed parent first = true) (level : Nat) :
    form.Copes n s ts s' (Tree.overflow? n parent first level s.index ts) := by
  -- Only a nested construct takes a level: in all other cases `n` and `level` stay.
  induction h generalizing n parent first level with
  | token hk hat hr => exact .token hk hat hr
  | empty => exact .empty
  | seq h h' ih ih' =>
    obtain ⟨hl, hr⟩ := h.errors_eq_of_trans h' he
    obtain ⟨hfirst, hsecond⟩ := placed_seq (h.derives (.inl rfl)) hp
    exact .append h hl (ih rfl hl n hfirst level) (ih' hstop hr n hsecond level)
      (fun hrun => ⟨_, .seqStopped hrun⟩) .seq
  | yes hl _ ih =>
    exact (ih hstop he n (Bool.and_eq_true_iff.1 hp).1 level).lift (.yes hl)
      fun hrun => ⟨_, .yes hl hrun⟩
  | no hl _ ih =>
    exact (ih hstop he n (Bool.and_eq_true_iff.1 hp).2 level).lift (.no hl)
      fun hrun => ⟨_, .no hl hrun⟩
  | done hl => exact .done hl
  | more hlook h h' ih ih' =>
    obtain ⟨hl, hr⟩ := h.errors_eq_of_trans h' he
    obtain ⟨hone, hrest⟩ := placed_again _ hp
    exact .append h hl (ih rfl hl n hone level) (ih' hstop hr n hrest level)
      (fun hrun => ⟨_, .moreStopped hlook hrun⟩) (.more hlook)
  | node _ ih =>
    simp only [placed, Bool.and_eq_true, Bool.not_eq_true'] at hp
    rw [Tree.overflow?_node hp.1]
    exact (ih hstop he n hp.2 level).lift .node fun hrun => ⟨_, .node hrun⟩
  | alone h hl ih =>
    simp only [placed, Bool.and_eq_true] at hp
    exact (ih rfl he n hp.1.1.1.1 level).lift (fun hrun => .alone hrun hl)
      fun hrun => ⟨_, .suffixedStopped hrun⟩
  | suffixed h hlook h' ih ih' =>
    obtain ⟨hl, hr⟩ := h.errors_eq_of_trans h' he
    obtain ⟨hopens, hoperand, hsuffix⟩ := placed_suffixed (h.derives (.inl rfl)) hp
    rw [Tree.overflow?_node hopens]
    exact .append h hl (ih rfl hl n hoperand level) (ih' hstop hr n hsuffix level)
      (fun hrun => ⟨_, .suffixedStopped hrun⟩) fun hrun hrun' => .suffixed hrun hlook hrun'
  | nested h ih =>
    subst hstop
    exact copes_nested h he hp fun n level => ih rfl he n (rule_placed _) level
  | finish hs => exact .finish hs
  | item hs h h' ih ih' =>
    obtain ⟨hl, hr⟩ := h.errors_eq_of_trans h' he
    obtain ⟨hone, hrest⟩ := placed_again _ hp
    exact .append h hl (ih rfl hl n hone level) (ih' hstop hr n hrest level)
      (fun hrun => ⟨_, .ruined hs hrun⟩) (.item hs)
  | damaged _ h h' => exact absurd he (h.errors_ne_of_resume h')
  | mismatch | seqStopped | moreStopped | suffixedStopped | tooDeep | ruined | abandon => cases hstop

end Form

/-- A tree needs no more levels than it opens. -/
theorem Tree.WellShaped.of_nesting_le {t : Tree} {depth n : Nat} (h : t.WellShaped depth)
    (hle : t.nesting ≤ n) : t.WellShaped n := by
  obtain ⟨ts, s, rfl, hrun, he⟩ := Parse.runs_leaves h
  have hcopes := hrun.copes rfl (by rw [he, ParserState.ofTokens_errors]) n Form.program_placed 0
  have hnone : overflow? n (some .program) true 0
      (ParserState.ofTokens (node .program ts).leaves).index ts = none := by
    refine List.find?_eq_none.2 fun o ho => ?_
    have hlevel := nesting_le_iff.1 hle o (by
      simpa [openings, openingsIn, Production.opens] using ho)
    simp only [decide_eq_true_eq]
    omega
  rw [hnone] at hcopes
  exact wellShaped_iff.2 (.node (Form.Runs.derives hcopes (.inl rfl)))

namespace Parse

/-- A program of any depth is parsed as far as the first subtree that opens a level too many. -/
theorem ofTokens_leaves_eq {t : Tree} {depth : Nat} (h : t.WellShaped depth) :
    match t.openings.find? (·.level = Limits.nesting + 1) with
    | none => t.WellShaped Limits.nesting ∧ ofTokens t.leaves = ⟨t, [], false⟩
    | some o => ∃ first root, o.tree.leaves.head? = some first ∧
        ofTokens t.leaves = ⟨root, [⟨.tooDeep, first, o.index⟩], true⟩ := by
  obtain ⟨ts, s, rfl, hrun, he⟩ := runs_leaves h
  have he' : s.errors = (ParserState.ofTokens (Tree.node .program ts).leaves).errors := by
    rw [he, ParserState.ofTokens_errors]
  have hcopes := hrun.copes rfl he' Limits.nesting Form.program_placed 0
  have hover : Tree.overflow? Limits.nesting (some .program) true 0
      (ParserState.ofTokens (Tree.node .program ts).leaves).index ts =
        (Tree.node .program ts).openings.find? (·.level = Limits.nesting + 1) := by
    simp [Tree.overflow?, Tree.openings, Tree.openingsIn, Production.opens]
  rw [hover] at hcopes
  cases hfind : (Tree.node .program ts).openings.find? (·.level = Limits.nesting + 1) with
  | none =>
    rw [hfind] at hcopes
    have hd : Grammar.program.Derives Limits.nesting ts := Form.Runs.derives hcopes (.inl rfl)
    refine ⟨Tree.wellShaped_iff.2 (.node hd), ?_⟩
    rw [ofTokens_of_runs hcopes, he, hrun.panic_eq he']
    simp
  | some o =>
    rw [hfind] at hcopes
    obtain ⟨us, stopped, hstopped, herrors, hindex, hfirst⟩ := hcopes
    refine ⟨stopped.current, .node .program us, hfirst, ?_⟩
    rw [ofTokens_of_runs hstopped, herrors]
    simp [ParserState.error, hindex]

/-- The limit of nesting is exact. A program that keeps to it is read without errors. In a program
that goes beyond it there is one error, at the first token of the first subtree that opens a level
too many, and the tree is withheld. -/
theorem ofTokens_leaves_nesting {t : Tree} {depth : Nat} (h : t.WellShaped depth) :
    (t.nesting ≤ Limits.nesting → ofTokens t.leaves = ⟨t, [], false⟩) ∧
      (Limits.nesting < t.nesting → ∃ o first,
        t.openings.find? (·.level = Limits.nesting + 1) = some o ∧
          o.tree.leaves.head? = some first ∧ t.leaves[o.index]? = some first ∧
          (ofTokens t.leaves).errors = [⟨.tooDeep, first, o.index⟩] ∧
          (ofTokens t.leaves).panicked = true ∧ (ofTokens t.leaves).tree? = none) := by
  have heq := ofTokens_leaves_eq h
  cases hfind : t.openings.find? (·.level = Limits.nesting + 1) with
  | none =>
    rw [hfind] at heq
    obtain ⟨hshape, hparse⟩ := heq
    exact ⟨fun _ => hparse, fun hdeep => absurd hshape.nesting_le (Nat.not_le.2 hdeep)⟩
  | some o =>
    rw [hfind] at heq
    obtain ⟨first, root, hfirst, hparse⟩ := heq
    have hmem := List.mem_of_find?_eq_some hfind
    refine ⟨fun hle => ?_, fun _ => ⟨o, first, rfl, hfirst, ?_, ?_⟩⟩
    · have hlevel : o.level = Limits.nesting + 1 := by simpa using List.find?_some hfind
      have := Tree.nesting_le_iff.1 hle o hmem
      omega
    · obtain ⟨x, hx, hindex, htree⟩ := Tree.exists_site_of_mem_openings hmem
      rw [← hindex]
      exact Site.getElem?_index hx (htree ▸ hfirst)
    · rw [hparse]
      exact ⟨rfl, rfl, rfl⟩

end Parse

def Tree.signed : Nat → Tree
  | 0 => .node .factor [.node .const [.leaf "Int" Kind.integerLiteral.token]]
  | n + 1 => .node .unary [.leaf "MINUS" Kind.minus.token, signed n]

theorem Tree.signed_matches (n : Nat) :
    (Shape.node [.unary, .factor]).Matches n [signed n] := by
  induction n with
  | zero =>
    have hconstant : (Shape.node [.const]).Matches 0 [.node .const _] :=
      .node (by decide) (.leaf (t := Kind.integerLiteral.token) (by decide))
    exact .node (p := .factor) (by decide) (.right (.right hconstant))
  | succ n ih =>
    have hsign : (Shape.leaf [.not, .plus, .minus]).Matches (n + 1) [_] :=
      .leaf (t := Kind.minus.token) (by decide)
    exact .node (p := .unary) (by decide) (.seq hsign ih.deeper_of_node)

theorem Tree.initialized_signed_wellShaped (n : Nat) :
    (initialized (signed n)).WellShaped (n + 1) :=
  initialized_wellShaped ((signed_matches n).node_mono (by decide)).deeper_of_node

/-- The value after 128 signs is one level too deep. -/
theorem Parse.ofTokens_leaves_nesting_signed :
    let t := Tree.initialized (.signed Limits.nesting)
    t.WellShaped (Limits.nesting + 1) ∧ Limits.nesting < t.nesting ∧
      (ofTokens t.leaves).errors = [⟨.tooDeep, Kind.integerLiteral.token, 131⟩] ∧
      (ofTokens t.leaves).tree? = none := by
  intro t
  have h : t.WellShaped (Limits.nesting + 1) := Tree.initialized_signed_wellShaped _
  have hdeep : Limits.nesting < t.nesting := by decide +kernel
  have hindex : (t.openings.find? (·.level = Limits.nesting + 1)).map (·.index) = some 131 := by
    decide +kernel
  have htoken : t.leaves[131]? = some Kind.integerLiteral.token := by decide +kernel
  obtain ⟨o, first, hfind, -, hfirst, herrors, -, htree⟩ := (ofTokens_leaves_nesting h).2 hdeep
  rw [hfind, Option.map_some, Option.some.injEq] at hindex
  rw [hindex, htoken, Option.some.injEq] at hfirst
  rw [hindex, ← hfirst] at herrors
  exact ⟨h, hdeep, herrors, htree⟩

end CoreLang
