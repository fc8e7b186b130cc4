import CoreLang.Proofs.Grammar.Sites
import CoreLang.Proofs.Parse.AtEnd

/-! Runs over the beginning of a sound text. Up to the end they are as for the whole text. There a
block that is open lacks its brace, and so does each one around it; the text inside the innermost
one may lack something before that. -/
namespace CoreLang

/-- The error of a block that is open behind the last of `i` tokens, at the marker that follows. -/
def SyntaxError.missingBrace (m : Token) (i : Nat) : SyntaxError := ⟨.expected .rightBrace, m, i⟩

/-- How a run ends at the marker `m` behind `i` tokens, if those nodes are cut there. -/
inductive Severed (m : Token) (i : Nat) (errors : List SyntaxError) (cut : List Site) :
    Option Stop → ParserState → Prop where
  /-- The search for a closing bracket ends the parse. -/
  | subscript {x t s} (hx : x ∈ cut) (hsubscript : x.CutsSubscript i)
    (ht : x.tree.leaves.head? = some t) (he : s.errors = errors) :
    Severed m i errors cut (some ⟨⟨.unclosedSubscript, t, x.index⟩, true⟩) s
  /-- No block is open. -/
  | plain {stop s} (hcut : ∀ x ∈ cut, ¬x.CutsSubscript i) (hblocks : cut.filter (·.isBlock) = [])
    (ht : s.tokens = [m]) (hi : s.index = i) (he : s.errors = errors)
    (hstop : ∀ e ∈ stop, ∃ cause, e = ⟨⟨cause, m, i⟩, false⟩) : Severed m i errors cut stop s
  /-- The brace of the outermost open block is missing last. -/
  | block {first : Option Cause} {b bs s} (hcut : ∀ x ∈ cut, ¬x.CutsSubscript i)
    (hblocks : cut.filter (·.isBlock) = b :: bs) (ht : s.tokens = [m]) (hi : s.index = i)
    (he : s.errors = errors ++ (first.map fun cause => ⟨cause, m, i⟩).toList ++
      List.replicate bs.length (.missingBrace m i))
    (hfirst : ∀ x ∈ (b :: bs).getLast?, first = none ↔ x.SoundUpTo i) :
    Severed m i errors cut (some ⟨.missingBrace m i, false⟩) s

namespace Severed
variable {m : Token} {i n : Nat} {errors : List SyntaxError} {cut : List Site} {x : Site}
  {stop : Option Stop} {s : ParserState}

/-- A node that is cut has no part in it unless it is a block or begins with the subscript that is
cut. -/
theorem cons_iff (hblock : x.isBlock = false) (hx : ¬x.CutsSubscript i) :
    Severed m i errors (x :: cut) stop s ↔ Severed m i errors cut stop s := by
  have hfilter : (x :: cut).filter (·.isBlock) = cut.filter (·.isBlock) := by simp [hblock]
  have hall : (∀ y ∈ x :: cut, ¬y.CutsSubscript i) ↔ ∀ y ∈ cut, ¬y.CutsSubscript i := by simp [hx]
  constructor
  · rintro (⟨hy, hsubscript, ht, he⟩ | ⟨hcut, hblocks, ht, hi, he, hstop⟩ |
      ⟨hcut, hblocks, ht, hi, he, hfirst⟩)
    · rcases List.mem_cons.1 hy with rfl | hy
      · exact absurd hsubscript hx
      · exact .subscript hy hsubscript ht he
    · exact .plain (hall.1 hcut) (hfilter ▸ hblocks) ht hi he hstop
    · exact .block (hall.1 hcut) (hfilter ▸ hblocks) ht hi he hfirst
  · rintro (⟨hy, hsubscript, ht, he⟩ | ⟨hcut, hblocks, ht, hi, he, hstop⟩ |
      ⟨hcut, hblocks, ht, hi, he, hfirst⟩)
    · exact .subscript (List.mem_cons_of_mem _ hy) hsubscript ht he
    · exact .plain (hall.2 hcut) (hfilter.trans hblocks) ht hi he hstop
    · exact .block (hall.2 hcut) (hfilter.trans hblocks) ht hi he hfirst

/-- Unless the parse is over, all tokens have been read. -/
theorem place (h : Severed m i errors cut stop s) (hstop : ∀ e ∈ stop, e.fatal = false) :
    s.tokens = [m] ∧ s.index = i := by
  cases h with
  | subscript => cases hstop _ rfl
  | plain hcut hblocks ht hi => exact ⟨ht, hi⟩
  | block hcut hblocks ht hi => exact ⟨ht, hi⟩

theorem exists_subscript {e : SyntaxError} (h : Severed m i errors cut (some ⟨e, true⟩) s) :
    ∃ x ∈ cut, ∃ t, x.CutsSubscript i ∧ x.tree.leaves.head? = some t ∧
      e = ⟨.unclosedSubscript, t, x.index⟩ ∧ s.errors = errors := by
  generalize hstop : some (Stop.mk e true) = stop at h
  cases h with
  | subscript hx hsubscript ht he =>
    cases hstop
    exact ⟨_, hx, _, hsubscript, ht, rfl, he⟩
  | plain hcut hblocks ht hi he hplain =>
    obtain ⟨cause, heq⟩ := hplain _ hstop.symm
    cases heq
  | block => cases hstop

theorem cons_fatal {e : SyntaxError} (h : Severed m i errors cut (some ⟨e, true⟩) s) (x : Site) :
    Severed m i errors (x :: cut) (some ⟨e, true⟩) s := by
  obtain ⟨y, hy, t, hsubscript, ht, rfl, he⟩ := h.exists_subscript
  exact .subscript (List.mem_cons_of_mem _ hy) hsubscript ht he

theorem tokens_eq (h : Severed m i errors cut none s) : s.tokens = [m] := (h.place (by simp)).1

theorem sees_eq_false {kinds : List Kind} (h : Severed m i errors cut none s)
    (hm : m.kind = .endMarker) (hout : .endMarker ∉ kinds) :
    (Look.sees 0 kinds).holds s.tokens = false := by
  rw [h.tokens_eq]
  exact decide_eq_false (by simpa [kindAhead, hm] using hout)

/-- The head of a tree has no part in it under the same conditions. -/
theorem node_iff {parent : Option Production} {index : Nat} {p : Production} {children : List Tree}
    (hp : p ≠ .block) (hx : ¬(Site.mk parent index (.node p children)).CutsSubscript i) :
    Severed m i errors (Tree.cutSites parent index [.node p children] i) stop s ↔
      Severed m i errors (Tree.cutSites (some p) index children i) stop s := by
  rw [Tree.cutSites_node]
  split
  · exact cons_iff (by simpa [Site.isBlock, Tree.production?] using hp) hx
  · rfl

theorem append {parent : Option Production} {us vs : List Tree} {read : List Token}
    {s' s'' : ParserState} (hindex : s'.index = s.index + (Tree.leavesAll us).length)
    (herrors : s'.errors = s.errors) (h : Severed m (s'.index + read.length) s'.errors
      (Tree.cutSites parent s'.index vs (s'.index + read.length)) stop s'') :
    Severed m (s.index + (Tree.leavesAll us ++ read).length) s.errors
      (Tree.cutSites parent s.index (us ++ vs) (s.index + (Tree.leavesAll us ++ read).length))
      stop s'' := by
  rw [List.length_append, ← Nat.add_assoc, Tree.cutSites_append_right (by omega), ← hindex,
    ← herrors]
  exact h

theorem exists_runs_calm (h : Severed m i errors cut none s) (hm : m.kind = .endMarker)
    {form : Form} (hcalm : form.Calm n) :
    ∃ us stop, form.Runs n s us stop s ∧ Severed m i errors cut stop s := by
  cases h with
  | plain hcut hblocks ht hi he =>
    obtain ⟨us, stop, hrun, hstop⟩ := hcalm s m ht hm
    refine ⟨us, stop, hrun, .plain hcut hblocks ht hi he fun e hmem => ?_⟩
    obtain ⟨cause, rfl⟩ := hstop e hmem
    exact ⟨cause, by rw [ParserState.error, (List.cons.inj ht).1, hi]⟩

end Severed

/-- Where the grammar has the construct: powers and what follows a sign stand below their operators,
and an expression stands anywhere else. -/
def Nested.standsBelow (parent : Option Production) : Nested → Bool
  | .expression => parent.any (· ∉ Production.operations)
  | .power => parent = some .exponent
  | .unary => parent = some .unary
  | .block | .ifStatement => true

namespace Form
variable {n : Nat} {parent : Option Production} {kinds : List Kind}

/-- Where the text ends inside the text of trees of the form, the form runs as their nodes that are
cut say. -/
def Severable (n : Nat) (parent : Option Production) (form : Form) : Prop :=
  ∀ ⦃ts s read more m⦄, form.Derives n ts → Tree.leavesAll ts = read ++ more → read ≠ [] →
    s.tokens = read ++ [m] → m.kind = .endMarker →
      ∃ us stop s', form.Runs (n + 1) s us stop s' ∧
        Severed m (s.index + read.length) s.errors
          (Tree.cutSites parent s.index ts (s.index + read.length)) stop s'

theorem Derives.kindAhead_mem_starts_of_prefix {form : Form} {ts : List Tree}
    (h : form.Derives n ts) {read more : List Token} (hleaves : Tree.leavesAll ts = read ++ more)
    (hne : read ≠ []) (rest : List Token) : kindAhead 0 (read ++ rest) ∈ form.starts := by
  obtain ⟨t, read, rfl⟩ := List.exists_cons_of_ne_nil hne
  rcases h.leaves_eq_nil_or with ⟨hnil, -⟩ | ⟨u, us, hcons, hk⟩
  · rw [hnil] at hleaves
    cases hleaves
  · rw [hcons] at hleaves
    cases hleaves
    exact hk

theorem Complete.exists_runs {form : Form} {follow : List Kind} (h : form.Complete (n + 1) follow)
    {ts : List Tree} {s : ParserState} {rest : List Token} (hd : form.Derives n ts)
    (ht : s.tokens = Tree.leavesAll ts ++ rest) (hne : rest ≠ []) (hf : kindAhead 0 rest ∈ follow) :
    ∃ s', form.Runs (n + 1) s ts none s' ∧ s'.tokens = rest ∧ s'.errors = s.errors ∧
      s'.index = s.index + (Tree.leavesAll ts).length := by
  obtain ⟨s', hrun, ht', he⟩ := h ts s rest (hd.mono (Nat.le_succ n)) ht hne hf
  exact ⟨s', hrun, ht', he, (hrun.passes_leaves he (by simp)).index⟩

/-- The text ends within the first of two parts, at its end at the latest, or within the second. -/
theorem cut_cases {a b read more : List Token} (h : a ++ b = read ++ more) :
    (∃ rest, a = read ++ rest) ∨ ∃ read', read = a ++ read' ∧ b = read' ++ more ∧ read' ≠ [] := by
  rcases List.append_eq_append_iff.1 h with ⟨read', rfl, hb⟩ | ⟨rest, rfl, -⟩
  · cases read' with
    | nil => exact .inl ⟨[], by simp⟩
    | cons t read' => exact .inr ⟨t :: read', rfl, hb, by simp⟩
  · exact .inl ⟨rest, rfl⟩

theorem Complete.severed {form : Form} (h : form.Complete (n + 1) [.endMarker]) {ts : List Tree}
    {s : ParserState} {m : Token} (hd : form.Derives n ts)
    (ht : s.tokens = Tree.leavesAll ts ++ [m]) (hm : m.kind = .endMarker) :
    ∃ us stop s', form.Runs (n + 1) s us stop s' ∧
      Severed m (s.index + (Tree.leavesAll ts).length) s.errors
        (Tree.cutSites parent s.index ts (s.index + (Tree.leavesAll ts).length)) stop s' := by
  obtain ⟨s', hrun, ht', he, hi⟩ :=
    h.exists_runs hd ht (by simp) (List.mem_singleton.2 hm)
  rw [Tree.cutSites_eq_nil_of_ge (Nat.le_refl _)]
  exact ⟨ts, none, s', hrun, .plain (by simp) rfl ht' hi he (by simp)⟩

theorem token_severable {cause : Cause} (h : .endMarker ∉ kinds) :
    (token kinds cause).Severable n parent := by
  intro ts s read more m hd hleaves hne ht hm
  obtain ⟨rfl, rfl⟩ : read = Tree.leavesAll ts ∧ more = [] := by
    cases hd with | @token _ _ _ t hk =>
    cases read with
    | nil => exact absurd rfl hne
    | cons u read => simpa [eq_comm, and_assoc] using hleaves
  exact (token_complete h).severed hd ht hm

theorem empty_severable : empty.Severable n parent := by
  intro ts s read more m hd hleaves hne ht hm
  cases hd with | empty =>
  exact absurd (List.append_eq_nil_iff.1 hleaves.symm).1 hne

theorem Severable.seq {first second : Form} (hfirst : first.Severable n parent)
    (hsecond : second.Severable n parent) (hcomplete : first.Complete (n + 1) second.starts)
    (hcalm : second.Calm (n + 1)) : (Form.seq first second).Severable n parent := by
  intro ts s read more m hd hleaves hne ht hm
  cases hd with
  | @seq _ _ _ us vs hd hd' =>
    rw [Tree.leavesAll_append] at hleaves
    rcases cut_cases hleaves with ⟨rest, hus⟩ | ⟨read', rfl, hvs, hne'⟩
    · rw [Tree.cutSites_append_of_leaves hus]
      obtain ⟨ws, stop, s', hrun, hsevered⟩ := hfirst hd hus hne ht hm
      cases stop with
      | some e => exact ⟨ws, some e, s', .seqStopped hrun, hsevered⟩
      | none =>
        obtain ⟨ws', stop, hrun', hsevered'⟩ := hsevered.exists_runs_calm hm hcalm
        exact ⟨_, stop, s', .seq hrun hrun', hsevered'⟩
    · rw [List.append_assoc] at ht
      obtain ⟨s', hrun, ht', he, hi⟩ := hcomplete.exists_runs hd ht (by simp)
        (hd'.kindAhead_mem_starts_of_prefix hvs hne' [m])
      obtain ⟨ws, stop, s'', hrun', hsevered⟩ := hsecond hd' hvs hne' ht' hm
      exact ⟨_, stop, s'', .seq hrun hrun', hsevered.append hi he⟩

theorem Severable.branch {look : Look} {yes no : Form} (hyes : yes.Severable n parent)
    (hno : no.Severable n parent)
    (hin : ∀ ⦃ts read more m⦄, yes.Derives n ts → Tree.leavesAll ts = read ++ more → read ≠ [] →
      m.kind = .endMarker → look.holds (read ++ [m]) = true)
    (hout : ∀ ⦃ts read more m⦄, no.Derives n ts → Tree.leavesAll ts = read ++ more → read ≠ [] →
      m.kind = .endMarker → look.holds (read ++ [m]) = false) :
    (Form.branch look yes no).Severable n parent := by
  intro ts s read more m hd hleaves hne ht hm
  cases hd with
  | yes hd =>
    obtain ⟨us, stop, s', hrun, hsevered⟩ := hyes hd hleaves hne ht hm
    exact ⟨us, stop, s', .yes (by rw [ht, hin hd hleaves hne hm]) hrun, hsevered⟩
  | no hd =>
    obtain ⟨us, stop, s', hrun, hsevered⟩ := hno hd hleaves hne ht hm
    exact ⟨us, stop, s', .no (by rw [ht, hout hd hleaves hne hm]) hrun, hsevered⟩

theorem Severable.many {body : Form} (hbody : body.Severable n parent)
    (hcomplete : body.Complete (n + 1) body.starts) (hr : body.reads = true)
    (hin : body.starts ⊆ kinds) (hout : .endMarker ∉ kinds) :
    (Form.many (.sees 0 kinds) body).Severable n parent := by
  intro ts s read more m hd hleaves hne ht hm
  generalize hform : Form.many (.sees 0 kinds) body = form at hd
  induction hd generalizing s read with
  | none => exact absurd (List.append_eq_nil_iff.1 hleaves.symm).1 hne
  | @more _ _ _ us vs hd hd' _ ih =>
    cases hform
    rw [Tree.leavesAll_append] at hleaves
    rcases cut_cases hleaves with ⟨rest, hus⟩ | ⟨read', rfl, hvs, hne'⟩
    · have hl : (Look.sees 0 kinds).holds s.tokens = true := by
        rw [ht]
        exact decide_eq_true (hin (hd.kindAhead_mem_starts_of_prefix hus hne [m]))
      rw [Tree.cutSites_append_of_leaves hus]
      obtain ⟨ws, stop, s', hrun, hsevered⟩ := hbody hd hus hne ht hm
      cases stop with
      | some e => exact ⟨ws, some e, s', .moreStopped hl hrun, hsevered⟩
      | none =>
        exact ⟨_, none, s', .more hl hrun (.done (hsevered.sees_eq_false hm hout)), hsevered⟩
    · rw [List.append_assoc] at ht
      have hl : (Look.sees 0 kinds).holds s.tokens = true := by
        rw [ht]
        exact decide_eq_true (hin (hd.kindAhead_mem_starts hr _))
      obtain ⟨s', hrun, ht', he, hi⟩ := hcomplete.exists_runs hd ht (by simp)
        (hd'.kindAhead_mem_starts_of_prefix hvs hne' [m])
      obtain ⟨ws, stop, s'', hrun', hsevered⟩ := ih hbody hcomplete hvs hne' ht' rfl
      exact ⟨_, stop, s'', .more hl hrun hrun', hsevered.append hi he⟩
  | token | empty | seq | yes | no | node | alone | suffixed | nested | noItem | item => cases hform

theorem Severable.node {p : Production} {body : Form} (h : body.Severable n (some p))
    (hp : p ≠ .block) (hwhole : p.isWhole parent = false) :
    (Form.node p body).Severable n parent := by
  intro ts s read more m hd hleaves hne ht hm
  cases hd with | @node _ _ _ us hd =>
  rw [Tree.leavesAll_node] at hleaves
  obtain ⟨vs, stop, s', hrun, hsevered⟩ := h hd hleaves hne ht hm
  exact ⟨_, stop, s', .node hrun, (Severed.node_iff hp (Site.not_cutsSubscript hwhole)).2 hsevered⟩

theorem Severable.suffixed {p : Production} {operand suffix : Form}
    (halone : operand.Severable n parent) (hoperand : operand.Severable n (some p))
    (hsuffix : suffix.Severable n (some p)) (hcomplete : operand.Complete (n + 1) suffix.starts)
    (hp : p ≠ .block) (hwhole : p.isWhole parent = false) (hin : suffix.starts ⊆ kinds)
    (hout : .endMarker ∉ kinds) :
    (Form.suffixed p operand (.sees 0 kinds) suffix).Severable n parent := by
  intro ts s read more m hd hleaves hne ht hm
  have hlone : ∀ {parent us}, operand.Severable n parent → operand.Derives n us →
      (∃ rest, Tree.leavesAll us = read ++ rest) → ∃ ws stop s',
        (Form.suffixed p operand (.sees 0 kinds) suffix).Runs (n + 1) s ws stop s' ∧
          Severed m (s.index + read.length) s.errors
            (Tree.cutSites parent s.index us (s.index + read.length)) stop s' := by
    intro parent us h hd hus
    obtain ⟨rest, hus⟩ := hus
    obtain ⟨ws, stop, s', hrun, hsevered⟩ := h hd hus hne ht hm
    cases stop with
    | some e => exact ⟨ws, some e, s', .suffixedStopped hrun, hsevered⟩
    | none => exact ⟨ws, none, s', .alone hrun (hsevered.sees_eq_false hm hout), hsevered⟩
  cases hd with
  | alone hd => exact hlone halone hd ⟨more, hleaves⟩
  | @suffixed _ _ _ _ _ us vs hd hd' =>
    simp only [Severed.node_iff hp (Site.not_cutsSubscript hwhole)]
    rw [Tree.leavesAll_node, Tree.leavesAll_append] at hleaves
    rcases cut_cases hleaves with ⟨rest, hus⟩ | ⟨read', rfl, hvs, hne'⟩
    · rw [Tree.cutSites_append_of_leaves hus]
      exact hlone hoperand hd ⟨rest, hus⟩
    · rw [List.append_assoc] at ht
      have hk := hd'.kindAhead_mem_starts_of_prefix hvs hne' [m]
      obtain ⟨s', hrun, ht', he, hi⟩ := hcomplete.exists_runs hd ht (by simp) hk
      have hl : (Look.sees 0 kinds).holds s'.tokens = true := by
        rw [ht']
        exact decide_eq_true (hin hk)
      obtain ⟨ws, stop, s'', hrun', hsevered⟩ := hsuffix hd' hvs hne' ht' hm
      exact ⟨_, stop, s'', .suffixed hrun hl hrun', hsevered.append hi he⟩

/-- The next token alone decides what the form does, also where the text ends. -/
def severable (known : List Form) (parent : Option Production) : Form → Bool
  | token kinds _ => .endMarker ∉ kinds
  | empty => true
  | seq first second =>
    seq first second ∈ known ||
      first.severable known parent && second.severable known parent &&
        first.predictive farsighted second.starts && second.calm
  | branch look yes no =>
    branch look yes no ∈ known ||
      match look with
      | .sees 0 kinds =>
        yes.starts ⊆ kinds && no.starts.all (· ∉ kinds) && yes.severable known parent &&
          no.severable known parent
      | _ => false
  | many look body =>
    match look with
    | .sees 0 kinds =>
      body.reads && body.starts ⊆ kinds && .endMarker ∉ kinds && body.severable known parent &&
        body.predictive farsighted body.starts
    | _ => false
  | node p body => p ≠ .block && !p.isWhole parent && body.severable known (some p)
  | suffixed p operand look suffix =>
    match look with
    | .sees 0 kinds =>
      p ≠ .block && !p.isWhole parent && suffix.starts ⊆ kinds && .endMarker ∉ kinds &&
        operand.severable known parent && operand.severable known (some p) &&
        suffix.severable known (some p) && operand.predictive farsighted suffix.starts
    | _ => false
  | nested c => c.standsBelow parent
  | items _ _ => false
  | abandon _ => true

theorem severable_of_severable {known : List Form}
    (hknown : ∀ f ∈ known, ∀ parent, f.Severable n parent)
    (hnested : ∀ (c : Nested) (parent), c.standsBelow parent = true → (nested c).Severable n parent)
    (form : Form) (h : form.severable known parent = true) : form.Severable n parent := by
  have hcomplete {form : Form} {follow : List Kind}
      (h : form.predictive farsighted follow = true) : form.Complete (n + 1) follow :=
    complete_of_predictive (farsighted_complete (nested_complete _)) (nested_complete _) form h
  induction form generalizing parent with
  | token kinds cause => exact token_severable (of_decide_eq_true h)
  | empty => exact empty_severable
  | seq first second ih ih' =>
    rcases Bool.or_eq_true_iff.1 h with h | h
    · exact hknown _ (of_decide_eq_true h) parent
    · simp only [Bool.and_eq_true] at h
      obtain ⟨⟨⟨h₁, h₂⟩, h₃⟩, h₄⟩ := h
      exact .seq (ih h₁) (ih' h₂) (hcomplete h₃) (calm_of_calm n second h₄)
  | branch look yes no ih ih' =>
    rcases Bool.or_eq_true_iff.1 h with h | h
    · exact hknown _ (of_decide_eq_true h) parent
    · split at h
      · simp only [Bool.and_eq_true, decide_eq_true_eq, List.all_eq_true] at h
        obtain ⟨⟨⟨hin, hout⟩, hyes⟩, hno⟩ := h
        exact .branch (ih hyes) (ih' hno)
          (fun _ _ _ m hd hleaves hne _ =>
            decide_eq_true (hin (hd.kindAhead_mem_starts_of_prefix hleaves hne [m])))
          (fun _ _ _ m hd hleaves hne _ => by
            simpa [Look.holds] using hout _ (hd.kindAhead_mem_starts_of_prefix hleaves hne [m]))
      · cases h
  | many look body ih =>
    unfold severable at h
    split at h
    · simp only [Bool.and_eq_true, decide_eq_true_eq] at h
      obtain ⟨⟨⟨⟨hr, hin⟩, hout⟩, hbody⟩, hc⟩ := h
      exact .many (ih hbody) (hcomplete hc) hr hin hout
    · cases h
  | node p body ih =>
    simp only [severable, Bool.and_eq_true, decide_eq_true_eq, Bool.not_eq_true'] at h
    exact (ih h.2).node h.1.1 h.1.2
  | suffixed p operand look suffix ih ih' =>
    unfold severable at h
    split at h
    · simp only [Bool.and_eq_true, decide_eq_true_eq, Bool.not_eq_true'] at h
      obtain ⟨⟨⟨⟨⟨⟨⟨hp, hwhole⟩, hin⟩, hout⟩, halone⟩, hoperand⟩, hsuffix⟩, hc⟩ := h
      exact .suffixed (ih halone) (ih hoperand) (ih' hsuffix) (hcomplete hc) hp hwhole hin hout
    · cases h
  | nested c => exact hnested c parent h
  | items => cases h
  | abandon =>
    intro ts s read more m hd
    cases hd

end Form
end CoreLang
