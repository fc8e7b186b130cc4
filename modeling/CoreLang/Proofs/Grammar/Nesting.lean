import CoreLang.Proofs.Grammar.Shape
import CoreLang.Proofs.Grammar.Starts

/-! The levels of nesting that a tree opens, read off the tree alone. Which nodes open a level depends
on the parent and the place among its children; the rules of the parser are checked against that, and
so the depth of a tree is the greatest number of levels that are open at one time. -/
namespace CoreLang

/-- The operators whose runs stand in one node. -/
def Production.leftAssociative : List Production :=
  [.logicalOr, .logicalAnd, .equality, .relational, .additive, .multiplicative]

/-- Whether a node opens a level of nesting. Every block below another node does, and every `if`
that comes directly after `else`. An expression does unless it is an operand of an operator that
associates to the left, or the first operand of a power. -/
def Production.opens (p : Production) (parent : Option Production) (first : Bool) : Bool :=
  match parent with
  | none => false
  | some parent =>
    p = .block || (p = .ifStatement && parent = .elseClause) ||
      (p ∈ Shape.expressions && parent ∉ leftAssociative && !(parent = .exponent && first))

/-- A subtree that opens a level of nesting. -/
structure Opening where
  /-- The number of levels that are open inside it. -/
  level : Nat
  /-- The number of tokens before it. -/
  index : Nat
  tree : Tree

namespace Tree

mutual

/-- The subtrees that open a level, each before those inside it and left before right. So many
levels are open around the tree, and so many tokens come before it. -/
def openingsIn (parent : Option Production) (first : Bool) (level index : Nat) :
    Tree → List Opening
  | leaf _ _ => []
  | node p children =>
    if p.opens parent first then
      ⟨level + 1, index, node p children⟩ :: openingsAll (some p) true (level + 1) index children
    else openingsAll (some p) true level index children

def openingsAll (parent : Option Production) (first : Bool) (level index : Nat) :
    List Tree → List Opening
  | [] => []
  | t :: rest =>
    t.openingsIn parent first level index ++
      openingsAll parent false level (index + t.leaves.length) rest

end

def openings (t : Tree) : List Opening := t.openingsIn none true 0 0

/-- The greatest number of levels that are open at one time. -/
def nesting (t : Tree) : Nat := (t.openings.map (·.level)).foldr max 0

section
variable {parent : Option Production} {first : Bool} {level index : Nat}

theorem openingsAll_singleton (t : Tree) :
    openingsAll parent first level index [t] = t.openingsIn parent first level index := by
  simp [openingsAll]

theorem openingsAll_append (ts us : List Tree) :
    openingsAll parent first level index (ts ++ us) =
      openingsAll parent first level index ts ++
        openingsAll parent (first && ts.isEmpty) level (index + (leavesAll ts).length) us := by
  induction ts generalizing first index with
  | nil => simp [openingsAll]
  | cons t ts ih => simp [openingsAll, ih, leavesAll, Nat.add_assoc]

end

theorem nesting_le_iff {t : Tree} {d : Nat} :
    t.nesting ≤ d ↔ ∀ o ∈ t.openings, o.level ≤ d := by
  unfold nesting
  induction t.openings with
  | nil => simp
  | cons o rest ih =>
    rw [List.map_cons, List.foldr_cons, Nat.max_le, ih, List.forall_mem_cons]

end Tree

namespace Form

/-- The trees of the form open levels below the parent exactly where nested constructs stand. -/
def placed (parent : Option Production) (first : Bool) : Form → Bool
  | token _ _ => true
  | empty => true
  | seq a b =>
    a.placed parent first && b.placed parent false && (a.reads || b.placed parent first)
  | branch _ yes no => yes.placed parent first && no.placed parent first
  | many _ body => body.placed parent first && body.placed parent false
  | node p body => !p.opens parent first && body.placed (some p) true
  | suffixed p operand _ suffix =>
    operand.placed parent first && !p.opens parent first && operand.reads &&
      operand.placed (some p) true && suffix.placed (some p) false
  | nested c => (Grammar.rule c).heads.any fun ps => ps.all (·.opens parent first)
  | items _ item => item.placed parent first && item.placed parent false
  | abandon _ => true

theorem rule_placed (c : Nested) : (Grammar.rule c).placed none true = true := by
  cases c <;> decide +kernel

theorem program_placed : (items [] Grammar.declaration).placed (some .program) true = true := by
  decide +kernel

section
variable {parent : Option Production} {first : Bool} {depth level index : Nat} {ts us : List Tree}

theorem ne_nil_of_reads {form : Form} (h : form.Derives depth ts) (hr : form.reads = true) :
    ts ≠ [] := by
  rintro rfl
  rcases h.leaves_eq_nil_or with ⟨-, hr'⟩ | ⟨t, rest, hcons, -⟩
  · rw [hr] at hr'
    cases hr'
  · cases hcons

/-- A tree that stands after others of the form is not a first child. -/
theorem placed_rest {form : Form} (h : form.placed parent false = true)
    (h' : ts = [] → form.placed parent first = true) :
    form.placed parent (first && ts.isEmpty) = true := by
  cases ts with
  | nil => simpa using h' rfl
  | cons => simpa using h

theorem placed_seq {a b : Form} (h : a.Derives depth ts)
    (hp : (seq a b).placed parent first = true) :
    a.placed parent first = true ∧ b.placed parent (first && ts.isEmpty) = true := by
  simp only [placed, Bool.and_eq_true, Bool.or_eq_true] at hp
  obtain ⟨⟨hfirst, hsecond⟩, hreads⟩ := hp
  refine ⟨hfirst, placed_rest hsecond fun hnil => ?_⟩
  exact hreads.resolve_left fun hr => ne_nil_of_reads h hr hnil

/-- What may stand first and later may go on behind any trees. -/
theorem placed_again {body : Form} (ts : List Tree)
    (hp : (body.placed parent first && body.placed parent false) = true) :
    body.placed parent first = true ∧
      (body.placed parent (first && ts.isEmpty) && body.placed parent false) = true := by
  obtain ⟨hfirst, hlater⟩ := Bool.and_eq_true_iff.1 hp
  exact ⟨hfirst, Bool.and_eq_true_iff.2 ⟨placed_rest hlater fun _ => hfirst, hlater⟩⟩

theorem placed_suffixed {p : Production} {operand suffix : Form} {look : Look}
    (h : operand.Derives depth ts)
    (hp : (suffixed p operand look suffix).placed parent first = true) :
    p.opens parent first = false ∧ operand.placed (some p) true = true ∧
      suffix.placed (some p) (true && ts.isEmpty) = true := by
  simp only [placed, Bool.and_eq_true, Bool.not_eq_true'] at hp
  obtain ⟨⟨⟨⟨-, hopens⟩, hr⟩, hoperand⟩, hsuffix⟩ := hp
  refine ⟨hopens, hoperand, placed_rest hsuffix fun hnil => ?_⟩
  exact absurd hnil (ne_nil_of_reads h hr)

theorem exists_node_of_heads {form : Form} {ps : List Production} (h : form.Derives depth ts)
    (hf : form.fits = true) (hh : form.heads = some ps) :
    ∃ p us, p ∈ ps ∧ ts = [.node p us] := by
  have hm := matches_of_derives h hf
  rw [shape_of_heads hh] at hm
  cases hm with
  | node hp => exact ⟨_, _, hp, rfl⟩

/-- What a nested construct leaves is one node, which opens a level where the construct stands. -/
theorem openingsAll_nested (level index : Nat) {c : Nested} (h : (Grammar.rule c).Derives depth ts)
    (hc : (nested c).placed parent first = true) : ∃ t, ts = [t] ∧
      Tree.openingsAll parent first level index ts =
        ⟨level + 1, index, t⟩ :: Tree.openingsAll none true (level + 1) index ts := by
  obtain ⟨ps, hheads, hall⟩ := (Option.any_eq_true _ _).1 hc
  obtain ⟨p, us, hp, rfl⟩ := exists_node_of_heads h (rule_fits c).1 hheads
  have hopens : p.opens parent first = true := List.all_eq_true.1 hall p hp
  refine ⟨_, rfl, ?_⟩
  simp only [Tree.openingsAll_singleton, Tree.openingsIn, if_pos hopens]
  rfl

theorem openingsAll_node {p : Production} (h : p.opens parent first = false) :
    Tree.openingsAll parent first level index [.node p ts] =
      Tree.openingsAll (some p) true level index ts := by
  rw [Tree.openingsAll_singleton, Tree.openingsIn, h, if_neg Bool.false_ne_true]

theorem Derives.level_le {form : Form} (h : form.Derives depth ts)
    (hp : form.placed parent first = true) :
    ∀ o ∈ Tree.openingsAll parent first level index ts, o.level ≤ level + depth := by
  induction h generalizing parent first level index with
  | token | empty | none | noItem => simp [Tree.openingsAll, Tree.openingsIn]
  | seq h _ ih ih' =>
    obtain ⟨hfirst, hsecond⟩ := placed_seq h hp
    rw [Tree.openingsAll_append, List.forall_mem_append]
    exact ⟨ih hfirst, ih' hsecond⟩
  | yes _ ih => exact ih (Bool.and_eq_true_iff.1 hp).1
  | no _ ih => exact ih (Bool.and_eq_true_iff.1 hp).2
  | more _ _ ih ih' | item _ _ ih ih' =>
    obtain ⟨hone, hrest⟩ := placed_again _ hp
    rw [Tree.openingsAll_append, List.forall_mem_append]
    exact ⟨ih hone, ih' hrest⟩
  | node _ ih =>
    simp only [placed, Bool.and_eq_true, Bool.not_eq_true'] at hp
    rw [openingsAll_node hp.1]
    exact ih hp.2
  | alone _ ih =>
    simp only [placed, Bool.and_eq_true] at hp
    exact ih hp.1.1.1.1
  | suffixed h _ ih ih' =>
    obtain ⟨hopens, hoperand, hsuffix⟩ := placed_suffixed h hp
    rw [openingsAll_node hopens, Tree.openingsAll_append, List.forall_mem_append]
    exact ⟨ih hoperand, ih' hsuffix⟩
  | nested h ih =>
    obtain ⟨t, rfl, hopenings⟩ := openingsAll_nested level index h hp
    rw [hopenings, List.forall_mem_cons]
    refine ⟨by simp, fun o ho => ?_⟩
    have := ih (rule_placed _) o ho
    omega

end

end Form

/-- No tree of the language opens more levels than it is said to. -/
theorem Tree.WellShaped.nesting_le {t : Tree} {depth : Nat} (h : t.WellShaped depth) :
    t.nesting ≤ depth := by
  cases wellShaped_iff.1 h with
  | @node _ _ _ ts hd =>
    have hle : ∀ o ∈ (node .program ts).openings, o.level ≤ 0 + depth :=
      hd.level_le Form.program_placed
    rwa [Nat.zero_add, ← nesting_le_iff] at hle

end CoreLang
