import CoreLang.Proofs.Parse.Soundness
import CoreLang.Report.Outline
import Mathlib.Data.List.Chain
import Mathlib.Logic.Relation

/-! How tall trees grow. Between two levels of nesting a tree goes down by a fixed number of nodes,
and the rules reach themselves again only through a level of nesting. So a fixed number of calls is
enough to walk through any tree that a parse leaves, however long its text is. -/
namespace CoreLang

namespace Tree

mutual

/-- The number of nodes on the longest way from the root down to a leaf. -/
def height : Tree → Nat
  | leaf _ _ => 1
  | node _ children => heightAll children + 1

def heightAll : List Tree → Nat
  | [] => 0
  | t :: rest => max t.height (heightAll rest)

end

theorem height_pos (t : Tree) : 0 < t.height := by
  cases t <;> simp [height]

theorem heightAll_append (ts us : List Tree) :
    heightAll (ts ++ us) = max (heightAll ts) (heightAll us) := by
  induction ts with
  | nil => simp [heightAll]
  | cons t ts ih => simp only [List.cons_append, heightAll, ih, Nat.max_assoc]

theorem height_le_heightAll {t : Tree} {ts : List Tree} (h : t ∈ ts) :
    t.height ≤ heightAll ts := by
  induction ts with
  | nil => cases h
  | cons u ts ih =>
    rw [heightAll]
    rcases List.mem_cons.1 h with rfl | h
    · exact Nat.le_max_left _ _
    · exact Nat.le_trans (ih h) (Nat.le_max_right _ _)

theorem height_lt_of_mem_children {t u : Tree} (h : u ∈ t.children) : u.height < t.height := by
  cases t with
  | leaf => cases h
  | node p children => exact Nat.lt_succ_of_le (height_le_heightAll h)

/-- A way down from one node to another goes from each node to one of its children. -/
def Way (path : List Tree) : Prop := path.IsChain fun t u => u ∈ t.children

theorem Way.length_le {t : Tree} {path : List Tree} (h : Way (t :: path)) :
    (t :: path).length ≤ t.height := by
  induction path generalizing t with
  | nil => exact t.height_pos
  | cons u path ih =>
    obtain ⟨hu, hrest⟩ := List.isChain_cons_cons.1 h
    exact Nat.lt_of_le_of_lt (ih hrest) (height_lt_of_mem_children hu)

section
variable {α : Type} (onLeaf : String → Token → α) (onNode : Production → List α → α)

mutual

/-- A value of the tree that is put together from those of its children. -/
def fold : Tree → α
  | leaf label t => onLeaf label t
  | node p children => onNode p (foldAll children)

def foldAll : List Tree → List α
  | [] => []
  | t :: rest => fold t :: foldAll rest

end

mutual

def foldWithin : Nat → Tree → Option α
  | 0, _ => none
  | _ + 1, leaf label t => some (onLeaf label t)
  | calls + 1, node p children => (foldAllWithin calls children).map (onNode p)

def foldAllWithin (calls : Nat) : List Tree → Option (List α)
  | [] => some []
  | t :: rest => do return (← foldWithin calls t) :: (← foldAllWithin calls rest)

end

mutual

theorem foldWithin_eq_some {calls : Nat} : ∀ t : Tree, t.height ≤ calls →
    t.foldWithin onLeaf onNode calls = some (t.fold onLeaf onNode)
  | leaf label t, h => by
    obtain ⟨calls, rfl⟩ := Nat.exists_eq_succ_of_ne_zero (Nat.ne_zero_of_lt h)
    rfl
  | node p children, h => by
    obtain ⟨calls, rfl⟩ := Nat.exists_eq_succ_of_ne_zero (Nat.ne_zero_of_lt h)
    have hall := foldAllWithin_eq_some children (Nat.le_of_succ_le_succ h)
    rw [foldWithin, hall, fold, Option.map_some]

theorem foldAllWithin_eq_some {calls : Nat} : ∀ ts : List Tree, heightAll ts ≤ calls →
    foldAllWithin onLeaf onNode calls ts = some (foldAll onLeaf onNode ts)
  | [], _ => rfl
  | t :: rest, h => by
    obtain ⟨hfirst, hrest⟩ := Nat.max_le.1 h
    rw [foldAllWithin, foldWithin_eq_some t hfirst, foldAllWithin_eq_some rest hrest]
    rfl

end

end

mutual

theorem leaves_eq_fold : ∀ t : Tree, t.leaves = t.fold (fun _ t => [t]) fun _ => List.flatten
  | leaf _ _ => rfl
  | node _ children => leavesAll_eq_fold children

theorem leavesAll_eq_fold : ∀ ts : List Tree,
    leavesAll ts = (foldAll (fun _ t => [t]) (fun _ => List.flatten) ts).flatten
  | [] => rfl
  | t :: rest => by
    rw [leavesAll, foldAll, List.flatten_cons, leaves_eq_fold t, leavesAll_eq_fold rest]

end

/-- The text of a node, put together from the texts of its children. -/
def nodeText (p : Production) (texts : List (Nat → String)) (depth : Nat) : String :=
  match texts with
  | [] => indent depth ++ p.name ++ "()"
  | first :: rest =>
    indent depth ++ p.name ++ "(\n" ++ first (depth + 1) ++ further rest ++ "\n" ++
      indent depth ++ ")"
where
  further : List (Nat → String) → String
    | [] => ""
    | text :: rest => ",\n" ++ text (depth + 1) ++ further rest

mutual

theorem outlineAt_eq_fold (depth : Nat) : ∀ t : Tree,
    t.outlineAt depth =
      t.fold (fun label t depth => indent depth ++ leafText label t) nodeText depth
  | leaf _ _ => rfl
  | node _ [] => rfl
  | node p (first :: rest) => by
    rw [outlineAt, fold, foldAll, nodeText, outlineAt_eq_fold (depth + 1) first,
      outlineAll_eq_fold depth rest]

theorem outlineAll_eq_fold (depth : Nat) : ∀ ts : List Tree,
    outlineAll (depth + 1) ts = nodeText.further depth
      (foldAll (fun label t depth => indent depth ++ leafText label t) nodeText ts)
  | [] => rfl
  | t :: rest => by
    rw [outlineAll, foldAll, nodeText.further, outlineAt_eq_fold (depth + 1) t,
      outlineAll_eq_fold depth rest]

end

end Tree

namespace Form

/-- The most height of the trees that the form leaves, if nested constructs leave trees of the
height `below` at most. -/
def heightOver (below : Nat) : Form → Nat
  | token _ _ => 1
  | empty => 0
  | seq first second => max (first.heightOver below) (second.heightOver below)
  | branch _ yes no => max (yes.heightOver below) (no.heightOver below)
  | many _ body => body.heightOver below
  | node _ body => body.heightOver below + 1
  | suffixed _ operand _ suffix => max (operand.heightOver below) (suffix.heightOver below) + 1
  | nested _ => below
  | items _ item => item.heightOver below
  | abandon _ => 0

theorem heightOver_le_add (form : Form) (below : Nat) :
    form.heightOver below ≤ form.heightOver 0 + below := by
  induction form with
  | token | empty | nested | abandon => simp [heightOver]
  | seq _ _ ih ih' | branch _ _ _ ih ih' | suffixed _ _ _ _ ih ih' =>
    simp only [heightOver]
    omega
  | many _ _ ih | items _ _ ih => exact ih
  | node _ _ ih =>
    simp only [heightOver]
    omega

/-- A rule adds ten nodes at most to the trees of the nested constructs in it. -/
theorem rule_heightOver_le (c : Nested) (below : Nat) :
    (Grammar.rule c).heightOver below ≤ 10 + below := by
  have hown : (Grammar.rule c).heightOver 0 ≤ 10 := by cases c <;> decide
  have hadd := heightOver_le_add (Grammar.rule c) below
  omega

theorem Derives.heightAll_le {form : Form} {depth : Nat} {ts : List Tree}
    (h : form.Derives depth ts) : Tree.heightAll ts ≤ form.heightOver (10 * depth) := by
  induction h with
  | token | empty | none | noItem => simp [Tree.heightAll, Tree.height, heightOver]
  | seq _ _ ih ih' =>
    rw [Tree.heightAll_append]
    simp only [heightOver]
    omega
  | yes _ ih => exact Nat.le_trans ih (Nat.le_max_left _ _)
  | no _ ih => exact Nat.le_trans ih (Nat.le_max_right _ _)
  | more _ _ ih ih' | item _ _ ih ih' =>
    rw [Tree.heightAll_append]
    exact Nat.max_le.2 ⟨ih, ih'⟩
  | node _ ih =>
    simp only [Tree.heightAll, Tree.height, heightOver]
    omega
  | alone _ ih =>
    simp only [heightOver]
    omega
  | suffixed _ _ ih ih' =>
    simp only [Tree.heightAll, Tree.height, Tree.heightAll_append, heightOver]
    omega
  | @nested c depth ts _ ih =>
    have hrule := rule_heightOver_le c (10 * depth)
    simp only [heightOver]
    omega

/-- The forms that a form runs without opening a level. -/
def parts : Form → List Form
  | seq first second => [first, second]
  | branch _ yes no => [yes, no]
  | many _ body => [body]
  | node _ body => [body]
  | suffixed _ operand _ suffix => [operand, suffix]
  | items _ item => [item]
  | _ => []

/-- With so many levels free a form runs its parts, and with one level less a nested construct runs
its rule. -/
inductive Calls : Nat × Form → Nat × Form → Prop where
  | part {n form part} (h : part ∈ form.parts) : Calls (n, form) (n, part)
  | nested {n c} : Calls (n + 1, .nested c) (n, Grammar.rule c)

theorem sizeOf_lt_of_mem_parts {form part : Form} (h : part ∈ form.parts) :
    sizeOf part < sizeOf form := by
  cases form with
  | seq | branch | suffixed =>
    simp only [parts, List.mem_cons, List.not_mem_nil, or_false] at h
    rcases h with rfl | rfl <;> simp +arith
  | many | node | items =>
    obtain rfl := List.mem_singleton.1 h
    simp +arith
  | token | empty | nested | abandon => cases h

/-- Without opening a level a form runs smaller forms only. -/
theorem lt_or_sizeOf_lt_of_calls {a b : Nat × Form} (h : Relation.TransGen Calls a b) :
    b.1 < a.1 ∨ (b.1 = a.1 ∧ sizeOf b.2 < sizeOf a.2) := by
  -- The levels come first: a rule is larger than the construct it stands for.
  have hstep : ∀ {a b : Nat × Form}, Calls a b →
      b.1 < a.1 ∨ (b.1 = a.1 ∧ sizeOf b.2 < sizeOf a.2) := by
    intro a b h
    cases h with
    | part h => exact .inr ⟨rfl, sizeOf_lt_of_mem_parts h⟩
    | nested => exact .inl (Nat.lt_succ_self _)
  induction h with
  | single h => exact hstep h
  | tail _ h ih =>
    have := hstep h
    omega

end Form

namespace Parse

theorem root_height_le (tokens : List Token) :
    (ofTokens tokens).root.height ≤ 4 + 10 * Limits.nesting := by
  have hprogram := Tree.wellShaped_iff.1 (root_wellShaped tokens).1
  have hroot := hprogram.heightAll_le
  rw [Tree.heightAll, Tree.heightAll, Nat.max_zero] at hroot
  have hbound : (Form.node .program Grammar.program).heightOver (10 * Limits.nesting) =
      4 + 10 * Limits.nesting := by decide
  exact Nat.le_trans hroot (Nat.le_of_eq hbound)

/-- No way down the tree of a parse is longer than a number that the limit of nesting fixes. So many
calls that are open at one time are enough to collect the leaves of the tree or to write it out, and
a form that comes to itself again has opened a level of nesting on the way. -/
theorem root_bounded (tokens : List Token) :
    (∀ path, Tree.Way ((ofTokens tokens).root :: path) →
      ((ofTokens tokens).root :: path).length ≤ 4 + 10 * Limits.nesting) ∧
    4 + 10 * Limits.nesting = 1284 ∧
    (ofTokens tokens).root.foldWithin (fun _ t => [t]) (fun _ => List.flatten) 1284 =
      some (ofTokens tokens).root.leaves ∧
    (ofTokens tokens).root.foldWithin
      (fun label t depth => Tree.indent depth ++ Tree.leafText label t) Tree.nodeText 1284 =
        some (fun depth => (ofTokens tokens).root.outlineAt depth) ∧
    ∀ form n m, Relation.TransGen Form.Calls (n, form) (m, form) → m < n := by
  have hheight := root_height_le tokens
  refine ⟨fun path hway => Nat.le_trans hway.length_le hheight, rfl, ?_, ?_, fun form n m h => ?_⟩
  · rw [Tree.leaves_eq_fold]
    exact Tree.foldWithin_eq_some _ _ _ hheight
  · rw [funext fun depth => Tree.outlineAt_eq_fold depth (ofTokens tokens).root]
    exact Tree.foldWithin_eq_some _ _ _ hheight
  · rcases Form.lt_or_sizeOf_lt_of_calls h with hlt | ⟨-, hlt⟩
    · exact hlt
    · exact absurd hlt (Nat.lt_irrefl _)

end Parse
end CoreLang
