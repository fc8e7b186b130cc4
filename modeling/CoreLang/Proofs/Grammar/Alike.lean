import CoreLang.Grammar.Derivation
import CoreLang.Report.Outline
import CoreLang.Proofs.Grammar.Shape
import Mathlib.Data.List.Forall2

/-! Trees of one shape. The grammar asks for the kinds of tokens and the outline for their kinds and
lexemes, so both stay as they are where only other parts of the tokens change. -/
namespace CoreLang

/-- Trees with the same productions and labels in the same places, and with tokens at their leaves
that are related one by one. -/
inductive Tree.Alike (R : Token → Token → Prop) : List Tree → List Tree → Prop
  | nil : Alike R [] []
  | leaf {label : String} {t u : Token} {ts us : List Tree} :
      R t u → Alike R ts us → Alike R (.leaf label t :: ts) (.leaf label u :: us)
  | node {p : Production} {ts us ts' us' : List Tree} :
      Alike R ts us → Alike R ts' us' → Alike R (.node p ts :: ts') (.node p us :: us')

namespace Tree.Alike
variable {R : Token → Token → Prop} {ts us : List Tree}

theorem exists_append {ts' vs : List Tree} (h : Alike R (ts ++ ts') vs) :
    ∃ us us', vs = us ++ us' ∧ Alike R ts us ∧ Alike R ts' us' := by
  induction ts generalizing vs with
  | nil => exact ⟨[], vs, rfl, .nil, h⟩
  | cons t ts ih =>
    cases h with
    | leaf htoken h =>
      obtain ⟨us, us', rfl, hts, hts'⟩ := ih h
      exact ⟨_ :: us, us', rfl, .leaf htoken hts, hts'⟩
    | node hchildren h =>
      obtain ⟨us, us', rfl, hts, hts'⟩ := ih h
      exact ⟨_ :: us, us', rfl, .node hchildren hts, hts'⟩

/-- The leaves of trees can be exchanged for any others that are related to them. -/
theorem exists_of_leaves {ts : List Tree} {tokens : List Token}
    (h : List.Forall₂ R (leavesAll ts) tokens) :
    ∃ us, Alike R ts us ∧ leavesAll us = tokens := by
  match ts with
  | [] =>
    cases h
    exact ⟨[], .nil, rfl⟩
  | .leaf label t :: ts =>
    obtain ⟨u, rest, htoken, hrest, rfl⟩ := List.forall₂_cons_left_iff.1 h
    have hrest : List.Forall₂ R (leavesAll ts) rest := hrest
    obtain ⟨us, halike, rfl⟩ := exists_of_leaves hrest
    exact ⟨.leaf label u :: us, .leaf htoken halike, rfl⟩
  | .node p ts :: ts' =>
    have hchildren := List.forall₂_take (leavesAll ts).length h
    have hrest := List.forall₂_drop (leavesAll ts).length h
    rw [leavesAll, Tree.leaves, List.take_left] at hchildren
    rw [leavesAll, Tree.leaves, List.drop_left] at hrest
    obtain ⟨us, halike, hleaves⟩ := exists_of_leaves hchildren
    obtain ⟨us', halike', hleaves'⟩ := exists_of_leaves hrest
    refine ⟨.node p us :: us', .node halike halike', ?_⟩
    rw [leavesAll, Tree.leaves, hleaves, hleaves', List.take_append_drop]
termination_by sizeAll ts
decreasing_by all_goals simp only [sizeAll, size]; omega

theorem exists_tree_of_leaves {t : Tree} {tokens : List Token}
    (h : List.Forall₂ R t.leaves tokens) : ∃ u, Alike R [t] [u] ∧ u.leaves = tokens := by
  have hall : List.Forall₂ R (leavesAll [t]) tokens := by simpa [leavesAll] using h
  obtain ⟨us, halike, hleaves⟩ := exists_of_leaves hall
  cases halike with
  | leaf htoken hrest =>
    cases hrest
    exact ⟨_, .leaf htoken .nil, by simpa [leavesAll] using hleaves⟩
  | node hchildren hrest =>
    cases hrest
    exact ⟨_, .node hchildren .nil, by simpa [leavesAll] using hleaves⟩

/-- The grammar sees no more of the tokens than their kinds. -/
theorem derives (hkind : ∀ t u, R t u → t.kind = u.kind) {form : Form} {depth : Nat}
    (h : form.Derives depth ts) (halike : Alike R ts us) : form.Derives depth us := by
  induction h generalizing us with
  | token hk =>
    cases halike with
    | leaf htoken hrest =>
      cases hrest
      have hsame := hkind _ _ htoken
      rw [hsame] at hk ⊢
      exact .token hk
  | empty => cases halike; exact .empty
  | seq _ _ ih ih' =>
    obtain ⟨us, us', rfl, hts, hts'⟩ := halike.exists_append
    exact .seq (ih hts) (ih' hts')
  | yes _ ih => exact .yes (ih halike)
  | no _ ih => exact .no (ih halike)
  | none => cases halike; exact .none
  | more _ _ ih ih' =>
    obtain ⟨us, us', rfl, hts, hts'⟩ := halike.exists_append
    exact .more (ih hts) (ih' hts')
  | node _ ih =>
    cases halike with
    | node hchildren hrest =>
      cases hrest
      exact .node (ih hchildren)
  | alone _ ih => exact .alone (ih halike)
  | suffixed _ _ ih ih' =>
    cases halike with
    | node hchildren hrest =>
      cases hrest
      obtain ⟨us, us', rfl, hts, hts'⟩ := hchildren.exists_append
      exact .suffixed (ih hts) (ih' hts')
  | nested _ ih => exact .nested (ih halike)
  | noItem => cases halike; exact .noItem
  | item _ _ ih ih' =>
    obtain ⟨us, us', rfl, hts, hts'⟩ := halike.exists_append
    exact .item (ih hts) (ih' hts')

theorem wellShaped (hkind : ∀ t u, R t u → t.kind = u.kind) {t u : Tree} {depth : Nat}
    (halike : Alike R [t] [u]) (h : t.WellShaped depth) : u.WellShaped depth :=
  wellShaped_iff.2 (derives hkind (wellShaped_iff.1 h) halike)

end Tree.Alike

namespace Tree
variable {R : Token → Token → Prop} {depth : Nat} {ts us : List Tree}

theorem outlineAll_congr (h : ts.map (outlineAt depth) = us.map (outlineAt depth)) :
    outlineAll depth ts = outlineAll depth us := by
  induction ts generalizing us with
  | nil =>
    obtain rfl := List.map_eq_nil_iff.1 h.symm
    rfl
  | cons t ts ih =>
    obtain ⟨u, us, rfl, hu, hus⟩ := List.map_eq_cons_iff.1 h.symm
    rw [outlineAll, outlineAll, hu, ih hus.symm]

theorem outlineAt_node_congr (p : Production)
    (h : ts.map (outlineAt (depth + 1)) = us.map (outlineAt (depth + 1))) :
    (node p ts).outlineAt depth = (node p us).outlineAt depth := by
  cases ts with
  | nil =>
    obtain rfl := List.map_eq_nil_iff.1 h.symm
    rfl
  | cons t ts =>
    obtain ⟨u, us, rfl, hu, hus⟩ := List.map_eq_cons_iff.1 h.symm
    rw [outlineAt, outlineAt, hu, outlineAll_congr hus]

theorem Alike.outlineAt (h : Alike R ts us) (hcontent : ∀ t u, R t u → t.content = u.content)
    (depth : Nat) : ts.map (Tree.outlineAt depth) = us.map (Tree.outlineAt depth) := by
  induction h generalizing depth with
  | nil => rfl
  | @leaf label t u _ _ htoken _ ih =>
    obtain ⟨hkind, hlexeme⟩ := Prod.ext_iff.1 (hcontent t u htoken)
    have hleaf : leafText label t = leafText label u := by
      unfold leafText
      rw [show t.kind = u.kind from hkind, show t.lexeme = u.lexeme from hlexeme]
    rw [List.map_cons, List.map_cons, ih, Tree.outlineAt, Tree.outlineAt, hleaf]
  | @node p _ _ _ _ _ _ ih ih' =>
    rw [List.map_cons, List.map_cons, ih', outlineAt_node_congr p (ih (depth + 1))]

end Tree
end CoreLang
