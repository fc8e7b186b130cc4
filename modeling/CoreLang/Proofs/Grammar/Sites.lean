import CoreLang.Proofs.Grammar.Nesting

/-! Where the nodes of a tree stand among its tokens, and which of them a place between two tokens
cuts in two. -/
namespace CoreLang

def Production.operations : List Production := .exponent :: .unary :: leftAssociative

/-- A node of the production below the parent is a whole expression and no operand. -/
def Production.isWhole (p : Production) (parent : Option Production) : Bool :=
  p ∈ Shape.expressions && parent.any (· ∉ operations)

/-- A node of a tree, below its parent and with so many tokens before it. -/
structure Site where
  parent : Option Production
  index : Nat
  tree : Tree
deriving DecidableEq

namespace Tree

mutual

/-- The nodes of a tree, each before those inside it and left before right. -/
def sitesIn (parent : Option Production) (index : Nat) : Tree → List Site
  | leaf _ _ => []
  | node p children => ⟨parent, index, node p children⟩ :: sitesAll (some p) index children

def sitesAll (parent : Option Production) (index : Nat) : List Tree → List Site
  | [] => []
  | t :: rest => t.sitesIn parent index ++ sitesAll parent (index + t.leaves.length) rest

end

/-- The nodes of a whole tree. -/
def sites (t : Tree) : List Site := t.sitesIn none 0

end Tree

namespace Site

/-- The first `i` tokens of the text end inside the node. -/
def Cut (i : Nat) (x : Site) : Prop := x.index < i ∧ i < x.index + x.tree.leaves.length

instance (i : Nat) (x : Site) : Decidable (x.Cut i) := inferInstanceAs (Decidable (_ ∧ _))

def isBlock (x : Site) : Bool := x.tree.production? = some .block

def isExpression (x : Site) : Bool := x.tree.production?.any (·.isWhole x.parent)

/-- The expression begins with a name and a subscript, and the first `i` tokens end inside the
brackets. -/
def CutsSubscript (i : Nat) (x : Site) : Prop :=
  x.isExpression = true ∧ x.Cut i ∧ [Kind.identifier, .leftBracket] <+: x.tree.leaves.map (·.kind) ∧
    x.index + 2 ≤ i ∧ i ≤ x.index + 3

/-- What a block holds up to there are whole items. -/
def SoundUpTo (i : Nat) (x : Site) : Prop :=
  ∃ depth ts, (Form.items [.rightBrace] Grammar.blockItem).Derives depth ts ∧
    Tree.leavesAll ts = (x.tree.leaves.take (i - x.index)).drop 1

theorem not_cutsSubscript {parent : Option Production} {index i : Nat} {p : Production}
    {children : List Tree} (h : p.isWhole parent = false) :
    ¬(mk parent index (.node p children)).CutsSubscript i := by
  rintro ⟨hexpression, -⟩
  simp [isExpression, Tree.production?, h] at hexpression

end Site

namespace Tree

def cutSites (parent : Option Production) (index : Nat) (ts : List Tree) (i : Nat) : List Site :=
  (sitesAll parent index ts).filter (·.Cut i)

/-- The blocks that are open behind the first `i` tokens, the innermost one last. -/
def openBlocks (t : Tree) (i : Nat) : List Site :=
  t.sites.filter fun x => x.Cut i ∧ x.isBlock = true

section
variable {parent : Option Production} {index i : Nat} {ts us : List Tree}

theorem sitesAll_singleton (t : Tree) : sitesAll parent index [t] = t.sitesIn parent index := by
  simp [sitesAll]

theorem sitesAll_append (ts us : List Tree) : sitesAll parent index (ts ++ us) =
    sitesAll parent index ts ++ sitesAll parent (index + (leavesAll ts).length) us := by
  induction ts generalizing index with
  | nil => simp [sitesAll]
  | cons t ts ih => simp [sitesAll, ih, leavesAll, Nat.add_assoc]

end

mutual

/-- The subtrees that open a level are nodes of the tree, in the same order. -/
theorem openingsIn_sublist {parent : Option Production} {first : Bool} {level index : Nat} :
    ∀ t : Tree, ((t.openingsIn parent first level index).map fun o => (o.index, o.tree)).Sublist
      ((t.sitesIn parent index).map fun x => (x.index, x.tree))
  | leaf _ _ => .slnil
  | node p children => by
    unfold openingsIn sitesIn
    split
    · exact (openingsAll_sublist children).cons_cons _
    · exact (openingsAll_sublist children).cons _

theorem openingsAll_sublist {parent : Option Production} {first : Bool} {level index : Nat} :
    ∀ ts : List Tree,
      ((openingsAll parent first level index ts).map fun o => (o.index, o.tree)).Sublist
        ((sitesAll parent index ts).map fun x => (x.index, x.tree))
  | [] => .slnil
  | t :: rest => by
    rw [openingsAll, sitesAll, List.map_append, List.map_append]
    exact (openingsIn_sublist t).append (openingsAll_sublist rest)

end

theorem exists_site_of_mem_openings {t : Tree} {o : Opening} (h : o ∈ t.openings) :
    ∃ x ∈ t.sites, x.index = o.index ∧ x.tree = o.tree := by
  have hmem := (openingsIn_sublist t).subset
    (List.mem_map_of_mem (f := fun o : Opening => (o.index, o.tree)) h)
  simpa [sites] using hmem

mutual

/-- A node stands among the leaves where its index says. -/
theorem exists_leaves_of_mem_sitesIn {parent : Option Production} {index : Nat} {x : Site} :
    ∀ t : Tree, x ∈ t.sitesIn parent index →
      ∃ before after, t.leaves = before ++ x.tree.leaves ++ after ∧ x.index = index + before.length
  | leaf _ _, h => by simp [sitesIn] at h
  | node p children, h => by
    rcases List.mem_cons.1 h with rfl | h
    · exact ⟨[], [], by simp, rfl⟩
    · exact exists_leaves_of_mem_sitesAll children h

theorem exists_leaves_of_mem_sitesAll {parent : Option Production} {index : Nat} {x : Site} :
    ∀ ts : List Tree, x ∈ sitesAll parent index ts →
      ∃ before after, leavesAll ts = before ++ x.tree.leaves ++ after ∧
        x.index = index + before.length
  | [], h => by simp [sitesAll] at h
  | t :: rest, h => by
    rw [sitesAll, List.mem_append] at h
    rcases h with h | h
    · obtain ⟨before, after, hleaves, hindex⟩ := exists_leaves_of_mem_sitesIn t h
      exact ⟨before, after ++ leavesAll rest, by simp [leavesAll, hleaves], hindex⟩
    · obtain ⟨before, after, hleaves, hindex⟩ := exists_leaves_of_mem_sitesAll rest h
      refine ⟨t.leaves ++ before, after, by simp [leavesAll, hleaves], ?_⟩
      rw [hindex, List.length_append, Nat.add_assoc]

end

section
variable {parent : Option Production} {index i : Nat} {ts us : List Tree}

theorem cutSites_append (ts us : List Tree) : cutSites parent index (ts ++ us) i =
    cutSites parent index ts i ++ cutSites parent (index + (leavesAll ts).length) us i := by
  rw [cutSites, sitesAll_append, List.filter_append]
  rfl

theorem cutSites_eq_nil_of_le (h : i ≤ index) : cutSites parent index ts i = [] := by
  refine List.filter_eq_nil_iff.2 fun x hx hcut => ?_
  obtain ⟨before, after, -, hindex⟩ := exists_leaves_of_mem_sitesAll ts hx
  have hcut : x.Cut i := of_decide_eq_true hcut
  have := hcut.1
  omega

theorem cutSites_eq_nil_of_ge (h : index + (leavesAll ts).length ≤ i) :
    cutSites parent index ts i = [] := by
  refine List.filter_eq_nil_iff.2 fun x hx hcut => ?_
  obtain ⟨before, after, hleaves, hindex⟩ := exists_leaves_of_mem_sitesAll ts hx
  have hcut : x.Cut i := of_decide_eq_true hcut
  have := hcut.2
  have hlength := congrArg List.length hleaves
  simp only [List.length_append] at hlength
  omega

theorem cutSites_append_left (h : i ≤ index + (leavesAll ts).length) :
    cutSites parent index (ts ++ us) i = cutSites parent index ts i := by
  rw [cutSites_append, cutSites_eq_nil_of_le h, List.append_nil]

theorem cutSites_append_of_leaves {read rest : List Token} (h : leavesAll ts = read ++ rest) :
    cutSites parent index (ts ++ us) (index + read.length) =
      cutSites parent index ts (index + read.length) := by
  refine cutSites_append_left ?_
  rw [h, List.length_append]
  omega

theorem cutSites_append_right (h : index + (leavesAll ts).length ≤ i) :
    cutSites parent index (ts ++ us) i =
      cutSites parent (index + (leavesAll ts).length) us i := by
  rw [cutSites_append, cutSites_eq_nil_of_ge h, List.nil_append]

/-- A node is cut before its children. -/
theorem cutSites_node (p : Production) (children : List Tree) :
    cutSites parent index [node p children] i =
      (if (Site.mk parent index (node p children)).Cut i then [⟨parent, index, node p children⟩]
        else []) ++ cutSites (some p) index children i := by
  rw [cutSites, sitesAll_singleton, sitesIn, List.filter_cons]
  simp only [decide_eq_true_eq]
  split <;> rfl

theorem cutSites_leaf (label : String) (t : Token) : cutSites parent index [leaf label t] i = [] :=
  rfl

theorem mem_cutSites {t : Tree} {x : Site} :
    x ∈ cutSites none 0 [t] i ↔ x ∈ t.sites ∧ x.Cut i := by
  rw [cutSites, sitesAll_singleton, List.mem_filter, decide_eq_true_iff]
  rfl

theorem openBlocks_eq (t : Tree) :
    t.openBlocks i = (cutSites none 0 [t] i).filter (·.isBlock) := by
  rw [openBlocks, cutSites, sitesAll_singleton, List.filter_filter]
  simp [sites, Bool.and_comm]

end

end Tree

namespace Site
variable {x y : Site} {t : Tree} {i : Nat}

theorem CutsSubscript.kinds (h : x.CutsSubscript i) (hx : x ∈ t.sites) :
    (t.leaves[x.index]?).map (·.kind) = some .identifier ∧
      (t.leaves[x.index + 1]?).map (·.kind) = some .leftBracket := by
  obtain ⟨before, after, hleaves, hindex⟩ := Tree.exists_leaves_of_mem_sitesIn t hx
  obtain ⟨-, -, ⟨rest, hrest⟩, -⟩ := h
  obtain ⟨u, us, hu, hk, hus⟩ := List.map_eq_cons_iff.1 hrest.symm
  obtain ⟨v, vs, rfl, hk', -⟩ := List.map_eq_cons_iff.1 hus
  rw [hleaves, hu, hindex, Nat.zero_add]
  simp [hk, hk']

theorem getElem?_index {u : Token} (hx : x ∈ t.sites) (h : x.tree.leaves.head? = some u) :
    t.leaves[x.index]? = some u := by
  obtain ⟨before, after, hleaves, hindex⟩ := Tree.exists_leaves_of_mem_sitesIn t hx
  obtain ⟨rest, hrest⟩ := List.head?_eq_some_iff.1 h
  rw [hleaves, hrest, hindex]
  simp

/-- No more than one subscript is cut. -/
theorem CutsSubscript.index_eq (h : x.CutsSubscript i) (h' : y.CutsSubscript i)
    (hx : x ∈ t.sites) (hy : y ∈ t.sites) : x.index = y.index := by
  obtain ⟨hname, hbracket⟩ := h.kinds hx
  obtain ⟨hname', hbracket'⟩ := h'.kinds hy
  obtain ⟨-, -, -, hge, hle⟩ := h
  obtain ⟨-, -, -, hge', hle'⟩ := h'
  rcases Nat.lt_trichotomy x.index y.index with hlt | heq | hlt
  · rw [show y.index = x.index + 1 by omega, hbracket] at hname'
    cases hname'
  · exact heq
  · rw [show x.index = y.index + 1 by omega, hbracket'] at hname
    cases hname

end Site

end CoreLang
