import CoreLang.Tree
import Mathlib.Data.List.Basic
import Mathlib.Logic.Function.Iterate

/-! Searching a tree. The trees that still have to be visited wait on a stack, and what a search finds
in the end follows at every moment from what it has found and what waits. So it finds what a recursive
walk comes to: the node at every place of the production, once, and in the order of the places. -/
namespace CoreLang.Tree

def preorder (t : Tree) : List Tree := (t.walk 0).map (·.2)

mutual

theorem map_snd_walk (depth : Nat) : ∀ t : Tree, (t.walk depth).map (·.2) = t.preorder
  | leaf _ _ => rfl
  | node p children => by
    rw [preorder, walk, walk, List.map_cons, List.map_cons, map_snd_walkAll _ children,
      map_snd_walkAll _ children]

theorem map_snd_walkAll (depth : Nat) : ∀ ts : List Tree,
    (walkAll depth ts).map (·.2) = ts.flatMap preorder
  | [] => rfl
  | t :: rest => by
    rw [walkAll, List.map_append, map_snd_walk depth t, map_snd_walkAll depth rest,
      List.flatMap_cons]

end

theorem preorder_eq (t : Tree) : t.preorder = t :: t.children.flatMap preorder := by
  cases t with
  | leaf => rfl
  | node p children =>
    rw [preorder, walk, List.map_cons, map_snd_walkAll]
    rfl

def ofProduction (p : Production) (ts : List Tree) : List Tree :=
  ts.filter (·.production? = some p)

/-- To walk through a tree and then others is to come to its root, and then to walk through its
children and the others. -/
theorem ofProduction_visit (p : Production) (t : Tree) (waiting : List Tree) :
    ofProduction p ((t :: waiting).flatMap preorder) =
      (if t.production? = some p then [t] else []) ++
        ofProduction p ((t.children ++ waiting).flatMap preorder) := by
  rw [List.flatMap_cons, preorder_eq, List.cons_append, ← List.flatMap_append, ofProduction,
    List.filter_cons]
  simp only [decide_eq_true_eq]
  split <;> rfl

theorem search_eq (p : Production) (waiting : List Tree) :
    search p waiting = ofProduction p (waiting.flatMap preorder) := by
  fun_induction search p waiting with
  | case1 => rfl
  | case2 t waiting found h ih => rw [ofProduction_visit, if_pos h, ← ih]; rfl
  | case3 t waiting found h ih => rw [ofProduction_visit, if_neg h, ← ih]; rfl

/-- A search under way: the trees on its stack, the next one last, and what it has found. -/
structure Search where
  stack : List Tree
  found : List Tree

namespace Search
variable (p : Production)

/-- One round takes the last tree off the stack, keeps it if it is of the production, and puts its
children on the stack, the first one last. -/
def step (s : Search) : Search :=
  match s.stack.getLast? with
  | none => s
  | some t =>
    ⟨s.stack.dropLast ++ t.children.reverse,
      if t.production? = some p then s.found ++ [t] else s.found⟩

/-- What the search will have found in the end. -/
def outlook (s : Search) : List Tree :=
  s.found ++ ofProduction p (s.stack.reverse.flatMap preorder)

theorem step_concat (rest found : List Tree) (t : Tree) : (mk (rest ++ [t]) found).step p =
    ⟨rest ++ t.children.reverse, if t.production? = some p then found ++ [t] else found⟩ := by
  simp [step]

/-- A round changes nothing in what will be found. -/
theorem outlook_step (s : Search) : (s.step p).outlook p = s.outlook p := by
  obtain ⟨stack, found⟩ := s
  rcases List.eq_nil_or_concat' stack with rfl | ⟨rest, t, rfl⟩
  · rfl
  · rw [step_concat, outlook, outlook, List.reverse_concat, ofProduction_visit,
      List.reverse_append, List.reverse_reverse]
    split <;> simp

theorem sizeAll_reverse (ts : List Tree) : sizeAll ts.reverse = sizeAll ts := by
  induction ts with
  | nil => rfl
  | cons t ts ih => simp [sizeAll_append, sizeAll, ih, Nat.add_comm]

/-- Every round visits one node or leaf of those that wait. -/
theorem sizeAll_stack_step (s : Search) : sizeAll (s.step p).stack = sizeAll s.stack - 1 := by
  obtain ⟨stack, found⟩ := s
  rcases List.eq_nil_or_concat' stack with rfl | ⟨rest, t, rfl⟩
  · rfl
  · have hsize : t.size = sizeAll t.children + 1 := by cases t <;> rfl
    simp only [step_concat, sizeAll_append, sizeAll, sizeAll_reverse, hsize]
    omega

theorem outlook_iterate (n : Nat) (s : Search) : ((step p)^[n] s).outlook p = s.outlook p := by
  induction n with
  | zero => rfl
  | succ n ih => rw [Function.iterate_succ_apply', outlook_step, ih]

theorem sizeAll_stack_iterate (n : Nat) (s : Search) :
    sizeAll ((step p)^[n] s).stack = sizeAll s.stack - n := by
  induction n with
  | zero => rfl
  | succ n ih => rw [Function.iterate_succ_apply', sizeAll_stack_step, ih, Nat.sub_sub]

end Search

theorem size_pos (t : Tree) : 0 < t.size := by cases t <;> simp [size]

theorem sizeAll_eq_zero_iff {ts : List Tree} : sizeAll ts = 0 ↔ ts = [] := by
  cases ts with
  | nil => simp [sizeAll]
  | cons t ts =>
    have hpos := t.size_pos
    simp only [sizeAll, reduceCtorEq, iff_false]
    omega

/-- The tree to which a place leads: from the root down, each number picks one of the children. -/
def at? (t : Tree) : List Nat → Option Tree
  | [] => some t
  | i :: place => t.children[i]?.bind (at? · place)

mutual

/-- The places of all nodes and leaves, each before those below it and left before right. -/
def places : Tree → List (List Nat)
  | leaf _ _ => [[]]
  | node _ children => [] :: placesFrom 0 children

def placesFrom (i : Nat) : List Tree → List (List Nat)
  | [] => []
  | t :: rest => t.places.map (i :: ·) ++ placesFrom (i + 1) rest

end

theorem places_eq (t : Tree) : t.places = [] :: placesFrom 0 t.children := by
  cases t <;> rfl

theorem mem_placesFrom {ts : List Tree} {i : Nat} {place : List Nat} : place ∈ placesFrom i ts ↔
    ∃ j t rest, ts[j]? = some t ∧ rest ∈ t.places ∧ place = (i + j) :: rest := by
  induction ts generalizing i with
  | nil => simp [placesFrom]
  | cons t ts ih =>
    rw [placesFrom, List.mem_append, List.mem_map, ih]
    constructor
    · rintro (⟨rest, hrest, rfl⟩ | ⟨j, u, rest, hu, hrest, rfl⟩)
      · exact ⟨0, t, rest, rfl, hrest, rfl⟩
      · exact ⟨j + 1, u, rest, hu, hrest, by rw [Nat.add_right_comm, Nat.add_assoc]⟩
    · rintro ⟨j, u, rest, hu, hrest, rfl⟩
      cases j with
      | zero =>
        obtain rfl : t = u := by simpa using hu
        exact .inl ⟨rest, hrest, rfl⟩
      | succ j => exact .inr ⟨j, u, rest, hu, hrest, by rw [Nat.add_right_comm, Nat.add_assoc]⟩

theorem mem_places {t : Tree} {place : List Nat} : place ∈ t.places ↔ (t.at? place).isSome := by
  induction place generalizing t with
  | nil => simp [places_eq, at?]
  | cons i place ih =>
    rw [places_eq, List.mem_cons, mem_placesFrom, at?]
    cases h : t.children[i]? with
    | none => simp [h]
    | some u => simp [h, ih]

mutual

/-- Places rise: a node comes before what is below it, and that before what is right of it. -/
theorem places_pairwise : ∀ t : Tree, t.places.Pairwise (· < ·)
  | leaf _ _ => List.pairwise_singleton _ _
  | node p children => by
    refine List.pairwise_cons.2 ⟨fun place h => ?_, placesFrom_pairwise 0 children⟩
    obtain ⟨j, u, rest, -, -, rfl⟩ := mem_placesFrom.1 h
    exact List.nil_lt_cons _ _

theorem placesFrom_pairwise (i : Nat) : ∀ ts : List Tree, (placesFrom i ts).Pairwise (· < ·)
  | [] => List.Pairwise.nil
  | t :: rest => by
    refine List.pairwise_append.2 ⟨?_, placesFrom_pairwise (i + 1) rest, fun a ha b hb => ?_⟩
    · refine List.pairwise_map.2 (t.places_pairwise.imp fun h => ?_)
      exact List.cons_lt_cons_iff.2 (.inr ⟨rfl, h⟩)
    · obtain ⟨a, -, rfl⟩ := List.mem_map.1 ha
      obtain ⟨j, u, b, -, -, rfl⟩ := mem_placesFrom.1 hb
      exact List.cons_lt_cons_iff.2 (.inl (by omega))

end

mutual

theorem map_at?_places : ∀ t : Tree, t.places.map t.at? = t.preorder.map some
  | leaf _ _ => rfl
  | node p children => by
    rw [places, preorder_eq, List.map_cons, List.map_cons,
      map_at?_placesFrom (node p children) 0 children rfl]
    rfl

theorem map_at?_placesFrom (t : Tree) (i : Nat) : ∀ ts : List Tree, t.children.drop i = ts →
    (placesFrom i ts).map t.at? = (ts.flatMap preorder).map some
  | [], _ => rfl
  | u :: ts, h => by
    obtain ⟨hu, hts⟩ : t.children[i]? = some u ∧ t.children.drop (i + 1) = ts := by
      rw [← List.tail_drop, h, ← List.head?_drop, h]
      exact ⟨rfl, rfl⟩
    have hbelow : (t.at? ∘ (i :: ·)) = u.at? := by
      funext place
      simp [at?, hu]
    rw [placesFrom, List.map_append, List.map_map, hbelow, u.map_at?_places,
      map_at?_placesFrom t (i + 1) ts hts, List.flatMap_cons, List.map_append]

end

theorem production?_eq_some_iff {t : Tree} {p : Production} :
    t.production? = some p ↔ ∃ children, t = node p children := by
  cases t with
  | leaf => simp [production?]
  | node q children => simp [production?]

theorem exists_places (t : Tree) (p : Production) : ∃ found : List (List Nat),
    found.Pairwise (· < ·) ∧
    (∀ place, place ∈ found ↔ ∃ children, t.at? place = some (node p children)) ∧
    found.map t.at? = (ofProduction p t.preorder).map some := by
  have hleads (place : List Nat) : (t.at? place).bind production? = some p ↔
      ∃ children, t.at? place = some (node p children) := by
    cases t.at? place with
    | none => simp
    | some u => simpa using production?_eq_some_iff
  refine ⟨t.places.filter fun place => (t.at? place).bind production? = some p,
    t.places_pairwise.filter _, fun place => ?_, ?_⟩
  · rw [List.mem_filter, decide_eq_true_iff, hleads, mem_places]
    exact and_iff_right_of_imp fun ⟨_, h⟩ => by rw [h]; rfl
  · have hfilter := congrArg (List.filter fun u? => u?.bind production? = some p) t.map_at?_places
    rwa [List.filter_map, List.filter_map] at hfilter

mutual

def gather (out : List Token) : Tree → List Token
  | leaf _ token => out ++ [token]
  | node _ children => gatherAll out children

def gatherAll (out : List Token) : List Tree → List Token
  | [] => out
  | t :: rest => gatherAll (t.gather out) rest

end

mutual

theorem gather_eq (out : List Token) : ∀ t : Tree, t.gather out = out ++ t.leaves
  | leaf _ _ => rfl
  | node _ children => gatherAll_eq out children

theorem gatherAll_eq (out : List Token) : ∀ ts : List Tree,
    gatherAll out ts = out ++ leavesAll ts
  | [] => (List.append_nil out).symm
  | t :: rest => by
    rw [gatherAll, leavesAll, gather_eq out t, gatherAll_eq _ rest, List.append_assoc]

end

/-- A search finds what a recursive walk comes to: exactly the nodes of the production, each at its
own place, and the places in rising order. The stack is empty after as many rounds as the tree has
nodes and leaves, and not before, and then the search has found them all. The leaves of a node are
those of its children, one child after another, and so are they gathered. -/
theorem findAll_eq (t : Tree) (p : Production) :
    t.findAll p = ofProduction p t.preorder ∧
    (∃ found : List (List Nat), found.Pairwise (· < ·) ∧
      (∀ place, place ∈ found ↔ ∃ children, t.at? place = some (node p children)) ∧
      found.map t.at? = (t.findAll p).map some) ∧
    (∀ n, ((Search.step p)^[n] ⟨[t], []⟩).stack = [] ↔ t.size ≤ n) ∧
    ((Search.step p)^[t.size] ⟨[t], []⟩).found = t.findAll p ∧
    (∀ u : Tree, u.gather [] = u.leaves) ∧
    ∀ q children, (node q children).leaves = (children.map leaves).flatten := by
  have hfound : t.findAll p = ofProduction p t.preorder := by
    rw [findAll, search_eq, List.flatMap_singleton]
  have hempty (n : Nat) : ((Search.step p)^[n] ⟨[t], []⟩).stack = [] ↔ t.size ≤ n := by
    rw [← sizeAll_eq_zero_iff, Search.sizeAll_stack_iterate, Nat.sub_eq_zero_iff_le]
    simp [sizeAll]
  refine ⟨hfound, hfound ▸ t.exists_places p, hempty, ?_, gather_eq [], fun q children => ?_⟩
  · have houtlook := Search.outlook_iterate p t.size ⟨[t], []⟩
    rw [Search.outlook, (hempty t.size).2 (Nat.le_refl _)] at houtlook
    simpa [Search.outlook, ofProduction, hfound] using houtlook
  · rw [leaves, leavesAll_eq_flatMap, List.flatMap_def]

end CoreLang.Tree
