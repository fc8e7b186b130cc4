import CoreLang.Token
import CoreLang.Tree.Production

/-! Concrete trees: inner nodes carry productions and leaves carry tokens. -/
namespace CoreLang

/-- A leaf has a label of its own, which may differ from the name of its token's kind. -/
inductive Tree where
  | leaf (label : String) (token : Token)
  | node (production : Production) (children : List Tree)

namespace Tree

/-- A leaf labelled with the name of its token's kind. -/
def terminal (t : Token) : Tree := leaf t.kind.name t

def label : Tree → String
  | leaf label _ => label
  | node production _ => production.name

def production? : Tree → Option Production
  | leaf _ _ => none
  | node production _ => some production

def token? : Tree → Option Token
  | leaf _ token => some token
  | node _ _ => none

def children : Tree → List Tree
  | leaf _ _ => []
  | node _ children => children

def isLeaf (t : Tree) : Bool := t.token?.isSome

def child? (t : Tree) (p : Production) : Option Tree :=
  t.children.find? (·.production? = some p)

mutual

/-- The tokens at the leaves, from left to right. -/
def leaves : Tree → List Token
  | leaf _ token => [token]
  | node _ children => leavesAll children

def leavesAll : List Tree → List Token
  | [] => []
  | t :: rest => t.leaves ++ leavesAll rest

end

theorem leavesAll_eq_flatMap (ts : List Tree) : leavesAll ts = ts.flatMap leaves := by
  induction ts with
  | nil => rfl
  | cons t rest ih => simp [leavesAll, ih]

mutual

/-- The number of nodes and leaves. -/
def size : Tree → Nat
  | leaf _ _ => 1
  | node _ children => sizeAll children + 1

def sizeAll : List Tree → Nat
  | [] => 0
  | t :: rest => t.size + sizeAll rest

end

theorem sizeAll_append (a b : List Tree) : sizeAll (a ++ b) = sizeAll a + sizeAll b := by
  induction a with
  | nil => simp [sizeAll]
  | cons t rest ih =>
    simp only [List.cons_append, sizeAll, ih]
    omega

theorem sizeAll_children_lt (t : Tree) : sizeAll t.children < t.size := by
  cases t <;> simp [children, size, sizeAll]

/-- The nodes of a production among trees that wait to be visited. The children of a visited node
wait before all others. -/
def search (p : Production) : List Tree → List Tree
  | [] => []
  | t :: waiting =>
    let found := search p (t.children ++ waiting)
    if t.production? = some p then t :: found else found
termination_by waiting => sizeAll waiting
decreasing_by
  have := sizeAll_children_lt t
  simp only [sizeAll, sizeAll_append]
  omega

/-- All nodes of a production, each before those below it and left before right. -/
def findAll (t : Tree) (p : Production) : List Tree := search p [t]

mutual

/-- Every node and leaf with its depth, each before those below it. -/
def walk (depth : Nat) : Tree → List (Nat × Tree)
  | leaf label token => [(depth, leaf label token)]
  | node production children => (depth, node production children) :: walkAll (depth + 1) children

def walkAll (depth : Nat) : List Tree → List (Nat × Tree)
  | [] => []
  | t :: rest => walk depth t ++ walkAll depth rest

end

mutual

def decEq : (s t : Tree) → Decidable (s = t)
  | leaf a s, leaf b t =>
    if h : a = b ∧ s = t then isTrue (by rw [h.1, h.2]) else isFalse (by simpa using h)
  | leaf _ _, node _ _ => isFalse nofun
  | node _ _, leaf _ _ => isFalse nofun
  | node p ss, node q ts =>
    match decEqAll ss ts with
    | isTrue hchildren =>
      if h : p = q then isTrue (by rw [h, hchildren]) else isFalse (by simp [h])
    | isFalse hchildren => isFalse (by simp [hchildren])

def decEqAll : (ss ts : List Tree) → Decidable (ss = ts)
  | [], [] => isTrue rfl
  | [], _ :: _ => isFalse nofun
  | _ :: _, [] => isFalse nofun
  | s :: ss, t :: ts =>
    match decEq s t with
    | isTrue h =>
      match decEqAll ss ts with
      | isTrue hrest => isTrue (by rw [h, hrest])
      | isFalse hrest => isFalse (by simp [hrest])
    | isFalse h => isFalse (by simp [h])

end

instance : DecidableEq Tree := decEq

end Tree
end CoreLang
