import CoreLang.Grammar.Statement

/-! The trees of the grammar, said without a parser: no look decides and no item is damaged. -/
namespace CoreLang

/-- `form.Derives depth trees`: the form can leave these trees with at most `depth` levels of
nesting open at one time. -/
inductive Form.Derives : Form → Nat → List Tree → Prop where
  | token {kinds cause depth} {t : Token} (h : t.kind ∈ kinds) :
    Derives (.token kinds cause) depth [.leaf (leafLabel t.kind) t]
  | empty {depth} : Derives .empty depth []
  | seq {first second depth ts us} (h : Derives first depth ts) (h' : Derives second depth us) :
    Derives (.seq first second) depth (ts ++ us)
  | yes {look yes no depth ts} (h : Derives yes depth ts) : Derives (.branch look yes no) depth ts
  | no {look yes no depth ts} (h : Derives no depth ts) : Derives (.branch look yes no) depth ts
  | none {look body depth} : Derives (.many look body) depth []
  | more {look body depth ts us} (h : Derives body depth ts)
    (h' : Derives (.many look body) depth us) : Derives (.many look body) depth (ts ++ us)
  | node {production body depth ts} (h : Derives body depth ts) :
    Derives (.node production body) depth [.node production ts]
  | alone {production operand look suffix depth ts} (h : Derives operand depth ts) :
    Derives (.suffixed production operand look suffix) depth ts
  | suffixed {production operand look suffix depth ts us} (h : Derives operand depth ts)
    (h' : Derives suffix depth us) :
    Derives (.suffixed production operand look suffix) depth [.node production (ts ++ us)]
  | nested {construct depth ts} (h : Derives (Grammar.rule construct) depth ts) :
    Derives (.nested construct) (depth + 1) ts
  | noItem {stops item depth} : Derives (.items stops item) depth []
  | item {stops item depth ts us} (h : Derives item depth ts)
    (h' : Derives (.items stops item) depth us) : Derives (.items stops item) depth (ts ++ us)

namespace Form

theorem Derives.mono {form : Form} {depth depth' : Nat} {ts : List Tree}
    (h : form.Derives depth ts) (hle : depth ≤ depth') : form.Derives depth' ts := by
  induction h generalizing depth' with
  | token h => exact .token h
  | empty => exact .empty
  | seq _ _ ih ih' => exact .seq (ih hle) (ih' hle)
  | yes _ ih => exact .yes (ih hle)
  | no _ ih => exact .no (ih hle)
  | none => exact .none
  | more _ _ ih ih' => exact .more (ih hle) (ih' hle)
  | node _ ih => exact .node (ih hle)
  | alone _ ih => exact .alone (ih hle)
  | suffixed _ _ ih ih' => exact .suffixed (ih hle) (ih' hle)
  | nested _ ih =>
    obtain ⟨depth', rfl⟩ : ∃ d, depth' = d + 1 := ⟨depth' - 1, by omega⟩
    exact .nested (ih (by omega))
  | noItem => exact .noItem
  | item _ _ ih ih' => exact .item (ih hle) (ih' hle)

end Form

/-- A tree of a whole program, with at most `depth` levels of nesting open at one time. -/
def Tree.IsProgram (t : Tree) (depth : Nat) : Prop :=
  (Form.node .program (.items [] Grammar.declaration)).Derives depth [t]

end CoreLang
