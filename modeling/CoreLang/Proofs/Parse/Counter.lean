import CoreLang.Parse
import CoreLang.Proofs.Grammar.Progress
import CoreLang.Proofs.Grammar.Starts

/-! A parser that counts its open levels on one counter. It counts up before a nested construct and
down behind it, and stops only where the counter has reached the limit. Whatever goes wrong on the
way, the counter always shows how many constructs are open, so this parser does what the one does
that is told how many levels are free. -/
namespace CoreLang

/-- A point of a parse: the form that is run from a state of the parser, the constructs that are
open, with the innermost one first, and what the counter shows. -/
structure Moment where
  form : Form
  opened : List Nested
  depth : Nat
  state : ParserState

/-- What the counter shows, and the moments up to now. -/
structure Counter where
  depth : Nat
  moments : List Moment

/-- Computations with a counter. They fail only for want of stack. -/
abbrev Counting := StateT Counter Option

namespace Counting

def note (form : Form) (opened : List Nested) (s : ParserState) : Counting Unit :=
  modify fun c => { c with moments := c.moments ++ [⟨form, opened, c.depth, s⟩] }

def depth : Counting Nat := return (← get).depth

def deeper {α : Type} (x : Counting α) : Counting α := do
  modify fun c => { c with depth := c.depth + 1 }
  let a ← x
  modify fun c => { c with depth := c.depth - 1 }
  return a

end Counting

open Counting

/-- Goes on where the first part ended, unless it stopped at an error, and joins the trees. -/
def Outcome.countThen (o : Outcome) (next : ParserState → Counting Outcome) : Counting Outcome :=
  match o with
  | stopped e fatal s => return stopped e fatal s
  | done trees s => do
    let o ← next s
    return (done trees s).andThen fun _ => o

namespace ParserState

def countMany (head : ParserState → Counting Unit) (look : Look)
    (body : ParserState → Counting Outcome) : Nat → ParserState → Counting Outcome
  | 0, s => do
    head s
    return .done [] s
  | rounds + 1, s => do
    head s
    if look.holds s.tokens then
      let o ← body s
      o.countThen (countMany head look body rounds)
    else return .done [] s

def countItems (head : ParserState → Counting Unit) (stops : List Kind)
    (item : ParserState → Counting Outcome) : Nat → ParserState → Counting ItemsOutcome
  | 0, s => do
    head s
    return ⟨[], none, s⟩
  | rounds + 1, s => do
    head s
    if s.atEnd ∨ s.current.kind ∈ stops then return ⟨[], none, s⟩
    else match ← item s with
      | .done trees s =>
        let more ← countItems head stops item rounds s
        return { more with trees := trees ++ more.trees }
      | .stopped e false s => countItems head stops item rounds (s.record e).resume
      | .stopped e true s => return ⟨[], some e, s⟩

end ParserState

/-- Runs a form below the open constructs, given how the nested constructs run. Every form notes the
moment at which it begins, and a repetition that of each round. -/
def Form.count (call : Nested → ParserState → Counting Outcome) (opened : List Nested) :
    Form → ParserState → Counting Outcome
  | token kinds cause, s => do
    note (token kinds cause) opened s
    if s.current.kind ∈ kinds then
      return .done [.leaf (leafLabel s.current.kind) s.current] s.advance
    else return .stopped (s.error cause) false s
  | empty, s => do
    note empty opened s
    return .done [] s
  | seq first second, s => do
    note (seq first second) opened s
    let o ← first.count call opened s
    o.countThen (second.count call opened)
  | branch look yes no, s => do
    note (branch look yes no) opened s
    if look.holds s.tokens then yes.count call opened s else no.count call opened s
  | many look body, s =>
    s.countMany (note (many look body) opened) look (body.count call opened) s.rest.length
  | node production body, s => do
    note (node production body) opened s
    let o ← body.count call opened s
    return o.mapTrees fun trees => [.node production trees]
  | suffixed production operand look suffix, s => do
    note (suffixed production operand look suffix) opened s
    match ← operand.count call opened s with
    | .stopped e fatal s => return .stopped e fatal s
    | .done trees s =>
      if look.holds s.tokens then
        let o ← suffix.count call opened s
        return o.mapTrees fun more => [.node production (trees ++ more)]
      else return .done trees s
  | nested construct, s => do
    note (nested construct) opened s
    call construct s
  | items stops item, s => do
    let o ← s.countItems (note (items stops item) opened) stops (item.count call opened)
      s.rest.length
    return match o.fatal? with
      | none => .done o.trees o.state
      | some e => .stopped e true o.state
  | abandon cause, s => do
    note (abandon cause) opened s
    return .stopped (s.error cause) true s

/-- Runs a nested construct one level deeper, unless the counter has reached the limit. -/
def Nested.count : Nat → List Nested → Nested → ParserState → Counting Outcome
  | 0, _, _, _ => failure
  | stack + 1, opened, construct, s => do
    if Limits.nesting ≤ (← depth) then return .stopped (s.error .tooDeep) true s
    else deeper ((Grammar.rule construct).count (Nested.count stack (construct :: opened))
      (construct :: opened) s)

/-- Reads a program with a counter, as `ParserState.program` does without one. -/
def ParserState.count (stack : Nat) (s : ParserState) : Counting (Tree × ParserState) := do
  let o ← s.countItems (note Grammar.program []) []
    (Grammar.declaration.count (Nested.count stack []) []) s.rest.length
  let s :=
    match o.fatal? with
    | none => o.state
    | some e => o.state.giveUp e
  return (.node .program o.trees, s)

namespace Counting
variable {P : Moment → Prop} {d : Nat} {α β : Type}

/-- Something gives a value and leaves the counter as it was, after moments of one kind only. -/
def Keeps (P : Moment → Prop) (d : Nat) (x : Counting α) (a : α) : Prop :=
  ∀ log, ∃ moments, x.run ⟨d, log⟩ = some (a, ⟨d, log ++ moments⟩) ∧ ∀ m ∈ moments, P m

namespace Keeps

theorem pure (a : α) : Keeps P d (pure a) a := fun log => ⟨[], by simp, by simp⟩

theorem bind {x : Counting α} {f : α → Counting β} {a : α} {b : β} (h : Keeps P d x a)
    (hf : Keeps P d (f a) b) : Keeps P d (x >>= f) b := by
  intro log
  obtain ⟨moments, hx, hP⟩ := h log
  obtain ⟨more, ha, hP'⟩ := hf (log ++ moments)
  refine ⟨moments ++ more, ?_, List.forall_mem_append.2 ⟨hP, hP'⟩⟩
  rw [StateT.run_bind, hx, ← List.append_assoc]
  exact ha

theorem mono {Q : Moment → Prop} {x : Counting α} {a : α} (h : Keeps P d x a)
    (hQ : ∀ m, P m → Q m) : Keeps Q d x a := by
  intro log
  obtain ⟨moments, hx, hP⟩ := h log
  exact ⟨moments, hx, fun m hm => hQ m (hP m hm)⟩

theorem note {form : Form} {opened : List Nested} {s : ParserState}
    (h : P ⟨form, opened, d, s⟩) : Keeps P d (note form opened s) () :=
  fun log => ⟨[⟨form, opened, d, s⟩], rfl, by simpa using h⟩

theorem depth : Keeps P d depth d := fun log => ⟨[], by simp [Counting.depth], by simp⟩

theorem deeper {x : Counting α} {a : α} (h : Keeps P (d + 1) x a) : Keeps P d (deeper x) a := by
  intro log
  obtain ⟨moments, hx, hP⟩ := h log
  refine ⟨moments, ?_, hP⟩
  rw [Counting.deeper, StateT.run_bind]
  change (x.run ⟨d + 1, log⟩ >>= _) = _
  rw [hx]
  rfl

theorem countThen {o : Outcome} {next : ParserState → Counting Outcome}
    {run : ParserState → Outcome} (h : ∀ s, Keeps P d (next s) (run s)) :
    Keeps P d (o.countThen next) (o.andThen run) := by
  cases o with
  | stopped e fatal s => exact .pure _
  | done trees s => exact (h s).bind (.pure _)

end Keeps
end Counting

open Counting

namespace ParserState
variable {P : Moment → Prop} {d : Nat} {head : ParserState → Counting Unit}

theorem keeps_countMany {look : Look} {body : ParserState → Counting Outcome}
    {run : ParserState → Outcome} (hhead : ∀ s, Keeps P d (head s) ())
    (hbody : ∀ s, Keeps P d (body s) (run s)) (rounds : Nat) (s : ParserState) :
    Keeps P d (s.countMany head look body rounds) (s.runMany look run rounds) := by
  induction rounds generalizing s with
  | zero => exact (hhead s).bind (.pure _)
  | succ rounds ih =>
    refine (hhead s).bind ?_
    rw [runMany]
    split
    · exact (hbody s).bind (.countThen ih)
    · exact .pure _

theorem keeps_countItems (stops : List Kind) {item : ParserState → Counting Outcome}
    {run : ParserState → Outcome} (hhead : ∀ s, Keeps P d (head s) ())
    (hitem : ∀ s, Keeps P d (item s) (run s)) (rounds : Nat) (s : ParserState) :
    Keeps P d (s.countItems head stops item rounds) (s.runItems stops run rounds) := by
  induction rounds generalizing s with
  | zero => exact (hhead s).bind (.pure _)
  | succ rounds ih =>
    refine (hhead s).bind ?_
    rw [runItems]
    split
    · exact .pure _
    · refine (hitem s).bind ?_
      cases run s with
      | done trees s' => exact (ih s').bind (.pure _)
      | stopped e fatal s' =>
        cases fatal with
        | false => exact ih _
        | true => exact .pure _

end ParserState

namespace Form

/-- The kinds before which the lists of items in a form end. -/
def stops : Form → List (List Kind)
  | seq first second => first.stops ++ second.stops
  | branch _ yes no => yes.stops ++ no.stops
  | many _ body => body.stops
  | node _ body => body.stops
  | suffixed _ operand _ suffix => operand.stops ++ suffix.stops
  | items stops item => stops :: item.stops
  | _ => []

variable {P : Moment → Prop} {d : Nat} {opened : List Nested}

theorem keeps_note {form : Form} (hP : ∀ f, f.stops ⊆ form.stops → ∀ s, P ⟨f, opened, d, s⟩)
    (s : ParserState) : Keeps P d (note form opened s) () :=
  .note (hP form (List.Subset.refl _) s)

/-- A form keeps the counter, if the nested constructs do. It goes through moments of its parts, and
none of them has a list of items that the form does not have. -/
theorem keeps_count {call : Nested → ParserState → Counting Outcome}
    {run : Nested → ParserState → Outcome} (hcall : ∀ c s, Keeps P d (call c s) (run c s))
    (form : Form) (hP : ∀ f, f.stops ⊆ form.stops → ∀ s, P ⟨f, opened, d, s⟩) (s : ParserState) :
    Keeps P d (form.count call opened s) (form.run run s) := by
  induction form generalizing s with
  | token kinds cause =>
    refine (keeps_note hP s).bind ?_
    rw [Form.run]
    split <;> exact .pure _
  | empty | abandon => exact (keeps_note hP s).bind (.pure _)
  | seq first second ih ih' =>
    have hfirst := ih fun f hf => hP f (List.subset_append_of_subset_left _ hf)
    have hsecond := ih' fun f hf => hP f (List.subset_append_of_subset_right _ hf)
    exact (keeps_note hP s).bind ((hfirst s).bind (.countThen hsecond))
  | branch look yes no ih ih' =>
    refine (keeps_note hP s).bind ?_
    rw [Form.run]
    split
    · exact ih (fun f hf => hP f (List.subset_append_of_subset_left _ hf)) s
    · exact ih' (fun f hf => hP f (List.subset_append_of_subset_right _ hf)) s
  | many look body ih =>
    exact ParserState.keeps_countMany (keeps_note hP) (ih hP) _ s
  | node production body ih =>
    exact (keeps_note hP s).bind ((ih hP s).bind (.pure _))
  | suffixed production operand look suffix ih ih' =>
    have hoperand := ih fun f hf => hP f (List.subset_append_of_subset_left _ hf)
    have hsuffix := ih' fun f hf => hP f (List.subset_append_of_subset_right _ hf)
    refine (keeps_note hP s).bind ((hoperand s).bind ?_)
    rw [Form.run]
    cases operand.run run s with
    | stopped e fatal s' => exact .pure _
    | done trees s' =>
      dsimp only
      split
      · exact (hsuffix s').bind (.pure _)
      · exact .pure _
  | nested c => exact (keeps_note hP s).bind (hcall c s)
  | items stops item ih =>
    have hitem := ih fun f hf => hP f (List.subset_cons_of_subset _ hf)
    have hitems := ParserState.keeps_countItems stops (keeps_note hP) hitem s.rest.length s
    exact hitems.bind (.pure _)

end Form

namespace Moment
variable {stops : List (List Kind)} {opened : List Nested} {d : Nat} {m : Moment}

/-- The constructs that were opened since the counter showed `d` are counted on top of that, up to
the limit. The form has no other lists of items than the innermost one of them, or than those whose
ends are given. -/
def Within (stops : List (List Kind)) (opened : List Nested) (d : Nat) (m : Moment) : Prop :=
  ∃ inner, m.opened = inner ++ opened ∧ m.depth = d + inner.length ∧ m.depth ≤ Limits.nesting ∧
    m.form.stops ⊆ inner.head?.elim stops fun c => (Grammar.rule c).stops

theorem within_self (hd : d ≤ Limits.nesting) {form : Form} (h : form.stops ⊆ stops)
    (s : ParserState) : Within stops opened d ⟨form, opened, d, s⟩ :=
  ⟨[], rfl, rfl, hd, h⟩

theorem Within.outer {c : Nested}
    (h : m.Within (Grammar.rule c).stops (c :: opened) (d + 1)) : m.Within stops opened d := by
  obtain ⟨inner, hopened, hdepth, hlimit, hstops⟩ := h
  refine ⟨inner ++ [c], by simpa using hopened, ?_, hlimit, ?_⟩
  · rw [hdepth, List.length_append, List.length_singleton]
    omega
  · cases inner <;> exact hstops

end Moment

theorem Nested.keeps_count {stops : List (List Kind)} {stack d : Nat} (hd : d ≤ Limits.nesting)
    (hstack : Limits.nesting - d < stack) (opened : List Nested) (c : Nested) (s : ParserState) :
    Keeps (Moment.Within stops opened d) d (c.count stack opened s)
      (c.run (Limits.nesting - d) s) := by
  induction stack generalizing stops d opened c s with
  | zero => exact absurd hstack (Nat.not_lt_zero _)
  | succ stack ih =>
    refine Keeps.depth.bind ?_
    rcases Nat.lt_or_eq_of_le hd with hlt | rfl
    · -- One level is free at least, and the rule is run with one less.
      have hlevels : Limits.nesting - d = Limits.nesting - (d + 1) + 1 := by omega
      rw [if_neg (Nat.not_le.2 hlt), hlevels, Nested.run]
      have hrule := Form.keeps_count (ih hlt (by omega) (c :: opened)) (Grammar.rule c)
        (fun f hf => Moment.within_self hlt hf) s
      exact .deeper (hrule.mono fun m => Moment.Within.outer)
    · rw [if_pos (Nat.le_refl _), Nat.sub_self]
      exact .pure _

theorem Grammar.rule_stops (c : Nested) :
    (rule c).stops = if c = .block then [[.rightBrace]] else [] := by
  cases c <;> decide

theorem Grammar.eq_of_mem_stops {c : Nested} {stops : List Kind} (h : stops ∈ (rule c).stops) :
    c = .block ∧ stops = [.rightBrace] := by
  rw [rule_stops] at h
  split at h
  · next hblock => exact ⟨hblock, List.mem_singleton.1 h⟩
  · cases h

theorem ParserState.keeps_count {stack : Nat} (hstack : Limits.nesting < stack)
    (s : ParserState) : Keeps (Moment.Within [[]] [] 0) 0 (s.count stack) s.program := by
  have hP : ∀ f, f.stops ⊆ Grammar.program.stops → ∀ s, Moment.Within [[]] [] 0 ⟨f, [], 0, s⟩ :=
    fun f hf => Moment.within_self (Nat.zero_le _) hf
  have hitem := Form.keeps_count (Nested.keeps_count (Nat.zero_le _) (by omega) [])
    Grammar.declaration fun f hf => hP f (List.subset_cons_of_subset _ hf)
  exact (ParserState.keeps_countItems [] (Form.keeps_note hP) hitem s.rest.length s).bind (.pure _)

/-- The counter survives every way out of a parse. Any form that is run in any state, with any number
`d` on the counter that the limit allows, ends as it does in the parser that is told how many levels
are free, and the counter shows `d` again: after trees, after an error behind which parsing resumes
and after one that ends the parse. On the way it shows `d` and the number of levels opened since, and
that is never more than the limit. So in a whole program it shows how many levels are open, which
are none where a declaration begins, and it shows that at each item of a block. -/
theorem Counting.keeps_depth :
    (∀ (form : Form) (opened : List Nested) (s : ParserState) (d stack : Nat), d ≤ Limits.nesting →
      Limits.nesting - d < stack →
      Keeps (fun m => m.depth ≤ Limits.nesting ∧
          ∃ inner, m.opened = inner ++ opened ∧ m.depth = d + inner.length) d
        (form.count (Nested.count stack opened) opened s)
        (form.run (Nested.run (Limits.nesting - d)) s)) ∧
    ∀ (s : ParserState) (stack : Nat), Limits.nesting < stack →
      Keeps (fun m => m.depth ≤ Limits.nesting ∧ m.depth = m.opened.length ∧
          (m.form = Grammar.program → m.depth = 0) ∧
          (m.form = .items [.rightBrace] Grammar.blockItem → m.opened.head? = some .block)) 0
        (s.count stack) s.program := by
  constructor
  · intro form opened s d stack hd hstack
    refine (Form.keeps_count (P := Moment.Within form.stops opened d)
      (Nested.keeps_count hd hstack opened) form
      (fun f hf => Moment.within_self hd hf) s).mono fun m h => ?_
    obtain ⟨inner, hopened, hdepth, hlimit, -⟩ := h
    exact ⟨hlimit, inner, hopened, hdepth⟩
  · intro s stack hstack
    refine (s.keeps_count hstack).mono fun m h => ?_
    obtain ⟨inner, hopened, hdepth, hlimit, hstops⟩ := h
    rw [List.append_nil] at hopened
    rw [Nat.zero_add] at hdepth
    refine ⟨hlimit, by rw [hdepth, hopened], fun hprogram => ?_, fun hitems => ?_⟩
    · rw [hprogram] at hstops
      cases inner with
      | nil => exact hdepth
      | cons c inner =>
        obtain ⟨-, hnil⟩ := Grammar.eq_of_mem_stops (hstops List.mem_cons_self)
        cases hnil
    · rw [hitems] at hstops
      cases inner with
      | nil => cases List.mem_singleton.1 (hstops List.mem_cons_self)
      | cons c inner =>
        obtain ⟨hblock, -⟩ := Grammar.eq_of_mem_stops (hstops List.mem_cons_self)
        rw [hopened, hblock, List.head?_cons]

/-- Three errors, one of them within two blocks, are left behind, and the counter shows what it should
before each item. A construct that is one level too deep, or that is not there at all, leaves the
counter as it was. -/
theorem Counting.keeps_depth_damaged :
    let s := ParserState.ofTokens ([Kind.intKeyword, .identifier, .leftParenthesis,
      .rightParenthesis, .leftBrace, .rightParenthesis, .semicolon, .leftBrace, .identifier,
      .assign, .leftParenthesis, .semicolon, .semicolon, .rightBrace, .rightBrace,
      .rightParenthesis, .intKeyword, .identifier, .semicolon].map Kind.token)
    (∃ moments, ((Form.nested .block).count (Nested.count 1 []) [] s).run ⟨128, []⟩ =
        some (.stopped (s.error .tooDeep) true s, ⟨128, moments⟩)) ∧
      (∃ moments, ((Form.nested .block).count (Nested.count 2 []) [] s).run ⟨127, []⟩ =
        some (.stopped (s.error (.expected .leftBrace)) false s, ⟨127, moments⟩)) ∧
      ∃ moments, (s.count 129).run ⟨0, []⟩ = some (s.program, ⟨0, moments⟩) ∧
        (∀ m ∈ moments, m.depth = m.opened.length) ∧
        (moments.filter (·.form = Grammar.program)).map
            (fun m => (m.depth, m.state.errors.length)) = [(0, 0), (0, 2), (0, 3), (0, 3)] ∧
        (moments.filter (·.form = .items [.rightBrace] Grammar.blockItem)).map
            (fun m => (m.depth, m.state.errors.length)) =
          [(1, 0), (1, 1), (1, 1), (2, 1), (2, 2), (2, 2), (1, 2)] := by
  intro s
  obtain ⟨hforms, hprograms⟩ := keeps_depth
  refine ⟨?_, ?_, ?_⟩
  · obtain ⟨moments, h, -⟩ := hforms (.nested .block) [] s 128 1 (by decide) (by decide) []
    exact ⟨moments, h⟩
  · obtain ⟨moments, h, -⟩ := hforms (.nested .block) [] s 127 2 (by decide) (by decide) []
    exact ⟨moments, h⟩
  · obtain ⟨moments, h, hall⟩ := hprograms s 129 (by decide) []
    have hheads : ((s.count 129).run ⟨0, []⟩).map (fun x =>
        ((x.2.moments.filter (·.form = Grammar.program)).map
            (fun m => (m.depth, m.state.errors.length)),
          (x.2.moments.filter (·.form = .items [.rightBrace] Grammar.blockItem)).map
            (fun m => (m.depth, m.state.errors.length)))) =
        some ([(0, 0), (0, 2), (0, 3), (0, 3)],
          [(1, 0), (1, 1), (1, 1), (2, 1), (2, 2), (2, 2), (1, 2)]) := by
      decide +kernel
    rw [List.nil_append] at h
    rw [h, Option.map_some, Option.some.injEq, Prod.mk.injEq] at hheads
    exact ⟨moments, h, fun m hm => (hall m hm).2.1, hheads⟩

end CoreLang
