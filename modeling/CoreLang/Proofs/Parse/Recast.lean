import CoreLang.Proofs.Grammar.Alike
import CoreLang.Proofs.Parse.Independence
import CoreLang.Proofs.Parse.Order
import CoreLang.Proofs.Parse.Soundness
import Mathlib.Data.List.Forall2

/-! Other tokens in the place of those that a parser reads. As long as the kinds stay, it goes through
the same states with the other tokens in them. So every parse is that of bare kinds, numbered from
zero, with each token put in its place. -/
namespace CoreLang

/-- Other tokens of the same kinds. -/
structure Recast where
  token : Token → Token
  kind_token (t : Token) : (token t).kind = t.kind

namespace Recast
variable (r : Recast)

attribute [simp] kind_token

theorem kindAhead_map (n : Nat) (tokens : List Token) :
    kindAhead n (tokens.map r.token) = kindAhead n tokens := by
  induction tokens generalizing n with
  | nil => cases n <;> rfl
  | cons t tokens ih => cases n <;> simp [kindAhead, ih]

theorem afterBracket?_map (tokens : List Token) : afterBracket? (tokens.map r.token) =
    (afterBracket? tokens).map (List.map r.token) := by
  induction tokens with
  | nil => rfl
  | cons t tokens ih =>
    rw [List.map_cons, afterBracket?, afterBracket?, r.kind_token, ih]
    split
    · rfl
    · split <;> rfl

theorem holds_map (look : Look) (tokens : List Token) :
    look.holds (tokens.map r.token) = look.holds tokens := by
  induction look with
  | sees ahead kinds => rw [Look.holds, Look.holds, kindAhead_map]
  | both a b iha ihb => rw [Look.holds, Look.holds, iha, ihb]
  | not a ih => rw [Look.holds, Look.holds, ih]
  | assignment =>
    simp only [Look.holds, kindAhead_map, ← List.map_drop, afterBracket?_map, Option.any_map]
  | unclosedSubscript =>
    simp only [Look.holds, kindAhead_map, ← List.map_drop, afterBracket?_map, Option.isNone_map]

end Recast

namespace Tree

mutual

def recast (r : Recast) : Tree → Tree
  | leaf label t => leaf label (r.token t)
  | node p children => node p (recastAll r children)

def recastAll (r : Recast) : List Tree → List Tree
  | [] => []
  | t :: rest => t.recast r :: recastAll r rest

end

theorem recastAll_append (r : Recast) (ts us : List Tree) :
    recastAll r (ts ++ us) = recastAll r ts ++ recastAll r us := by
  induction ts with
  | nil => rfl
  | cons t ts ih => rw [List.cons_append, recastAll, ih, recastAll, List.cons_append]

mutual

theorem leaves_recast (r : Recast) : ∀ t : Tree, (t.recast r).leaves = t.leaves.map r.token
  | leaf _ _ => rfl
  | node _ children => leavesAll_recastAll r children

theorem leavesAll_recastAll (r : Recast) : ∀ ts : List Tree,
    leavesAll (recastAll r ts) = (leavesAll ts).map r.token
  | [] => rfl
  | t :: rest => by
    rw [recastAll, leavesAll, leavesAll, List.map_append, leaves_recast r t,
      leavesAll_recastAll r rest]

end

theorem alike_recastAll {R : Token → Token → Prop} {r r' : Recast} (ts : List Tree)
    (h : ∀ t ∈ leavesAll ts, R (r.token t) (r'.token t)) :
    Alike R (recastAll r ts) (recastAll r' ts) := by
  match ts with
  | [] => exact .nil
  | .leaf label t :: rest =>
    obtain ⟨ht, hrest⟩ := List.forall_mem_cons.1 h
    exact .leaf ht (alike_recastAll rest hrest)
  | .node p children :: rest =>
    obtain ⟨hchildren, hrest⟩ := List.forall_mem_append.1 h
    exact .node (alike_recastAll children hchildren) (alike_recastAll rest hrest)
termination_by sizeAll ts
decreasing_by all_goals simp only [sizeAll, size]; omega

end Tree

def SyntaxError.recast (r : Recast) (e : SyntaxError) : SyntaxError :=
  { e with found := r.token e.found }

namespace ParserState
variable (r : Recast) (s : ParserState)

/-- The same place in the other tokens. -/
def recast : ParserState :=
  { s with
    current := r.token s.current, rest := s.rest.map r.token,
    errors := s.errors.map (·.recast r) }

theorem recast_tokens : (s.recast r).tokens = s.tokens.map r.token := rfl

@[simp] theorem recast_current_kind : (s.recast r).current.kind = s.current.kind :=
  r.kind_token _

@[simp] theorem recast_atEnd : (s.recast r).atEnd = s.atEnd := by
  rw [atEnd, recast_current_kind, atEnd]

@[simp] theorem recast_rest_length : (s.recast r).rest.length = s.rest.length :=
  List.length_map ..

theorem recast_record (e : SyntaxError) :
    (s.recast r).record (e.recast r) = (s.record e).recast r := by
  simp [recast, record]

theorem recast_advance : (s.recast r).advance = s.advance.recast r := by
  obtain ⟨current, rest, index, panic, errors⟩ := s
  unfold advance
  rw [recast_atEnd]
  split
  · rfl
  · cases rest <;> rfl

theorem recast_go (rest : List Token) (s : ParserState) :
    seek.go (rest.map r.token) (s.recast r) = (seek.go rest s).recast r := by
  induction rest generalizing s with
  | nil => rfl
  | cons t rest ih =>
    rw [List.map_cons, seek.go, seek.go, recast_atEnd, recast_current_kind]
    split
    · rfl
    · exact ih { s with current := t, rest := rest, index := s.index + 1 }

theorem recast_resume : (s.recast r).resume = s.resume.recast r := by
  have hseek : (s.recast r).advance.seek = s.advance.seek.recast r := by
    rw [recast_advance]
    exact recast_go r s.advance.rest s.advance
  simp only [resume, hseek, recast_atEnd]
  rfl

theorem recast_giveUp (e : SyntaxError) :
    (s.recast r).giveUp (e.recast r) = (s.giveUp e).recast r := by
  obtain ⟨current, rest, index, panic, errors⟩ := s
  simp only [giveUp, record, recast, List.length_map, List.map_append, List.map_cons, List.map_nil,
    List.getLastD_eq_getLast?, List.getLast?_map]
  cases rest.getLast? <;> rfl

end ParserState

namespace Outcome

def recast (r : Recast) : Outcome → Outcome
  | done ts s => done (Tree.recastAll r ts) (s.recast r)
  | stopped e fatal s => stopped (e.recast r) fatal (s.recast r)

variable {r : Recast}

theorem recast_andThen {o : Outcome} {next next' : ParserState → Outcome}
    (hnext : ∀ s, next' (s.recast r) = (next s).recast r) :
    (o.recast r).andThen next' = (o.andThen next).recast r := by
  cases o with
  | stopped => rfl
  | done ts s =>
    rw [recast, andThen, andThen, hnext]
    cases next s with
    | stopped => rfl
    | done us s' => rw [recast, recast, Tree.recastAll_append]

theorem recast_mapTrees {o : Outcome} {f g : List Tree → List Tree}
    (hf : ∀ ts, g (Tree.recastAll r ts) = Tree.recastAll r (f ts)) :
    (o.recast r).mapTrees g = (o.mapTrees f).recast r := by
  cases o with
  | stopped => rfl
  | done ts s => rw [recast, mapTrees, mapTrees, hf, recast]

end Outcome

def ItemsOutcome.recast (r : Recast) (o : ItemsOutcome) : ItemsOutcome :=
  ⟨Tree.recastAll r o.trees, o.fatal?.map (·.recast r), o.state.recast r⟩

namespace ParserState
variable {r : Recast} {run run' : ParserState → Outcome}

theorem recast_runMany (look : Look) (hrun : ∀ s, run' (s.recast r) = (run s).recast r)
    (rounds : Nat) (s : ParserState) :
    (s.recast r).runMany look run' rounds = (s.runMany look run rounds).recast r := by
  induction rounds generalizing s with
  | zero => rfl
  | succ rounds ih =>
    rw [runMany, runMany, recast_tokens, r.holds_map, hrun]
    split
    · exact Outcome.recast_andThen ih
    · rfl

theorem recast_runItems (stops : List Kind) (hrun : ∀ s, run' (s.recast r) = (run s).recast r)
    (rounds : Nat) (s : ParserState) :
    (s.recast r).runItems stops run' rounds = (s.runItems stops run rounds).recast r := by
  induction rounds generalizing s with
  | zero => rfl
  | succ rounds ih =>
    rw [runItems, runItems, recast_atEnd, recast_current_kind, hrun]
    split
    · rfl
    · cases run s with
      | done ts s' =>
        simp only [Outcome.recast, ih]
        simp only [ItemsOutcome.recast, Tree.recastAll_append]
      | stopped e fatal s' =>
        cases fatal with
        | false => simp only [Outcome.recast, recast_record, recast_resume, ih]
        | true => rfl

end ParserState

/-- A form does the same with the other tokens, if the nested constructs do. -/
theorem Form.recast_run {r : Recast} {call : Nested → ParserState → Outcome}
    (hcall : ∀ c s, call c (s.recast r) = (call c s).recast r) (form : Form) (s : ParserState) :
    form.run call (s.recast r) = (form.run call s).recast r := by
  induction form generalizing s with
  | token kinds cause =>
    rw [run, run, ParserState.recast_current_kind, ParserState.recast_advance]
    split <;> rfl
  | empty | abandon => rfl
  | seq first second ih ih' =>
    rw [run, run, ih]
    exact Outcome.recast_andThen ih'
  | branch look yes no ih ih' =>
    rw [run, run, ParserState.recast_tokens, r.holds_map, ih, ih']
    split <;> rfl
  | many look body ih =>
    rw [run, run, ParserState.recast_rest_length]
    exact ParserState.recast_runMany look ih _ s
  | node production body ih =>
    rw [run, run, ih]
    exact Outcome.recast_mapTrees fun ts => rfl
  | suffixed production operand look suffix ih ih' =>
    rw [run, run, ih]
    cases operand.run call s with
    | stopped => rfl
    | done ts s' =>
      simp only [Outcome.recast, ParserState.recast_tokens, r.holds_map, ih']
      split
      · refine Outcome.recast_mapTrees fun us => ?_
        rw [Tree.recastAll, Tree.recast, Tree.recastAll_append, Tree.recastAll]
      · rfl
  | nested c => exact hcall c s
  | items stops item ih =>
    rw [run, run, ParserState.recast_rest_length, ParserState.recast_runItems stops ih]
    cases h : (s.runItems stops (item.run call) s.rest.length).fatal? with
    | none => simp only [ItemsOutcome.recast, h, Option.map_none, Outcome.recast]
    | some e => simp only [ItemsOutcome.recast, h, Option.map_some, Outcome.recast]

theorem Nested.recast_run (r : Recast) (levels : Nat) (c : Nested) (s : ParserState) :
    c.run levels (s.recast r) = (c.run levels s).recast r := by
  induction levels generalizing c s with
  | zero => rfl
  | succ levels ih => exact Form.recast_run ih _ s

namespace Parse

def recast (r : Recast) (p : Parse) : Parse :=
  ⟨p.root.recast r, p.errors.map (·.recast r), p.panicked⟩

theorem recast_parse (r : Recast) (s : ParserState) :
    (s.recast r).parse.1 = s.parse.1.recast r := by
  have hitems := ParserState.recast_runItems []
    (Form.recast_run (Nested.recast_run r Limits.nesting) Grammar.declaration) s.rest.length s
  simp only [ParserState.parse, ParserState.program, ParserState.recast_rest_length, hitems]
  generalize s.runItems [] (Grammar.declaration.run (Nested.run Limits.nesting)) s.rest.length = o
  obtain ⟨ts, fatal?, s'⟩ := o
  cases fatal? with
  | none => rfl
  | some e =>
    simp only [ItemsOutcome.recast, Option.map_some, ParserState.recast_giveUp]
    rfl

end Parse

namespace Kind

/-- Bare tokens of some kinds. Their lines number them from zero. -/
def bare (kinds : List Kind) : List Token := kinds.mapIdx fun i kind => ⟨kind, "", ⟨i, 0⟩⟩

theorem getElem?_bare (kinds : List Kind) (i : Nat) :
    (bare kinds)[i]? = kinds[i]?.map (⟨·, "", ⟨i, 0⟩⟩) :=
  List.getElem?_mapIdx

theorem map_kind_bare (kinds : List Kind) : (bare kinds).map (·.kind) = kinds := by
  refine List.ext_getElem? fun i => ?_
  rw [List.getElem?_map, getElem?_bare, Option.map_map]
  exact Option.map_id' ..

/-- A bare token stands where its line says. -/
theorem getElem?_line_of_mem_bare {kinds : List Kind} {t : Token} (h : t ∈ bare kinds) :
    (bare kinds)[t.position.line]? = some t := by
  obtain ⟨i, hi⟩ := List.mem_iff_getElem?.1 h
  obtain ⟨kind, -, rfl⟩ := Option.map_eq_some_iff.1 (getElem?_bare kinds i ▸ hi)
  exact hi

theorem bare_pairwise (kinds : List Kind) :
    (bare kinds).Pairwise fun t u => t.position.line < u.position.line := by
  refine List.pairwise_iff_getElem.2 fun i j hi hj hij => ?_
  simpa [bare] using hij

end Kind

namespace Recast

/-- Puts each of the tokens in the place of the bare token of its number. -/
def ofTokens (tokens : List Token) : Recast where
  token t := (tokens[t.position.line]?.filter (·.kind = t.kind)).getD t
  kind_token t := by
    cases h : tokens[t.position.line]?.filter (·.kind = t.kind) with
    | none => rfl
    | some u =>
      obtain ⟨-, hkind⟩ := Option.filter_eq_some_iff.1 h
      exact of_decide_eq_true hkind

theorem map_ofTokens_bare (tokens : List Token) :
    (Kind.bare (tokens.map (·.kind))).map (ofTokens tokens).token = tokens := by
  refine List.ext_getElem? fun i => ?_
  rw [List.getElem?_map, Kind.getElem?_bare, List.getElem?_map]
  cases h : tokens[i]? with
  | none => rfl
  | some t => simp [ofTokens, h, Option.filter]

end Recast

theorem ParserState.ofTokens_kinds (tokens : List Token) :
    (ofTokens tokens).tokens.map (·.kind) =
      if (tokens.map (·.kind)).getLast? = some .endMarker then tokens.map (·.kind)
      else tokens.map (·.kind) ++ [.endMarker] := by
  cases tokens with
  | nil => rfl
  | cons t rest =>
    obtain ⟨last, hlast⟩ := Option.ne_none_iff_exists'.1
      (mt List.getLast?_eq_none_iff.1 (List.cons_ne_nil t rest))
    rw [List.getLast?_map, hlast]
    by_cases hkind : last.kind = .endMarker
    · simp [ofTokens, ParserState.tokens, hlast, hkind]
    · simp [ofTokens, ParserState.tokens, hlast, hkind, Token.endMarker]

namespace Parse

/-- All that a parser of some tokens reads. -/
def closed (tokens : List Token) : List Token := (ParserState.ofTokens tokens).tokens

/-- A parse is that of the bare kinds, with each token put in its place. -/
theorem ofTokens_eq_recast (tokens : List Token) : ofTokens tokens =
    (ofTokens (Kind.bare ((closed tokens).map (·.kind)))).recast (.ofTokens (closed tokens)) := by
  have hlast : ∃ u, (Kind.bare ((closed tokens).map (·.kind))).getLast? = some u ∧
      u.kind = .endMarker := by
    obtain ⟨t, ht, hkind⟩ := ParserState.ofTokens_closed tokens
    have hkinds := congrArg List.getLast? (Kind.map_kind_bare ((closed tokens).map (·.kind)))
    rw [List.getLast?_map, List.getLast?_map, closed, ht, Option.map_some, hkind] at hkinds
    exact Option.map_eq_some_iff.1 hkinds
  obtain ⟨u, hu, hkind⟩ := hlast
  have hstart : (ParserState.ofTokens (Kind.bare ((closed tokens).map (·.kind)))).recast
      (.ofTokens (closed tokens)) = ParserState.ofTokens tokens := by
    refine ParserState.eq_of_tokens ?_ ?_ ?_ ?_
    · rw [ParserState.recast_tokens, ParserState.ofTokens_tokens_of_getLast hu hkind,
        Recast.map_ofTokens_bare]
      rfl
    · simp [ParserState.recast]
    · simp [ParserState.recast]
    · simp [ParserState.recast]
  rw [ofTokens, ← hstart, recast_parse]
  rfl

theorem getElem?_of_mem_leaves (tokens : List Token) {t : Token}
    (h : t ∈ (ofTokens (Kind.bare ((closed tokens).map (·.kind)))).root.leaves) :
    tokens[t.position.line]? = some ((Recast.ofTokens (closed tokens)).token t) := by
  obtain ⟨-, hsub, hkinds⟩ := root_wellShaped (Kind.bare ((closed tokens).map (·.kind)))
  have hmem := (List.takeWhile_sublist _).subset (hsub.subset h)
  have hget : (closed tokens)[t.position.line]? =
      some ((Recast.ofTokens (closed tokens)).token t) := by
    conv_lhs => rw [← Recast.map_ofTokens_bare (closed tokens)]
    rw [List.getElem?_map, Kind.getElem?_line_of_mem_bare hmem, Option.map_some]
  obtain ⟨marker, hclosed, hmarker, -⟩ := ParserState.ofTokens_tokens tokens
  rw [show closed tokens = tokens ++ marker from hclosed, List.getElem?_append] at hget
  rw [show closed tokens = tokens ++ marker from hclosed]
  split at hget
  · exact hget
  · have hkind := hmarker _ (List.mem_of_getElem? hget)
    rw [Recast.kind_token] at hkind
    exact absurd hkind (hkinds t h).1

/-- Two lists of tokens of the same kinds are parsed alike. The errors are the same, at the same
places and tokens of the same kinds. The trees differ only at their leaves, and there stand the
tokens of the same numbers. -/
theorem ofTokens_of_kinds {tokens tokens' : List Token}
    (h : tokens.map (·.kind) = tokens'.map (·.kind)) :
    (ofTokens tokens).successful = (ofTokens tokens').successful ∧
      (ofTokens tokens).panicked = (ofTokens tokens').panicked ∧
      List.Forall₂ (fun e e' : SyntaxError => e.cause = e'.cause ∧ e.expected? = e'.expected? ∧
          e.found.kind = e'.found.kind ∧ e.index = e'.index)
        (ofTokens tokens).errors (ofTokens tokens').errors ∧
      Tree.Alike (fun t t' => ∃ i : ℕ, tokens[i]? = some t ∧ tokens'[i]? = some t')
        [(ofTokens tokens).root] [(ofTokens tokens').root] ∧
      ∃ indices : List ℕ, indices.Pairwise (· < ·) ∧
        indices.map (tokens[·]?) = (ofTokens tokens).root.leaves.map some ∧
        indices.map (tokens'[·]?) = (ofTokens tokens').root.leaves.map some := by
  have hkinds : (closed tokens).map (·.kind) = (closed tokens').map (·.kind) := by
    rw [closed, closed, ParserState.ofTokens_kinds, ParserState.ofTokens_kinds, h]
  have hleaf (t : Token) := @getElem?_of_mem_leaves tokens t
  have hleaf' (t : Token) := @getElem?_of_mem_leaves tokens' t
  obtain ⟨-, hsub, -⟩ := root_wellShaped (Kind.bare ((closed tokens).map (·.kind)))
  have hordered := (Kind.bare_pairwise _).sublist (hsub.trans (List.takeWhile_sublist _))
  rw [ofTokens_eq_recast tokens, ofTokens_eq_recast tokens', ← hkinds]
  rw [← hkinds] at hleaf'
  generalize ofTokens (Kind.bare ((closed tokens).map (·.kind))) = p at hleaf hleaf' hordered ⊢
  refine ⟨by simp [successful, recast], rfl, ?_, ?_, p.root.leaves.map (·.position.line), ?_, ?_, ?_⟩
  · simp only [recast, List.forall₂_map_left_iff, List.forall₂_map_right_iff]
    exact List.forall₂_same.2 fun e _ => ⟨rfl, rfl, by simp [SyntaxError.recast], rfl⟩
  · refine Tree.alike_recastAll [p.root] fun t ht => ⟨t.position.line, ?_⟩
    rw [Tree.leavesAll, Tree.leavesAll, List.append_nil] at ht
    exact ⟨hleaf t ht, hleaf' t ht⟩
  · exact List.pairwise_map.2 hordered
  · simp only [recast, Tree.leaves_recast, List.map_map]
    exact List.map_congr_left hleaf
  · simp only [recast, Tree.leaves_recast, List.map_map]
    exact List.map_congr_left hleaf'

/-- A value is missing in both texts, whatever their names are and wherever they stand. -/
theorem ofTokens_of_kinds_initializer :
    let tokens : List Token := [⟨.intKeyword, "int", ⟨1, 1⟩⟩, ⟨.identifier, "x", ⟨1, 5⟩⟩,
      ⟨.assign, "=", ⟨1, 7⟩⟩, ⟨.semicolon, ";", ⟨1, 8⟩⟩, ⟨.intKeyword, "int", ⟨1, 10⟩⟩,
      ⟨.identifier, "y", ⟨1, 14⟩⟩, ⟨.semicolon, ";", ⟨1, 15⟩⟩]
    let tokens' : List Token := [⟨.intKeyword, "int", ⟨3, 1⟩⟩, ⟨.identifier, "width", ⟨4, 1⟩⟩,
      ⟨.assign, "=", ⟨4, 9⟩⟩, ⟨.semicolon, ";", ⟨5, 1⟩⟩, ⟨.intKeyword, "int", ⟨6, 1⟩⟩,
      ⟨.identifier, "height", ⟨6, 5⟩⟩, ⟨.semicolon, ";", ⟨6, 11⟩⟩]
    tokens.map (·.kind) = tokens'.map (·.kind) ∧
      (ofTokens tokens).errors = [⟨.factor, ⟨.semicolon, ";", ⟨1, 8⟩⟩, 3⟩] ∧
      (ofTokens tokens).panicked = false ∧ (ofTokens tokens').panicked = false ∧
      ∃ found, (ofTokens tokens').errors = [⟨.factor, found, 3⟩] ∧ found.kind = .semicolon := by
  intro tokens tokens'
  have hkinds : tokens.map (·.kind) = tokens'.map (·.kind) := by decide
  have herrors : (ofTokens tokens).errors = [⟨.factor, ⟨.semicolon, ";", ⟨1, 8⟩⟩, 3⟩] := by
    decide +kernel
  have hpanicked : (ofTokens tokens).panicked = false := by decide +kernel
  obtain ⟨-, hpanicked', herrors', -⟩ := ofTokens_of_kinds hkinds
  rw [herrors] at herrors'
  obtain ⟨⟨cause, found, index⟩, rest, ⟨hcause, -, hkind, hindex⟩, hrest, heq⟩ :=
    List.forall₂_cons_left_iff.1 herrors'
  obtain rfl := List.forall₂_nil_left_iff.1 hrest
  obtain rfl : Cause.factor = cause := hcause
  obtain rfl : 3 = index := hindex
  exact ⟨hkinds, herrors, hpanicked, hpanicked' ▸ hpanicked, found, heq, hkind.symm⟩

end Parse
end CoreLang
