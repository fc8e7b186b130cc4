import CoreLang.Proofs.Parse.Completeness
import CoreLang.Proofs.Parse.Loss
import CoreLang.Proofs.Parse.Soundness
import CoreLang.Proofs.Source.Places

/-! What the parser accepts: the sentences of the grammar that keep to the limit of nesting, each of
them with its own tree. A text with a lexical fault is no such sentence, since its fault leaves a
token that no rule takes. -/
namespace CoreLang

theorem ParserState.exists_marker (tokens : List Token) :
    ∃ m rest, (ofTokens tokens).tokens = Token.beforeMarker tokens ++ m :: rest ∧
      m.kind = .endMarker := by
  obtain ⟨last, hlast, hkind⟩ := ofTokens_closed tokens
  have hsome : ((ofTokens tokens).tokens.find? fun t => t.kind = .endMarker).isSome :=
    List.find?_isSome.2 ⟨last, List.mem_of_getLast? hlast, by simpa using hkind⟩
  obtain ⟨m, hm⟩ := Option.isSome_iff_exists.1 hsome
  obtain ⟨hmarker, read, rest, htokens, hread⟩ := List.find?_eq_some_iff_append.1 hm
  have hmarker : m.kind = .endMarker := by simpa using hmarker
  have hbefore : Token.beforeMarker tokens = read := by
    rw [← beforeMarker_ofTokens, htokens, Token.beforeMarker_append (by simpa using hread)]
    simp [Token.beforeMarker, hmarker]
  rw [hbefore]
  exact ⟨m, rest, htokens, hmarker⟩

namespace Parse
variable {tokens : List Token} {t : Tree}

theorem root_isProgram (tokens : List Token) :
    (ofTokens tokens).root.IsProgram Limits.nesting := by
  obtain ⟨ts, stop, s, h, -, hparse⟩ := exists_runs tokens
  rw [hparse]
  exact .node (h.derives (.inr ⟨_, _, rfl⟩))

theorem result_eq_of_errors_ne_nil {p : Parse} (h : p.errors ≠ []) :
    p.result = .error ⟨p.errors⟩ := by
  simp [result, successful, h]

theorem result_eq_ok_iff_errors {p : Parse} (hpanic : p.errors = [] → p.panicked = false) :
    p.result = .ok t ↔ p.errors = [] ∧ p.root = t := by
  unfold result successful
  by_cases herrors : p.errors = []
  · simp [herrors, hpanic herrors]
  · simp [herrors]

/-- Tokens are accepted exactly if those before the first end marker are the leaves of a tree of the
grammar, and that is the tree they are given. -/
theorem result_eq_ok_iff : (ofTokens tokens).result = .ok t ↔
    t.WellShaped Limits.nesting ∧ t.leaves = Token.beforeMarker tokens := by
  rw [result_eq_ok_iff_errors fun h => (leaves_eq_of_errors_eq_nil tokens h).1]
  constructor
  · rintro ⟨herrors, rfl⟩
    exact ⟨Tree.wellShaped_iff.2 (root_isProgram tokens),
      (leaves_eq_of_errors_eq_nil tokens herrors).2⟩
  · rintro ⟨hshape, hleaves⟩
    obtain ⟨m, rest, htokens, hm⟩ := ParserState.exists_marker tokens
    cases Tree.wellShaped_iff.1 hshape with
    | @node _ _ _ ts hd =>
      rw [← hleaves] at htokens
      obtain ⟨s, hrun, -, herrors⟩ := Form.program_complete Limits.nesting ts _ (m :: rest) hd
        htokens (by simp) (by simp [kindAhead, hm])
      rw [ofTokens_of_runs hrun, herrors, ParserState.ofTokens_errors]
      exact ⟨rfl, rfl⟩

end Parse

namespace Lexed

theorem beforeMarker_ofSource (source : String) :
    Token.beforeMarker (ofSource source).tokens =
      (Source.placeAll .start (Source.tile source.toList).pieces).map (·.1) := by
  have hkind := Source.placeAll_kind_ne_endMarker (p := .start) (Source.tile_sound source.toList)
  rw [ofSource, ofChars, Token.beforeMarker_append (by simpa using hkind)]
  simp [Token.beforeMarker, Token.endMarker]

theorem exists_isError {source : String} (h : (ofSource source).errors ≠ []) :
    ∃ t ∈ Token.beforeMarker (ofSource source).tokens, t.kind.isError = true := by
  have hsound := Source.tile_sound source.toList
  obtain ⟨e, he⟩ := List.exists_mem_of_ne_nil _ h
  obtain ⟨placed, hplaced, herror⟩ := List.mem_filterMap.1 he
  rw [beforeMarker_ofSource]
  refine ⟨placed.1, List.mem_map_of_mem hplaced, ?_⟩
  obtain ⟨piece, hpiece, q, rfl⟩ := Source.mem_placeAll hplaced
  rw [(hsound piece hpiece).isError_iff, herror]
  rfl

end Lexed

namespace Parse
variable {tokens : List Token}

/-- Faulty tokens never get into a tree. -/
theorem leaf_isError (tokens : List Token) :
    ∀ t ∈ (ofTokens tokens).root.leaves, t.kind.isError = false :=
  fun t ht => ((Tree.wellShaped_iff.2 (root_isProgram tokens)).leaf_kind t ht).2

/-- A faulty token fails the parse wherever it stands. -/
theorem errors_ne_nil_of_isError {t : Token} (h : t ∈ Token.beforeMarker tokens)
    (herror : t.kind.isError = true) : (ofTokens tokens).errors ≠ [] := by
  intro hnil
  rw [← (leaves_eq_of_errors_eq_nil tokens hnil).2] at h
  simp [leaf_isError tokens t h] at herror

theorem ofSource_errors_ne_nil {source : String} (h : (Lexed.ofSource source).errors ≠ []) :
    (ofSource source).errors ≠ [] := by
  obtain ⟨t, ht, herror⟩ := Lexed.exists_isError h
  exact errors_ne_nil_of_isError ht herror

end Parse

/-- The tree of a source text: the text has no fault, and the tree is one of the grammar that keeps
to the limit of nesting and has the tokens of the text for its leaves. -/
def Tree.Reads (t : Tree) (source : String) : Prop :=
  (Lexed.ofSource source).errors = [] ∧ t.WellShaped Limits.nesting ∧
    t.leaves = Token.beforeMarker (Lexed.ofSource source).tokens

/-- A source text is accepted exactly if it has a tree, and that is the tree it is given. -/
theorem Parse.ofSource_result_eq_ok_iff {source : String} {t : Tree} :
    (ofSource source).result = .ok t ↔ t.Reads source := by
  rw [ofSource, result_eq_ok_iff, Tree.Reads]
  refine (and_iff_right_of_imp fun h => ?_).symm
  by_contra hfaulty
  have hresult := result_eq_of_errors_ne_nil (ofSource_errors_ne_nil hfaulty)
  rw [ofSource, result_eq_ok_iff.2 h] at hresult
  cases hresult

end CoreLang
