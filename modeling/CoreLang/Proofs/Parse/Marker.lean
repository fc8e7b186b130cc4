import CoreLang.Proofs.Parse.Independence
import CoreLang.Proofs.Parse.Order

/-! The first end marker is the end. What stands behind it can be cut off, and the parser does the
same in every state. -/
namespace CoreLang

def Token.throughMarker : List Token → List Token
  | [] => []
  | t :: rest => if t.kind = .endMarker then [t] else t :: throughMarker rest

namespace Token

theorem throughMarker_marker {m : Token} (hm : m.kind = .endMarker) (rest : List Token) :
    throughMarker (m :: rest) = [m] := if_pos hm

theorem throughMarker_cons {t : Token} (ht : t.kind ≠ .endMarker) (rest : List Token) :
    throughMarker (t :: rest) = t :: throughMarker rest := if_neg ht

theorem throughMarker_append {read : List Token} (h : ∀ t ∈ read, t.kind ≠ .endMarker)
    (ts : List Token) : throughMarker (read ++ ts) = read ++ throughMarker ts := by
  induction read with
  | nil => rfl
  | cons t read ih =>
    obtain ⟨ht, hread⟩ := List.forall_mem_cons.1 h
    rw [List.cons_append, throughMarker_cons ht, ih hread, List.cons_append]

end Token

open Token (throughMarker throughMarker_marker throughMarker_cons)

theorem kindAhead_throughMarker (n : Nat) (ts : List Token) :
    kindAhead n (throughMarker ts) = kindAhead n ts := by
  induction n generalizing ts with
  | zero => cases ts with
    | nil => rfl
    | cons t rest =>
      rw [throughMarker]
      split <;> rfl
  | succ n ih =>
    cases ts with
    | nil => rfl
    | cons t rest =>
      by_cases ht : t.kind = .endMarker
      · simp [throughMarker_marker ht, kindAhead, ht]
      · rw [throughMarker_cons ht, kindAhead, kindAhead, if_neg ht, if_neg ht, ih]

theorem afterBracket?_throughMarker (ts : List Token) :
    afterBracket? (throughMarker ts) = (afterBracket? ts).map throughMarker := by
  induction ts with
  | nil => rfl
  | cons t rest ih =>
    by_cases ht : t.kind = .endMarker
    · simp [throughMarker_marker ht, afterBracket?, ht]
    · rw [throughMarker_cons ht, afterBracket?, afterBracket?, if_neg ht, if_neg ht, ih]
      split <;> rfl

/-- The tokens behind a name and a bracket are cut off where all tokens are. -/
theorem drop_throughMarker {ts : List Token} (hname : kindAhead 0 ts = .identifier)
    (hbracket : kindAhead 1 ts = .leftBracket) :
    (throughMarker ts).drop 2 = throughMarker (ts.drop 2) := by
  match ts with
  | [] => rfl
  | [t] => simp [kindAhead] at hbracket
  | t :: u :: rest =>
    have ht : t.kind ≠ .endMarker := by
      change t.kind = .identifier at hname
      simp [hname]
    have hu : u.kind ≠ .endMarker := by
      simp only [kindAhead, if_neg ht] at hbracket
      simp [hbracket]
    rw [throughMarker_cons ht, throughMarker_cons hu]
    rfl

theorem Look.holds_throughMarker (look : Look) (ts : List Token) :
    look.holds (throughMarker ts) = look.holds ts := by
  induction look with
  | sees ahead kinds => rw [holds, holds, kindAhead_throughMarker]
  | both a b iha ihb => rw [holds, holds, iha, ihb]
  | not a ih => rw [holds, holds, ih]
  | assignment =>
    simp only [holds, kindAhead_throughMarker]
    by_cases hname : kindAhead 0 ts = .identifier
    · split
      · rename_i hbracket
        rw [drop_throughMarker hname hbracket, afterBracket?_throughMarker, Option.any_map]
        simp only [kindAhead_throughMarker]
      · rfl
    · simp [hname]
  | unclosedSubscript =>
    simp only [holds, kindAhead_throughMarker]
    by_cases hname : kindAhead 0 ts = .identifier
    · by_cases hbracket : kindAhead 1 ts = .leftBracket
      · rw [drop_throughMarker hname hbracket, afterBracket?_throughMarker, Option.isNone_map]
      · simp [hbracket]
    · simp [hname]

namespace ParserState

def cut (s : ParserState) : ParserState :=
  { s with rest := if s.atEnd then [] else throughMarker s.rest }

@[simp] theorem cut_atEnd (s : ParserState) : s.cut.atEnd = s.atEnd := rfl

theorem cut_tokens (s : ParserState) : s.cut.tokens = throughMarker s.tokens := by
  rw [tokens, tokens, throughMarker, cut]
  by_cases he : s.current.kind = .endMarker <;> simp [atEnd, he]

theorem cut_rest {s : ParserState} {t : Token} {rest : List Token} (he : s.atEnd = false)
    (hr : s.rest = t :: rest) :
    s.cut.rest = t :: { s with current := t, rest := rest, index := s.index + 1 }.cut.rest := by
  by_cases ht : t.kind = .endMarker
  · simp [cut, he, hr, atEnd_of_tokens rfl, ht, throughMarker_marker]
  · simp [cut, he, hr, atEnd_of_tokens rfl, ht, throughMarker_cons]

end ParserState

theorem carries_cut : Carries ParserState.cut id where
  current _ := rfl
  holds look s := by rw [s.cut_tokens, look.holds_throughMarker]
  error _ _ := rfl
  record _ _ := rfl
  panic _ _ := rfl
  next he hr := ⟨_, ParserState.cut_rest he hr, rfl⟩
  last hr := by simp [ParserState.cut, hr, throughMarker]

theorem Form.Runs.cut {n : Nat} {form : Form} {s s' : ParserState} {ts : List Tree}
    {stop : Option Stop} (h : form.Runs n s ts stop s') : form.Runs n s.cut ts stop s'.cut := by
  simpa using carries_cut.runs h

namespace Parse
variable {before : List Token} {marker : Token}

theorem cut_ofTokens (hbefore : ∀ t ∈ before, t.kind ≠ .endMarker)
    (hmarker : marker.kind = .endMarker) (after : List Token) :
    (ParserState.ofTokens (before ++ marker :: after)).cut =
      ParserState.ofTokens (before ++ [marker]) := by
  have htokens : (ParserState.ofTokens (before ++ [marker])).tokens = before ++ [marker] :=
    ParserState.ofTokens_tokens_of_getLast List.getLast?_concat hmarker
  refine ParserState.eq_of_tokens ?_ ?_ ?_ ?_
  · obtain ⟨closing, hclosing, -⟩ := ParserState.ofTokens_tokens (before ++ marker :: after)
    rw [ParserState.cut_tokens, hclosing, htokens, List.append_assoc,
      Token.throughMarker_append hbefore, List.cons_append, throughMarker_marker hmarker]
  all_goals simp [ParserState.cut]

/-- Nothing behind the first end marker changes the parse. -/
theorem ofTokens_through_marker (hbefore : ∀ t ∈ before, t.kind ≠ .endMarker)
    (hmarker : marker.kind = .endMarker) (after : List Token) :
    ofTokens (before ++ marker :: after) = ofTokens (before ++ [marker]) := by
  obtain ⟨ts, stop, s, h, -, hparse⟩ := exists_runs (before ++ marker :: after)
  have hcut := h.cut
  rw [cut_ofTokens hbefore hmarker] at hcut
  rw [hparse, ofTokens_of_runs hcut]
  rfl

end Parse
end CoreLang
