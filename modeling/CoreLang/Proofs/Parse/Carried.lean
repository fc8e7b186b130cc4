import CoreLang.Proofs.Parse.Runs

/-! Runs carried along a map of states. The map may change what no run looks at, and the rest of the
run then goes the same way. -/
namespace CoreLang

/-- The map takes the runs of a parser to runs with the same trees. -/
structure Carries (move : ParserState → ParserState) (rename : SyntaxError → SyntaxError) :
    Prop where
  current (s : ParserState) : (move s).current = s.current
  holds (look : Look) (s : ParserState) : look.holds (move s).tokens = look.holds s.tokens
  error (s : ParserState) (cause : Cause) : (move s).error cause = rename (s.error cause)
  record (s : ParserState) (e : SyntaxError) : (move s).record (rename e) = move (s.record e)
  panic (s : ParserState) (panic : Bool) : { move s with panic } = move { s with panic }
  next {s : ParserState} {t : Token} {rest : List Token} (he : s.atEnd = false)
    (hr : s.rest = t :: rest) : ∃ rest', (move s).rest = t :: rest' ∧
      { move s with current := t, rest := rest', index := (move s).index + 1 } =
        move { s with current := t, rest := rest, index := s.index + 1 }
  last {s : ParserState} (hr : s.rest = []) : (move s).rest = []

namespace Carries
variable {move : ParserState → ParserState} {rename : SyntaxError → SyntaxError}
  (hmove : Carries move rename)
include hmove

theorem atEnd (s : ParserState) : (move s).atEnd = s.atEnd := by
  rw [ParserState.atEnd, hmove.current, ParserState.atEnd]

theorem stops (s : ParserState) (kinds : List Kind) :
    ((move s).atEnd = true ∨ (move s).current.kind ∈ kinds) ↔
      (s.atEnd = true ∨ s.current.kind ∈ kinds) := by
  rw [hmove.atEnd, hmove.current]

theorem advance (s : ParserState) : (move s).advance = move s.advance := by
  cases he : s.atEnd with
  | true => simp [ParserState.advance, hmove.atEnd, he]
  | false =>
    cases hr : s.rest with
    | nil => simp [ParserState.advance, hmove.atEnd, he, hr, hmove.last hr]
    | cons t rest =>
      obtain ⟨rest', hrest, hnext⟩ := hmove.next he hr
      rw [s.advance_of_rest he hr,
        (move s).advance_of_rest ((hmove.atEnd s).trans he) hrest, hnext]

theorem seek (s : ParserState) : (move s).seek = move s.seek := by
  generalize hrest : s.rest = rest
  induction rest generalizing s with
  | nil =>
    rw [ParserState.seek, ParserState.seek, hrest, hmove.last hrest]
    rfl
  | cons t rest ih =>
    have hstops := hmove.stops s ParserState.resumeKinds
    by_cases hstop : s.atEnd = true ∨ s.current.kind ∈ ParserState.resumeKinds
    · rw [ParserState.seek_of_stop hstop, ParserState.seek_of_stop (hstops.2 hstop)]
    · obtain ⟨rest', hmoved, hnext⟩ := hmove.next (by simpa using (not_or.1 hstop).1) hrest
      rw [ParserState.seek_of_rest hstop hrest, ParserState.seek_of_rest (mt hstops.1 hstop) hmoved,
        hnext, ih _ rfl]

theorem resume (s : ParserState) (e : SyntaxError) :
    ((move s).record (rename e)).resume = move (s.record e).resume := by
  rw [hmove.record]
  simp only [ParserState.resume, hmove.advance, hmove.seek, hmove.atEnd, hmove.panic]

theorem runs {n : Nat} {form : Form} {s s' : ParserState} {ts : List Tree} {stop : Option Stop}
    (h : form.Runs n s ts stop s') :
    form.Runs n (move s) ts (stop.map fun e => ⟨rename e.error, e.fatal⟩) (move s') := by
  induction h with
  | @token _ _ _ _ _ s hk he hr =>
    obtain ⟨rest', hrest, hnext⟩ := hmove.next he hr
    rw [← hnext, ← hmove.current s]
    exact .token (hmove.current s ▸ hk) ((hmove.atEnd s).trans he) hrest
  | @mismatch _ _ _ s hk =>
    rw [Option.map_some, ← hmove.error]
    exact .mismatch (hmove.current s ▸ hk)
  | empty => exact .empty
  | seq _ _ ih ih' => exact .seq ih ih'
  | seqStopped _ ih => exact .seqStopped ih
  | yes hl _ ih => exact .yes ((hmove.holds _ _).trans hl) ih
  | no hl _ ih => exact .no ((hmove.holds _ _).trans hl) ih
  | done hl => exact .done ((hmove.holds _ _).trans hl)
  | more hl _ _ ih ih' => exact .more ((hmove.holds _ _).trans hl) ih ih'
  | moreStopped hl _ ih => exact .moreStopped ((hmove.holds _ _).trans hl) ih
  | node _ ih => exact .node ih
  | alone _ hl ih => exact .alone ih ((hmove.holds _ _).trans hl)
  | suffixed _ hl _ ih ih' => exact .suffixed ih ((hmove.holds _ _).trans hl) ih'
  | suffixedStopped _ ih => exact .suffixedStopped ih
  | nested _ ih => exact .nested ih
  | tooDeep =>
    rw [Option.map_some, ← hmove.error]
    exact .tooDeep
  | finish hs => exact .finish ((hmove.stops _ _).2 hs)
  | item hs _ _ ih ih' => exact .item (mt (hmove.stops _ _).1 hs) ih ih'
  | damaged hs _ _ ih ih' => exact .damaged (mt (hmove.stops _ _).1 hs) ih (hmove.resume _ _ ▸ ih')
  | ruined hs _ ih => exact .ruined (mt (hmove.stops _ _).1 hs) ih
  | abandon =>
    rw [Option.map_some, ← hmove.error]
    exact .abandon

end Carries
end CoreLang
