import CoreLang.Proofs.Parse.Completeness

/-! Runs at the end of the text. A form that begins at the end marker reads nothing, and it stops
there if anything is missing. A second fact on the levels that are free: more of them change nothing
in a run that has enough. -/
namespace CoreLang

theorem Look.holds_endMarker {m : Token} (hm : m.kind = .endMarker) (look : Look) :
    look.holds [m] = look.holds [Kind.endMarker.token] := by
  induction look with
  | sees ahead kinds =>
    have hk : kindAhead ahead [m] = kindAhead ahead [Kind.endMarker.token] := by
      cases ahead <;> simp [kindAhead, hm, Kind.token]
    rw [holds, holds, hk]
  | both a b iha ihb => rw [holds, holds, iha, ihb]
  | not a ih => rw [holds, holds, ih]
  | assignment | unclosedSubscript => simp [holds, kindAhead, hm, Kind.token]

namespace Form

/-- At the end marker the form reads nothing. It ends there, or it stops at an error of that place
that does not end the parse. -/
def Calm (n : Nat) (form : Form) : Prop :=
  ∀ (s : ParserState) (m : Token), s.tokens = [m] → m.kind = .endMarker →
    ∃ ts stop, form.Runs n s ts stop s ∧ ∀ e ∈ stop, ∃ cause, e = ⟨s.error cause, false⟩

/-- No look at the end marker leads to an error that ends the parse. -/
def calm : Form → Bool
  | token kinds _ => .endMarker ∉ kinds
  | empty => true
  | seq first second => first.calm && second.calm
  | branch look yes no => if look.holds [Kind.endMarker.token] then yes.calm else no.calm
  | many look _ => !look.holds [Kind.endMarker.token]
  | node _ body => body.calm
  | suffixed _ operand look _ => operand.calm && !look.holds [Kind.endMarker.token]
  | nested _ => true
  | items _ _ => true
  | abandon _ => false

/-- The form stops at the end marker. -/
def Halts (n : Nat) (form : Form) : Prop :=
  ∀ (s : ParserState) (m : Token), s.tokens = [m] → m.kind = .endMarker →
    ∃ ts cause, form.Runs n s ts (some ⟨s.error cause, false⟩) s

theorem Halts.seq {n : Nat} {first : Form} (h : first.Halts n) (second : Form) :
    (seq first second).Halts n := by
  intro s m ht hm
  obtain ⟨ts, cause, hrun⟩ := h s m ht hm
  exact ⟨ts, cause, .seqStopped hrun⟩

theorem Halts.node {n : Nat} {body : Form} (h : body.Halts n) (p : Production) :
    (node p body).Halts n := by
  intro s m ht hm
  obtain ⟨ts, cause, hrun⟩ := h s m ht hm
  exact ⟨_, cause, .node hrun⟩

theorem Halts.suffixed {n : Nat} {operand : Form} (h : operand.Halts n) (p : Production)
    (look : Look) (suffix : Form) : (suffixed p operand look suffix).Halts n := by
  intro s m ht hm
  obtain ⟨ts, cause, hrun⟩ := h s m ht hm
  exact ⟨ts, cause, .suffixedStopped hrun⟩

theorem Halts.no {n : Nat} {no : Form} (h : no.Halts n) (yes : Form) {look : Look}
    (hl : look.holds [Kind.endMarker.token] = false) : (branch look yes no).Halts n := by
  intro s m ht hm
  obtain ⟨ts, cause, hrun⟩ := h s m ht hm
  exact ⟨ts, cause, .no (by rw [ht, Look.holds_endMarker hm, hl]) hrun⟩

theorem token_halts {n : Nat} {kinds : List Kind} {cause : Cause} (h : .endMarker ∉ kinds) :
    (token kinds cause).Halts n := by
  intro s m ht hm
  have hcurrent : s.current = m := (List.cons.inj ht).1
  exact ⟨[], cause, .mismatch (by rw [hcurrent, hm]; exact h)⟩

theorem unary_halts (n : Nat) : Grammar.unary.Halts n :=
  .no (.node (.no (.no (.node (token_halts (by decide)) _) _ rfl) _ rfl) _) _ rfl

/-- A nested construct has something to read. -/
theorem nested_halts (n : Nat) (c : Nested) : (nested c).Halts (n + 1) := by
  have hrule : (Grammar.rule c).Halts n := by
    cases c with
    | expression =>
      have hpower : Grammar.power.Halts n := .suffixed (unary_halts n) _ _ _
      exact .no (.no (.suffixed (.suffixed (.suffixed (.suffixed (.suffixed (.suffixed hpower
        _ _ _) _ _ _) _ _ _) _ _ _) _ _ _) _ _ _) _ rfl) _ rfl
    | power => exact .suffixed (unary_halts n) _ _ _
    | unary => exact unary_halts n
    | block => exact .node (.seq (token_halts (by decide)) _) _
    | ifStatement => exact .node (.seq (token_halts (by decide)) _) _
  intro s m ht hm
  obtain ⟨ts, cause, hrun⟩ := hrule s m ht hm
  exact ⟨ts, cause, .nested hrun⟩

theorem Halts.calm {n : Nat} {form : Form} (h : form.Halts n) : form.Calm n := by
  intro s m ht hm
  obtain ⟨ts, cause, hrun⟩ := h s m ht hm
  exact ⟨ts, _, hrun, fun e he => ⟨cause, (Option.mem_some_iff.1 he).symm⟩⟩

theorem calm_of_calm (n : Nat) (form : Form) (h : form.calm = true) : form.Calm (n + 1) := by
  induction form with
  | token kinds cause => exact (token_halts (of_decide_eq_true h)).calm
  | empty => exact fun s m _ _ => ⟨[], none, .empty, by simp⟩
  | seq first second ih ih' =>
    obtain ⟨h₁, h₂⟩ := Bool.and_eq_true_iff.1 h
    intro s m ht hm
    obtain ⟨ts, stop, hrun, hstop⟩ := ih h₁ s m ht hm
    cases stop with
    | some e => exact ⟨ts, some e, .seqStopped hrun, hstop⟩
    | none =>
      obtain ⟨us, stop, hrun', hstop'⟩ := ih' h₂ s m ht hm
      exact ⟨ts ++ us, stop, .seq hrun hrun', hstop'⟩
  | branch look yes no ih ih' =>
    intro s m ht hm
    have hlook : look.holds s.tokens = look.holds [Kind.endMarker.token] := by
      rw [ht, Look.holds_endMarker hm]
    rw [calm] at h
    split at h
    · rename_i hl
      obtain ⟨ts, stop, hrun, hstop⟩ := ih h s m ht hm
      exact ⟨ts, stop, .yes (hlook.trans hl) hrun, hstop⟩
    · rename_i hl
      obtain ⟨ts, stop, hrun, hstop⟩ := ih' h s m ht hm
      exact ⟨ts, stop, .no (hlook.trans (Bool.eq_false_iff.2 hl)) hrun, hstop⟩
  | many look body =>
    intro s m ht hm
    have hl : look.holds s.tokens = false := by
      rw [ht, Look.holds_endMarker hm]
      exact (Bool.not_eq_true' _).mp h
    exact ⟨[], none, .done hl, by simp⟩
  | node p body ih =>
    intro s m ht hm
    obtain ⟨ts, stop, hrun, hstop⟩ := ih h s m ht hm
    exact ⟨_, stop, .node hrun, hstop⟩
  | suffixed p operand look suffix ih =>
    obtain ⟨h₁, h₂⟩ := Bool.and_eq_true_iff.1 h
    intro s m ht hm
    obtain ⟨ts, stop, hrun, hstop⟩ := ih h₁ s m ht hm
    have hl : look.holds s.tokens = false := by
      rw [ht, Look.holds_endMarker hm]
      exact (Bool.not_eq_true' _).mp h₂
    cases stop with
    | some e => exact ⟨ts, some e, .suffixedStopped hrun, hstop⟩
    | none => exact ⟨ts, none, .alone hrun hl, by simp⟩
  | nested c => exact (nested_halts n c).calm
  | items stops item =>
    intro s m ht hm
    have hend : s.atEnd = true := by rw [ParserState.atEnd_of_tokens ht, hm]; rfl
    exact ⟨[], none, .finish (.inl hend), by simp⟩
  | abandon cause => cases h

/-- A run that does not lack a level is the same with more levels. -/
theorem Runs.mono {n n' : Nat} {form : Form} {s s' : ParserState} {ts : List Tree}
    {stop : Option Stop} (h : form.Runs n s ts stop s')
    (hstop : ∀ e, stop = some ⟨e, true⟩ → e.cause ≠ .tooDeep) (hle : n ≤ n') :
    form.Runs n' s ts stop s' := by
  have hnone : ∀ e, (none : Option Stop) = some ⟨e, true⟩ → e.cause ≠ .tooDeep := by simp
  induction h generalizing n' with
  | token hk he hr => exact .token hk he hr
  | mismatch hk => exact .mismatch hk
  | empty => exact .empty
  | seq _ _ ih ih' => exact .seq (ih hnone hle) (ih' hstop hle)
  | seqStopped _ ih => exact .seqStopped (ih hstop hle)
  | yes hl _ ih => exact .yes hl (ih hstop hle)
  | no hl _ ih => exact .no hl (ih hstop hle)
  | done hl => exact .done hl
  | more hl _ _ ih ih' => exact .more hl (ih hnone hle) (ih' hstop hle)
  | moreStopped hl _ ih => exact .moreStopped hl (ih hstop hle)
  | node _ ih => exact .node (ih hstop hle)
  | alone _ hl ih => exact .alone (ih hnone hle) hl
  | suffixed _ hl _ ih ih' => exact .suffixed (ih hnone hle) hl (ih' hstop hle)
  | suffixedStopped _ ih => exact .suffixedStopped (ih hstop hle)
  | nested _ ih =>
    obtain ⟨n', rfl⟩ : ∃ k, n' = k + 1 := ⟨n' - 1, by omega⟩
    exact .nested (ih hstop (by omega))
  | tooDeep => exact absurd rfl (hstop _ rfl)
  | finish hs => exact .finish hs
  | item hs _ _ ih ih' => exact .item hs (ih hnone hle) (ih' hstop hle)
  | damaged hs _ _ ih ih' => exact .damaged hs (ih (by simp) hle) (ih' hstop hle)
  | ruined hs _ ih => exact .ruined hs (ih hstop hle)
  | abandon => exact .abandon

end Form
end CoreLang
