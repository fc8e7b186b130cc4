import CoreLang.Proofs.Source.Stretch
import CoreLang.Source.Cursor

/-! What a cursor reads, told by the text that is still to come: each step takes some text off its
head, and pulls no more of the supply than the cursor's one character of lookahead. -/
namespace CoreLang.Source

namespace Supply
variable {σ : Type} [Supply σ]

def after (s : σ) : Nat → σ
  | 0 => s
  | n + 1 => after (pull s).2 n

def answer (s : σ) (n : Nat) : Option Char := (pull (after s n)).1

/-- A supply that has answered with the head of a text, or with the end for an empty one, goes on with
the rest of this text, and is `spent` once it has reported the end. -/
def Leads (spent : σ) : List Char → σ → Prop
  | [], s => s = spent
  | _ :: rest, s => ∃ s', pull s = (rest.head?, s') ∧ Leads spent rest s'

theorem exists_leads {s : σ} {text : List Char} (h : ∀ n ≤ text.length, answer s n = text[n]?) :
    ∃ s', pull s = (text.head?, s') ∧ Leads (after s (text.length + 1)) text s' := by
  induction text generalizing s with
  | nil => exact ⟨_, Prod.ext (h 0 (Nat.zero_le _)) rfl, rfl⟩
  | cons c text ih =>
    refine ⟨_, Prod.ext (h 0 (Nat.zero_le _)) rfl, ih fun n hn => ?_⟩
    exact h (n + 1) (Nat.succ_le_succ hn)

end Supply

namespace Cursor
variable {σ : Type} [Supply σ]

/-- A cursor on the head of a text leads on to the rest of it, and one behind the text has pulled its
end. -/
def Leads (spent : σ) : List Char → Cursor σ → Prop
  | [], c => c.supply = spent
  | _ :: rest, c => ∃ s, c.next = (rest.head?, s) ∧ Supply.Leads spent rest s

/-- A cursor at `p`, with a text to come. -/
structure Shows (spent : σ) (p : Position) (text : List Char) (c : Cursor σ) : Prop where
  current : c.current = text.head?
  place : (⟨c.place.line, c.place.column + 1⟩ : Position) = p.after (text.take 1)
  leads : c.Leads spent text

variable {spent : σ} {p : Position} {text rest : List Char} {d : Char} {c : Cursor σ}

theorem Leads.report (h : c.Leads spent text) (es : List LexicalError) :
    Leads spent text { c with errors := es } := by
  cases text <;> exact h

/-- All but a line feed stands where the text says. -/
theorem Shows.place_eq (h : c.Shows spent p (d :: rest)) (hd : d ≠ '\n') : c.place = p := by
  have hplace := h.place
  simp only [List.take_succ_cons, List.take_zero, Position.after_cons, Position.after_nil,
    Position.next, hd, ↓reduceIte, Position.mk.injEq, Nat.add_right_cancel_iff] at hplace
  calc
    c.place = ⟨c.place.line, c.place.column⟩ := rfl
    _ = p := by rw [hplace.1, hplace.2]

theorem Shows.peek (h : c.Shows spent p (d :: rest)) :
    c.peek.1 = rest.head? ∧ c.peek.2.Shows spent p (d :: rest) := by
  obtain ⟨s, hnext, hleads⟩ := h.leads
  rw [Cursor.peek, hnext]
  exact ⟨rfl, h.current, h.place, s, rfl, hleads⟩

theorem Shows.advance (h : c.Shows spent p (d :: rest)) :
    c.advance.Shows spent (p.next d) rest := by
  obtain ⟨s, hnext, hleads⟩ := h.leads
  have hplace := h.place
  simp only [List.take_succ_cons, List.take_zero, Position.after_cons, Position.after_nil] at hplace
  rw [Cursor.advance, hnext]
  cases rest with
  | nil => exact ⟨rfl, hplace, hleads⟩
  | cons e rest =>
    refine ⟨rfl, ?_, hleads⟩
    rw [List.take_succ_cons, List.take_zero, Position.after_cons, Position.after_nil, ← hplace]
    by_cases he : e = '\n'
    · subst he
      rfl
    · simp [Position.next, he]

/-- A supply that answers with a text and its end shows this text from its first character on. -/
theorem ofSupply_shows {s : σ} (h : ∀ n ≤ text.length, Supply.answer s n = text[n]?) :
    (ofSupply s).Shows (Supply.after s (text.length + 1)) .start text := by
  obtain ⟨s', hpull, hleads⟩ := Supply.exists_leads h
  have hnext : ({ supply := s } : Cursor σ).next = (text.head?, s') := hpull
  rw [ofSupply, Cursor.advance, hnext]
  cases text with
  | nil => exact ⟨rfl, rfl, hleads⟩
  | cons d text =>
    refine ⟨rfl, ?_, hleads⟩
    by_cases hd : d = '\n'
    · subst hd
      rfl
    · simp [Position.next, Position.start, hd]

end Cursor

namespace Pull
variable {σ α β : Type} [Supply σ]

/-- At `p`, with `raw` before `rest` to come, `raw` is taken with the result `a`, and the errors `es`
are noted. -/
def Takes (m : Pull σ α) (spent : σ) (p : Position) (raw rest : List Char) (a : α)
    (es : List LexicalError) : Prop :=
  ∀ c : Cursor σ, c.Shows spent p (raw ++ rest) →
    ∃ c', m.run c = some (a, c') ∧ c'.Shows spent (p.after raw) rest ∧ c'.errors = c.errors ++ es

variable {spent : σ} {p : Position} {raw raw' rest text : List Char} {d : Char} {a : α} {b : β}
  {es es' : List LexicalError} {m : Pull σ α} {f : α → Pull σ β}

theorem takes_pure (a : α) : (pure a : Pull σ α).Takes spent p [] text a [] := fun c hc =>
  ⟨c, rfl, hc, (List.append_nil _).symm⟩

theorem Takes.bind (hm : m.Takes spent p raw (raw' ++ rest) a es)
    (hf : (f a).Takes spent (p.after raw) raw' rest b es') :
    (m >>= f).Takes spent p (raw ++ raw') rest b (es ++ es') := by
  intro c hc
  rw [List.append_assoc] at hc
  obtain ⟨c', hrun, hc', herrors⟩ := hm c hc
  obtain ⟨c'', hrun', hc'', herrors'⟩ := hf c' hc'
  refine ⟨c'', ?_, ?_, ?_⟩
  · rw [StateT.run_bind, hrun]
    exact hrun'
  · rwa [Position.after_append]
  · rw [herrors', herrors, List.append_assoc]

theorem Takes.then (hm : m.Takes spent p [] (raw ++ rest) a []) (hf : (f a).Takes spent p raw rest b es) :
    (m >>= f).Takes spent p raw rest b es := Takes.bind hm hf

theorem takes_current : (current : Pull σ _).Takes spent p [] text text.head? [] := fun c hc =>
  ⟨c, congrArg (fun d => some (d, c)) hc.current, hc, (List.append_nil _).symm⟩

theorem Takes.of_head {f : Option Char → Pull σ β}
    (hf : (f (some d)).Takes spent p (d :: raw) rest b es) :
    (current >>= f).Takes spent p (d :: raw) rest b es := takes_current.then hf

theorem takes_of_stop {f : Option Char → Pull σ β} (hend : f none = pure b)
    (hstop : ∀ d ∈ rest.head?, f (some d) = pure b) :
    (current >>= f).Takes spent p [] rest b [] := by
  refine takes_current.then ?_
  cases rest with
  | nil =>
    rw [List.nil_append, List.head?_nil, hend]
    exact takes_pure b
  | cons d rest =>
    rw [List.nil_append, List.head?_cons, hstop d rfl]
    exact takes_pure b

theorem takes_place (hd : d ≠ '\n') : (place : Pull σ _).Takes spent p [] (d :: rest) p [] :=
  fun c hc => ⟨c, congrArg (fun q => some (q, c)) (hc.place_eq hd), hc, (List.append_nil _).symm⟩

theorem takes_peek : (peek : Pull σ _).Takes spent p [] (d :: rest) rest.head? [] := fun c hc =>
  ⟨c.peek.2, congrArg (fun e => some (e, c.peek.2)) hc.peek.1, hc.peek.2, (List.append_nil _).symm⟩

theorem takes_advance : (advance : Pull σ _).Takes spent p [d] rest () [] := fun c hc =>
  ⟨c.advance, rfl, hc.advance, (List.append_nil _).symm⟩

theorem Takes.advance_then {f : Unit → Pull σ β} (hf : (f ()).Takes spent (p.next d) raw rest b es) :
    (advance >>= f).Takes spent p (d :: raw) rest b es := takes_advance.bind hf

theorem takes_report (e : LexicalError) : (report e : Pull σ _).Takes spent p [] text () [e] :=
  fun c hc => ⟨{ c with errors := c.errors ++ [e] }, rfl, ⟨hc.current, hc.place, hc.leads.report _⟩, rfl⟩

theorem Takes.finish (hm : m.Takes spent p raw rest a es)
    (hf : (f a).Takes spent (p.after raw) [] rest b es') :
    (m >>= f).Takes spent p raw rest b (es ++ es') := by
  have h : (m >>= f).Takes spent p (raw ++ []) rest b (es ++ es') := Takes.bind hm hf
  rwa [List.append_nil] at h

theorem Takes.map (hm : m.Takes spent p raw rest a es) (g : α → β) :
    (m >>= fun a => pure (g a)).Takes spent p raw rest (g a) es := by
  have h := hm.finish (f := fun a => pure (g a)) (takes_pure (g a))
  rwa [List.append_nil] at h

section Loops
variable {loop : α → Pull σ (α ⊕ β)} {step : Pull σ (α ⊕ β)} {items before : List α}

theorem takes_gatherOne_inl (hstep : step.Takes spent p raw rest (.inl a) es) :
    (gatherOne step before).Takes spent p raw rest (.inl (before ++ [a])) es := by
  rw [← List.append_nil es]
  exact hstep.finish (takes_pure _)

theorem takes_gatherOne_inr (hstep : step.Takes spent p raw rest (.inr b) es) :
    (gatherOne step before).Takes spent p raw rest (.inr (before, b)) es := by
  rw [← List.append_nil es]
  exact hstep.finish (takes_pure _)

variable [Nonempty β]

/-- A loop goes on from where its step leaves off. -/
theorem Takes.again {a' : α} (hstep : (loop a).Takes spent p raw (raw' ++ rest) (.inl a') es)
    (hloop : (repeatM loop a').Takes spent (p.after raw) raw' rest b es') :
    (repeatM loop a).Takes spent p (raw ++ raw') rest b (es ++ es') := by
  intro c hc
  have : Nonempty (Cursor σ) := ⟨c⟩
  rw [repeatM_eq_of_monadTail]
  exact hstep.bind hloop c hc

theorem Takes.done (hstep : (loop a).Takes spent p raw rest (.inr b) es) :
    (repeatM loop a).Takes spent p raw rest b es := by
  intro c hc
  have : Nonempty (Cursor σ) := ⟨c⟩
  rw [repeatM_eq_of_monadTail, ← List.append_nil es]
  exact hstep.finish (takes_pure b) c hc

/-- A step is made again and again, up to the time it comes to something else. -/
inductive Gathers (step : Pull σ (α ⊕ β)) (spent : σ) (rest : List Char) :
    Position → List Char → List α → β → List LexicalError → Prop
  | done {p : Position} {raw : List Char} {b : β} {es : List LexicalError}
    (hstep : step.Takes spent p raw rest (.inr b) es) : Gathers step spent rest p raw [] b es
  | again {p : Position} {raw raw' : List Char} {a : α} {items : List α} {b : β}
    {es es' : List LexicalError} (hstep : step.Takes spent p raw (raw' ++ rest) (.inl a) es)
    (hmore : Gathers step spent rest (p.after raw) raw' items b es') :
    Gathers step spent rest p (raw ++ raw') (a :: items) b (es ++ es')

theorem Gathers.takes (h : Gathers step spent rest p raw items b es) :
    (gather step).Takes spent p raw rest (items, b) es := by
  suffices hfrom : ∀ before, (repeatM (gatherOne step) before).Takes spent p raw rest
    (before ++ items, b) es from hfrom []
  induction h with
  | done hstep =>
    intro before
    rw [List.append_nil]
    exact (takes_gatherOne_inr hstep).done
  | @again p raw raw' a items b es es' hstep hmore ih =>
    intro before
    have ih := ih (before ++ [a])
    rw [List.append_assoc] at ih
    exact (takes_gatherOne_inl hstep).again ih

end Loops

theorem takes_takeOne {q : Char → Bool} (hd : q d = true) :
    (takeOne q : Pull σ _).Takes spent p [d] rest (.inl d) [] := by
  rw [takeOne]
  refine Takes.of_head ?_
  simp only [hd, ↓reduceIte]
  exact (takes_pure (Sum.inl d)).advance_then

theorem takes_takeOne_end {q : Char → Bool} (hout : ∀ c ∈ rest.head?, q c = false) :
    (takeOne q : Pull σ _).Takes spent p [] rest (.inr ()) [] := by
  rw [takeOne]
  exact takes_of_stop rfl fun d hd => by simp only [hout d hd, Bool.false_eq_true, ↓reduceIte]

theorem takes_takeWhile_of_head {q : Char → Bool} (hin : ∀ c ∈ raw, q c = true)
    (hout : ∀ c ∈ rest.head?, q c = false) :
    (takeWhile q : Pull σ _).Takes spent p raw rest raw [] := by
  have hgathers : Gathers (takeOne q) spent rest p raw raw () [] := by
    induction raw generalizing p with
    | nil => exact .done (takes_takeOne_end hout)
    | cons c raw ih =>
      obtain ⟨hc, hin⟩ := List.forall_mem_cons.1 hin
      exact .again (takes_takeOne hc) (ih hin)
  exact hgathers.takes.map _

theorem takes_takeWhile (q : Char → Bool) (text : List Char) :
    (takeWhile q : Pull σ _).Takes spent p (text.takeWhile q) (text.dropWhile q) (text.takeWhile q)
      [] :=
  takes_takeWhile_of_head (fun _ => List.mem_takeWhile_imp) fun _ => not_of_mem_head?_dropWhile

theorem takes_takeUpTo {q : Char → Bool} {n : Nat} (hin : ∀ c ∈ raw, q c = true)
    (hlength : raw.length ≤ n) (hout : raw.length = n ∨ ∀ c ∈ rest.head?, q c = false) :
    (takeUpTo q n : Pull σ _).Takes spent p raw rest raw [] := by
  induction n generalizing raw p with
  | zero =>
    obtain rfl := List.eq_nil_of_length_eq_zero (Nat.le_zero.1 hlength)
    exact takes_pure []
  | succ n ih =>
    rw [takeUpTo]
    cases raw with
    | nil =>
      have hout := hout.resolve_left (by simp)
      exact takes_of_stop rfl fun d hd => by simp only [hout d hd, Bool.false_eq_true, ↓reduceIte]
    | cons c raw =>
      obtain ⟨hc, hin⟩ := List.forall_mem_cons.1 hin
      simp only [List.length_cons, Nat.add_le_add_iff_right, Nat.add_right_cancel_iff] at hlength hout
      refine Takes.of_head ?_
      simp only [hc, ↓reduceIte]
      exact ((ih hin hlength hout).map _).advance_then

end Pull
end CoreLang.Source
