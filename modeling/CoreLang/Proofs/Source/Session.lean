import CoreLang.Proofs.Source.Pull
import CoreLang.Source.Session

/-! A supply is pulled for its text and for one end, however often its tokens are asked for. -/
namespace CoreLang.Source

namespace Pull
variable {σ : Type} [Supply σ] {spent : σ} {p : Position}

/-- The answers to some number of requests for the tokens. -/
def requests : Nat → Pull σ (List (List Token))
  | 0 => return []
  | n + 1 => do
    let answer ← tokens
    return answer :: (← requests n)

theorem takes_requests_end (n : Nat) :
    (requests n : Pull σ _).Takes spent p [] [] (List.replicate n [.endMarker p]) [] := by
  induction n with
  | zero => exact takes_pure []
  | succ n ih =>
    have htokens : (tokens : Pull σ _).Takes spent p [] [] _ _ := takes_tokens p []
    rw [tokensFrom_of_gap rfl] at htokens
    exact htokens.then (ih.map _)

theorem takes_requests (n : Nat) (text : List Char) :
    (requests (n + 1) : Pull σ _).Takes spent .start text []
      ((Lexed.ofChars text).tokens :: List.replicate n [.endMarker (Position.start.after text)])
      (Lexed.ofChars text).errors := by
  rw [← List.append_nil (Lexed.ofChars text).errors]
  exact (takes_tokens .start text).finish ((takes_requests_end n).map _)

/-- However often a supply is asked for its tokens, it is pulled once for each character of its text and
once for the end of it. The first answer is what the text says, and every later one its end. -/
theorem requests_ofSupply (source : σ) (text : List Char)
    (htext : ∀ n ≤ text.length, Supply.answer source n = text[n]?) (n : Nat) :
    ∃ c : Cursor σ, (requests (n + 1)).run (.ofSupply source) =
        some ((Lexed.ofChars text).tokens ::
          List.replicate n [.endMarker (Position.start.after text)], c) ∧
      c.supply = Supply.after source (text.length + 1) ∧ c.errors = (Lexed.ofChars text).errors := by
  have hstart : (Cursor.ofSupply source).Shows (Supply.after source (text.length + 1)) .start
      (text ++ []) := by
    rw [List.append_nil]
    exact Cursor.ofSupply_shows htext
  obtain ⟨c, hrun, hshows, herrors⟩ := takes_requests n text _ hstart
  exact ⟨c, hrun, hshows.leads, herrors⟩

/-- Whatever comes after the end of a text, it is not pulled. -/
theorem requests_ofSupply_slash :
    (∀ n ≤ 1, Supply.answer (Feed.mk [some '/', none, some '/'] 0) n = ['/'][n]?) ∧
      ∃ c : Cursor Feed, (requests 2).run (.ofSupply ⟨[some '/', none, some '/'], 0⟩) =
          some ([[⟨.divide, "/", ⟨1, 1⟩⟩, .endMarker ⟨1, 2⟩], [.endMarker ⟨1, 2⟩]], c) ∧
        c.supply = ⟨[some '/'], 2⟩ ∧ c.errors = [] := by
  have htext : ∀ n ≤ 1, Supply.answer (Feed.mk [some '/', none, some '/'] 0) n = ['/'][n]? := by
    decide
  have htokens : (Lexed.ofChars ['/']) = ⟨[⟨.divide, "/", ⟨1, 1⟩⟩, .endMarker ⟨1, 2⟩], []⟩ := by
    decide +kernel
  have h := requests_ofSupply (Feed.mk [some '/', none, some '/'] 0) ['/'] htext 1
  rw [htokens] at h
  exact ⟨htext, h⟩

end Pull

namespace Feed

def text (f : Feed) : List Char := (f.pending.takeWhile Option.isSome).filterMap id

theorem after_eq (f : Feed) (n : Nat) : Supply.after f n = ⟨f.pending.drop n, f.pulls + n⟩ := by
  induction n generalizing f with
  | zero => rfl
  | succ n ih =>
    rw [Supply.after, ih]
    obtain ⟨pending, pulls⟩ := f
    cases pending with
    | nil => simp [Supply.pull, pull, Nat.add_right_comm, Nat.add_assoc]
    | cons c rest => simp [Supply.pull, pull, Nat.add_right_comm, Nat.add_assoc]

theorem answer_text (f : Feed) : ∀ n ≤ f.text.length, Supply.answer f n = f.text[n]? := by
  obtain ⟨pending, pulls⟩ := f
  induction pending generalizing pulls with
  | nil =>
    intro n hn
    obtain rfl := Nat.le_zero.1 hn
    rfl
  | cons c rest ih =>
    intro n hn
    cases c with
    | none =>
      obtain rfl := Nat.le_zero.1 hn
      rfl
    | some d =>
      cases n with
      | zero => rfl
      | succ n => exact ih (pulls + 1) n (Nat.le_of_succ_le_succ hn)

end Feed

namespace Session

def answers (s : Session) : Nat → List (List Token) × Session
  | 0 => ([], s)
  | n + 1 => (s.tokens.1 :: (s.tokens.2.answers n).1, (s.tokens.2.answers n).2)

theorem answers_eq {s : Session} {n : Nat} {tokens : List (List Token)} {c : Cursor Feed}
    (h : (Pull.requests n).run s.cursor = some (tokens, c)) :
    s.answers n = (tokens, { s with cursor := c }) := by
  induction n generalizing s tokens c with
  | zero =>
    obtain ⟨rfl, rfl⟩ := Prod.mk.inj (Option.some.inj h)
    rfl
  | succ n ih =>
    rw [Pull.requests, StateT.run_bind] at h
    obtain ⟨answer, hanswer, h⟩ := Option.bind_eq_some_iff.1 h
    rw [StateT.run_bind] at h
    obtain ⟨later, hlater, h⟩ := Option.bind_eq_some_iff.1 h
    obtain ⟨rfl, rfl⟩ := Prod.mk.inj (Option.some.inj h)
    have hs : s.tokens = (answer.1, { s with cursor := answer.2 }) := by
      rw [Session.tokens, hanswer]
    have hrest := ih (s := { s with cursor := answer.2 }) hlater
    rw [answers, hs, hrest]

/-- A session has the tokens and errors of its feed's text, and pulls once more than this text has
characters. -/
theorem answers_feed (feed : Feed) (n : Nat) :
    ∃ s, ({ feed } : Session).answers (n + 1) = ((Lexed.ofChars feed.text).tokens ::
        List.replicate n [.endMarker (Position.start.after feed.text)], s) ∧
      s.errors = (Lexed.ofChars feed.text).errors ∧
      s.cursor.supply.pulls = feed.pulls + (feed.text.length + 1) := by
  have hstart : (Cursor.ofSupply feed).Shows (Supply.after feed (feed.text.length + 1)) .start
      (feed.text ++ []) := by
    rw [List.append_nil]
    exact Cursor.ofSupply_shows feed.answer_text
  obtain ⟨c, hrun, hshows, herrors⟩ := Pull.takes_requests n feed.text _ hstart
  have hsupply : c.supply = Supply.after feed (feed.text.length + 1) := hshows.leads
  exact ⟨_, answers_eq hrun, herrors, congrArg Feed.pulls (hsupply.trans (feed.after_eq _))⟩

end Session
end CoreLang.Source
