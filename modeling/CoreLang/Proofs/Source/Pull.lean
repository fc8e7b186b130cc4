import CoreLang.Proofs.Source.Cursor
import CoreLang.Proofs.Source.Numeral
import CoreLang.Proofs.Source.Sequence
import CoreLang.Source.Pull

/-! Reading a supply takes what the scans cut off: each reader takes the text of its piece and no more,
with the token and the error of this piece. -/
namespace CoreLang.Source
open Text (Quote)
open Literal (Mark)

namespace Pull
variable {σ : Type} [Supply σ] {spent : σ} {p : Position} {gap raw rest : List Char} {c : Char}

theorem takes_skipOne_end (hstop : ∀ c tail, rest = c :: tail → StartsPiece c tail) :
    (skipOne : Pull σ _).Takes spent p [] rest (.inr ()) [] := by
  rw [skipOne]
  refine takes_current.then ?_
  cases rest with
  | nil => exact takes_pure _
  | cons d rest =>
    obtain ⟨hblank, hslashes⟩ := hstop d rest rfl
    simp only [List.nil_append, List.head?_cons, hblank, Bool.false_eq_true, ↓reduceIte]
    split
    · next hd =>
      refine takes_peek.then ?_
      rw [if_neg fun hslash => hslashes ⟨hd, hslash⟩]
      exact takes_pure _
    · exact takes_pure _

theorem takes_skipOne_blank (hblank : Text.isBlank c = true) :
    (skipOne : Pull σ _).Takes spent p [c] rest (.inl ()) [] := by
  rw [skipOne]
  refine Takes.of_head ?_
  simp only [hblank, ↓reduceIte]
  exact (takes_pure (Sum.inl ())).advance_then

theorem takes_skipOne_comment (hline : '\n' ∉ raw) (hhead : ∀ c ∈ rest.head?, c = '\n') :
    (skipOne : Pull σ _).Takes spent p ('/' :: '/' :: raw) rest (.inl ()) [] := by
  have hslash : Text.isBlank '/' = false := by decide
  have hin : ∀ c ∈ '/' :: '/' :: raw, decide (c ≠ '\n') = true := by
    simp only [List.forall_mem_cons, decide_eq_true_eq]
    exact ⟨by decide, by decide, fun c hc => ne_of_mem_of_not_mem hc hline⟩
  have hout : ∀ c ∈ rest.head?, decide (c ≠ '\n') = false := by
    simpa using hhead
  rw [skipOne]
  refine Takes.of_head ?_
  simp only [hslash, Bool.false_eq_true, ↓reduceIte]
  refine takes_peek.then ?_
  rw [if_pos (by rfl)]
  exact (takes_takeWhile_of_head hin hout).map _

theorem takes_skipGap (hgap : IsGap rest gap)
    (hstop : ∀ c tail, rest = c :: tail → StartsPiece c tail) :
    (skipGap : Pull σ _).Takes spent p gap rest () [] := by
  have hgathers : ∃ items, Gathers skipOne spent rest p gap items () [] := by
    induction hgap generalizing p with
    | nil => exact ⟨_, .done (takes_skipOne_end hstop)⟩
    | blank hblank _ ih =>
      obtain ⟨items, hmore⟩ := ih
      exact ⟨_, .again (takes_skipOne_blank hblank) hmore⟩
    | @comment line gap hline hhead _ ih =>
      obtain ⟨items, hmore⟩ := ih
      exact ⟨_, .again (takes_skipOne_comment hline hhead) hmore⟩
  obtain ⟨items, hgathers⟩ := hgathers
  exact hgathers.takes.map _

theorem takes_faulty (f : Fault) (raw : List Char) (start found : Position) :
    (faulty f raw start found : Pull σ _).Takes spent p [] rest
      ⟨f.tokenKind, String.ofList raw, start⟩ [⟨f, found⟩] :=
  (takes_report _).map _

/-- A reader of tokens that takes the piece of a scan, and notes its fault. -/
def TakesPiece (m : Pull σ Token) (spent : σ) (p : Position) (s : Scan) : Prop :=
  m.Takes spent p s.raw s.rest (Piece.place p ⟨[], s.raw, s.reading⟩).1
    (Piece.place p ⟨[], s.raw, s.reading⟩).2.toList

theorem takes_judged {q : Position} {r : Reading} (h : ∀ f offset, r = .fault f offset → offset = 0) :
    (judged raw p r : Pull σ _).Takes spent q [] rest (Piece.place p ⟨[], raw, r⟩).1
      (Piece.place p ⟨[], raw, r⟩).2.toList := by
  cases r with
  | token kind lexeme => exact takes_pure _
  | fault f offset =>
    obtain rfl := h f offset rfl
    have hplace : (if f.movesToken then p else p) = p := ite_self p
    simp only [judged, Piece.place, List.take_zero, Position.after_nil, hplace]
    exact takes_faulty f raw p p

theorem takes_word (text : List Char) :
    (word p : Pull σ _).TakesPiece spent p (Word.scan text) := by
  refine (takes_takeWhile Word.isMember text).finish (takes_judged fun f offset h => ?_)
  unfold Word.read at h
  split at h <;> cases h
  rfl

/-- The digits that are read as the group behind a separator, and what comes after them. -/
theorem exists_group (text : List Char) : ∃ group tail, group ++ tail = text ∧
    (∀ c ∈ group, c.isDigit = true) ∧ group.length ≤ Limits.groupLength ∧
    (group.length = Limits.groupLength ∨ ∀ c ∈ tail.head?, c.isDigit = false) ∧
    (Numeral.groupFollows text = true ↔
      ¬(group.length ≠ Limits.groupLength ∨ tail.head?.any Char.isDigit = true)) := by
  have hdigits : ∀ c ∈ text.takeWhile Char.isDigit, c.isDigit = true := fun _ => List.mem_takeWhile_imp
  have hnext : ∀ c ∈ (text.dropWhile Char.isDigit).head?, c.isDigit = false := fun _ =>
    not_of_mem_head?_dropWhile
  rw [Numeral.groupFollows, decide_eq_true_iff]
  rcases Nat.lt_or_ge Limits.groupLength (text.takeWhile Char.isDigit).length with hlong | hshort
  · refine ⟨(text.takeWhile Char.isDigit).take Limits.groupLength,
      (text.takeWhile Char.isDigit).drop Limits.groupLength ++ text.dropWhile Char.isDigit, ?_,
      fun c hc => hdigits c (List.mem_of_mem_take hc), List.length_take_le _ _,
      .inl (List.length_take_of_le hlong.le), iff_of_false hlong.ne' (not_not.2 (.inr ?_))⟩
    · rw [← List.append_assoc, List.take_append_drop, List.takeWhile_append_dropWhile]
    · rw [List.head?_append, List.head?_drop, List.getElem?_eq_getElem hlong]
      exact hdigits _ (List.getElem_mem hlong)
  · have hany : ¬(text.dropWhile Char.isDigit).head?.any Char.isDigit = true := fun h => by
      obtain ⟨d, hd, hdigit⟩ := (Option.any_eq_true _ _).1 h
      rw [hnext d hd] at hdigit
      cases hdigit
    refine ⟨_, _, List.takeWhile_append_dropWhile, hdigits, hshort, .inr hnext, ?_⟩
    rw [not_or, not_not]
    exact (and_iff_left hany).symm

/-- A reader that goes on with the sound part of a numeral, and takes of what breaks it no more than
the characters of a group. -/
def TakesSound (m : Pull σ SoundEnd) (spent : σ) (p : Position) (before : List Char)
    (s : Numeral.Split) : Prop :=
  ∃ group tail broken, group ++ tail = s.rest ∧
    m.Takes spent p (s.read ++ group) tail (before ++ s.read, broken) [] ∧
    if s.sound then group = [] ∧ broken = none
    else broken = some (p.after s.read, group) ∧ ∀ c ∈ group, Numeral.isMember c = true

section Sound
variable {before : List Char} {point : Bool} {tail : List Char}

theorem takesSound_digit (hc : c.isDigit = true ∨ c = '.' ∧ point = false)
    (ih : (soundFrom (before ++ [c], point || decide (c = '.')) : Pull σ _).TakesSound spent
      (p.after [c]) (before ++ [c]) (Numeral.split (point || decide (c = '.')) rest)) :
    (soundFrom (before, point) : Pull σ _).TakesSound spent p before
      (Numeral.split point (c :: rest)) := by
  have hsplit : Numeral.split point (c :: rest) =
      (Numeral.split (point || decide (c = '.')) rest).cons c := by
    rcases hc with hdigit | ⟨rfl, rfl⟩
    · simp [Numeral.split_digit hdigit, Numeral.ne_point_of_isDigit hdigit]
    · exact Numeral.split_point
  obtain ⟨group, tail, broken, happend, htakes, hbroken⟩ := ih
  have hone (next : List Char) : (soundOne (before, point) : Pull σ _).Takes spent p [c] next
      (.inl (before ++ [c], point || decide (c = '.'))) [] := by
    rw [soundOne]
    refine Takes.of_head ?_
    simp only [hc, ↓reduceIte]
    exact Takes.advance_then (takes_pure (Sum.inl (before ++ [c], point || decide (c = '.'))))
  rw [List.append_assoc] at htakes
  rw [hsplit]
  exact ⟨group, tail, broken, happend, (hone _).again htakes, hbroken⟩

theorem takesSound_end (hstop : ∀ c ∈ rest.head?, Numeral.continues point c = false) :
    (soundFrom (before, point) : Pull σ _).TakesSound spent p before
      (Numeral.split point rest) := by
  have hone : (soundOne (before, point) : Pull σ _).Takes spent p [] rest
      (.inr (before ++ [], none)) [] := by
    rw [List.append_nil, soundOne]
    refine takes_of_stop rfl fun c hc => ?_
    obtain ⟨hstep, hsep⟩ : ¬(c.isDigit = true ∨ c = '.' ∧ point = false) ∧
        ¬Numeral.isSeparator c = true := by
      simpa [Numeral.continues] using hstop c hc
    simp only [hstep, hsep, Bool.false_eq_true, ↓reduceIte]
  rw [Numeral.split_of_not_continues hstop]
  exact ⟨[], rest, none, rfl, hone.done, rfl, rfl⟩

variable (hc : Numeral.isSeparator c = true)
include hc

theorem not_step_of_isSeparator : ¬(c.isDigit = true ∨ c = '.' ∧ point = false) := by
  rintro (hdigit | ⟨hpoint, -⟩)
  · rw [Numeral.not_isDigit_of_isSeparator hc] at hdigit
    cases hdigit
  · exact Numeral.ne_point_of_isSeparator hc hpoint

theorem ne_lineFeed_of_isSeparator : c ≠ '\n' := by
  rintro rfl
  exact absurd hc (by decide)

/-- A separator is taken with the digits after it. -/
theorem takes_soundOne_separator (hdigits : ∀ d ∈ raw, d.isDigit = true)
    (hlength : raw.length ≤ Limits.groupLength)
    (hout : raw.length = Limits.groupLength ∨ ∀ d ∈ tail.head?, d.isDigit = false) :
    (soundOne (before, point) : Pull σ _).Takes spent p (c :: raw) tail
      (if raw.length ≠ Limits.groupLength ∨ tail.head?.any Char.isDigit = true then
        .inr (before, some (p, c :: raw)) else .inl (before ++ c :: raw, point)) [] := by
  rw [soundOne]
  refine Takes.of_head ?_
  simp only [not_step_of_isSeparator hc, hc, ↓reduceIte]
  refine (takes_place (ne_lineFeed_of_isSeparator hc)).then (Takes.advance_then ?_)
  refine (takes_takeUpTo hdigits hlength hout).finish (takes_current.then ?_)
  rw [List.nil_append]
  split
  · exact takes_pure _
  · exact takes_pure _

theorem takesSound_group (hdigits : ∀ d ∈ raw, d.isDigit = true)
    (hgroup : ¬(raw.length ≠ Limits.groupLength ∨ tail.head?.any Char.isDigit = true))
    (hfollows : Numeral.groupFollows (raw ++ tail) = true)
    (ih : (soundFrom (before ++ c :: raw, point) : Pull σ _).TakesSound spent
      (p.after (c :: raw)) (before ++ c :: raw) (Numeral.split point tail)) :
    (soundFrom (before, point) : Pull σ _).TakesSound spent p before
      (Numeral.split point (c :: (raw ++ tail))) := by
  have hlength := not_not.1 (not_or.1 hgroup).1
  have hsplit : Numeral.split point (c :: (raw ++ tail)) =
      ⟨c :: raw ++ (Numeral.split point tail).read, (Numeral.split point tail).sound,
        (Numeral.split point tail).rest⟩ := by
    rw [Numeral.split_group hc hfollows, Numeral.split_digits hdigits]
    rfl
  have hone : (soundOne (before, point) : Pull σ _).Takes spent p (c :: raw) tail _ [] :=
    takes_soundOne_separator hc hdigits hlength.le (.inl hlength)
  obtain ⟨group, tail', broken, happend, htakes, hbroken⟩ := ih
  have htail : (Numeral.split point tail).read ++ group ++ tail' = tail := by
    rw [List.append_assoc, happend, Numeral.split_append]
  rw [if_neg hgroup, ← htail] at hone
  rw [List.append_assoc] at htakes
  rw [← Position.after_append] at hbroken
  have hagain := hone.again htakes
  rw [← List.append_assoc (c :: raw)] at hagain
  rw [hsplit]
  exact ⟨group, tail', broken, happend, hagain, hbroken⟩

theorem takesSound_broken (hdigits : ∀ d ∈ raw, d.isDigit = true)
    (hlength : raw.length ≤ Limits.groupLength)
    (hout : raw.length = Limits.groupLength ∨ ∀ d ∈ tail.head?, d.isDigit = false)
    (hgroup : raw.length ≠ Limits.groupLength ∨ tail.head?.any Char.isDigit = true) :
    (soundFrom (before, point) : Pull σ _).TakesSound spent p before
      ⟨[], false, c :: (raw ++ tail)⟩ := by
  have hone : (soundOne (before, point) : Pull σ _).Takes spent p (c :: raw) tail _ [] :=
    takes_soundOne_separator hc hdigits hlength hout
  have hmember : ∀ d ∈ c :: raw, Numeral.isMember d = true :=
    List.forall_mem_cons.2 ⟨Numeral.isMember_of_isSeparator hc,
      fun d hd => Numeral.isMember_of_isDigit (hdigits d hd)⟩
  rw [if_pos hgroup] at hone
  refine ⟨c :: raw, tail, some (p, c :: raw), rfl, ?_, rfl, hmember⟩
  rw [List.append_nil]
  exact hone.done

end Sound

theorem takesSound (before : List Char) (point : Bool) (p : Position) (text : List Char) :
    (soundFrom (before, point) : Pull σ _).TakesSound spent p before
      (Numeral.split point text) := by
  -- A group is taken as a whole, so that what follows it is not the tail of the text.
  match text with
  | [] => exact takesSound_end (fun _ h => by cases h)
  | c :: rest =>
    by_cases hdigit : c.isDigit = true ∨ c = '.' ∧ point = false
    · exact takesSound_digit hdigit (takesSound _ _ _ rest)
    by_cases hc : Numeral.isSeparator c = true
    · obtain ⟨group, tail, rfl, hdigits, hlength, hout, hgroup⟩ := exists_group rest
      by_cases hfollows : Numeral.groupFollows (group ++ tail) = true
      · exact takesSound_group hc hdigits (hgroup.1 hfollows) hfollows (takesSound _ _ _ tail)
      · rw [Numeral.split_of_not_groupFollows hc (Bool.eq_false_iff.2 hfollows)]
        exact takesSound_broken hc hdigits hlength hout (not_not.1 fun h => hfollows (hgroup.2 h))
    · refine takesSound_end fun d hd => ?_
      obtain rfl := Option.some.inj hd
      simpa [Numeral.continues, hc] using hdigit
termination_by text.length

theorem takes_numeral (text : List Char) :
    (numeral p : Pull σ _).TakesPiece spent p (Numeral.scan text) := by
  obtain ⟨group, tail, broken, happend, htakes, hbroken⟩ :
      (soundFrom ([], false) : Pull σ _).TakesSound spent p [] _ := takesSound [] false p text
  generalize hsplit : Numeral.split false text = s at happend htakes hbroken
  obtain ⟨read, sound, rest⟩ := s
  obtain rfl := happend
  cases sound with
  | true =>
    obtain ⟨rfl, rfl⟩ := hbroken
    rw [List.append_nil] at htakes
    rw [Numeral.scan_of_sound hsplit]
    exact htakes.finish (takes_pure _)
  | false =>
    obtain ⟨rfl, hmember⟩ := hbroken
    rw [Numeral.scan_of_unsound hsplit, TakesPiece, List.takeWhile_append_of_pos hmember,
      List.dropWhile_append_of_pos hmember]
    have hplace : p.after ((read ++ (group ++ tail.takeWhile Numeral.isMember)).take read.length) =
        p.after read := by
      rw [List.take_left]
    simp only [Piece.place, Fault.movesToken, ↓reduceIte, hplace]
    rw [← List.append_assoc]
    rw [← List.takeWhile_append_dropWhile (p := Numeral.isMember) (l := tail)] at htakes
    exact htakes.bind ((takes_takeWhile Numeral.isMember tail).finish (takes_faulty _ _ _ _))

/-- Units with the places at which they stand, one after another. -/
def placed (p : Position) : List Mark → List (Mark × Position)
  | [] => []
  | m :: marks => (m, p) :: placed (p.after m.raw) marks

theorem map_fst_placed (p : Position) (marks : List Mark) : (placed p marks).map (·.1) = marks := by
  induction marks generalizing p with
  | nil => rfl
  | cons m marks ih => simp only [placed, List.map_cons, ih]

theorem takes_escape {e : Char} (he : e ≠ '\n') :
    (escape : Pull σ _).Takes spent p [e] rest (.escaped e) [] := by
  rw [escape]
  refine Takes.of_head ?_
  simp only [he, ↓reduceIte]
  exact Takes.advance_then (takes_pure (Mark.escaped e))

theorem takes_escape_lineEnd (hline : ∀ d ∈ rest.head?, d = '\n') :
    (escape : Pull σ _).Takes spent p [] rest (.plain '\\') [] := by
  rw [escape]
  exact takes_of_stop rfl fun d hd => by simp only [hline d hd, ↓reduceIte]

section Marks
variable {quote : Quote} {m : Mark}

theorem takes_markOne (hline : c ≠ '\n') (hquote : c ≠ quote.char)
    (hmark : (mark c : Pull σ _).Takes spent (p.next c) raw rest m []) :
    (markOne quote : Pull σ _).Takes spent p (c :: raw) rest (.inl (m, p)) [] := by
  rw [markOne]
  refine Takes.of_head ?_
  simp only [hline, hquote, ↓reduceIte]
  exact (takes_place hline).then (hmark.map _).advance_then

theorem takes_markOne_lineEnd (hline : ∀ d ∈ rest.head?, d = '\n') :
    (markOne quote : Pull σ _).Takes spent p [] rest (.inr false) [] := by
  rw [markOne]
  exact takes_of_stop rfl fun d hd => by simp only [hline d hd, ↓reduceIte]

theorem takes_markOne_quote :
    (markOne quote : Pull σ _).Takes spent p [quote.char] rest (.inr true) [] := by
  have hline : quote.char ≠ '\n' := by cases quote <;> decide
  rw [markOne]
  refine Takes.of_head ?_
  simp only [hline, ↓reduceIte]
  exact (takes_place hline).then (takes_pure (Sum.inr true)).advance_then

end Marks

/-- The units of a split are gathered with their places, and what is found after them. -/
theorem gathers_markOne (quote : Quote) (p : Position) (text : List Char) :
    Gathers (markOne quote : Pull σ _) spent (Literal.split quote text).rest p
      ((Literal.split quote text).marks.flatMap Mark.raw ++
        if (Literal.split quote text).closed then [quote.char] else [])
      (placed p (Literal.split quote text).marks) (Literal.split quote text).closed [] := by
  have hback := (Literal.Quote.char_ne_backslash quote).symm
  fun_induction Literal.split quote text generalizing p with
  | case1 => exact .done (takes_markOne_lineEnd fun _ hd => by cases hd)
  | case2 rest =>
    have hend : ∀ d ∈ ('\n' :: rest).head?, d = '\n' := fun d hd => (Option.some.inj hd).symm
    exact .again (takes_markOne (by decide) hback (takes_escape_lineEnd hend))
      (.done (takes_markOne_lineEnd hend))
  | case3 c rest hc ih =>
    simp only [Literal.Split.cons, List.flatMap_cons, List.append_assoc]
    exact .again (takes_markOne (by decide) hback (takes_escape hc)) (ih _)
  | case4 rest => exact .done (takes_markOne_lineEnd fun d hd => (Option.some.inj hd).symm)
  | case5 => exact .done takes_markOne_quote
  | case6 c rest hescape hc hquote ih =>
    simp only [Literal.Split.cons, List.flatMap_cons, List.append_assoc]
    refine .again (takes_markOne hc hquote ?_) (ih _)
    unfold mark
    split
    · next hc' =>
      subst hc'
      cases rest with
      | nil => exact takes_escape_lineEnd fun _ hd => by cases hd
      | cons d rest => exact (hescape d rest rfl rfl).elim
    · exact takes_pure _

theorem badEscape?_placed (quote : Quote) (start : Position) (before : List Char) (ms : List Mark) :
    badEscape? quote (placed (start.after before) ms) =
      (Literal.badEscape? quote before.length ms).map fun found =>
        (found.1, start.after ((before ++ ms.flatMap Mark.raw).take found.2)) := by
  induction ms generalizing before with
  | nil => rfl
  | cons m ms ih =>
    have ih := ih (before ++ m.raw)
    rw [Position.after_append, List.length_append, List.append_assoc] at ih
    cases m with
    | plain c => exact ih
    | escaped c =>
      simp only [badEscape?, placed, List.findSome?_cons, Literal.badEscape?] at ih ⊢
      cases Text.unescape? quote c with
      | some e => exact ih
      | none => simp

/-- The first bad escape stands where the text up to its backslash leads. -/
theorem badEscape?_marks (quote : Quote) (p : Position) (s : Literal.Split) :
    badEscape? quote (placed (p.after [quote.char]) s.marks) =
      (Literal.badEscape? quote 1 s.marks).map fun found =>
        (found.1, p.after ((s.raw quote).take found.2)) := by
  rw [badEscape?_placed, List.length_singleton]
  refine Option.map_congr fun found hfound => ?_
  have hbounds := Literal.badEscape?_bounds hfound
  have hlength : found.2 ≤ (quote.char :: s.marks.flatMap Mark.raw).length := by
    rw [List.length_cons]
    omega
  rw [List.singleton_append, Literal.Split.raw, ← List.cons_append,
    List.take_append_of_le_length hlength]

theorem takes_literal (quote : Quote) (text : List Char) :
    (literal quote p : Pull σ _).TakesPiece spent p (Literal.scan quote text) := by
  have hmarks : (marks quote : Pull σ _).Takes spent (p.after [quote.char]) _ _ _ _ :=
    (gathers_markOne quote _ text).takes
  have hbad := badEscape?_marks quote p (Literal.split quote text)
  have hscan : Literal.scan quote text = ⟨(Literal.split quote text).raw quote,
      (Literal.split quote text).reading quote, (Literal.split quote text).rest⟩ := rfl
  rw [hscan, literal]
  refine Takes.advance_then (hmarks.finish ?_)
  simp only [map_fst_placed, hbad, Literal.Split.reading]
  split
  · cases Literal.badEscape? quote 1 (Literal.split quote text).marks with
    | some found => exact takes_faulty _ _ _ _
    | none => exact takes_judged fun f offset h => (Literal.fault_of_readValue h).2
  · exact takes_faulty _ _ _ _

theorem takes_symbol (c : Char) (rest : List Char) :
    (symbol c p : Pull σ _).TakesPiece spent p (scanSymbol c rest) := by
  have hpeek : (peek : Pull σ _).Takes spent p []
      ((scanSymbol c rest).raw ++ (scanSymbol c rest).rest) rest.head? [] := by
    rw [(scanSymbol_tiles c rest).2]
    exact takes_peek
  rw [symbol]
  refine hpeek.then ?_
  rw [← Symbol.atHead?_cons]
  unfold scanSymbol
  cases Symbol.atHead? (c :: rest) with
  | some entry => exact (takes_takeUpTo (fun _ _ => rfl) le_rfl (.inl rfl)).finish (takes_pure _)
  | none => exact (takes_faulty _ _ _ _).advance_then

theorem takes_startsNumeral (c : Char) (rest : List Char) :
    (startsNumeral c : Pull σ _).Takes spent p [] (c :: rest) (Numeral.startsAt c rest) [] := by
  rw [startsNumeral, Numeral.startsAt]
  cases c.isDigit with
  | true => exact takes_pure true
  | false =>
    by_cases hc : c = '.'
    · simp only [hc, Bool.false_eq_true, ↓reduceIte, decide_true, Bool.true_and, Bool.false_or]
      exact takes_peek.map _
    · simp only [hc, Bool.false_eq_true, ↓reduceIte, decide_false, Bool.false_and, Bool.false_or]
      exact takes_pure false

theorem takes_token (hc : c ≠ '\n') : (token c : Pull σ _).TakesPiece spent p (scan c rest) := by
  have hplace : (place : Pull σ _).Takes spent p [] ((scan c rest).raw ++ (scan c rest).rest) p [] := by
    rw [(scan_tiles c rest).2]
    exact takes_place hc
  have hnumeral : (startsNumeral c : Pull σ _).Takes spent p []
      ((scan c rest).raw ++ (scan c rest).rest) (Numeral.startsAt c rest) [] := by
    rw [(scan_tiles c rest).2]
    exact takes_startsNumeral c rest
  rw [token]
  refine hplace.then (hnumeral.then ?_)
  unfold scan
  split
  · exact takes_numeral _
  · split
    · exact takes_word _
    · split
      · exact takes_literal .double rest
      · split
        · exact takes_literal .single rest
        · exact takes_symbol c rest

theorem takes_endMarker :
    (endMarker : Pull σ _).Takes spent p [] [] (.endMarker p) [] := by
  intro c hc
  have hplace : (⟨c.place.line, c.place.column + 1⟩ : Position) = p := hc.place
  exact ⟨c, congrArg (fun q => some (Token.endMarker q, c)) hplace, hc, (List.append_nil _).symm⟩

theorem takes_tokenOne_end (hgap : IsGap [] gap) :
    (tokenOne : Pull σ _).Takes spent p gap [] (.inr ()) [] := by
  have hskip : (skipGap : Pull σ _).Takes spent p gap [] () [] :=
    takes_skipGap hgap fun _ _ h => by cases h
  have hcurrent : (current : Pull σ _).Takes spent (p.after gap) [] [] none [] := takes_current
  rw [tokenOne]
  exact hskip.finish (hcurrent.then (takes_pure _))

/-- One token is taken with the gap before its piece. -/
theorem takes_tokenOne (hgap : IsGap (c :: rest) gap) (hstarts : StartsPiece c rest) :
    (tokenOne : Pull σ _).Takes spent p (gap ++ (scan c rest).raw) (scan c rest).rest
      (.inl (Piece.place (p.after gap) ⟨[], (scan c rest).raw, (scan c rest).reading⟩).1)
      (Piece.place (p.after gap) ⟨[], (scan c rest).raw, (scan c rest).reading⟩).2.toList := by
  have hc : c ≠ '\n' := by
    rintro rfl
    exact absurd hstarts.1 (by decide)
  have hskip : (skipGap : Pull σ _).Takes spent p gap ((scan c rest).raw ++ (scan c rest).rest) () [] := by
    rw [(scan_tiles c rest).2]
    refine takes_skipGap hgap fun d tail hd => ?_
    obtain ⟨rfl, rfl⟩ := List.cons.inj hd
    exact hstarts
  have hcurrent : (current : Pull σ _).Takes spent (p.after gap) []
      ((scan c rest).raw ++ (scan c rest).rest) (some c) [] := by
    rw [(scan_tiles c rest).2]
    exact takes_current
  rw [tokenOne]
  exact hskip.bind (hcurrent.then ((takes_token hc).map _))

theorem gathers_tokenOne (p : Position) (text : List Char) :
    Gathers (tokenOne : Pull σ _) spent [] p text ((tokensFrom p text).map (·.1)) ()
      ((tokensFrom p text).filterMap (·.2)) := by
  induction text using tile_induction generalizing p with
  | gap text h =>
    have hgap := isGap_splitGap text
    have happend := splitGap_append false text
    rw [h] at hgap happend
    rw [List.append_nil] at happend
    rw [happend] at hgap
    rw [tokensFrom_of_gap h]
    exact .done (takes_tokenOne_end hgap)
  | piece text c rest h ih =>
    have hgap := isGap_splitGap text
    have happend := splitGap_append false text
    have hstarts := startsPiece_of_splitGap (Prod.ext rfl h)
    rw [h] at hgap happend
    rw [tokensFrom_of_piece h]
    generalize (splitGap false text).1 = gap at hgap happend hstarts ⊢
    subst happend
    have herrors (placed : Token × Option LexicalError) (more : List (Token × Option LexicalError)) :
        (placed :: more).filterMap (·.2) = placed.2.toList ++ more.filterMap (·.2) := by
      cases hplaced : placed.2 <;> simp [hplaced]
    have htoken : (tokenOne : Pull σ _).Takes spent p _ _ _ _ := takes_tokenOne hgap hstarts
    rw [← List.append_nil (scan c rest).rest] at htoken
    have hmore := ih ((p.after gap).after (scan c rest).raw)
    rw [← Position.after_append] at hmore
    have hagain := Gathers.again htoken hmore
    rw [List.append_assoc, (scan_tiles c rest).2] at hagain
    rw [herrors, ← Position.after_append]
    exact hagain

/-- What follows a text is its tokens, its errors and the end marker. -/
theorem takes_tokens (p : Position) (text : List Char) :
    (tokens : Pull σ _).Takes spent p text []
      ((tokensFrom p text).map (·.1) ++ [.endMarker (p.after text)])
      ((tokensFrom p text).filterMap (·.2)) := by
  rw [← List.append_nil ((tokensFrom p text).filterMap (·.2)), tokens]
  exact (gathers_tokenOne p text).takes.finish (takes_endMarker.map _)

end Pull
end CoreLang.Source
