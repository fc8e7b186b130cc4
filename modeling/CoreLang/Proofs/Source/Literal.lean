import CoreLang.Source.Literal

/-! A closed literal does not depend on what follows it, an open one only on whether its line goes
on, and quoted text is read back as the value that it was written for. -/
namespace CoreLang.Source.Literal
open Text (Quote)
variable {quote : Quote} {text next : List Char} {marks : List Mark}

/-- A unit that can stand in a closed literal: not the closing quote, and no line feed in it. -/
def Mark.Inner (quote : Quote) : Mark → Prop
  | plain c => c ≠ '\n' ∧ c ≠ quote.char ∧ c ≠ '\\'
  | escaped c => c ≠ '\n'

theorem Quote.char_ne_backslash (quote : Quote) : quote.char ≠ '\\' := by
  cases quote <;> decide

theorem split_quote : split quote (quote.char :: next) = ⟨[], true, next⟩ := by
  cases quote <;> simp [split, Quote.char]

theorem split_mark {m : Mark} (h : m.Inner quote) :
    split quote (m.raw ++ next) = (split quote next).cons m := by
  cases m with
  | plain c =>
    obtain ⟨hline, hquote, hback⟩ := h
    simp [Mark.raw, split, hline, hquote, hback]
  | escaped c =>
    have hline : c ≠ '\n' := h
    simp [Mark.raw, split, hline]

theorem split_marks (h : ∀ m ∈ marks, m.Inner quote) :
    split quote (marks.flatMap Mark.raw ++ next) =
      { split quote next with marks := marks ++ (split quote next).marks } := by
  induction marks with
  | nil => rfl
  | cons m marks ih =>
    obtain ⟨hm, h⟩ := List.forall_mem_cons.1 h
    rw [List.flatMap_cons, List.append_assoc, split_mark hm, ih h]
    rfl

/-- The units of a closed literal. -/
theorem inner_of_closed (h : (split quote text).closed = true) :
    ∀ m ∈ (split quote text).marks, m.Inner quote := by
  fun_induction split quote text with
  | case1 | case2 | case4 => cases h
  | case3 c rest hc ih => exact List.forall_mem_cons.2 ⟨hc, ih h⟩
  | case5 => exact List.forall_mem_nil _
  | case6 c rest hback hc hquote ih =>
    refine List.forall_mem_cons.2 ⟨⟨hc, hquote, fun hc => ?_⟩, ih h⟩
    cases rest with
    | nil => cases h
    | cons d rest => exact hback d rest hc rfl

theorem rest_of_open (h : (split quote text).closed = false) :
    ∀ d ∈ (split quote text).rest.head?, d = '\n' := by
  fun_induction split quote text with
  | case1 | case2 | case4 => simp
  | case3 _ _ _ ih | case6 _ _ _ _ _ ih => exact ih h
  | case5 => cases h

theorem split_lineEnd (h : ∀ d ∈ next.head?, d = '\n') : split quote next = ⟨[], false, next⟩ := by
  cases next with
  | nil => rfl
  | cons d next =>
    rw [h d rfl]
    simp [split]

theorem split_backslash_lineEnd (h : ∀ d ∈ next.head?, d = '\n') :
    split quote ('\\' :: next) = ⟨[.plain '\\'], false, next⟩ := by
  cases next with
  | nil => simp [split, (Quote.char_ne_backslash quote).symm, Split.cons]
  | cons d next =>
    rw [h d rfl]
    simp [split]

/-- An open literal fills its line, also with a backslash at the end. -/
theorem split_append_of_open (h : (split quote text).closed = false)
    (hnext : ∀ d ∈ next.head?, d = '\n') :
    split quote ((split quote text).marks.flatMap Mark.raw ++ next) =
      ⟨(split quote text).marks, false, next⟩ := by
  fun_induction split quote text with
  | case1 | case4 => exact split_lineEnd hnext
  | case2 => exact split_backslash_lineEnd hnext
  | case3 c rest hc ih =>
    simp only [Split.cons, List.flatMap_cons, List.append_assoc]
    rw [split_mark (m := .escaped c) hc, ih h]
    rfl
  | case5 => cases h
  | case6 c rest hback hc hquote ih =>
    by_cases hc' : c = '\\'
    · cases rest with
      | nil =>
        subst hc'
        exact split_backslash_lineEnd hnext
      | cons d rest => exact (hback d rest hc' rfl).elim
    · simp only [Split.cons, List.flatMap_cons, List.append_assoc]
      rw [split_mark (m := .plain c) ⟨hc, hquote, hc'⟩, ih h]
      rfl

theorem fault_of_readValue {value : List Char} {f : Fault} {offset : Nat}
    (h : readValue quote value = .fault f offset) :
    (f = .emptyCharacter ∨ f = .longCharacter) ∧ offset = 0 := by
  match quote, value with
  | .double, _ => cases h
  | .single, [] => cases h; exact ⟨.inl rfl, rfl⟩
  | .single, [_] => cases h
  | .single, _ :: _ :: _ => cases h; exact ⟨.inr rfl, rfl⟩

/-- Only a literal that is not closed is said to be so. -/
theorem closed_eq_false_of_reading {s : Split} {quote' : Quote} {offset : Nat}
    (h : s.reading quote = .fault (.unterminated quote') offset) : s.closed = false := by
  refine Bool.eq_false_iff.2 fun hclosed => ?_
  rw [Split.reading, if_pos hclosed] at h
  cases hbad : badEscape? quote 1 s.marks with
  | some found => simp [hbad] at h
  | none =>
    rw [hbad] at h
    rcases (fault_of_readValue h).1 with hfault | hfault <;> cases hfault

theorem split_append_of_closed (h : (split quote text).closed = true) :
    split quote ((split quote text).marks.flatMap Mark.raw ++ quote.char :: next) =
      ⟨(split quote text).marks, true, next⟩ := by
  rw [split_marks (inner_of_closed h), split_quote]
  simp

/-- What a literal is does not depend on what follows it, unless it is open and its line goes on. -/
theorem scan_append (hnext : (split quote text).closed = false → ∀ d ∈ next.head?, d = '\n')
    {tail : List Char} (hraw : (scan quote text).raw = quote.char :: tail) :
    scan quote (tail ++ next) = ⟨quote.char :: tail, (scan quote text).reading, next⟩ := by
  have hsplit : split quote (tail ++ next) = { split quote text with rest := next } := by
    obtain rfl := (List.cons.inj hraw).2
    cases hclosed : (split quote text).closed with
    | true => simp [split_append_of_closed hclosed, hclosed]
    | false => simp [split_append_of_open hclosed (hnext hclosed), hclosed]
  rw [← hraw]
  simp only [scan, hsplit]
  rfl

section Value
variable {value : List Char}

theorem badEscape?_eq_none_iff {offset : Nat} :
    badEscape? quote offset marks = none ↔ ∀ m ∈ marks, (m.value? quote).isSome = true := by
  induction marks generalizing offset with
  | nil => simp [badEscape?]
  | cons m marks ih =>
    cases m with
    | plain c => simp [badEscape?, ih, Mark.value?]
    | escaped c =>
      cases hc : Text.unescape? quote c with
      | none => simp [badEscape?, hc, Mark.value?]
      | some e => simp [badEscape?, hc, ih, Mark.value?]

theorem escapeIn_cases (quote : Quote) (c : Char) :
    (∃ e, Text.escapeIn quote c = ['\\', e]) ∨
      Text.escapeIn quote c = [c] ∧ c ≠ '\n' ∧ c ≠ quote.char ∧ c ≠ '\\' := by
  unfold Text.escapeIn
  split
  · exact .inl ⟨c, rfl⟩
  · next hquote =>
    split
    · exact .inl ⟨'n', rfl⟩
    · exact .inl ⟨'t', rfl⟩
    · exact .inl ⟨'r', rfl⟩
    · exact .inl ⟨'\\', rfl⟩
    · next hline _ _ hback => exact .inr ⟨rfl, hline, hquote, hback⟩

/-- Every character has a unit that stands for it. -/
theorem exists_mark (quote : Quote) (c : Char) :
    ∃ m : Mark, m.raw = Text.escapeIn quote c ∧ m.Inner quote ∧ m.value? quote = some c := by
  rcases escapeIn_cases quote c with ⟨e, he⟩ | ⟨hc, hinner⟩
  · have hvalue := Text.unescape?_of_escapeIn he
    refine ⟨.escaped e, he.symm, fun hline => ?_, hvalue⟩
    subst hline
    cases quote <;> cases hvalue
  · exact ⟨.plain c, hc.symm, hinner, rfl⟩

theorem exists_marks (quote : Quote) (value : List Char) :
    ∃ marks : List Mark, marks.flatMap Mark.raw = value.flatMap (Text.escapeIn quote) ∧
      (∀ m ∈ marks, m.Inner quote) ∧ (∀ m ∈ marks, (m.value? quote).isSome = true) ∧
      marks.filterMap (Mark.value? quote) = value := by
  induction value with
  | nil => exact ⟨[], rfl, nofun, nofun, rfl⟩
  | cons c value ih =>
    obtain ⟨m, hraw, hinner, hvalue⟩ := exists_mark quote c
    obtain ⟨marks, hraws, hinners, hsome, hvalues⟩ := ih
    refine ⟨m :: marks, by simp [hraw, hraws], List.forall_mem_cons.2 ⟨hinner, hinners⟩,
      List.forall_mem_cons.2 ⟨by simp [hvalue], hsome⟩, by simp [hvalue, hvalues]⟩

/-- Quoted text is read back as the value that it was written for. -/
theorem scan_quoted (quote : Quote) (value next : List Char) :
    scan quote (value.flatMap (Text.escapeIn quote) ++ quote.char :: next) =
      ⟨Text.quoted quote value, readValue quote value, next⟩ := by
  obtain ⟨marks, hraw, hinner, hsome, hvalue⟩ := exists_marks quote value
  have hsplit : split quote (value.flatMap (Text.escapeIn quote) ++ quote.char :: next) =
      ⟨marks, true, next⟩ := by
    rw [← hraw, split_marks hinner, split_quote]
    simp
  simp [scan, hsplit, Split.raw, Split.reading, badEscape?_eq_none_iff.2 hsome, hraw, hvalue, Text.quoted]

end Value

end CoreLang.Source.Literal
