import CoreLang.Proofs.Source.Stretch
import CoreLang.Source.Numeral

/-! Numerals depend on one character after them, and the value of a sound numeral is a numeral
again. -/
namespace CoreLang.Source.Numeral

/-- Whether a sound numeral goes on with a character, after a point or without one. -/
def continues (point : Bool) (c : Char) : Bool :=
  c.isDigit || (c = '.' && !point) || isSeparator c

theorem isMember_of_continues {point : Bool} {c : Char} (h : continues point c = true) :
    isMember c = true := by
  simp only [continues, isMember, Bool.or_eq_true, Bool.and_eq_true] at h ⊢
  rcases h with (h | h) | h
  · exact .inl (.inl h)
  · exact .inl (.inr h.1)
  · exact .inr h

theorem isMember_of_isDigit {c : Char} (h : c.isDigit = true) : isMember c = true :=
  @isMember_of_continues true c (by simp [continues, h])

theorem isMember_of_isSeparator {c : Char} (h : isSeparator c = true) : isMember c = true :=
  @isMember_of_continues true c (by simp [continues, h])

theorem not_isDigit_of_not_isMember {c : Char} (h : isMember c = false) : c.isDigit = false :=
  Bool.eq_false_iff.2 fun hc => by simp [isMember_of_isDigit hc] at h

theorem not_isDigit_of_isSeparator {c : Char} (h : isSeparator c = true) : c.isDigit = false := by
  simp only [isSeparator, Bool.or_eq_true, decide_eq_true_eq] at h
  rcases h with rfl | rfl <;> decide

theorem not_isSeparator_of_isDigit {c : Char} (h : c.isDigit = true) : isSeparator c = false :=
  Bool.eq_false_iff.2 fun hc => by simp [not_isDigit_of_isSeparator hc] at h

theorem ne_point_of_isDigit {c : Char} (h : c.isDigit = true) : c ≠ '.' := by
  rintro rfl
  exact absurd h (by decide)

theorem ne_point_of_isSeparator {c : Char} (h : isSeparator c = true) : c ≠ '.' := by
  rintro rfl
  exact absurd h (by decide)

/-- Whether there has been a point, before a stretch of a numeral or in it. -/
def pointAfter (point : Bool) (read : List Char) : Bool := point || '.' ∈ read

theorem pointAfter_cons {c : Char} (hc : c ≠ '.') (point : Bool) (read : List Char) :
    pointAfter point (c :: read) = pointAfter point read := by
  simp [pointAfter, hc.symm]

theorem pointAfter_point (point : Bool) (read : List Char) :
    pointAfter point ('.' :: read) = pointAfter true read := by
  simp [pointAfter]

section Split
variable {point : Bool} {text next : List Char}

theorem split_digit {c : Char} (hc : c.isDigit = true) :
    split point (c :: next) = (split point next).cons c := by
  simp [split, hc]

theorem split_point : split false ('.' :: next) = (split true next).cons '.' := by
  have hdigit : '.'.isDigit = false := by decide
  simp [split, hdigit]

theorem split_group {c : Char} (hc : isSeparator c = true) (h : groupFollows next = true) :
    split point (c :: next) = (split point next).cons c := by
  simp [split, not_isDigit_of_isSeparator hc, ne_point_of_isSeparator hc, hc, h]

theorem split_of_not_groupFollows {c : Char} (hc : isSeparator c = true)
    (h : groupFollows next = false) : split point (c :: next) = ⟨[], false, c :: next⟩ := by
  simp [split, not_isDigit_of_isSeparator hc, ne_point_of_isSeparator hc, hc, h]

theorem split_of_not_continues (h : ∀ d ∈ next.head?, continues point d = false) :
    split point next = ⟨[], true, next⟩ := by
  cases next with
  | nil => rfl
  | cons d next =>
    have hd := h d rfl
    simp only [continues, Bool.or_eq_false_iff] at hd
    simp_all [split]

theorem split_of_read_eq_nil (h : (split point text).read = []) :
    split point text = ⟨[], (split point text).sound, text⟩ := by
  have happend := split_append point text
  generalize split point text = s at h happend ⊢
  obtain ⟨read, sound, rest⟩ := s
  simp_all

/-- A numeral ends soundly before a character that it does not go on with, and else before a
separator that no group follows. -/
theorem split_ends (point : Bool) (text : List Char) :
    (split point text).sound = true ∧
        (∀ d ∈ (split point text).rest.head?,
          continues (pointAfter point (split point text).read) d = false) ∨
      (split point text).sound = false ∧
        ∃ c next, (split point text).rest = c :: next ∧ isSeparator c = true ∧
          groupFollows next = false := by
  fun_induction split point text with
  | case1 => exact .inl ⟨rfl, nofun⟩
  | case2 point c rest hc ih =>
    simpa only [Split.cons, pointAfter_cons (ne_point_of_isDigit hc)] using ih
  | case3 point c rest _ hc ih =>
    obtain ⟨rfl, rfl⟩ := hc
    simpa only [Split.cons, pointAfter_point] using ih
  | case4 point c rest _ _ hc _ ih =>
    simpa only [Split.cons, pointAfter_cons (ne_point_of_isSeparator hc)] using ih
  | case5 point c rest _ _ hc hgroup => exact .inr ⟨rfl, c, rest, rfl, hc, by simpa using hgroup⟩
  | case6 => exact .inl ⟨rfl, by simp_all [continues, pointAfter]⟩

theorem not_isDigit_of_mem_rest : ∀ d ∈ (split point text).rest.head?, d.isDigit = false := by
  intro d hd
  rcases split_ends point text with ⟨-, h⟩ | ⟨-, c, next, hrest, hc, -⟩
  · have hnot := h d hd
    simp only [continues, Bool.or_eq_false_iff] at hnot
    exact hnot.1.1
  · rw [hrest] at hd
    cases hd
    exact not_isDigit_of_isSeparator hc

/-- Where no numeral goes on, no group does. -/
theorem groupFollows_read_append (hnext : ∀ d ∈ next.head?, d.isDigit = false) :
    groupFollows ((split point text).read ++ next) = groupFollows text := by
  rw [groupFollows, takeWhile_append_left _ hnext, groupFollows,
    ← takeWhile_append_left (split point text).read not_isDigit_of_mem_rest, split_append]

/-- The sound part of a numeral does not depend on what follows, if that does not belong to it. -/
theorem split_read_append
    (h : (split (pointAfter point (split point text).read) next).read = []) :
    split point ((split point text).read ++ next) =
      ⟨(split point text).read, (split (pointAfter point (split point text).read) next).sound,
        next⟩ := by
  have hdigit : ∀ d ∈ next.head?, d.isDigit = false := by
    have hrest := congrArg Split.rest (split_of_read_eq_nil h)
    dsimp only at hrest
    rw [← hrest]
    exact not_isDigit_of_mem_rest
  fun_induction split point text with
  | case1 | case5 | case6 =>
    simp only [pointAfter, List.not_mem_nil, decide_false, Bool.or_false, List.nil_append] at h ⊢
    exact split_of_read_eq_nil h
  | case2 point c rest hc ih =>
    rw [Split.cons, pointAfter_cons (ne_point_of_isDigit hc)] at h ⊢
    rw [List.cons_append, split_digit hc, ih h]
    rfl
  | case3 point c rest _ hc ih =>
    obtain ⟨rfl, rfl⟩ := hc
    rw [Split.cons, pointAfter_point] at h ⊢
    rw [List.cons_append, split_point, ih h]
    rfl
  | case4 point c rest _ _ hc hgroup ih =>
    rw [Split.cons, pointAfter_cons (ne_point_of_isSeparator hc)] at h ⊢
    rw [List.cons_append, split_group hc (by rwa [groupFollows_read_append hdigit]), ih h]
    rfl

end Split

theorem scan_of_sound {text read rest : List Char} (h : split false text = ⟨read, true, rest⟩) :
    scan text = ⟨read, .token (kind read) (value read), rest⟩ := by
  simp [scan, h]

theorem scan_of_unsound {text read rest : List Char} (h : split false text = ⟨read, false, rest⟩) :
    scan text =
      ⟨read ++ rest.takeWhile isMember,
        .fault (.badGrouping (read ++ rest.takeWhile isMember)) read.length,
        rest.dropWhile isMember⟩ := by
  simp [scan, h]

theorem groupFollows_takeWhile_append {text next : List Char}
    (hnext : ∀ d ∈ next.head?, isMember d = false) :
    groupFollows (text.takeWhile isMember ++ next) = groupFollows text := by
  have hdrop : ∀ d ∈ (text.dropWhile isMember).head?, d.isDigit = false := fun d hd =>
    not_isDigit_of_not_isMember (not_of_mem_head?_dropWhile hd)
  rw [groupFollows, takeWhile_append_left _ fun d hd => not_isDigit_of_not_isMember (hnext d hd),
    ← takeWhile_append_left (text.takeWhile isMember) hdrop, List.takeWhile_append_dropWhile,
    groupFollows]

/-- What a numeral is does not depend on what follows, if that begins as before or with a character
that no numeral holds. -/
theorem scan_append {text next : List Char}
    (hnext : ∀ d ∈ next.head?, d ∈ (scan text).rest.head? ∨ isMember d = false) :
    scan ((scan text).raw ++ next) = ⟨(scan text).raw, (scan text).reading, next⟩ := by
  have hends := split_ends false text
  have hread (next : List Char) := @split_read_append false text next
  generalize hsplit : split false text = s at hends hread
  obtain ⟨read, sound, rest⟩ := s
  rcases hends with ⟨rfl, hstop⟩ | ⟨rfl, c, tail, rfl, hc, hgroup⟩
  · rw [scan_of_sound hsplit] at hnext ⊢
    have hend : split (pointAfter false read) next = ⟨[], true, next⟩ := by
      refine split_of_not_continues fun d hd => ?_
      rcases hnext d hd with hd | hd
      · exact hstop d hd
      · exact Bool.eq_false_iff.2 fun h => by simp [isMember_of_continues h] at hd
    have hsame := hread _ (congrArg Split.read hend)
    rw [hend] at hsame
    exact scan_of_sound hsame
  · rw [scan_of_unsound hsplit] at hnext ⊢
    have hout : ∀ d ∈ next.head?, isMember d = false := fun d hd =>
      (hnext d hd).elim not_of_mem_head?_dropWhile id
    have hend : split (pointAfter false read) (c :: (tail.takeWhile isMember ++ next)) =
        ⟨[], false, c :: (tail.takeWhile isMember ++ next)⟩ :=
      split_of_not_groupFollows hc (by rwa [groupFollows_takeWhile_append hout])
    have hsame := hread _ (congrArg Split.read hend)
    rw [hend] at hsame
    have hc := isMember_of_isSeparator hc
    have hin : ∀ d ∈ tail.takeWhile isMember, isMember d = true := fun d => List.mem_takeWhile_imp
    simp only [List.takeWhile_cons_of_pos hc, List.append_assoc, List.cons_append]
    rw [scan_of_unsound hsame]
    simp [hc, takeWhile_append_of_head hin hout, dropWhile_append_of_head hin hout]

/-- A numeral still begins at a point when all after it is changed but the numeral itself. -/
theorem startsAt_append {c : Char} {rest tail : List Char} (h : startsAt c rest = true)
    (hraw : (scan (c :: rest)).raw = c :: tail) (next : List Char) :
    startsAt c (tail ++ next) = true := by
  by_cases hc : c.isDigit = true
  · simp [startsAt, hc]
  · simp only [startsAt, hc, Bool.false_or, Bool.and_eq_true, decide_eq_true_eq] at h
    obtain ⟨rfl, hany⟩ := h
    obtain ⟨d, hd, hdigit⟩ := (Option.any_eq_true _ _).1 hany
    obtain ⟨rest, rfl⟩ := List.head?_eq_some_iff.1 hd
    have hread : (split false ('.' :: d :: rest)).read = '.' :: d :: (split true rest).read := by
      rw [split_point, split_digit hdigit]
      rfl
    have htail : ∃ more, tail = d :: more := by
      simp only [scan, hread] at hraw
      split at hraw
      · exact ⟨_, (List.cons.inj hraw).2.symm⟩
      · exact ⟨_, (List.cons.inj hraw).2.symm⟩
    obtain ⟨more, rfl⟩ := htail
    simp [startsAt, hdigit]

/-- Numerals without separators: digits, and for a decimal one a point with digits on both sides. -/
inductive Plain : Kind → List Char → Prop
  | integer {digits : List Char} : digits ≠ [] → (∀ c ∈ digits, c.isDigit = true) →
      Plain .integerLiteral digits
  | float {whole fraction : List Char} : whole ≠ [] → (∀ c ∈ whole, c.isDigit = true) →
      fraction ≠ [] → (∀ c ∈ fraction, c.isDigit = true) →
      Plain .floatLiteral (whole ++ '.' :: fraction)

section Value
variable {digits whole fraction : List Char}

theorem split_digits (h : ∀ c ∈ digits, c.isDigit = true) (point : Bool) (text : List Char) :
    split point (digits ++ text) =
      { split point text with read := digits ++ (split point text).read } := by
  induction digits with
  | nil => rfl
  | cons c digits ih =>
    obtain ⟨hc, h⟩ := List.forall_mem_cons.1 h
    rw [List.cons_append, split_digit hc, ih h]
    rfl

theorem pad_of_ends {text : List Char} (hhead : text.head? ≠ some '.')
    (hlast : text.getLast? ≠ some '.') : pad text = text := by
  simp [pad, hhead, hlast]

theorem point_not_mem (h : ∀ c ∈ digits, c.isDigit = true) : '.' ∉ digits := fun hmem =>
  ne_point_of_isDigit (h _ hmem) rfl

theorem pad_digits (h : ∀ c ∈ digits, c.isDigit = true) : pad digits = digits :=
  pad_of_ends (fun hhead => point_not_mem h (List.mem_of_head? hhead))
    (fun hlast => point_not_mem h (List.mem_of_getLast? hlast))

theorem pad_point (hwhole : ∀ c ∈ whole, c.isDigit = true)
    (hfraction : ∀ c ∈ fraction, c.isDigit = true) :
    pad (whole ++ '.' :: fraction) =
      (if whole = [] then ['0'] else whole) ++ '.' :: if fraction = [] then ['0'] else fraction := by
  have hled : (if (whole ++ '.' :: fraction).head? = some '.' then '0' :: (whole ++ '.' :: fraction)
      else whole ++ '.' :: fraction) = (if whole = [] then ['0'] else whole) ++ '.' :: fraction := by
    cases whole with
    | nil => rfl
    | cons c whole =>
      have hc := ne_point_of_isDigit (hwhole c List.mem_cons_self)
      simp [hc]
  simp only [pad, hled]
  generalize (if whole = [] then ['0'] else whole) = led
  cases fraction with
  | nil => simp
  | cons c fraction =>
    have hlast : (c :: fraction).getLast? ≠ some '.' := fun hlast =>
      point_not_mem hfraction (List.mem_of_getLast? hlast)
    simp [hlast]

/-- Digits and separators, without a point. -/
def Grouped (text : List Char) : Prop := ∀ c ∈ text, c.isDigit = true ∨ isSeparator c = true

theorem isDigit_of_mem_filter {text : List Char} (h : Grouped text) :
    ∀ c ∈ text.filter (!isSeparator ·), c.isDigit = true := by
  intro c hc
  obtain ⟨hmem, hsep⟩ := List.mem_filter.1 hc
  exact (h c hmem).resolve_right (by simpa using hsep)

theorem read_grouped (point : Bool) (text : List Char) :
    Grouped (split point text).read ∨ point = false ∧ ∃ whole fraction,
      (split point text).read = whole ++ '.' :: fraction ∧ Grouped whole ∧ Grouped fraction := by
  fun_induction split point text with
  | case1 | case5 | case6 => exact .inl nofun
  | case2 point c rest hc ih =>
    rcases ih with ih | ⟨rfl, whole, fraction, hread, hwhole, hfraction⟩
    · exact .inl (List.forall_mem_cons.2 ⟨.inl hc, ih⟩)
    · exact .inr ⟨rfl, c :: whole, fraction, congrArg (c :: ·) hread,
        List.forall_mem_cons.2 ⟨.inl hc, hwhole⟩, hfraction⟩
  | case3 point c rest _ hc ih =>
    obtain ⟨rfl, rfl⟩ := hc
    rcases ih with ih | ⟨h, -⟩
    · exact .inr ⟨rfl, [], _, rfl, nofun, ih⟩
    · cases h
  | case4 point c rest _ _ hc _ ih =>
    rcases ih with ih | ⟨rfl, whole, fraction, hread, hwhole, hfraction⟩
    · exact .inl (List.forall_mem_cons.2 ⟨.inr hc, ih⟩)
    · exact .inr ⟨rfl, c :: whole, fraction, congrArg (c :: ·) hread,
        List.forall_mem_cons.2 ⟨.inr hc, hwhole⟩, hfraction⟩

/-- The value of a sound numeral is a numeral without separators. -/
theorem value_plain {c : Char} {rest : List Char} (h : startsAt c rest = true) :
    Plain (kind (split false (c :: rest)).read) (value (split false (c :: rest)).read) := by
  have hne := read_ne_nil h
  have happend := split_append false (c :: rest)
  have hgrouped := read_grouped false (c :: rest)
  generalize (split false (c :: rest)).read = read at hne happend hgrouped
  rcases hgrouped with hread | ⟨-, whole, fraction, rfl, hwhole, hfraction⟩
  · obtain ⟨d, read, rfl⟩ := List.exists_cons_of_ne_nil hne
    obtain ⟨rfl, -⟩ := List.cons.inj happend
    have hpoint : '.' ∉ d :: read := fun hmem => by
      rcases hread _ hmem with hc | hc
      · exact ne_point_of_isDigit hc rfl
      · exact ne_point_of_isSeparator hc rfl
    have hd : d.isDigit = true := by
      simp only [startsAt, Bool.or_eq_true, Bool.and_eq_true, decide_eq_true_eq] at h
      exact h.resolve_right fun hd => hpoint (hd.1 ▸ List.mem_cons_self)
    have hsep := not_isSeparator_of_isDigit hd
    have hdigits := isDigit_of_mem_filter hread
    rw [kind, if_neg hpoint, value, pad_digits hdigits]
    exact .integer (by simp [hsep]) hdigits
  · have hpoint : isSeparator '.' = false := by decide
    have hdigits := isDigit_of_mem_filter hwhole
    have hdigits' := isDigit_of_mem_filter hfraction
    simp only [kind, value, List.filter_append, List.filter_cons, hpoint, Bool.not_false, ↓reduceIte,
      List.mem_append, List.mem_cons, true_or, or_true, pad_point hdigits hdigits']
    refine .float ?_ ?_ ?_ ?_
    · split <;> simp_all
    · split
      · simp
      · exact hdigits
    · split <;> simp_all
    · split
      · simp
      · exact hdigits'

/-- A numeral without separators is read as a whole and is its own value. -/
theorem scan_plain {k : Kind} {numeral next : List Char} (h : Plain k numeral)
    (hnext : ∀ d ∈ next.head?, isMember d = false) :
    scan (numeral ++ next) = ⟨numeral, .token k numeral, next⟩ := by
  have hend (point : Bool) : split point next = ⟨[], true, next⟩ :=
    split_of_not_continues fun d hd => Bool.eq_false_iff.2 fun hd' => by
      simpa [isMember_of_continues hd'] using hnext d hd
  have hsep {digits : List Char} (hdigits : ∀ c ∈ digits, c.isDigit = true) :
      digits.filter (!isSeparator ·) = digits := by
    exact List.filter_eq_self.2 fun c hc => by simp [not_isSeparator_of_isDigit (hdigits c hc)]
  cases h with
  | integer hne hdigits =>
    have hsplit : split false (numeral ++ next) = ⟨numeral, true, next⟩ := by
      simp [split_digits hdigits, hend]
    rw [scan_of_sound hsplit, kind, if_neg (point_not_mem hdigits), value, hsep hdigits,
      pad_digits hdigits]
  | @float whole fraction hwhole hdigits hfraction hdigits' =>
    have hpoint : isSeparator '.' = false := by decide
    have hsplit : split false (whole ++ '.' :: fraction ++ next) =
        ⟨whole ++ '.' :: fraction, true, next⟩ := by
      simp [split_digits hdigits, split_digits hdigits', split_point, Split.cons, hend]
    rw [scan_of_sound hsplit]
    simp [kind, value, hsep hdigits, hsep hdigits', hpoint, pad_point hdigits hdigits', hwhole,
      hfraction]

end Value

end CoreLang.Source.Numeral
