import CoreLang.Proofs.Source.Explained
import CoreLang.Proofs.Source.Respelling
import CoreLang.Proofs.Source.Sequence

/-! The rule for the separators in a numeral, apart from how a numeral is read. It speaks of the longest
run of characters that a numeral may hold, and of the part of this run before its second point. -/
namespace CoreLang.Source

namespace Numeral

/-- The characters at the head of a text that a numeral may hold. -/
def run (text : List Char) : List Char :=
  text.takeWhile fun c => c.isDigit || c = '.' || (c = '\'' || c = '\x60')

/-- The longest beginning of a text with no more than so many points. -/
def upToPoints : Nat → List Char → List Char
  | _, [] => []
  | 0, c :: text => if c = '.' then [] else c :: upToPoints 0 text
  | n + 1, c :: text => c :: upToPoints (if c = '.' then n else n + 1) text

/-- Three digits come next, and no fourth one. -/
def BeginsGroup (text : List Char) : Prop :=
  ∃ group rest, text = group ++ rest ∧ group.length = 3 ∧ (∀ c ∈ group, c.isDigit = true) ∧
    ∀ c ∈ rest.head?, c.isDigit = false

/-- A separator before the second point of a run that no group follows in this run. -/
def Breaks (run : List Char) (i : Nat) : Prop :=
  (∃ c ∈ (upToPoints 1 run)[i]?, c = '\'' ∨ c = '\x60') ∧ ¬BeginsGroup (run.drop (i + 1))

/-- What is left of a numeral without its separators. A point is given a zero on the side on which
nothing is left. -/
def ungrouped (numeral : List Char) : List Char :=
  let digits := numeral.filter fun c => c ≠ '\'' ∧ c ≠ '\x60'
  (if digits.head? = some '.' then ['0'] else []) ++ digits ++
    if digits.getLast? = some '.' then ['0'] else []

theorem value_eq_ungrouped (numeral : List Char) : value numeral = ungrouped numeral := by
  have hfilter : (numeral.filter (!isSeparator ·)) =
      numeral.filter fun c => decide (c ≠ '\'' ∧ c ≠ '\x60') := by
    refine List.filter_congr fun c _ => ?_
    simp [isSeparator]
  rw [value, pad_eq, hfilter, ungrouped]

theorem isSeparator_iff (c : Char) : isSeparator c = true ↔ c = '\'' ∨ c = '\x60' := by
  simp [isSeparator]

theorem beginsGroup_iff (text : List Char) : BeginsGroup text ↔ groupFollows text = true := by
  rw [groupFollows, decide_eq_true_iff]
  constructor
  · rintro ⟨group, rest, rfl, hlength, hdigits, hnext⟩
    rw [takeWhile_append_of_head hdigits hnext]
    exact hlength
  · intro hlength
    exact ⟨_, _, List.takeWhile_append_dropWhile.symm, hlength, fun _ => List.mem_takeWhile_imp,
      fun _ => not_of_mem_head?_dropWhile⟩

variable {text read rest : List Char}

theorem run_append (text : List Char) : run text ++ text.dropWhile isMember = text :=
  List.takeWhile_append_dropWhile

theorem groupFollows_drop_run {i : Nat} (hi : i ≤ (run text).length) :
    groupFollows ((run text).drop i) = groupFollows (text.drop i) := by
  have hout : ∀ d ∈ (text.dropWhile isMember).head?, d.isDigit = false := fun d hd =>
    not_isDigit_of_not_isMember (not_of_mem_head?_dropWhile hd)
  rw [← groupFollows_drop_append hout hi, run_append]

theorem run_cons {c : Char} (hc : isMember c = true) (rest : List Char) :
    run (c :: rest) = c :: run rest := List.takeWhile_cons_of_pos hc

theorem run_of_not_isMember {c : Char} (hc : ¬isMember c = true) (rest : List Char) :
    run (c :: rest) = [] := List.takeWhile_cons_of_neg hc

theorem lineFeed_not_mem_run (text : List Char) : '\n' ∉ run text := fun h =>
  absurd (List.mem_takeWhile_imp h) (by decide)

theorem upToPoints_cons {c : Char} (hc : c ≠ '.') (n : Nat) (text : List Char) :
    upToPoints n (c :: text) = c :: upToPoints n text := by
  cases n <;> simp [upToPoints, hc]

theorem upToPoints_prefix (n : Nat) (text : List Char) : upToPoints n text <+: text := by
  fun_induction upToPoints n text with
  | case1 => exact List.nil_prefix
  | case2 => exact List.nil_prefix
  | case3 c text hc ih => exact (List.prefix_cons_inj c).2 ih
  | case4 n c text ih => exact (List.prefix_cons_inj c).2 ih

def pointsLeft (point : Bool) : Nat := if point then 0 else 1

theorem upToPoints_run (point : Bool) (text : List Char) :
    upToPoints (pointsLeft point) (run text) = (split point text).read ++
      upToPoints (pointsLeft (pointAfter point (split point text).read))
        (run (split point text).rest) := by
  fun_induction split point text with
  | case1 point => simp [pointAfter]
  | case2 point c rest hc ih =>
    rw [Split.cons, pointAfter_cons (ne_point_of_isDigit hc), run_cons (isMember_of_isDigit hc),
      upToPoints_cons (ne_point_of_isDigit hc), ih]
    rfl
  | case3 point c rest _ hc ih =>
    obtain ⟨rfl, rfl⟩ := hc
    rw [Split.cons, pointAfter_point, run_cons (by decide)]
    exact congrArg ('.' :: ·) ih
  | case4 point c rest _ _ hc _ ih =>
    rw [Split.cons, pointAfter_cons (ne_point_of_isSeparator hc),
      run_cons (isMember_of_isSeparator hc), upToPoints_cons (ne_point_of_isSeparator hc), ih]
    rfl
  | case5 point => simp [pointAfter]
  | case6 point => simp [pointAfter]

theorem run_split (point : Bool) (text : List Char) :
    run text = (split point text).read ++ run (split point text).rest := by
  fun_induction split point text with
  | case1 | case5 | case6 => rfl
  | case2 point c rest hc ih =>
    rw [Split.cons, run_cons (isMember_of_isDigit hc), ih]
    rfl
  | case3 point c rest _ hc ih =>
    obtain ⟨rfl, rfl⟩ := hc
    rw [Split.cons, run_cons (by decide), ih]
    rfl
  | case4 point c rest _ _ hc _ ih =>
    rw [Split.cons, run_cons (isMember_of_isSeparator hc), ih]
    rfl

theorem upToPoints_of_not_continues {point : Bool}
    (h : ∀ d ∈ rest.head?, continues point d = false) :
    upToPoints (pointsLeft point) (run rest) = [] := by
  cases rest with
  | nil => rfl
  | cons d rest =>
    have hd := h d rfl
    by_cases hpoint : d = '.'
    · subst hpoint
      obtain rfl : point = true := by simpa [continues, isSeparator] using hd
      rw [run_cons (by decide)]
      rfl
    · have hmember : ¬isMember d = true := by
        simpa [continues, isMember, hpoint] using hd
      rw [run_of_not_isMember hmember]
      rfl

theorem not_breaks_of_lt {i : Nat} (hi : i < (split false text).read.length) :
    ¬Breaks (run text) i := by
  rintro ⟨⟨c, hc, hsep⟩, hgroup⟩
  have hprefix := upToPoints_prefix 1 (run text)
  have hlength : i < (run text).length :=
    (List.getElem?_eq_some_iff.1 hc).1.trans_le hprefix.length_le
  have hread : c ∈ (split false text).read[i]? := by
    rw [show 1 = pointsLeft false from rfl, upToPoints_run, List.getElem?_append_left hi] at hc
    exact hc
  rw [beginsGroup_iff, groupFollows_drop_run hlength] at hgroup
  exact hgroup (groupFollows_of_mem_read false text i c hread ((isSeparator_iff c).2 hsep))

/-- A sound numeral is the part of its run before the second point, and keeps to the rule. -/
theorem upToPoints_of_sound (h : split false text = ⟨read, true, rest⟩) :
    upToPoints 1 (run text) = read ∧ ∀ i, ¬Breaks (run text) i := by
  have hread := upToPoints_run false text
  have hends := split_ends false text
  have hlt {i : Nat} := @not_breaks_of_lt text i
  rw [h] at hread hends hlt
  have hstop := (hends.resolve_right fun hsound => by cases hsound.1).2
  have hread : upToPoints 1 (run text) = read := by
    rw [upToPoints_of_not_continues hstop, List.append_nil] at hread
    exact hread
  refine ⟨hread, fun i hbreaks => ?_⟩
  obtain ⟨c, hc, -⟩ := hbreaks.1
  rw [hread] at hc
  exact hlt (List.getElem?_eq_some_iff.1 hc).1 hbreaks

theorem breaks_of_unsound (h : split false text = ⟨read, false, rest⟩) :
    Breaks (run text) read.length := by
  have hread := upToPoints_run false text
  have hrun := run_split false text
  have happend := split_append false text
  have hends := split_ends false text
  rw [h] at hread hrun happend hends
  obtain ⟨-, c, next, rfl, hc, hgroup⟩ := hends.resolve_left fun hsound => by cases hsound.1
  rw [run_cons (isMember_of_isSeparator hc)] at hread hrun
  rw [upToPoints_cons (ne_point_of_isSeparator hc)] at hread
  have hlength : read.length + 1 ≤ (run text).length := by
    rw [hrun]
    simp
  constructor
  · refine ⟨c, ?_, (isSeparator_iff c).1 hc⟩
    rw [show 1 = pointsLeft false from rfl, hread]
    simp
  · rw [beginsGroup_iff, groupFollows_drop_run hlength, ← happend]
    simpa using hgroup

end Numeral

section
variable {p : Position} {c : Char} {rest : List Char}

/-- A numeral begins at a digit, and at a point before a digit. -/
theorem startsAt_iff : Numeral.startsAt c rest = true ↔
    c.isDigit = true ∨ c = '.' ∧ ∃ d ∈ rest.head?, d.isDigit = true := by
  simp [Numeral.startsAt, Option.any_eq_true]

theorem startsPiece_of_startsAt (h : Numeral.startsAt c rest = true) : StartsPiece c rest := by
  rcases startsAt_iff.1 h with hdigit | ⟨rfl, -⟩
  · exact startsPiece_of_isDigit hdigit rest
  · exact ⟨by decide, fun hslash => absurd hslash.1 (by decide)⟩

open Numeral in
/-- Where a numeral begins, it is the part of its run before the second point, if no separator there
breaks the rule of groups. Otherwise it is the run as a whole, and an error at the first separator that
breaks the rule. -/
theorem tokensFrom_numeral (p : Position) (c : Char) (rest : List Char)
    (h : c.isDigit = true ∨ c = '.' ∧ ∃ d ∈ rest.head?, d.isDigit = true) :
    ((∀ i, ¬Breaks (run (c :: rest)) i) →
      tokensFrom p (c :: rest) =
        (⟨if '.' ∈ upToPoints 1 (run (c :: rest)) then .floatLiteral else .integerLiteral,
          String.ofList (ungrouped (upToPoints 1 (run (c :: rest)))), p⟩, none) ::
        tokensFrom (p.after (upToPoints 1 (run (c :: rest))))
          ((c :: rest).drop (upToPoints 1 (run (c :: rest))).length)) ∧
    ∀ i, Breaks (run (c :: rest)) i → (∀ j < i, ¬Breaks (run (c :: rest)) j) →
      tokensFrom p (c :: rest) =
        (⟨.invalidCharacter, String.ofList (run (c :: rest)), ⟨p.line, p.column + i⟩⟩,
          some ⟨.badGrouping (run (c :: rest)), ⟨p.line, p.column + i⟩⟩) ::
        tokensFrom (p.after (run (c :: rest))) ((c :: rest).drop (run (c :: rest)).length) := by
  have hstarts := startsAt_iff.2 h
  have htokens {raw next : List Char} {r : Reading} :=
    @tokensFrom_of_scan p rest raw next c r (startsPiece_of_startsAt hstarts)
  rw [scan_numeral hstarts] at htokens
  have happend := split_append false (c :: rest)
  generalize hsplit : split false (c :: rest) = s at happend
  obtain ⟨read, sound, next⟩ := s
  cases sound with
  | true =>
    obtain ⟨hread, hkeeps⟩ := upToPoints_of_sound hsplit
    refine ⟨fun _ => ?_, fun i hbreaks => (hkeeps i hbreaks).elim⟩
    rw [hread, htokens (scan_of_sound hsplit), value_eq_ungrouped, ← happend, List.drop_left]
    rfl
  | false =>
    have hbreaks := breaks_of_unsound hsplit
    have hrun := run_split false (c :: rest)
    have hlt {i : Nat} := @not_breaks_of_lt (c :: rest) i
    rw [hsplit] at hrun hlt
    refine ⟨fun hkeeps => (hkeeps _ hbreaks).elim, fun i hi hfirst => ?_⟩
    obtain rfl : i = read.length := by
      refine Nat.le_antisymm (Nat.le_of_not_lt fun hlater => hfirst _ hlater hbreaks) ?_
      exact Nat.le_of_not_lt fun hearlier => hlt hearlier hi
    have hraw : read ++ next.takeWhile isMember = run (c :: rest) := hrun.symm
    have hplace : p.after ((run (c :: rest)).take read.length) = ⟨p.line, p.column + read.length⟩ := by
      have hline : '\n' ∉ read := fun hmem =>
        lineFeed_not_mem_run (c :: rest) (hrun ▸ List.mem_append_left _ hmem)
      rw [hrun, List.take_left, Position.after_of_not_mem p hline]
    have htext : run (c :: rest) ++ next.dropWhile isMember = c :: rest := by
      rw [← hraw, List.append_assoc, List.takeWhile_append_dropWhile, happend]
    have hnext : (run (c :: rest) ++ next.dropWhile isMember).drop (run (c :: rest)).length =
        next.dropWhile isMember := List.drop_left
    rw [htext] at hnext
    rw [htokens (scan_of_unsound hsplit), hraw, hnext]
    simp only [Piece.place, Fault.movesToken, ↓reduceIte, hplace]
    rfl

open Numeral in
/-- A second point ends a numeral that keeps to the rule, and not one that breaks it. -/
theorem tokensFrom_numeral_points :
    '1'.isDigit = true ∧
      tokensFrom .start ['1', '\'', '2', '3', '4', '.', '.', '6'] =
        (⟨.floatLiteral, "1234.0", ⟨1, 1⟩⟩, none) :: tokensFrom ⟨1, 7⟩ ['.', '6'] ∧
      tokensFrom .start ['1', '\'', '2', '.', '.', '6', '*'] =
        (⟨.invalidCharacter, "1'2..6", ⟨1, 2⟩⟩,
          some ⟨.badGrouping ['1', '\'', '2', '.', '.', '6'], ⟨1, 2⟩⟩) :: tokensFrom ⟨1, 7⟩ ['*'] := by
  have hdigit : '1'.isDigit = true := by decide
  have hsound : split false ['1', '\'', '2', '3', '4', '.', '.', '6'] =
      ⟨['1', '\'', '2', '3', '4', '.'], true, ['.', '6']⟩ := by decide
  have hunsound : split false ['1', '\'', '2', '.', '.', '6', '*'] =
      ⟨['1'], false, ['\'', '2', '.', '.', '6', '*']⟩ := by decide
  have hfirst : ∀ j < 1, ¬Breaks (run ['1', '\'', '2', '.', '.', '6', '*']) j := fun j hj =>
    not_breaks_of_lt (by rwa [hunsound])
  exact ⟨hdigit,
    (tokensFrom_numeral .start '1' ['\'', '2', '3', '4', '.', '.', '6'] (.inl hdigit)).1
      (upToPoints_of_sound hsound).2,
    (tokensFrom_numeral .start '1' ['\'', '2', '.', '.', '6', '*'] (.inl hdigit)).2 1
      (breaks_of_unsound hunsound) hfirst⟩

end
end CoreLang.Source
