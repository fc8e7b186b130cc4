import CoreLang.Proofs.Text.Control
import CoreLang.Report.SymbolTable
import Mathlib.Data.List.DropRight

/-! The table of tokens, read again. Whatever the lexemes hold, each token has one line, and the line
cut at its separators gives back what the token's row was made of. -/
namespace CoreLang
open Text (controls controls_eq_nil_iff isControl rowChar)

namespace Text

theorem rowChar_of_isControl {c : Char} (h : isControl c = false) : rowChar c = [c] := by
  unfold rowChar
  split
  case h_4 => rw [if_neg (by simp [h])]
  all_goals exact absurd h (by decide)

theorem controls_rowChar (c : Char) : controls (rowChar c) = [] := by
  cases h : isControl c with
  | false =>
    rw [rowChar_of_isControl h]
    exact controls_eq_nil_iff.2 (List.forall_mem_singleton.2 h)
  | true =>
    unfold rowChar
    split
    case h_4 => rw [if_pos h, controls_codeEscape]
    all_goals decide

theorem rowChar_eq_iff (c : Char) : rowChar c = [c] ↔ isControl c = false := by
  refine ⟨fun h => ?_, rowChar_of_isControl⟩
  have hnone := controls_rowChar c
  rw [h] at hnone
  exact controls_eq_nil_iff.1 hnone c (List.mem_singleton_self c)

end Text

namespace SymbolTable

/-- What the rows of the table say about a token. -/
structure Row where
  code : Nat
  name : String
  line : Nat
  column : Nat
  lexeme : String
deriving DecidableEq

/-- The text before the first bar between two blanks, and the text behind it. -/
def cut? : List Char → Option (List Char × List Char)
  | [] => none
  | c :: rest =>
    if [' ', '|', ' '] <+: c :: rest then some ([], rest.drop 2)
    else (cut? rest).map fun (before, behind) => (c :: before, behind)

/-- The cells of a line that is cut `n` times. Each cell before a cut loses the blanks at its end. -/
def cells : Nat → List Char → List (List Char)
  | 0, text => [text]
  | n + 1, text =>
    match cut? text with
    | none => [text]
    | some (cell, rest) => cell.rdropWhile (· = ' ') :: cells n rest

def number? (digits : List Char) : Option Nat :=
  if digits ≠ [] ∧ digits.all Char.isDigit then some (Nat.ofDigitChars 10 digits 0) else none

/-- Reads a line of the table. What stands behind the fourth cut is all lexeme. -/
def readRow? (line : List Char) : Option Row :=
  match cells 4 line with
  | [code, name, line, column, lexeme] => do
    return ⟨← number? code, String.ofList name, ← number? line, ← number? column,
      String.ofList lexeme⟩
  | _ => none

/-- A text without blanks, bars and control characters. -/
def IsSolid (text : List Char) : Prop := ∀ c ∈ text, c ≠ ' ' ∧ c ≠ '|' ∧ isControl c = false

theorem toString_toList (n : Nat) : (toString n).toList = Nat.toDigits 10 n := Nat.toList_repr

theorem isDigit_of_mem_toString {n : Nat} {c : Char} (h : c ∈ (toString n).toList) :
    c.isDigit = true := by
  rw [toString_toList] at h
  exact Nat.isDigit_of_mem_toDigits (by decide) (Nat.le_refl 10) h

theorem number?_toString (n : Nat) : number? (toString n).toList = some n := by
  have hdigits : (toString n).toList.all Char.isDigit = true :=
    List.all_eq_true.2 fun _ => isDigit_of_mem_toString
  have hne : (toString n).toList ≠ [] := by
    rw [toString_toList]
    exact Nat.toDigits_ne_nil
  rw [number?, if_pos ⟨hne, hdigits⟩, toString_toList, Nat.ofDigitChars_ten_toDigits]

theorem isSolid_toString (n : Nat) : IsSolid (toString n).toList := by
  intro c hc
  have hdigit := isDigit_of_mem_toString hc
  refine ⟨?_, ?_, Text.isControl_of_isDigit hdigit⟩
  all_goals
    rintro rfl
    exact absurd hdigit (by decide)

theorem isSolid_name (kind : Kind) : IsSolid kind.name.toList := by
  have hall : kind.name.toList.all (fun c => c ≠ ' ' ∧ c ≠ '|' ∧ isControl c = false) = true := by
    cases kind <;> decide +kernel
  exact fun c hc => of_decide_eq_true (List.all_eq_true.1 hall c hc)

theorem IsSolid.controls {text : List Char} (h : IsSolid text) : controls text = [] :=
  controls_eq_nil_iff.2 fun c hc => (h c hc).2.2

theorem padRight_toList (width : Nat) (text : String) : (padRight width text).toList =
    text.toList ++ List.replicate (width - text.length) ' ' := by
  rw [padRight, String.toList_append, String.toList_ofList]

/-- Padding adds no bars, and it is trimmed again. -/
theorem IsSolid.padRight {text : String} (h : IsSolid text.toList) (width : Nat) :
    '|' ∉ (SymbolTable.padRight width text).toList ∧
      (SymbolTable.padRight width text).toList.rdropWhile (· = ' ') = text.toList := by
  rw [padRight_toList]
  constructor
  · rw [List.mem_append, List.mem_replicate]
    rintro (hc | hc)
    · exact (h _ hc).2.1 rfl
    · exact absurd hc.2 (by decide)
  · rw [List.rdropWhile, List.reverse_append, List.reverse_replicate,
      List.dropWhile_append_of_pos (by simp [List.mem_replicate])]
    rw [← List.rdropWhile, List.rdropWhile_eq_self_iff]
    intro hne hlast
    exact (h _ (List.getLast_mem hne)).1 (of_decide_eq_true hlast)

theorem cut?_append {cell : List Char} (h : '|' ∉ cell) (rest : List Char) :
    cut? (cell ++ ' ' :: '|' :: ' ' :: rest) = some (cell, rest) := by
  induction cell with
  | nil => simp [cut?]
  | cons c cell ih =>
    obtain ⟨hc, hcell⟩ := not_or.1 (mt List.mem_cons.2 h)
    have hnot : ¬ [' ', '|', ' '] <+: c :: (cell ++ ' ' :: '|' :: ' ' :: rest) := by
      cases cell with
      | nil => simp
      | cons d cell =>
        have hd : '|' ≠ d := fun hd => hcell (hd ▸ List.mem_cons_self)
        simp [hd]
    rw [List.cons_append, cut?, if_neg hnot, ih hcell]
    rfl

theorem cells_append {text : String} (h : IsSolid text.toList) (width n : Nat) (rest : List Char) :
    cells (n + 1) ((padRight width text).toList ++ ' ' :: '|' :: ' ' :: rest) =
      text.toList :: cells n rest := by
  obtain ⟨hbar, htrim⟩ := h.padRight width
  rw [cells, cut?_append hbar]
  simp only [htrim]

theorem row_toList (code name line column lexeme : String) :
    (row code name line column lexeme).toList =
      (padRight 15 code).toList ++ ' ' :: '|' :: ' ' ::
        ((padRight 24 name).toList ++ ' ' :: '|' :: ' ' ::
          ((padRight 15 line).toList ++ ' ' :: '|' :: ' ' ::
            ((padRight 15 column).toList ++ ' ' :: '|' :: ' ' :: lexeme.toList))) := by
  simp [row]

theorem readRow?_tokenRow (t : Token) : readRow? (tokenRow t).toList =
    some ⟨t.kind.code, t.kind.name, t.position.line, t.position.column, printable t.lexeme⟩ := by
  have hcells : cells 4 (tokenRow t).toList =
      [(toString t.kind.code).toList, t.kind.name.toList, (toString t.position.line).toList,
        (toString t.position.column).toList, (printable t.lexeme).toList] := by
    rw [tokenRow, row_toList, cells_append (isSolid_toString _), cells_append (isSolid_name _),
      cells_append (isSolid_toString _), cells_append (isSolid_toString _), cells]
  rw [readRow?, hcells]
  simp only [number?_toString, String.ofList_toList]
  rfl

theorem controls_padRight {text : String} (h : IsSolid text.toList) (width : Nat) :
    controls (padRight width text).toList = [] := by
  have hblanks : controls (List.replicate (width - text.length) ' ') = [] :=
    controls_eq_nil_iff.2 fun c hc => by
      rw [(List.mem_replicate.1 hc).2]
      decide
  rw [padRight_toList, Text.controls_append, h.controls, hblanks, List.append_nil]

theorem controls_printable (lexeme : String) : controls (printable lexeme).toList = [] := by
  rw [printable, String.toList_ofList, controls, List.filter_flatMap, List.flatMap_eq_nil_iff]
  exact fun c _ => Text.controls_rowChar c

theorem controls_separator (text : List Char) :
    controls (' ' :: '|' :: ' ' :: text) = controls text := by
  rw [show ' ' :: '|' :: ' ' :: text = [' ', '|', ' '] ++ text from rfl, Text.controls_append]
  rw [show controls [' ', '|', ' '] = [] by decide, List.nil_append]

theorem controls_tokenRow (t : Token) : controls (tokenRow t).toList = [] := by
  simp only [tokenRow, row_toList, Text.controls_append, controls_separator,
    controls_padRight (isSolid_toString _), controls_padRight (isSolid_name _),
    controls_printable, List.append_nil]

theorem controls_of_mem_lines {tokens : List Token} {line : String} (h : line ∈ lines tokens) :
    controls line.toList = [] := by
  have hrule : controls rule.toList = [] := by decide +kernel
  have hheader : controls header.toList = [] := by decide +kernel
  simp only [lines, List.mem_append, List.mem_cons, List.not_mem_nil, or_false, List.mem_map] at h
  rcases h with ((rfl | rfl | rfl) | ⟨t, -, rfl⟩) | rfl
  · exact hrule
  · exact hheader
  · exact hrule
  · exact controls_tokenRow t
  · exact hrule

theorem length_lines (tokens : List Token) : (lines tokens).length = tokens.length + 4 := by
  simp only [lines, List.length_append, List.length_cons, List.length_nil, List.length_map]
  omega

theorem lines_getElem? (tokens : List Token) (i : Fin tokens.length) :
    (lines tokens)[3 + i.val]? = some (tokenRow tokens[i]) := by
  rw [lines, List.append_assoc, List.getElem?_append_right (by simp)]
  change (tokens.map tokenRow ++ [rule])[3 + i.val - 3]? = _
  rw [Nat.add_sub_cancel_left, List.getElem?_append_left (by simp), List.getElem?_map]
  simp

theorem render_toList (tokens : List Token) : (render tokens).toList =
    (lines tokens).flatMap fun line => line.toList ++ ['\n'] := by
  rw [render, String.toList_join, List.flatMap_map]
  simp only [String.toList_append]
  rfl

theorem flatMap_terminated (ls : List String) :
    (ls.flatMap fun line => line.toList ++ ['\n']) =
      ['\n'].intercalate (ls.map String.toList ++ [[]]) := by
  induction ls with
  | nil => rfl
  | cons line ls ih =>
    rw [List.flatMap_cons, ih, List.map_cons, List.cons_append,
      List.intercalate_cons_of_ne_nil (by simp)]

theorem splitOn_render (tokens : List Token) :
    (render tokens).toList.splitOn '\n' = (lines tokens).map String.toList ++ [[]] := by
  rw [render_toList, flatMap_terminated]
  refine List.splitOn_intercalate _ (fun line hline hbreak => ?_) (by simp)
  rcases List.mem_append.1 hline with hline | hline
  · obtain ⟨row, hrow, rfl⟩ := List.mem_map.1 hline
    have hcontrol := controls_eq_nil_iff.1 (controls_of_mem_lines hrow) '\n' hbreak
    exact absurd hcontrol (by decide)
  · rw [List.mem_singleton.1 hline] at hbreak
    cases hbreak

theorem controls_render (tokens : List Token) :
    controls (render tokens).toList = List.replicate (tokens.length + 4) '\n' := by
  have hterminated (ls : List String) (h : ∀ line ∈ ls, controls line.toList = []) :
      controls (ls.flatMap fun line => line.toList ++ ['\n']) = List.replicate ls.length '\n' := by
    induction ls with
    | nil => rfl
    | cons line ls ih =>
      obtain ⟨hline, hls⟩ := List.forall_mem_cons.1 h
      rw [List.flatMap_cons, Text.controls_append, Text.controls_append, hline, ih hls]
      rfl
  rw [render_toList, hterminated _ fun _ => controls_of_mem_lines, length_lines]

/-- The table is as many lines as there are tokens and four more, each closed by a line break, and
these are its only control characters. Of the lines behind the heading each one reads as the row of
its token: the code and the name of the kind, the line, the column, and the lexeme, of which only the
control characters are replaced. -/
theorem render_rows (tokens : List Token) : ∃ lines : List (List Char),
    (render tokens).toList.splitOn '\n' = lines ++ [[]] ∧
    lines.length = tokens.length + 4 ∧
    controls (render tokens).toList = List.replicate (tokens.length + 4) '\n' ∧
    (∀ i : Fin tokens.length, lines[3 + i.val]?.bind readRow? =
      some ⟨tokens[i].kind.code, tokens[i].kind.name, tokens[i].position.line,
        tokens[i].position.column, String.ofList (tokens[i].lexeme.toList.flatMap rowChar)⟩) ∧
    ∀ c, rowChar c = [c] ↔ isControl c = false := by
  refine ⟨(lines tokens).map String.toList, splitOn_render tokens, ?_, controls_render tokens,
    fun i => ?_, Text.rowChar_eq_iff⟩
  · rw [List.length_map, length_lines]
  · rw [List.getElem?_map, lines_getElem?, Option.map_some, Option.bind_some, readRow?_tokenRow]
    rfl

end SymbolTable
end CoreLang
