import CoreLang.Analysis
import CoreLang.Proofs.Parse.Order
import CoreLang.Proofs.Source.Grouping
import CoreLang.Proofs.Source.Kinds
import CoreLang.Proofs.Text.Control

/-! The control characters in the lines of errors. What comes from the source is shown by its escapes,
is a word or a numeral, or is the character of a bad escape, which stands as it is. -/
namespace CoreLang
open Text (controls controls_concat controls_behind controls_before controls_repr isControl)

def Fault.escaped? : Fault → Option Char
  | invalidEscape _ c => some c
  | _ => none

theorem Kind.controls_name (kind : Kind) : controls kind.name.toList = [] := by
  cases kind <;> decide +kernel

theorem Position.controls_toString (p : Position) : controls (toString p).toList = [] := by
  refine controls_concat (controls_concat (controls_concat ?_ (controls_repr _)) ?_) (controls_repr _)
  all_goals decide +kernel

theorem Style.controls_line {tag : String} (htag : controls tag.toList = []) (message : String)
    (p : Position) : controls (plain.line tag message p).toList = controls message.toList := by
  have hposition : controls ("(" ++ toString p ++ ")").toList = [] := by
    refine controls_concat (controls_concat ?_ p.controls_toString) ?_
    all_goals decide +kernel
  have hcolon : controls (tag ++ ": ").toList = [] := controls_concat htag (by decide +kernel)
  calc controls (plain.line tag message p).toList
    _ = controls (tag ++ ": " ++ message ++ " ").toList := controls_before hposition
    _ = controls (tag ++ ": " ++ message).toList := controls_before (by decide +kernel)
    _ = controls message.toList := controls_behind hcolon

/-- Of the source text in a message only the character of a bad escape stands there as it is, and the
text of a numeral, which has no control characters. -/
theorem Fault.controls_message {f : Fault}
    (hnumeral : ∀ numeral, f = .badGrouping numeral → controls numeral = []) :
    controls f.message.toList = controls f.escaped?.toList := by
  cases f with
  | invalidCharacter c =>
    have hshown : controls (String.ofList (Text.visibleChar true c)).toList = [] := by
      rw [String.toList_ofList, Text.controls_visibleChar]
    refine controls_concat (controls_concat ?_ hshown) ?_
    all_goals decide +kernel
  | invalidEscape quote c =>
    have hchar : controls c.toString.toList = controls [c] :=
      congrArg controls (String.toList_singleton c)
    cases quote
    all_goals exact (controls_behind (by decide +kernel)).trans hchar
  | unterminated quote => cases quote <;> decide +kernel
  | emptyCharacter => decide +kernel
  | longCharacter => decide +kernel
  | badGrouping numeral =>
    have hshown : controls (String.ofList numeral).toList = [] := by
      rw [String.toList_ofList, hnumeral numeral rfl]
    refine controls_concat (controls_concat ?_ hshown)
      (controls_concat (controls_concat ?_ (controls_repr _)) ?_)
    all_goals decide +kernel
  | longIdentifier =>
    refine controls_concat (controls_concat ?_ (controls_repr _)) ?_
    all_goals decide +kernel

theorem Token.controls_describe {t : Token}
    (hname : t.kind = .identifier → controls t.lexeme.toList = []) :
    controls t.describe.toList = [] := by
  have hshown : controls (String.ofList (Text.visible t.lexeme.toList)).toList = [] := by
    rw [String.toList_ofList, Text.controls_visible]
  unfold describe
  split
  · decide +kernel
  · refine controls_concat (controls_concat ?_ hshown) ?_
    all_goals decide +kernel
  · next hkind =>
    refine controls_concat (controls_concat ?_ (hname hkind)) ?_
    all_goals decide +kernel
  · refine controls_concat (controls_concat (controls_concat (Kind.controls_name _) ?_) hshown) ?_
    all_goals decide +kernel

theorem Cause.controls_message {found : Token}
    (hname : found.kind = .identifier → controls found.lexeme.toList = []) (cause : Cause) :
    controls (cause.message found).toList = [] := by
  have hfound := found.kind.controls_name
  have hdescribe := Token.controls_describe hname
  cases cause with
  | expected kind =>
    refine controls_concat (controls_concat (controls_concat ?_ kind.controls_name) ?_) hfound
    all_goals decide +kernel
  | printfArgument => exact controls_concat (by decide +kernel) hfound
  | dataType | factor | subscript => exact controls_concat (by decide +kernel) hdescribe
  | unclosedSubscript =>
    refine controls_concat (controls_concat (controls_concat ?_ (Kind.controls_name _)) ?_)
      (Kind.controls_name _)
    all_goals decide +kernel
  | tooDeep => exact controls_concat (by decide +kernel) (controls_repr _)

theorem SyntaxError.controls_line {e : SyntaxError}
    (hname : e.found.kind = .identifier → controls e.found.lexeme.toList = []) :
    controls (e.line .plain).toList = [] := by
  have hmessage : controls e.message.toList = [] := Cause.controls_message hname e.cause
  have hfound : controls (", found " ++ e.found.kind.name).toList = [] :=
    controls_concat (by decide +kernel) (Kind.controls_name _)
  unfold line
  rw [Style.controls_line (by decide)]
  refine controls_concat (controls_concat hmessage ?_) hfound
  split
  · decide
  · exact controls_concat (by decide +kernel) (Kind.controls_name _)

namespace Source
variable {c : Char} {rest text numeral lexeme raw : List Char} {offset : Nat}

theorem Numeral.eq_run_of_badGrouping
    (h : (scan text).reading = .fault (.badGrouping numeral) offset) : numeral = run text := by
  have hends := split_ends false text
  rw [run_split false text]
  generalize hsplit : split false text = s at hends
  obtain ⟨read, sound, rest⟩ := s
  rcases hends with ⟨rfl, -⟩ | ⟨rfl, -⟩
  · rw [scan_of_sound hsplit] at h
    cases h
  · rw [scan_of_unsound hsplit] at h
    cases h
    rfl

theorem Literal.reading_ne_badGrouping (quote : Text.Quote) (text numeral : List Char)
    (offset : Nat) : (scan quote text).reading ≠ .fault (.badGrouping numeral) offset := by
  unfold scan Split.reading
  dsimp only
  split
  · split
    · exact nofun
    · intro hvalue
      rcases (fault_of_readValue hvalue).1 with hfault | hfault <;> cases hfault
  · exact nofun

/-- The text of a numeral with broken groups has no control characters. -/
theorem controls_of_badGrouping (h : (scan c rest).reading = .fault (.badGrouping numeral) offset) :
    controls numeral = [] := by
  have hnumeral : numeral = Numeral.run (c :: rest) := by
    revert h
    refine scan_cases
      (motive := fun s => s.reading = .fault (.badGrouping numeral) offset → numeral = _)
      (fun _ h => Numeral.eq_run_of_badGrouping h) (fun h => ?_) (fun quote _ h => ?_) (fun h => ?_)
    · unfold Word.scan Word.read at h
      split at h <;> cases h
    · exact absurd h (Literal.reading_ne_badGrouping quote rest numeral offset)
    · unfold scanSymbol at h
      split at h <;> cases h
  rw [hnumeral, Text.controls_eq_nil_iff]
  exact fun d hd => Numeral.isControl_of_isMember (List.mem_takeWhile_imp hd)

theorem Shaped.controls_of_isWord {kind : Kind} (h : Shaped kind lexeme raw rest)
    (hkind : kind.isWord = true) : controls lexeme = [] := by
  obtain ⟨hraw, rfl, -⟩ := h.word (h.startsAt hkind)
  rw [hraw, Text.controls_eq_nil_iff]
  exact fun d hd => Word.isControl_of_isMember (List.mem_takeWhile_imp hd)

theorem controls_of_mem_tile (text : List Char) : ∀ piece ∈ (tile text).pieces, ∀ numeral offset,
    piece.reading = .fault (.badGrouping numeral) offset → controls numeral = [] := by
  induction text using tile_induction with
  | gap text h =>
    rw [tile_of_gap h]
    exact List.forall_mem_nil _
  | piece text c rest h ih =>
    rw [tile_of_piece h]
    exact List.forall_mem_cons.2 ⟨fun numeral offset => controls_of_badGrouping, ih⟩

end Source

namespace Lexed
variable {source : String}

theorem controls_of_badGrouping {e : LexicalError} (he : e ∈ (ofSource source).errors)
    {numeral : List Char} (h : e.fault = .badGrouping numeral) : controls numeral = [] := by
  obtain ⟨placed, hplaced, herror⟩ := List.mem_filterMap.1 he
  obtain ⟨⟨gap, raw, reading⟩, hpiece, p, rfl⟩ := Source.mem_placeAll hplaced
  cases reading with
  | token => cases herror
  | fault f offset =>
    obtain rfl := Option.some.inj herror
    obtain rfl : f = .badGrouping numeral := h
    exact Source.controls_of_mem_tile _ _ hpiece numeral offset rfl

theorem controls_of_identifier {t : Token} (ht : t ∈ (ofSource source).tokens)
    (hkind : t.kind = .identifier) : controls t.lexeme.toList = [] := by
  rcases List.mem_append.1 ht with ht | ht
  · obtain ⟨raw, rest, hshaped⟩ :=
      (Source.placeAll_shapes source.toList .start).exists_shaped t ht
    exact hshaped.controls_of_isWord (by rw [hkind]; rfl)
  · obtain rfl := List.mem_singleton.1 ht
    cases hkind

end Lexed

namespace Parse

theorem found_mem_tokens {source : String} {e : SyntaxError} (he : e ∈ (ofSource source).errors) :
    e.found ∈ (Lexed.ofSource source).tokens := by
  have hfound := getElem?_of_mem_errors he
  rw [ParserState.ofTokens_ofSource_tokens] at hfound
  exact List.mem_of_getElem? hfound

end Parse

namespace Analysis

/-- The only control characters in the plain lines of errors are those that stand behind the backslash
of a bad escape, so a text without such an escape is reported on one visible line for each error. -/
theorem controls_lines (source : String) :
    (∀ e ∈ (ofSource source).lexicalErrors,
        controls (e.line .plain).toList = controls e.fault.escaped?.toList) ∧
      ∀ e ∈ (ofSource source).parse.errors, controls (e.line .plain).toList = [] := by
  constructor
  · intro e he
    rw [LexicalError.line, Style.controls_line (by decide)]
    exact Fault.controls_message fun numeral => Lexed.controls_of_badGrouping he
  · intro e he
    exact SyntaxError.controls_line (Lexed.controls_of_identifier (Parse.found_mem_tokens he))

/-- The line of a bad escape holds the character behind the backslash as it stands in the source. -/
theorem controls_lines_escape :
    ¬∀ source : String, ∀ line ∈ (ofSource source).lines .plain, ∀ c ∈ line.toList,
      isControl c = false := by
  intro h
  have hline := h "\"\\\x07\"" "error[lexical]: Invalid escape sequence: \\\x07 (line 1, column 2)"
    (by decide +kernel) '\x07' (by decide +kernel)
  exact absurd hline (by decide)

end Analysis
end CoreLang
