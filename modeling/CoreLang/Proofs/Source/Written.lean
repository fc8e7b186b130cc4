import CoreLang.Proofs.Source.Respelling
import CoreLang.Proofs.Source.Sequence

/-! The values that literals can have, and that each of them has a source text. -/
namespace CoreLang
open Source

/-- The values of the literals of a kind: every text for a string, every single character for a character
literal, and for a numeral digits, with a point between some of them if it is a decimal one. -/
inductive Kind.HasValue : Kind → List Char → Prop
  | string (value : List Char) : HasValue .string value
  | character (c : Char) : HasValue .characterLiteral [c]
  | numeral {kind : Kind} {digits : List Char} (h : Numeral.Plain kind digits) : HasValue kind digits

theorem Source.Numeral.Plain.spell {kind : Kind} {digits : List Char} (h : Plain kind digits) :
    kind.spell digits = digits := by
  cases h <;> rfl

/-- What is written for the value of a literal is one piece, with this value. -/
theorem Kind.HasValue.scansTo {kind : Kind} {value next : List Char} (h : kind.HasValue value)
    (hnext : ∀ d ∈ next.head?, Numeral.isMember d = false) :
    ScansTo (kind.spell value ++ next) ⟨kind.spell value, .token kind value, next⟩ := by
  cases h with
  | string => exact scansTo_quoted .double value next
  | character c => exact scansTo_quoted .single [c] next
  | numeral h =>
    rw [h.spell]
    exact scansTo_plain h hnext

/-- A text that is one sound piece has the token of this piece and the end marker. -/
theorem ofChars_of_scansTo {text lexeme : List Char} {kind : Kind}
    (h : ScansTo text ⟨text, .token kind lexeme, []⟩) :
    Lexed.ofChars text =
      ⟨[⟨kind, String.ofList lexeme, .start⟩, .endMarker (Position.start.after text)], []⟩ := by
  obtain ⟨c, rest, htext, hstarts, hscan⟩ := h
  have htokens : tokensFrom .start text = [(⟨kind, String.ofList lexeme, .start⟩, none)] := by
    rw [htext, tokensFrom_of_scan hstarts hscan, tokensFrom_of_gap rfl]
    rfl
  rw [Lexed.ofChars_eq, htokens]
  rfl

/-- A literal that is written as source text is read as the one token that it was. -/
theorem Lexed.ofSource_literal (t : Token) (h : t.kind.HasValue t.lexeme.toList) :
    ofSource t.source =
      ⟨[⟨t.kind, t.lexeme, .start⟩, .endMarker (Position.start.after t.source.toList)], []⟩ := by
  have hnext : ∀ d ∈ ([] : List Char).head?, Numeral.isMember d = false := fun _ hd => by cases hd
  have hscans := h.scansTo hnext
  rw [List.append_nil, ← Token.toList_source] at hscans
  have htokens := ofChars_of_scansTo hscans
  rw [String.ofList_toList] at htokens
  exact htokens

/-- A string with a backslash before a quote, and a line feed. -/
theorem Lexed.ofSource_literal_string :
    Kind.HasValue .string "\\\"\n".toList ∧
      ofSource "\"\\\\\\\"\\n\"" = ⟨[⟨.string, "\\\"\n", ⟨1, 1⟩⟩, .endMarker ⟨1, 9⟩], []⟩ := by
  have hvalue : Kind.HasValue .string "\\\"\n".toList := .string _
  have hsource : (Token.mk .string "\\\"\n" .start).source = "\"\\\\\\\"\\n\"" := by decide +kernel
  have hend : Position.start.after "\"\\\\\\\"\\n\"".toList = ⟨1, 9⟩ := by decide +kernel
  have htokens := ofSource_literal ⟨.string, "\\\"\n", .start⟩ hvalue
  rw [hsource, hend] at htokens
  exact ⟨hvalue, htokens⟩

end CoreLang
