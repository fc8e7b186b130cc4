import CoreLang.Proofs.Command.Effects
import CoreLang.Proofs.Parse.Sentence

/-! A text with a lexical fault never parses. So a run on such a text neither says that it was
parsed nor writes a tree. -/
namespace CoreLang

namespace Command
variable {style : Style} {o : Options} {a : Analysis} {files after : Files} {exit : Exit}
  {lines : List String}

/-- Reports without a tree: at most the symbol table is written, and they end in a failure unless no
more than the table was asked for. -/
structure ReportsNoTree (style : Style) (o : Options) (a : Analysis) (files : Files) (exit : Exit)
    (after : Files) (lines : List String) : Prop where
  files : ∃ result made, files.makeDirectories o.outDir = (result, made) ∧
    (after = made ∨ result = .ok () ∧
      made.write o.tablePath (SymbolTable.render a.tokens) = .ok after)
  lines : exit = .success ∧ o.tokensOnly = true ∧ lines = [o.tableLine a] ∨
    exit = .failure ∧ ((∃ e : SystemError, lines = ["Error: " ++ e.details]) ∨
      lines = o.tableLine a :: (a.parse.errors.map (SyntaxError.line style) ++
        [style.bold .red "Parsing failed due to errors."]))

theorem Reports.noTree (h : Reports style o a files exit after lines)
    (herrors : a.parse.errors ≠ []) : ReportsNoTree style o a files exit after lines := by
  have hresult := Parse.result_eq_of_errors_ne_nil herrors
  cases h with
  | noDirectory hmade => exact ⟨⟨_, _, hmade, .inl rfl⟩, .inr ⟨rfl, .inl ⟨_, rfl⟩⟩⟩
  | noTable hmade => exact ⟨⟨_, _, hmade, .inl rfl⟩, .inr ⟨rfl, .inl ⟨_, rfl⟩⟩⟩
  | table hmade htabled htree =>
    cases htree with
    | tokensOnly htokens =>
      exact ⟨⟨_, _, hmade, .inr ⟨rfl, htabled⟩⟩, .inl ⟨rfl, htokens, rfl⟩⟩
    | failed _ hfailure =>
      rw [hresult] at hfailure
      cases hfailure
      exact ⟨⟨_, _, hmade, .inr ⟨rfl, htabled⟩⟩, .inr ⟨rfl, .inr rfl⟩⟩
    | noTree _ hroot => rw [hresult] at hroot; cases hroot
    | parsed _ hroot => rw [hresult] at hroot; cases hroot

end Command

namespace Analysis
open Command

theorem parse_errors_ne_nil {source : String} (h : (ofSource source).lexicalErrors ≠ []) :
    (ofSource source).parse.errors ≠ [] := Parse.ofSource_errors_ne_nil h

/-- A text with a lexical fault never parses. A run on it writes no tree and reports no success but
that of the symbol table, if no more was asked for. -/
theorem ofSource_clean (source : String) :
    (ofSource source).clean = (ofSource source).parse.successful ∧
      ((ofSource source).lexicalErrors ≠ [] → (ofSource source).parse.errors ≠ [] ∧
        ∀ (cli : CommandLine) (style : Style) (arguments : List String) (o : Options) (w : World),
          cli.request arguments = .ok (.run o) → isSourcePath o.file = true →
            w.files.read o.file = .ok source →
              ∃ exit files lines, ReportsNoTree style o (ofSource source) w.files exit files lines ∧
                (run World.host cli style arguments).run w =
                  (exit, { w with files }.noteLines (s!"Scanning {o.file}..." ::
                    (ofSource source).lexicalErrors.map (LexicalError.line style) ++ lines))) := by
  refine ⟨?_, fun h => ⟨parse_errors_ne_nil h, fun cli style arguments o w hrequest hpath hread => ?_⟩⟩
  · by_cases h : (ofSource source).lexicalErrors = []
    · simp [clean, h]
    · have herrors := parse_errors_ne_nil h
      simp [clean, Parse.successful, h, herrors]
  · obtain ⟨exit, files, lines, hreports, hrun⟩ := run_runOptions style cli.usage hpath hread
    refine ⟨exit, files, lines, hreports.noTree (parse_errors_ne_nil h), ?_⟩
    rw [← hrun]
    simp [run, hrequest]

/-- A stray character in a file of its own. -/
theorem ofSource_clean_stray :
    (ofSource "@").parse.errors ≠ [] ∧
      ∃ exit files lines,
        ReportsNoTree .plain ⟨"a.core", ".", false⟩ (ofSource "@")
            (Files.ofList [] [("a.core", "@".toUTF8)]) exit files lines ∧
          (run World.host .corefront .plain ["a.core"]).run
              { files := Files.ofList [] [("a.core", "@".toUTF8)] } =
            (exit, World.noteLines { files } ("Scanning a.core..." ::
              (ofSource "@").lexicalErrors.map (LexicalError.line .plain) ++ lines)) := by
  have herrors : (ofSource "@").lexicalErrors ≠ [] := by decide +kernel
  obtain ⟨hparse, hrun⟩ := (ofSource_clean "@").2 herrors
  exact ⟨hparse, hrun .corefront .plain ["a.core"] ⟨"a.core", ".", false⟩
    { files := Files.ofList [] [("a.core", "@".toUTF8)] } rfl rfl rfl⟩

end Analysis
end CoreLang
