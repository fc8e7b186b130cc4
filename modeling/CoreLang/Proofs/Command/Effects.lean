import CoreLang.Command.Run
import CoreLang.Proofs.Command.Directories

/-! What a run of the command does to its system: the exit, the files after it and the lines that it
notes. -/
namespace CoreLang.Command

def Options.tablePath (o : Options) : String := inDirectory o.outDir "symbol_table.txt"

def Options.treePath (o : Options) : String := inDirectory o.outDir "parse_tree.txt"

def Options.tableLine (o : Options) (a : Analysis) : String :=
  s!"Symbol table written to {o.tablePath} ({a.tokens.length} tokens)"

namespace World

def noteLines (w : World) (lines : List String) : World :=
  { w with notes := w.notes ++ String.join (lines.map (· ++ "\n")) }

theorem noteLines_noteLines (w : World) (a b : List String) :
    (w.noteLines a).noteLines b = w.noteLines (a ++ b) := by
  simp [noteLines, String.append_assoc]

theorem noteLines_files (w : World) (lines : List String) : (w.noteLines lines).files = w.files := rfl

theorem run_noteLines (lines : List String) (w : World) :
    (host.noteLines lines).run w = ((), w.noteLines lines) := rfl

theorem run_bind {ε α β : Type} (x : ExceptT ε (StateM World) α)
    (f : α → ExceptT ε (StateM World) β) (w : World) :
    (x >>= f).run.run w =
      match x.run.run w with
      | (.ok a, w) => (f a).run.run w
      | (.error e, w) => (.error e, w) := by
  change (ExceptT.bindCont f (x.run.run w).1).run (x.run.run w).2 = _
  generalize x.run.run w = r
  obtain ⟨_ | _, _⟩ := r <;> rfl

theorem run_read (path : String) (w : World) :
    (host.read path).run.run w = (w.files.read path, w) := rfl

theorem run_tryCatch {ε α : Type} (x : ExceptT ε (StateM World) α)
    (handle : ε → ExceptT ε (StateM World) α) (w : World) :
    (tryCatch x handle).run.run w =
      match x.run.run w with
      | (.ok a, w) => (.ok a, w)
      | (.error e, w) => (handle e).run.run w := by
  change (ExceptT.tryCatch x handle).run.run w = _
  rw [ExceptT.tryCatch, ExceptT.run_mk, StateT.run_bind]
  change (x.run.run w >>= _ : Id _) = _
  generalize x.run.run w = r
  obtain ⟨_ | _, _⟩ := r <;> rfl

def change (w : World) : Except SystemError Files → Except SystemError Unit × World
  | .ok files => (.ok (), { w with files })
  | .error e => (.error e, w)

theorem run_change (x : Except SystemError Files) (w : World) :
    ((liftM x : ExceptT SystemError (StateM World) Files) >>=
      fun files => modify ({ · with files })).run.run w = w.change x := by
  cases x <;> rfl

theorem run_makeDirectory (ns : List String) (w : World) :
    (host.makeDirectory ns).run.run w = w.change (w.files.makeDirectory ns) :=
  run_change (w.files.makeDirectory ns) w

theorem run_write (path text : String) (w : World) :
    (host.write path text).run.run w = w.change (w.files.write path text) :=
  run_change (w.files.write path text) w

/-- What an operation that can fail halfway makes of a system. -/
def leave (w : World) (r : Except SystemError Unit × Files) : Except SystemError Unit × World :=
  (r.1, { w with files := r.2 })

theorem run_unlessDirectory (ns : List String) (e : SystemError) (w : World) :
    (host.unlessDirectory ns e).run.run w =
      w.leave (if w.files.isDirectory ns then .ok () else .error e, w.files) := by
  change (if w.files.isDirectory ns then (return : ExceptT SystemError (StateM World) Unit)
    else throw e).run.run w = _
  split <;> rfl

theorem run_ensure (ns : List String) (w : World) :
    (tryCatch (host.makeDirectory ns) (host.unlessDirectory ns)).run.run w =
      w.leave (w.files.ensure ns) := by
  rw [run_tryCatch, run_makeDirectory, Files.ensure]
  cases w.files.makeDirectory ns with
  | ok made => rfl
  | error e => exact run_unlessDirectory ns e w

theorem run_makeAll (paths : List (List String)) (w : World) :
    (host.makeAll paths).run.run w = w.leave (w.files.makeAll paths) := by
  induction paths generalizing w with
  | nil => rfl
  | cons ns outer ih =>
    rw [Host.makeAll, run_tryCatch, run_makeDirectory]
    cases hmade : w.files.makeDirectory ns with
    | ok made => simp [Files.makeAll, Files.ensure, hmade, change, leave]
    | error e =>
      simp only [change, Files.makeAll, hmade]
      split_ifs
      · rw [run_bind, ih, leave]
        obtain ⟨result, between⟩ := w.files.makeAll outer
        cases result with
        | error e => rfl
        | ok => exact run_ensure ns { w with files := between }
      · rw [run_unlessDirectory, Files.ensure, hmade]

theorem run_makeDirectories (path : String) (w : World) :
    (host.makeDirectories path).run.run w = w.leave (w.files.makeDirectories path) := by
  unfold Host.makeDirectories Files.makeDirectories
  split_ifs
  · rfl
  · exact run_makeAll _ w

def finish : Except SystemError Exit × World → Exit × World
  | (.ok exit, w) => (exit, w)
  | (.error e, w) => (.failure, w.noteLines ["Error: " ++ e.details])

theorem run_lift {ε α : Type} (x : StateM World α) (w : World) :
    (liftM x : ExceptT ε (StateM World) α).run.run w = (.ok (x.run w).1, (x.run w).2) := rfl

theorem run_finish (x : ExceptT SystemError (StateM World) Exit) (w : World) :
    (do
      match ← x.run with
      | .ok exit => return exit
      | .error e =>
        host.noteLines ["Error: " ++ e.details]
        return .failure : StateM World Exit).run w = finish (x.run.run w) := by
  rw [StateT.run_bind]
  generalize x.run.run w = r
  obtain ⟨_ | _, _⟩ := r <;> rfl

end World

/-- How the report on the tree ends, once there is a symbol table. -/
inductive ReportsTree (style : Style) (o : Options) (a : Analysis) (files : Files) :
    Exit → Files → List String → Prop
  | tokensOnly : o.tokensOnly = true → ReportsTree style o a files .success files []
  | failed {failure : ParseFailure} : o.tokensOnly = false → a.parse.result = .error failure →
      ReportsTree style o a files .failure files
        (failure.errors.map (·.line style) ++ [style.bold .red "Parsing failed due to errors."])
  | noTree {root : Tree} {e : SystemError} : o.tokensOnly = false → a.parse.result = .ok root →
      files.write o.treePath (root.outline ++ "\n") = .error e →
      ReportsTree style o a files .failure files ["Error: " ++ e.details]
  | parsed {root : Tree} {treed : Files} : o.tokensOnly = false → a.parse.result = .ok root →
      files.write o.treePath (root.outline ++ "\n") = .ok treed →
      ReportsTree style o a files .success treed
        [style.bold .green "Parsing successful!", s!"Parse tree written to {o.treePath}"]

/-- How the reports on a text end. -/
inductive Reports (style : Style) (o : Options) (a : Analysis) (files : Files) :
    Exit → Files → List String → Prop
  | noDirectory {made : Files} {e : SystemError} :
      files.makeDirectories o.outDir = (.error e, made) →
      Reports style o a files .failure made ["Error: " ++ e.details]
  | noTable {made : Files} {e : SystemError} : files.makeDirectories o.outDir = (.ok (), made) →
      made.write o.tablePath (SymbolTable.render a.tokens) = .error e →
      Reports style o a files .failure made ["Error: " ++ e.details]
  | table {made tabled after : Files} {exit : Exit} {lines : List String} :
      files.makeDirectories o.outDir = (.ok (), made) →
      made.write o.tablePath (SymbolTable.render a.tokens) = .ok tabled →
      ReportsTree style o a tabled exit after lines →
      Reports style o a files exit after (o.tableLine a :: lines)

theorem run_writeReports (style : Style) (o : Options) (a : Analysis) (w : World) :
    ∃ exit files lines, Reports style o a w.files exit files lines ∧
      World.finish ((writeReports World.host style o a).run.run w) =
        (exit, { w with files }.noteLines lines) := by
  have htable : inDirectory o.outDir "symbol_table.txt" = o.tablePath := rfl
  have htree : inDirectory o.outDir "parse_tree.txt" = o.treePath := rfl
  simp only [writeReports, htable, htree, World.run_bind, World.run_makeDirectories,
    World.run_write, World.run_lift, World.run_noteLines]
  rcases hmade : w.files.makeDirectories o.outDir with ⟨e | _, made⟩
  · exact ⟨_, _, _, .noDirectory hmade, rfl⟩
  · dsimp only [World.change, World.leave]
    cases htabled : made.write o.tablePath (SymbolTable.render a.tokens) with
    | error e => exact ⟨_, _, _, .noTable hmade htabled, rfl⟩
    | ok tabled =>
      dsimp only
      cases htokens : o.tokensOnly with
      | true => exact ⟨_, _, _, .table hmade htabled (.tokensOnly htokens), rfl⟩
      | false =>
        cases hresult : a.parse.result with
        | error failure =>
          refine ⟨_, _, _, .table hmade htabled (.failed htokens hresult), ?_⟩
          exact congrArg (Prod.mk Exit.failure) (World.noteLines_noteLines _ _ _)
        | ok root =>
          simp only [Bool.false_eq_true, ↓reduceIte, World.run_bind, World.run_write,
            World.run_lift, World.run_noteLines, World.noteLines_files]
          cases htreed : tabled.write o.treePath (root.outline ++ "\n") with
          | error e =>
            refine ⟨_, _, _, .table hmade htabled (.noTree htokens hresult htreed), ?_⟩
            exact congrArg (Prod.mk Exit.failure) (World.noteLines_noteLines _ _ _)
          | ok treed =>
            refine ⟨_, _, _, .table hmade htabled (.parsed htokens hresult htreed), ?_⟩
            exact congrArg (Prod.mk Exit.success)
              (World.noteLines_noteLines { w with files := treed } _ _)

theorem run_runOptions (style : Style) (usage : String) {o : Options} {w : World} {source : String}
    (hpath : isSourcePath o.file = true) (hread : w.files.read o.file = .ok source) :
    ∃ exit files lines, Reports style o (Analysis.ofSource source) w.files exit files lines ∧
      (runOptions World.host style usage o).run w =
        (exit, { w with files }.noteLines (s!"Scanning {o.file}..." ::
          (Analysis.ofSource source).lexicalErrors.map (LexicalError.line style) ++ lines)) := by
  obtain ⟨exit, files, lines, hreports, hrun⟩ :=
    run_writeReports style o (Analysis.ofSource source) ((w.noteLines _).noteLines _)
  refine ⟨exit, files, lines, hreports, ?_⟩
  simp only [runOptions, hpath, ↓reduceIte, StateT.run_bind, World.run_read, hread]
  refine (World.run_finish _ _).trans (hrun.trans (congrArg (Prod.mk exit) ?_))
  have hlines (w : World) (a b : List String) :
      ((w.noteLines a).noteLines b).noteLines lines = w.noteLines (a ++ b ++ lines) := by
    rw [World.noteLines_noteLines, World.noteLines_noteLines, List.append_assoc]
  exact hlines { w with files } _ _

end CoreLang.Command
