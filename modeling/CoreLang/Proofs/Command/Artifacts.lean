import CoreLang.Proofs.Command.Effects
import CoreLang.Proofs.Parse.Sentence

/-! The reports of a run: what their files hold then, and that no other file is touched. -/
namespace CoreLang.Command

namespace Files
variable {f g : Files} {place : List String} {dir file text : String}

/-- A name that a file can have in a directory. -/
structure FileName (file : String) : Prop where
  slash : '/' ∉ file.toList
  leads : leads file = true
  up : file ≠ ".."

theorem fromUTF8?_toUTF8 (text : String) : String.fromUTF8? text.toUTF8 = some text :=
  dif_pos text.isValidUTF8

theorem FileName.step (h : FileName file) (place : List String) :
    step place file = place ++ [file] :=
  step_of_leads h.leads h.up

theorem FileName.follow (h : FileName file) (hplace : f.hasDirectory place = true)
    (hentry : (f.entry? (place ++ [file])).isSome) :
    f.follow place [file] = .ok (place ++ [file]) := by
  obtain ⟨-, hleads, hup⟩ := h
  simp only [Command.leads, decide_eq_true_eq] at hleads
  have hnone : ¬(f.entry? (place ++ [file])).isNone = true := by
    simpa [Option.isSome_iff_ne_none] using hentry
  rw [Files.follow, if_neg (by simp [hplace]), if_neg (by tauto), if_neg hup, if_neg hnone,
    Files.follow]

theorem exists_parent (f : Files) (dir : String) (hfile : FileName file) :
    ∃ init, names (inDirectory dir file) = init ++ [file] ∧
      f.origin (init ++ [file]) = f.origin (names dir) ∧
      resolve (f.origin (names dir)) init = f.placeOf dir ∧
      ∀ place, f.follow (f.origin (names dir)) (names dir) = .ok place →
        f.follow (f.origin (names dir)) init = .ok place := by
  obtain ⟨init, hdir, hnames, hfromTop⟩ := names_inDirectory dir hfile.slash
  refine ⟨init, hnames, by rw [origin, origin, hfromTop], ?_, fun place hfollow => ?_⟩
  · rcases hdir with hdir | hdir
    · rw [placeOf, hdir]
    · rw [placeOf, hdir, resolve_append]
      rfl
  · rcases hdir with hdir | hdir
    · rwa [← hdir]
    · rw [hdir, follow_append] at hfollow
      obtain ⟨parent, hinit, hfollow⟩ := exists_of_bind_eq_ok hfollow
      simp only [follow, true_or, ↓reduceIte] at hfollow
      split_ifs at hfollow
      rw [hdir, hinit, hfollow]

theorem placeOf_inDirectory (f : Files) (dir : String) (hfile : FileName file) :
    f.placeOf (inDirectory dir file) = f.placeOf dir ++ [file] := by
  obtain ⟨init, hnames, horigin, hinit, -⟩ := f.exists_parent dir hfile
  rw [placeOf, hnames, horigin, resolve_append, hinit]
  exact hfile.step _

/-- A file is written in a directory that is there, and it is read as it was written. -/
theorem exists_write (hfile : FileName file) (hreach : f.Reaches dir)
    (hfree : f.hasDirectory (f.placeOf (inDirectory dir file)) = false) (text : String) :
    ∃ g, f.write (inDirectory dir file) text = .ok g ∧
      f.Keeps [] [f.placeOf (inDirectory dir file)] g ∧
      g.read (inDirectory dir file) = .ok text := by
  obtain ⟨init, hnames, horigin, -, hinit⟩ := f.exists_parent dir hfile
  have hinit := hinit _ hreach.locate
  rw [placeOf_inDirectory f dir hfile] at hfree ⊢
  have hkeeps := keeps_put_file hfree text.toUTF8
  have hentry := entry?_put hfree (.file text.toUTF8) (f.placeOf dir ++ [file])
  rw [if_pos rfl] at hentry
  refine ⟨_, ?_, hkeeps, ?_⟩
  · have hspecial : ¬(file = "" ∨ file = "." ∨ file = "..") := by
      have hleads := hfile.leads
      simp only [Command.leads, decide_eq_true_eq] at hleads
      simp [hleads, hfile.up]
    have htarget : f.target (names (inDirectory dir file)) = .ok (f.placeOf dir ++ [file]) := by
      rw [hnames, target_concat, horigin, hinit, Except.bind, if_pos hreach.directory,
        if_neg hspecial]
    rw [write, htarget]
    simp only [bind, Except.bind, hfree]
    rfl
  · have hlocate : (f.put (f.placeOf dir ++ [file]) (.file text.toUTF8)).locate
        (names (inDirectory dir file)) = .ok (f.placeOf dir ++ [file]) := by
      rw [locate, hkeeps.origin, hnames, horigin, follow_append, hkeeps.follow hinit, Except.bind]
      exact hfile.follow (hkeeps.directory hreach.directory) (by rw [hentry]; rfl)
    simp only [read, hlocate, hentry, fromUTF8?_toUTF8]

theorem read_eq_ok {path : String} : f.read path = .ok text ↔
    f.locate (names path) = .ok (f.placeOf path) ∧
      ∃ content, f.file? (f.placeOf path) = some content ∧
        String.fromUTF8? content = some text := by
  constructor
  · intro hread
    unfold Files.read at hread
    cases hlocate : f.locate (names path) with
    | error e =>
      rw [hlocate] at hread
      cases hread
    | ok place =>
      obtain rfl : place = f.placeOf path := follow_eq_ok hlocate
      refine ⟨rfl, ?_⟩
      simp only [hlocate] at hread
      match hentry : f.entry? (f.placeOf path) with
      | none => simp [hentry] at hread
      | some .directory => simp [hentry] at hread
      | some (.file content) =>
        refine ⟨content, file?_eq_some.2 hentry, ?_⟩
        simp only [hentry] at hread
        split at hread
        · cases hread
        · simp_all
  · rintro ⟨hlocate, content, hfile, hdecode⟩
    simp only [read, hlocate, file?_eq_some.1 hfile, hdecode]

theorem Keeps.entry?_eq {made changed : List (List String)} (hfg : f.Keeps made changed g)
    (hmade : place ∉ made) (hchanged : place ∉ changed) : g.entry? place = f.entry? place := by
  apply Option.ext
  intro entry
  cases entry with
  | file content => rw [← file?_eq_some, hfg.file hchanged, file?_eq_some]
  | directory => rw [← hasDirectory_iff, hfg.made hmade, hasDirectory_iff]

theorem Keeps.read {made changed : List (List String)} {path : String}
    (hfg : f.Keeps made changed g) (hread : f.read path = .ok text)
    (hplace : f.placeOf path ∉ changed) : g.read path = .ok text := by
  obtain ⟨hlocate, content, hfile, hdecode⟩ := read_eq_ok.1 hread
  refine read_eq_ok.2 ⟨?_, content, ?_, hdecode⟩
  · rw [locate, hfg.origin, hfg.placeOf]
    exact hfg.follow hlocate
  · rw [hfg.placeOf, hfg.file hplace, hfile]

theorem placeOf_eq_concat (f : Files) {path : String} (hpath : isSourcePath path = true) :
    ∃ parent name, f.placeOf path = parent ++ [name] ∧ ".core".toList <:+ name.toList := by
  unfold isSourcePath at hpath
  split at hpath
  · cases hpath
  · rename_i name hlast
    obtain ⟨hsuffix, -⟩ := Bool.and_eq_true_iff.1 hpath
    have hsuffix := List.isSuffixOf_iff_suffix.1 hsuffix
    obtain ⟨init, hproper⟩ := List.getLast?_eq_some_iff.1 hlast
    have hmem : name ∈ properNames path := by simp [hproper]
    have hup : name ≠ ".." := by
      rintro rfl
      exact absurd hsuffix (by decide)
    have hleads : leads name = true := List.of_mem_filter (p := leads) hmem
    refine ⟨resolve (f.origin (names path)) init, name, ?_, hsuffix⟩
    rw [placeOf_eq, hproper, resolve_append]
    exact step_of_leads hleads hup

theorem placeOf_ne_inDirectory (f : Files) {path : String} (hpath : isSourcePath path = true)
    (dir : String) (hfile : FileName file) (hcore : ¬".core".toList <:+ file.toList) :
    f.placeOf path ≠ f.placeOf (inDirectory dir file) := by
  obtain ⟨parent, name, hplace, hsuffix⟩ := f.placeOf_eq_concat hpath
  rw [hplace, placeOf_inDirectory f dir hfile]
  intro heq
  obtain ⟨-, hlast⟩ := List.append_inj' heq rfl
  obtain rfl : name = file := by simpa using hlast
  exact hcore hsuffix

end Files

namespace Options

/-- A directory that can take the reports. Neither it nor anything on the way to it is a file, it is
not the dot of a missing directory, and the places of the reports are no directories and do not
become ones when their own directory is made. -/
structure Usable (o : Options) (f : Files) : Prop where
  way : ∀ place ∈ f.wayTo o.outDir, f.file? place = none
  dot : ¬f.Dotted o.outDir
  table : f.hasDirectory (f.placeOf o.tablePath) = false ∧ f.placeOf o.tablePath ∉ f.wayTo o.outDir
  tree : f.hasDirectory (f.placeOf o.treePath) = false ∧ f.placeOf o.treePath ∉ f.wayTo o.outDir

end Options

/-- What the reports on a text leave: the symbol table, the text itself, the tree if it was asked
for and there is one, and all else as it was but for directories on the way. -/
structure Reported (o : Options) (source : String) (before : Files) (exit : Exit) (after : Files) :
    Prop where
  table : after.read o.tablePath = .ok (SymbolTable.render (Lexed.ofSource source).tokens)
  input : after.read o.file = .ok source
  tokensOnly : o.tokensOnly = true → exit = .success ∧
    after.entry? (before.placeOf o.treePath) = before.entry? (before.placeOf o.treePath)
  accepted : o.tokensOnly = false → ∀ t : Tree, t.Reads source →
    exit = .success ∧ after.read o.treePath = .ok (t.outline ++ "\n")
  rejected : o.tokensOnly = false → (¬∃ t : Tree, t.Reads source) → exit = .failure ∧
    after.entry? (before.placeOf o.treePath) = before.entry? (before.placeOf o.treePath)
  frame : before.Keeps (before.wayTo o.outDir)
    [before.placeOf o.tablePath, before.placeOf o.treePath] after

structure Effects (o : Options) (before : Files) (exit : Exit) (after : Files) : Prop where
  extension : isSourcePath o.file = false → exit = .usage ∧ after = before
  unreadable : isSourcePath o.file = true → ∀ e, before.read o.file = .error e →
    exit = .failure ∧ after = before
  occupied : isSourcePath o.file = true → (before.file? (before.placeOf o.outDir)).isSome →
    exit = .failure ∧ before.Keeps (before.wayTo o.outDir) [] after ∧
      (before.locate (names o.outDir) ≠ .error .notFound → after = before)
  reported : isSourcePath o.file = true → ∀ source, before.read o.file = .ok source →
    o.Usable before → Reported o source before exit after

section
variable {style : Style} {o : Options} {w : World} {before after : Files} {exit : Exit}
  {lines : List String} {source : String}

theorem tableName : Files.FileName "symbol_table.txt" := ⟨by decide, by decide, by decide⟩

theorem treeName : Files.FileName "parse_tree.txt" := ⟨by decide, by decide, by decide⟩

theorem Reports.occupied (h : Reports style o (Analysis.ofSource source) before exit after lines)
    (hfile : (before.file? (before.placeOf o.outDir)).isSome) :
    exit = .failure ∧ before.Keeps (before.wayTo o.outDir) [] after ∧
      (before.locate (names o.outDir) ≠ .error .notFound → after = before) := by
  obtain ⟨hkeeps, hdirectory⟩ := before.makeDirectories_keeps o.outDir
  have hfailed : (before.makeDirectories o.outDir).1 ≠ .ok () := by
    intro hok
    have hnone := Files.file?_of_hasDirectory (hdirectory hok)
    rw [hkeeps.file List.not_mem_nil] at hnone
    rw [hnone] at hfile
    cases hfile
  cases h with
  | noDirectory hmade =>
    obtain rfl : (before.makeDirectories o.outDir).2 = after := congrArg Prod.snd hmade
    exact ⟨rfl, hkeeps, fun hlocate => Files.makeDirectories_eq_self hlocate hfailed⟩
  | noTable hmade | table hmade => exact absurd (congrArg Prod.fst hmade) hfailed

theorem ReportsTree.reported
    (h : ReportsTree style o (Analysis.ofSource source) before exit after lines)
    (hreach : before.Reaches o.outDir)
    (hfree : before.hasDirectory (before.placeOf o.treePath) = false) :
    before.Keeps [] [before.placeOf o.treePath] after ∧
      (o.tokensOnly = true → exit = .success ∧ after = before) ∧
      (o.tokensOnly = false → ∀ t : Tree, t.Reads source →
        exit = .success ∧ after.read o.treePath = .ok (t.outline ++ "\n")) ∧
      (o.tokensOnly = false → (¬∃ t : Tree, t.Reads source) →
        exit = .failure ∧ after = before) := by
  have hreads {t : Tree} : (Analysis.ofSource source).parse.result = .ok t ↔ t.Reads source :=
    Parse.ofSource_result_eq_ok_iff
  cases h with
  | tokensOnly htokens => simp [htokens, Files.Keeps.refl]
  | failed htokens hfailure =>
    refine ⟨.refl before, by simp [htokens], fun _ t ht => ?_, fun _ _ => ⟨rfl, rfl⟩⟩
    rw [hreads.2 ht] at hfailure
    cases hfailure
  | @noTree root _ htokens hroot hfailed =>
    obtain ⟨treed, htreed, -⟩ := Files.exists_write treeName hreach hfree (root.outline ++ "\n")
    rw [Options.treePath, htreed] at hfailed
    cases hfailed
  | @parsed root _ htokens hroot htreed =>
    obtain ⟨treed, htreed', hkeeps, hread⟩ :=
      Files.exists_write treeName hreach hfree (root.outline ++ "\n")
    obtain rfl := Except.ok.inj (htreed.symm.trans htreed')
    refine ⟨hkeeps, by simp [htokens], fun _ t ht => ⟨rfl, ?_⟩, fun _ hnone => ?_⟩
    · obtain rfl := Except.ok.inj ((hreads.2 ht).symm.trans hroot)
      exact hread
    · exact absurd ⟨root, hreads.1 hroot⟩ hnone

theorem Reports.reported (h : Reports style o (Analysis.ofSource source) before exit after lines)
    (hpath : isSourcePath o.file = true) (hread : before.read o.file = .ok source)
    (husable : o.Usable before) : Reported o source before exit after := by
  have htableInput := before.placeOf_ne_inDirectory hpath o.outDir tableName (by decide)
  have htreeInput := before.placeOf_ne_inDirectory hpath o.outDir treeName (by decide)
  have htableTree : before.placeOf o.tablePath ≠ before.placeOf o.treePath := by
    rw [Options.tablePath, Options.treePath, before.placeOf_inDirectory o.outDir tableName,
      before.placeOf_inDirectory o.outDir treeName]
    simp
  obtain ⟨made, hmade, hreach⟩ := Files.exists_makeDirectories husable.way husable.dot
  obtain ⟨hkeeps, -⟩ := Files.makeDirectories_eq_ok hmade
  have hfree : made.hasDirectory (made.placeOf o.tablePath) = false := by
    rw [hkeeps.placeOf, hkeeps.made husable.table.2]
    exact husable.table.1
  obtain ⟨tabled, htabled, hkeepsTable, htable⟩ := Files.exists_write tableName hreach hfree
    (SymbolTable.render (Lexed.ofSource source).tokens)
  have hreach := hkeepsTable.reaches hreach
  cases h with
  | noDirectory hfailed =>
    rw [hmade] at hfailed
    cases hfailed
  | noTable hmade' hfailed =>
    obtain rfl := congrArg Prod.snd (hmade.symm.trans hmade')
    cases htabled.symm.trans hfailed
  | table hmade' htabled' htree =>
    obtain rfl := congrArg Prod.snd (hmade.symm.trans hmade')
    obtain rfl := Except.ok.inj (htabled.symm.trans htabled')
    have hkeeps : before.Keeps (before.wayTo o.outDir) [before.placeOf o.tablePath] tabled := by
      rw [hkeeps.placeOf] at hkeepsTable
      exact (hkeeps.mono (List.Subset.refl _) (by simp)).trans
        (hkeepsTable.mono (by simp) (List.Subset.refl _))
    have hfree : tabled.hasDirectory (tabled.placeOf o.treePath) = false := by
      rw [hkeeps.placeOf, hkeeps.made husable.tree.2]
      exact husable.tree.1
    obtain ⟨hkeepsTree, htokens, haccepted, hrejected⟩ := htree.reported hreach hfree
    rw [hkeeps.placeOf] at hkeepsTree
    have hall : before.Keeps (before.wayTo o.outDir)
        [before.placeOf o.tablePath, before.placeOf o.treePath] after :=
      (hkeeps.mono (List.Subset.refl _) (by simp)).trans (hkeepsTree.mono (by simp) (by simp))
    have htreeKept : tabled.entry? (before.placeOf o.treePath) =
        before.entry? (before.placeOf o.treePath) := by
      apply hkeeps.entry?_eq husable.tree.2
      simpa using htableTree.symm
    refine ⟨hkeepsTree.read htable ?_, hall.read hread ?_, fun h => ?_, haccepted,
      fun h hnone => ?_, hall⟩
    · rw [hkeeps.placeOf]
      simpa using htableTree
    · simpa using ⟨htableInput, htreeInput⟩
    · obtain ⟨rfl, rfl⟩ := htokens h
      exact ⟨rfl, htreeKept⟩
    · obtain ⟨rfl, rfl⟩ := hrejected h hnone
      exact ⟨rfl, htreeKept⟩

theorem run_otherExtension (style : Style) (usage : String) (w : World)
    (hpath : isSourcePath o.file = false) :
    (runOptions World.host style usage o).run w =
      (.usage,
        w.noteLines [s!"Input file must have a .{sourceExtension} extension.", "", usage]) := by
  simp only [runOptions, hpath, Bool.false_eq_true, ↓reduceIte]
  rfl

theorem run_unreadable (style : Style) (usage : String) {w : World} {e : ReadError}
    (hpath : isSourcePath o.file = true) (hread : w.files.read o.file = .error e) :
    (runOptions World.host style usage o).run w =
      (.failure, w.noteLines [s!"Error: cannot read '{o.file}': {e}"]) := by
  simp only [runOptions, hpath, ↓reduceIte, StateT.run_bind, World.run_read, hread]
  rfl

end

/-- What a run on one file leaves. A file that is no source file, or cannot be read, and a directory
for the reports that is a file, end it without a change to any file. Otherwise the symbol table is
written in any case that the directory allows, and the tree if it was asked for and the text has
one. No other file is changed, and the exit tells which of these happened. -/
theorem run_effects (cli : CommandLine) (style : Style) {arguments : List String} {o : Options}
    (hrequest : cli.request arguments = .ok (.run o)) (w : World) :
    ∃ exit after notes,
      (run World.host cli style arguments).run w = (exit, { w with files := after, notes }) ∧
        Effects o w.files exit after := by
  have hrun : run World.host cli style arguments =
      runOptions World.host style cli.usage o := by
    rw [run, hrequest]
  rw [hrun]
  cases hpath : isSourcePath o.file with
  | false =>
    exact ⟨_, w.files, _, run_otherExtension style cli.usage w hpath,
      ⟨fun _ => ⟨rfl, rfl⟩, by simp [hpath], by simp [hpath], by simp [hpath]⟩⟩
  | true =>
    cases hread : w.files.read o.file with
    | error e =>
      exact ⟨_, w.files, _, run_unreadable style cli.usage hpath hread,
        ⟨by simp [hpath], fun _ _ _ => ⟨rfl, rfl⟩,
          fun _ _ => ⟨rfl, .refl _, fun _ => rfl⟩, by simp [hread]⟩⟩
    | ok source =>
      obtain ⟨exit, after, lines, hreports, hrun⟩ := run_runOptions style cli.usage hpath hread
      refine ⟨exit, after, _, hrun, ⟨by simp [hpath], by simp [hread],
        fun _ hfile => hreports.occupied hfile, fun _ source' hsource husable => ?_⟩⟩
      obtain rfl := Except.ok.inj (hread.symm.trans hsource)
      exact hreports.reported hpath hread husable

/-- A declaration in a file of its own, with a directory for the reports that is not there yet. -/
theorem run_effects_declaration :
    let files := Files.ofList [] [("a.core", "int x;".toUTF8)]
    let o : Options := ⟨"a.core", "out/reports", false⟩
    CommandLine.corefront.request ["a.core", "-o", "out/reports"] = .ok (.run o) ∧
      o.Usable files ∧
      ∃ (t : Tree) (after : Files) (notes : String), t.Reads "int x;" ∧
        (run World.host .corefront .plain ["a.core", "-o", "out/reports"]).run { files } =
          (.success, { files := after, notes }) ∧
        after.read o.tablePath = .ok (SymbolTable.render (Lexed.ofSource "int x;").tokens) ∧
        after.read o.treePath = .ok (t.outline ++ "\n") := by
  intro files o
  have hrequest : CommandLine.corefront.request ["a.core", "-o", "out/reports"] = .ok (.run o) :=
    rfl
  have htree : (Parse.ofSource "int x;").result = .ok (Parse.ofSource "int x;").root := by
    decide +kernel
  have hreads := Parse.ofSource_result_eq_ok_iff.1 htree
  have husable : o.Usable files := by
    constructor <;> decide +kernel
  have hread : files.read "a.core" = .ok "int x;" := rfl
  obtain ⟨exit, after, notes, hrun, heffects⟩ := run_effects .corefront .plain hrequest { files }
  have hreported := heffects.reported (by decide) "int x;" hread husable
  obtain ⟨rfl, htree⟩ := hreported.accepted rfl _ hreads
  exact ⟨hrequest, husable, _, after, notes, hreads, hrun, hreported.table, htree⟩

/-- A directory that is not there is not made if it is named by the dot in it, and a directory is
made in the place of the symbol table if the path passes there. Then there are no reports. -/
theorem runOn_not_usable :
    let files := Files.ofList [] [("a.core", "int x;".toUTF8)]
    (Lexed.ofSource "int x;").errors = [] ∧ (Parse.ofSource "int x;").successful = true ∧
      ∀ dir ∈ ["out/.", "symbol_table.txt/.."],
        (∀ place ∈ files.wayTo dir, files.file? place = none) ∧
          (∀ report ∈ ["symbol_table.txt", "parse_tree.txt"],
            files.hasDirectory (files.placeOf (inDirectory dir report)) = false ∧
              (runOn files ["a.core", "-o", dir]).2.files.file?
                (files.placeOf (inDirectory dir report)) = none) ∧
          (runOn files ["a.core", "-o", dir]).1 = .failure := by
  decide +kernel

end CoreLang.Command
