import CoreLang.Proofs.Command.Ways

/-! What changes and what stays when directories are made and files are written. -/
namespace CoreLang.Command

namespace Files
variable {f g h : Files} {start place : List String} {ns : List String}
  {made made' changed changed' : List (List String)}

/-- The same files and directories, and perhaps new directories at some places and changed files at
others. -/
structure Keeps (f : Files) (made changed : List (List String)) (g : Files) : Prop where
  here : g.here = f.here
  directory {place : List String} : f.hasDirectory place = true → g.hasDirectory place = true
  entry {place : List String} : (f.entry? place).isSome → (g.entry? place).isSome
  made {place : List String} : place ∉ made → g.hasDirectory place = f.hasDirectory place
  file {place : List String} : place ∉ changed → g.file? place = f.file? place

namespace Keeps

theorem refl (f : Files) : f.Keeps made changed f :=
  ⟨rfl, id, id, fun _ => rfl, fun _ => rfl⟩

theorem trans (hfg : f.Keeps made changed g) (hgh : g.Keeps made changed h) :
    f.Keeps made changed h :=
  ⟨hgh.here.trans hfg.here, fun hplace => hgh.directory (hfg.directory hplace),
    fun hplace => hgh.entry (hfg.entry hplace),
    fun hplace => (hgh.made hplace).trans (hfg.made hplace),
    fun hplace => (hgh.file hplace).trans (hfg.file hplace)⟩

theorem mono (hfg : f.Keeps made changed g) (hmade : made ⊆ made') (hchanged : changed ⊆ changed') :
    f.Keeps made' changed' g :=
  ⟨hfg.here, hfg.directory, hfg.entry, fun hplace => hfg.made fun hmem => hplace (hmade hmem),
    fun hplace => hfg.file fun hmem => hplace (hchanged hmem)⟩

theorem origin (hfg : f.Keeps made changed g) (ns : List String) : g.origin ns = f.origin ns := by
  rw [Files.origin, Files.origin, hfg.here]

theorem rooted_origin (hfg : f.Keeps made changed g) (ns : List String) : g.Rooted (f.origin ns) :=
  hfg.origin ns ▸ g.rooted_origin ns

theorem placeOf (hfg : f.Keeps made changed g) (path : String) :
    g.placeOf path = f.placeOf path := by
  rw [Files.placeOf, Files.placeOf, hfg.origin]

theorem passable (hfg : f.Keeps made [] g) (hpass : f.Passable start ns) : g.Passable start ns := by
  intro place hplace
  rw [hfg.file List.not_mem_nil]
  exact hpass place hplace

theorem follow (hfg : f.Keeps made changed g) (hfollow : f.follow start ns = .ok place) :
    g.follow start ns = .ok place := by
  induction ns generalizing start with
  | nil => exact hfollow
  | cons name ns ih =>
    unfold Files.follow at hfollow ⊢
    split_ifs at hfollow with hdirectory hstay hup hentry
    · have hdirectory' := hfg.directory (by simpa using hdirectory)
      rw [if_neg (by simpa using hdirectory'), if_pos hstay, ih hfollow]
    · have hdirectory' := hfg.directory (by simpa using hdirectory)
      rw [if_neg (by simpa using hdirectory'), if_neg hstay, if_pos hup, ih hfollow]
    · have hdirectory' := hfg.directory (by simpa using hdirectory)
      have hentry' := hfg.entry
        (Option.isSome_iff_ne_none.2 (mt Option.isNone_iff_eq_none.2 hentry))
      rw [if_neg (by simpa using hdirectory'), if_neg hstay, if_neg hup,
        if_neg (by simpa [Option.isSome_iff_ne_none] using hentry'), ih hfollow]

end Keeps

section Put

theorem lookup_filter_ne {p : List String} (entries : List (List String × Entry))
    (hp : p ≠ place) : (entries.filter (·.1 ≠ place)).lookup p = entries.lookup p := by
  induction entries with
  | nil => rfl
  | cons pair entries ih =>
    by_cases hpair : pair.1 = place
    · have hne : (p == pair.1) = false := beq_false_of_ne (hpair ▸ hp)
      rw [List.filter_cons_of_neg (by simp [hpair]), ih, List.lookup_cons, hne]
    · rw [List.filter_cons_of_pos (by simp [hpair]), List.lookup_cons, List.lookup_cons, ih]

theorem entry?_put (hplace : f.hasDirectory place = false) (entry : Entry) (p : List String) :
    entry? (f.put place entry) p = if p = place then some entry else f.entry? p := by
  have hhere : ¬place.isPrefixOf f.here = true := by
    intro hhere
    rw [hasDirectory, entry?, if_pos hhere] at hplace
    cases hplace
  unfold entry? put
  by_cases hp : p = place
  · rw [if_pos hp, hp, if_neg hhere, List.lookup_cons, beq_self_eq_true]
  · rw [if_neg hp, List.lookup_cons, beq_false_of_ne hp]
    simp only [lookup_filter_ne f.entries hp]

theorem keeps_put_directory (hplace : f.entry? place = none) :
    f.Keeps [place] [] (f.put place .directory) ∧
      (f.put place .directory).hasDirectory place = true := by
  have hnone : f.hasDirectory place = false := by simp [hasDirectory, hplace]
  have hentry := entry?_put hnone .directory
  refine ⟨⟨rfl, fun {p} hp => ?_, fun {p} hp => ?_, fun {p} hp => ?_, fun {p} _ => ?_⟩, ?_⟩
  · rw [hasDirectory, hentry]
    split_ifs
    · rfl
    · exact hp
  · rw [hentry]
    split_ifs
    · rfl
    · exact hp
  · rw [hasDirectory, hasDirectory, hentry, if_neg (by simpa using hp)]
  · rw [file?, file?, hentry]
    split_ifs with hp
    · rw [hp, hplace]
    · rfl
  · rw [hasDirectory, hentry, if_pos rfl]

theorem keeps_put_file (hplace : f.hasDirectory place = false) (content : ByteArray) :
    f.Keeps [] [place] (f.put place (.file content)) := by
  have hentry := entry?_put hplace (.file content)
  have hdirectory (p : List String) :
      (f.put place (.file content)).hasDirectory p = f.hasDirectory p := by
    rw [hasDirectory, hentry]
    split_ifs with hp
    · rw [hp, hplace]
    · rfl
  refine ⟨rfl, fun {p} hp => (hdirectory p).trans hp, fun {p} hp => ?_, fun {p} _ => hdirectory p,
    fun {p} hp => ?_⟩
  · rw [hentry]
    split_ifs
    · rfl
    · exact hp
  · rw [file?, file?, hentry, if_neg (by simpa using hp)]

end Put

end Files
end CoreLang.Command
