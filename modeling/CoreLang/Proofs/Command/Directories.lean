import CoreLang.Command.Host
import CoreLang.Proofs.Command.Keeps
import Mathlib.Data.List.DropRight

/-! Making directories changes no file. It gives the directory that was asked for unless a file is
on the way, or a missing directory is named by the dot within it. -/
namespace CoreLang.Command

namespace Files
variable {f g : Files} {start place : List String} {ns : List String}
  {made changed : List (List String)}

section Trimmed
variable {init : List String} {x : String}

theorem exists_blanks (htrim : ns.rdropWhile (· = "") = init ++ [x]) :
    x ≠ "" ∧ ∃ blanks, ns = init ++ x :: blanks ∧ ∀ b ∈ blanks, b = "" := by
  induction ns using List.reverseRecOn with
  | nil => simp at htrim
  | append_singleton ns name ih =>
    by_cases hname : name = ""
    · rw [List.rdropWhile_concat_pos _ _ _ (by simpa using hname)] at htrim
      obtain ⟨hx, blanks, rfl, hblanks⟩ := ih htrim
      exact ⟨hx, blanks ++ [name], by simp, by simpa [or_imp, forall_and, hname] using hblanks⟩
    · rw [List.rdropWhile_concat_neg _ _ _ (by simpa using hname)] at htrim
      obtain ⟨rfl, hlast⟩ := List.append_inj' htrim rfl
      obtain rfl : name = x := by simpa using hlast
      exact ⟨hname, [], rfl, nofun⟩

theorem origin_trimmed (f : Files) (htrim : ns.rdropWhile (· = "") = init ++ [x]) :
    f.origin (init ++ [x]) = f.origin ns := by
  obtain ⟨hx, blanks, rfl, -⟩ := exists_blanks htrim
  have hfromTop : fromTop (init ++ [x]) = fromTop (init ++ x :: blanks) := by
    match init with
    | [] => simp [fromTop, hx]
    | [name] => simp only [List.cons_append, List.nil_append, fromTop_cons_cons]
    | name :: name' :: init => simp only [List.cons_append, fromTop_cons_cons]
  rw [origin, origin, hfromTop]

theorem filter_trimmed {p : String → Bool} (hp : p "" = false)
    (htrim : ns.rdropWhile (· = "") = init ++ [x]) :
    ns.filter p = init.filter p ++ [x].filter p := by
  obtain ⟨-, blanks, rfl, hblanks⟩ := exists_blanks htrim
  have hnone : blanks.filter p = [] :=
    List.filter_eq_nil_iff.2 fun b hb => by simp [hblanks b hb, hp]
  rw [List.append_cons, List.filter_append, List.filter_append, hnone, List.append_nil]

theorem resolve_trimmed (htrim : ns.rdropWhile (· = "") = init ++ [x]) :
    resolve start (init ++ [x]) = resolve start ns := by
  rw [← resolve_filter, ← resolve_filter start ns, filter_trimmed (by decide) htrim,
    List.filter_append]

end Trimmed

theorem target_concat (f : Files) (ns : List String) (x : String) :
    f.target (ns ++ [x]) = (f.follow (f.origin (ns ++ [x])) ns).bind fun parent =>
      if f.hasDirectory parent then
        if x = "" ∨ x = "." ∨ x = ".." then .error .alreadyExists else .ok (parent ++ [x])
      else .error .notADirectory := by
  rw [target, List.dropLast_concat, List.getLastD_concat]
  cases f.follow (f.origin (ns ++ [x])) ns with
  | error e => rfl
  | ok parent =>
    cases hdirectory : f.hasDirectory parent with
    | true =>
      by_cases hx : x = "" ∨ x = "." ∨ x = ".."
      · simp [hx, hdirectory, bind, Except.bind, throw, throwThe, MonadExceptOf.throw]
      · simp [hx, hdirectory, bind, Except.bind, pure, Except.pure]
    | false => simp [hdirectory, bind, Except.bind, throw, throwThe, MonadExceptOf.throw]

theorem target_nil (f : Files) : f.target [] = .error .alreadyExists := by
  have hdirectory := (f.rooted_origin []).hasDirectory
  simp [target, follow, hdirectory, bind, Except.bind, throw, throwThe, MonadExceptOf.throw]

theorem target_eq_ok (hok : f.target ns = .ok place) : place = resolve (f.origin ns) ns := by
  rcases List.eq_nil_or_concat' ns with rfl | ⟨ns, x, rfl⟩
  · rw [target_nil] at hok
    cases hok
  · rw [target_concat] at hok
    obtain ⟨parent, hparent, hok⟩ := exists_of_bind_eq_ok hok
    split_ifs at hok with hdirectory hx
    rw [resolve_append, ← follow_eq_ok hparent, ← Except.ok.inj hok]
    obtain ⟨hne, hdot, hup⟩ := (not_or.1 hx).imp_right not_or.1
    simp [resolve, step, hne, hdot, hup]

theorem makeDirectory_eq (f : Files) (ns : List String) :
    f.makeDirectory ns = (f.target (ns.rdropWhile (· = ""))).bind fun place =>
      if (f.entry? place).isSome then .error .alreadyExists else .ok (f.put place .directory) := by
  rw [makeDirectory, List.rdropWhile]
  cases f.target (ns.reverse.dropWhile (· = "")).reverse with
  | error e => rfl
  | ok place =>
    cases hentry : f.entry? place with
    | none => simp [hentry, bind, Except.bind, pure, Except.pure]
    | some entry => simp [hentry, bind, Except.bind, throw, throwThe, MonadExceptOf.throw]

theorem makeDirectory_eq_ok (hok : f.makeDirectory ns = .ok g) :
    f.Keeps [resolve (f.origin ns) ns] [] g ∧
      g.hasDirectory (resolve (f.origin ns) ns) = true := by
  rw [makeDirectory_eq] at hok
  obtain ⟨place, htarget, hok⟩ := exists_of_bind_eq_ok hok
  rcases List.eq_nil_or_concat' (ns.rdropWhile (· = "")) with htrim | ⟨init, x, htrim⟩
  · rw [htrim, target_nil] at htarget
    cases htarget
  · rw [htrim] at htarget
    split_ifs at hok with hentry
    have hplace := target_eq_ok htarget
    rw [origin_trimmed f htrim, resolve_trimmed htrim] at hplace
    rw [← hplace, ← Except.ok.inj hok]
    exact keeps_put_directory (by simpa using hentry)

theorem isDirectory_eq_true (hok : f.isDirectory ns = true) :
    f.hasDirectory (resolve (f.origin ns) ns) = true := by
  rw [isDirectory, locate] at hok
  cases hfollow : f.follow (f.origin ns) ns with
  | error e =>
    rw [hfollow] at hok
    cases hok
  | ok place =>
    rw [hfollow] at hok
    rwa [← follow_eq_ok hfollow]

/-- Makes a directory, in a directory that is there, if it is not there itself. -/
def ensure (f : Files) (ns : List String) : Except SystemError Unit × Files :=
  match f.makeDirectory ns with
  | .ok made => (.ok (), made)
  | .error e => (if f.isDirectory ns then .ok () else .error e, f)

theorem ensure_keeps (f : Files) (ns : List String) :
    f.Keeps [resolve (f.origin ns) ns] [] (f.ensure ns).2 ∧
      ((f.ensure ns).1 = .ok () →
        (f.ensure ns).2.hasDirectory (resolve (f.origin ns) ns) = true) := by
  unfold ensure
  cases hmade : f.makeDirectory ns with
  | ok made =>
    obtain ⟨hkeeps, hdirectory⟩ := makeDirectory_eq_ok hmade
    exact ⟨hkeeps, fun _ => hdirectory⟩
  | error e =>
    refine ⟨.refl f, fun hok => isDirectory_eq_true ?_⟩
    by_contra hthere
    simp [hthere] at hok

theorem ensure_eq_self (hfailed : (f.ensure ns).1 ≠ .ok ()) : (f.ensure ns).2 = f := by
  unfold ensure at hfailed ⊢
  cases hmade : f.makeDirectory ns with
  | ok made => simp [hmade] at hfailed
  | error e => rfl

section MakeAll
variable {outer : List (List String)}

/-- Makes a directory, and before it those around it that are missing. -/
def makeAll (f : Files) : List (List String) → Except SystemError Unit × Files
  | [] => (.ok (), f)
  | ns :: outer =>
    match f.makeDirectory ns with
    | .ok _ => f.ensure ns
    | .error e =>
      if e = .notFound then
        match f.makeAll outer with
        | (.ok (), between) => between.ensure ns
        | failed => failed
      else f.ensure ns

theorem makeAll_of_missing (hmissing : f.makeDirectory ns = .error .notFound) :
    f.makeAll (ns :: outer) =
      match f.makeAll outer with
      | (.ok (), between) => between.ensure ns
      | failed => failed := by
  simp only [makeAll, hmissing, ↓reduceIte]

theorem makeAll_of_not_missing (hmissing : f.makeDirectory ns ≠ .error .notFound) :
    f.makeAll (ns :: outer) = f.ensure ns := by
  unfold makeAll
  cases hmade : f.makeDirectory ns with
  | ok made => rfl
  | error e =>
    have hne : e ≠ .notFound := by
      rintro rfl
      exact hmissing hmade
    simp only [if_neg hne]

/-- Whatever comes of it, only directories are made, and those only that were to be made. -/
theorem makeAll_keeps (f : Files) (paths : List (List String)) :
    f.Keeps (paths.map fun ns => resolve (f.origin ns) ns) [] (f.makeAll paths).2 ∧
      ((f.makeAll paths).1 = .ok () → ∀ ns ∈ paths.head?,
        (f.makeAll paths).2.hasDirectory (resolve (f.origin ns) ns) = true) := by
  induction paths with
  | nil => exact ⟨.refl f, nofun⟩
  | cons ns outer ih =>
    simp only [List.head?_cons, Option.mem_some_iff, forall_eq']
    by_cases hmissing : f.makeDirectory ns = .error .notFound
    · rw [makeAll_of_missing hmissing]
      obtain ⟨hkeeps, -⟩ := ih
      generalize f.makeAll outer = made at hkeeps ⊢
      obtain ⟨result, between⟩ := made
      have hkeeps := hkeeps.mono (List.subset_cons_self (resolve (f.origin ns) ns) _)
        (List.Subset.refl _)
      cases result with
      | error e => exact ⟨hkeeps, nofun⟩
      | ok =>
        obtain ⟨hensure, hdirectory⟩ := between.ensure_keeps ns
        rw [hkeeps.origin] at hensure hdirectory
        exact ⟨hkeeps.trans (hensure.mono (by simp) (List.Subset.refl _)), hdirectory⟩
    · rw [makeAll_of_not_missing hmissing]
      obtain ⟨hkeeps, hdirectory⟩ := f.ensure_keeps ns
      exact ⟨hkeeps.mono (by simp) (List.Subset.refl _), hdirectory⟩

theorem makeAll_eq_ok {paths : List (List String)} (hok : f.makeAll paths = (.ok (), g)) :
    f.Keeps (paths.map fun ns => resolve (f.origin ns) ns) [] g ∧
      ∀ ns ∈ paths.head?, g.hasDirectory (resolve (f.origin ns) ns) = true := by
  obtain ⟨hkeeps, hdirectory⟩ := f.makeAll_keeps paths
  rw [hok] at hkeeps hdirectory
  exact ⟨hkeeps, hdirectory rfl⟩

end MakeAll

section Parent
variable {init parent : List String} {x : String} {outer : List (List String)}

theorem follow_of_not_leads (hroot : f.Rooted start) (hstay : ∀ name ∈ ns, leads name = false) :
    f.follow start ns = .ok start := by
  have hpass : f.Passable start ns := by
    intro place hplace
    obtain ⟨before, hbefore, rfl⟩ := mem_way.1 hplace
    rw [resolve_of_not_leads fun name hname => hstay name (hbefore.subset hname)]
    exact file?_of_hasDirectory hroot.hasDirectory
  rw [← hpass.follow_filter hroot, List.filter_eq_nil_iff.2 (by simpa using hstay)]
  rfl

theorem resolve_last (htrim : ns.rdropWhile (· = "") = init ++ [x])
    (hparent : f.follow start init = .ok parent) : resolve start ns = step parent x := by
  rw [← resolve_trimmed htrim, resolve_append, follow_eq_ok hparent]
  rfl

theorem Passable.rooted {ns' : List String} (hroot : f.Rooted start)
    (hpass : f.Passable start (ns ++ ns')) (hfollow : f.follow start ns = .ok place) :
    f.Rooted place := by
  rcases hpass.of_append.follow hroot with ⟨hfollow', hrooted⟩ | hfollow'
  · rwa [follow_eq_ok hfollow]
  · rw [hfollow] at hfollow'
    cases hfollow'

theorem Passable.follow_last (hroot : f.Rooted start) (hpass : f.Passable start ns)
    (htrim : ns.rdropWhile (· = "") = init ++ [x]) (hparent : f.follow start init = .ok parent) :
    f.follow start ns = .ok (Command.resolve start ns) ∨
      (leads x = true ∧ x ≠ ".." ∧ f.entry? (Command.resolve start ns) = none) := by
  have hlast := resolve_last htrim hparent
  obtain ⟨-, blanks, rfl, hblanks⟩ := exists_blanks htrim
  have hstay : ∀ b ∈ blanks, leads b = false := by
    intro b hb
    rw [hblanks b hb]
    decide
  have hfile : f.file? (step parent x) = none := hlast ▸ hpass.resolve
  rw [follow_append, hparent, hlast, Except.bind]
  rcases (hpass.rooted hroot hparent).follow_cons hfile with
    ⟨hrooted, hfollow⟩ | ⟨hleads, hup, hnone, -⟩
  · exact .inl ((hfollow blanks).trans (follow_of_not_leads hrooted hstay))
  · exact .inr ⟨hleads, hup, hnone⟩

theorem makeDirectory_of_parent (htrim : ns.rdropWhile (· = "") = init ++ [x])
    (hpass : f.Passable (f.origin ns) ns) (hparent : f.follow (f.origin ns) init = .ok parent) :
    (∃ g, f.makeDirectory ns = .ok g) ∨ (f.makeDirectory ns = .error .alreadyExists ∧
      f.follow (f.origin ns) ns = .ok (resolve (f.origin ns) ns)) := by
  have hroot := f.rooted_origin ns
  have hfollow := hpass.follow_last hroot htrim hparent
  obtain ⟨-, blanks, hns, -⟩ := exists_blanks htrim
  have hdirectory : f.hasDirectory parent = true := by
    rw [hns] at hpass hroot hparent
    exact (hpass.rooted hroot hparent).hasDirectory
  rw [makeDirectory_eq, htrim, target_concat, origin_trimmed f htrim, hparent]
  simp only [Except.bind, hdirectory, ↓reduceIte]
  rw [resolve_last htrim hparent] at hfollow ⊢
  by_cases hspecial : x = "" ∨ x = "." ∨ x = ".."
  · rw [if_pos hspecial]
    refine .inr ⟨rfl, hfollow.resolve_right ?_⟩
    rintro ⟨hleads, hup, -⟩
    simp only [leads, decide_eq_true_eq] at hleads
    tauto
  · rw [if_neg hspecial]
    obtain ⟨hne, hdot, hup⟩ := (not_or.1 hspecial).imp_right not_or.1
    have hstep : step parent x = parent ++ [x] := by simp [step, hne, hdot, hup]
    rw [hstep] at hfollow ⊢
    cases hentry : f.entry? (parent ++ [x]) with
    | none => exact .inl ⟨f.put (parent ++ [x]) .directory, by simp [hentry]⟩
    | some entry => exact .inr ⟨by simp [hentry], hfollow.resolve_right (by simp [hentry])⟩

theorem ensure_of_parent (htrim : ns.rdropWhile (· = "") = init ++ [x])
    (hpass : f.Passable (f.origin ns) ns) (hparent : f.follow (f.origin ns) init = .ok parent) :
    ∃ g, f.ensure ns = (.ok (), g) ∧ g.follow (f.origin ns) ns = .ok (resolve (f.origin ns) ns) := by
  rw [ensure]
  rcases makeDirectory_of_parent htrim hpass hparent with ⟨g, hmade⟩ | ⟨hmade, hfollow⟩
  · obtain ⟨hkeeps, hdirectory⟩ := makeDirectory_eq_ok hmade
    have hfollow := (hkeeps.passable hpass).follow_last (hkeeps.rooted_origin ns) htrim
      (hkeeps.follow hparent)
    refine ⟨g, by rw [hmade], hfollow.resolve_right ?_⟩
    rintro ⟨-, -, hnone⟩
    simpa [hnone] using isSome_entry? hdirectory
  · have hthere : f.isDirectory ns = true := by
      rw [isDirectory, locate, hfollow]
      rcases hpass.follow (f.rooted_origin ns) with ⟨-, hrooted⟩ | hmissing
      · exact hrooted.hasDirectory
      · rw [hfollow] at hmissing
        cases hmissing
    exact ⟨f, by simp only [hmade, hthere, ↓reduceIte], hfollow⟩

/-- A directory can be made if the one around it can. -/
theorem exists_makeAll (hstart : f.origin ns = start)
    (htrim : ns.rdropWhile (· = "") = init ++ [x]) (hpass : f.Passable start ns)
    (hway : f.follow start init = .error .notFound →
      ∃ g place, f.makeAll outer = (.ok (), g) ∧ g.follow start init = .ok place) :
    ∃ g, f.makeAll (ns :: outer) = (.ok (), g) ∧ g.follow start ns = .ok (resolve start ns) := by
  subst hstart
  have hinit : f.Passable (f.origin ns) init := by
    obtain ⟨-, blanks, hns, -⟩ := exists_blanks htrim
    rw [hns] at hpass ⊢
    exact hpass.of_append
  rcases hinit.follow (f.rooted_origin ns) with ⟨hparent, -⟩ | hmissing
  · have hmade : f.makeDirectory ns ≠ .error .notFound := by
      rcases makeDirectory_of_parent htrim hpass hparent with ⟨g, hmade⟩ | ⟨hmade, -⟩
      · simp [hmade]
      · simp [hmade, SystemError.alreadyExists, SystemError.notFound]
    rw [makeAll_of_not_missing hmade]
    exact ensure_of_parent htrim hpass hparent
  · have hmade : f.makeDirectory ns = .error .notFound := by
      rw [makeDirectory_eq, htrim, target_concat, origin_trimmed f htrim, hmissing]
      rfl
    obtain ⟨between, place, hbetween, hparent⟩ := hway hmissing
    obtain ⟨hkeeps, -⟩ := makeAll_eq_ok hbetween
    rw [makeAll_of_missing hmade, hbetween]
    rw [← hkeeps.origin] at hpass hparent ⊢
    exact ensure_of_parent htrim (hkeeps.passable hpass) hparent

end Parent

theorem beginnings_concat (l : List String) (x : String) :
    beginnings (l ++ [x]) = (l ++ [x]) :: beginnings l := by
  have htake : (List.range l.length).map (fun n => (l ++ [x]).take (n + 1)) =
      (List.range l.length).map fun n => l.take (n + 1) := by
    refine List.map_congr_left fun n hn => ?_
    rw [List.take_append_of_le_length (List.mem_range.1 hn)]
  have hall : (l ++ [x]).take (l.length + 1) = l ++ [x] := List.take_of_length_le (by simp)
  rw [beginnings, List.length_append, List.length_singleton, List.range_succ, List.map_append,
    List.reverse_append, htake, List.map_singleton, hall]
  rfl

theorem around_eq {path : String} {l : List String} {y : String}
    (hproper : properNames path = l ++ [y]) :
    around path = (beginnings l).map (lead (names path) ++ ·) := by
  rw [around, hproper, beginnings_concat, List.drop_one, List.tail_cons]

section Lead
variable {l : List String} {x : String}

theorem origin_lead (f : Files) (ns : List String) (hleads : ∀ name ∈ l ++ [x], leads name = true) :
    f.origin (lead ns ++ (l ++ [x])) = f.origin ns := by
  have hfromTop : fromTop (lead ns ++ (l ++ [x])) = fromTop ns := by
    obtain ⟨name, rest, hcons⟩ := List.exists_cons_of_ne_nil (l := l ++ [x]) (by simp)
    rw [hcons] at hleads ⊢
    have hname : name ≠ "" := by
      rintro rfl
      simpa [leads] using hleads "" List.mem_cons_self
    unfold lead
    cases hns : fromTop ns with
    | true => rfl
    | false => cases rest <;> simp [fromTop, hname]
  rw [origin, origin, hfromTop]

theorem passable_lead (hpass : f.Passable (f.origin ns) l) :
    f.Passable (f.origin ns) (lead ns ++ l) := by
  have hfile := file?_of_hasDirectory (f.rooted_origin ns).hasDirectory
  unfold lead
  split_ifs
  · exact passable_cons.2 ⟨hfile, hpass⟩
  · exact hpass

theorem resolve_lead (start ns l : List String) :
    resolve start (lead ns ++ l) = resolve start l := by
  unfold lead
  split_ifs
  · simp [resolve, step]
  · rfl

theorem follow_lead (hroot : f.Rooted start) (ns l : List String) :
    f.follow start (lead ns ++ l) = f.follow start l := by
  unfold lead
  split_ifs
  · simp [follow, hroot.hasDirectory]
  · rfl

theorem exists_makeAll_beginnings (ns : List String) (hleads : ∀ name ∈ l, leads name = true)
    (hpass : f.Passable (f.origin ns) l) :
    ∃ g, f.makeAll ((beginnings l).map (lead ns ++ ·)) = (.ok (), g) ∧
      g.follow (f.origin ns) l = .ok (resolve (f.origin ns) l) := by
  -- From the back, since a directory that cannot be made at once falls back to the one around it.
  induction l using List.reverseRecOn with
  | nil => exact ⟨f, rfl, rfl⟩
  | append_singleton l x ih =>
    have hroot := f.rooted_origin ns
    have hne : x ≠ "" := by
      rintro rfl
      simpa [leads] using hleads "" (by simp)
    have htrim : (lead ns ++ (l ++ [x])).rdropWhile (· = "") = (lead ns ++ l) ++ [x] := by
      rw [← List.append_assoc, List.rdropWhile_concat_neg _ _ _ (by simpa using hne)]
    have hway : f.follow (f.origin ns) (lead ns ++ l) = .error .notFound →
        ∃ g place, f.makeAll ((beginnings l).map (lead ns ++ ·)) = (.ok (), g) ∧
          g.follow (f.origin ns) (lead ns ++ l) = .ok place := by
      intro
      obtain ⟨g, hmade, hfollow⟩ :=
        ih (fun name hname => hleads name (List.mem_append_left _ hname)) hpass.of_append
      rw [← follow_lead ((makeAll_eq_ok hmade).1.rooted_origin ns) ns] at hfollow
      exact ⟨g, _, hmade, hfollow⟩
    rw [beginnings_concat, List.map_cons]
    obtain ⟨g, hmade, hfollow⟩ :=
      exists_makeAll (f.origin_lead ns hleads) htrim (passable_lead hpass) hway
    rw [follow_lead ((makeAll_eq_ok hmade).1.rooted_origin ns)] at hfollow
    exact ⟨g, hmade, by rw [hfollow, follow_eq_ok hfollow]⟩

end Lead

theorem mem_beginnings {l l' : List String} (h : l' ∈ beginnings l) : l' ≠ [] ∧ l' <+: l := by
  obtain ⟨n, hn, rfl⟩ := List.mem_map.1 (List.mem_reverse.1 h)
  refine ⟨?_, List.take_prefix (n + 1) l⟩
  have hlt := List.mem_range.1 hn
  intro hnil
  rcases List.take_eq_nil_iff.1 hnil with hzero | rfl
  · cases hzero
  · cases hlt

theorem resolve_lead_mem_way {path : String} (f : Files) {l : List String}
    (hl : l ∈ beginnings (properNames path)) :
    resolve (f.origin (lead (names path) ++ l)) (lead (names path) ++ l) ∈ f.wayTo path := by
  obtain ⟨hne, hbegins⟩ := mem_beginnings hl
  have hleads : ∀ name ∈ l, leads name = true := fun name hname =>
    List.of_mem_filter (p := leads) (hbegins.subset hname)
  obtain ⟨l, x, rfl⟩ := (List.eq_nil_or_concat' l).resolve_left hne
  rw [origin_lead f (names path) hleads, resolve_lead]
  exact way_filter_subset _ _ (mem_way.2 ⟨_, hbegins, rfl⟩)

def makeDirectories (f : Files) (path : String) : Except SystemError Unit × Files :=
  if path = "" then (.ok (), f) else f.makeAll (names path :: around path)

/-- Directories are made on the way to a path only, and then the path leads to a directory. -/
theorem makeDirectories_keeps (f : Files) (path : String) :
    f.Keeps (f.wayTo path) [] (f.makeDirectories path).2 ∧
      ((f.makeDirectories path).1 = .ok () →
        (f.makeDirectories path).2.hasDirectory (f.placeOf path) = true) := by
  unfold makeDirectories
  by_cases hpath : path = ""
  · rw [if_pos hpath, hpath]
    exact ⟨.refl f, fun _ => (f.rooted_origin [""]).hasDirectory⟩
  · rw [if_neg hpath]
    obtain ⟨hkeeps, hdirectory⟩ := f.makeAll_keeps (names path :: around path)
    refine ⟨hkeeps.mono (fun place hplace => ?_) (List.Subset.refl _),
      fun hok => hdirectory hok _ rfl⟩
    obtain ⟨ns, hns, rfl⟩ := List.mem_map.1 hplace
    rcases List.mem_cons.1 hns with rfl | hns
    · exact resolve_mem_way _ _
    · obtain ⟨l, hl, rfl⟩ := List.mem_map.1 hns
      exact resolve_lead_mem_way f (List.mem_of_mem_drop hl)

theorem makeDirectories_eq_ok {path : String} (hok : f.makeDirectories path = (.ok (), g)) :
    f.Keeps (f.wayTo path) [] g ∧ g.hasDirectory (f.placeOf path) = true := by
  obtain ⟨hkeeps, hdirectory⟩ := f.makeDirectories_keeps path
  rw [hok] at hkeeps hdirectory
  exact ⟨hkeeps, hdirectory rfl⟩

/-- Only a path that leads to what is missing falls back to the directories around it. -/
theorem locate_of_missing (hmissing : f.makeDirectory ns = .error .notFound) :
    f.locate ns = .error .notFound := by
  rw [makeDirectory_eq] at hmissing
  rcases List.eq_nil_or_concat' (ns.rdropWhile (· = "")) with htrim | ⟨init, x, htrim⟩
  · rw [htrim, target_nil] at hmissing
    simp [Except.bind, SystemError.alreadyExists, SystemError.notFound] at hmissing
  · rw [htrim, target_concat, origin_trimmed f htrim] at hmissing
    obtain ⟨-, blanks, hns, -⟩ := exists_blanks htrim
    cases hfollow : f.follow (f.origin ns) init with
    | error e =>
      rw [hfollow] at hmissing
      rw [locate, congrArg (f.follow (f.origin ns)) hns, follow_append, hfollow]
      exact congrArg Except.error (Except.error.inj hmissing)
    | ok parent =>
      simp only [hfollow, Except.bind] at hmissing
      split_ifs at hmissing
      · exact absurd (Except.error.inj hmissing) (by decide)
      · dsimp only at hmissing
        split_ifs at hmissing
        exact absurd (Except.error.inj hmissing) (by decide)
      · exact absurd (Except.error.inj hmissing) (by decide)

/-- Where nothing is missing on the way to a directory that cannot be made, nothing is made. -/
theorem makeDirectories_eq_self {path : String}
    (hlocate : f.locate (names path) ≠ .error .notFound)
    (hfailed : (f.makeDirectories path).1 ≠ .ok ()) : (f.makeDirectories path).2 = f := by
  unfold makeDirectories at hfailed ⊢
  by_cases hpath : path = ""
  · rw [if_pos hpath]
  · rw [if_neg hpath, makeAll_of_not_missing (mt locate_of_missing hlocate)] at hfailed ⊢
    exact ensure_eq_self hfailed

/-- A path whose last name is the dot, for a directory that it names just before and that is not
there. -/
def Dotted (f : Files) (path : String) : Prop :=
  ((names path).filter (· ≠ "")).getLast? = some "." ∧ (properNames path).getLast? ≠ some ".." ∧
    f.entry? (f.placeOf path) = none

theorem exists_makeAll_blanks (f : Files) {outer : List (List String)}
    (hblanks : ∀ b ∈ ns, b = "") :
    f.makeAll (ns :: outer) = (.ok (), f) ∧ f.follow (f.origin ns) ns = .ok (f.origin ns) := by
  have hstay : ∀ b ∈ ns, leads b = false := by
    intro b hb
    rw [hblanks b hb]
    decide
  have hfollow := follow_of_not_leads (f.rooted_origin ns) hstay
  have hmade : f.makeDirectory ns = .error .alreadyExists := by
    rw [makeDirectory_eq, List.rdropWhile_eq_nil_iff.2 (by simpa using hblanks), target_nil]
    rfl
  have hthere : f.isDirectory ns = true := by
    rw [isDirectory, locate, hfollow]
    exact (f.rooted_origin ns).hasDirectory
  rw [makeAll_of_not_missing (by simp [hmade, SystemError.alreadyExists, SystemError.notFound])]
  exact ⟨by simp [ensure, hmade, hthere], hfollow⟩

theorem placeOf_eq (f : Files) (path : String) :
    f.placeOf path = resolve (f.origin (names path)) (properNames path) :=
  (resolve_filter (f.origin (names path)) (names path)).symm

theorem exists_makeAll_dot {path : String} {init l : List String} {x y : String}
    (hdot : ¬f.Dotted path) (htrim : (names path).rdropWhile (· = "") = init ++ [x])
    (hx : ¬leads x = true) (hproper : properNames path = l ++ [y])
    (hpass : f.Passable (f.origin (names path)) (l ++ [y])) :
    ∃ g, f.makeAll ((beginnings l).map (lead (names path) ++ ·)) = (.ok (), g) ∧
      g.follow (f.origin (names path)) (l ++ [y]) = .ok (f.placeOf path) := by
  have hleads : ∀ name ∈ l ++ [y], leads name = true := by
    intro name hname
    rw [← hproper] at hname
    exact List.of_mem_filter (p := leads) hname
  have hy : ¬decide (y = "") = true := by
    intro hy
    simpa [of_decide_eq_true hy, leads] using hleads y
  obtain ⟨g, hmade, hparent⟩ := exists_makeAll_beginnings (names path)
    (fun name hname => hleads name (List.mem_append_left _ hname)) hpass.of_append
  obtain ⟨hkeeps, -⟩ := makeAll_eq_ok hmade
  have hfollow := (hkeeps.passable hpass).follow_last (hkeeps.rooted_origin (names path))
    (List.rdropWhile_concat_neg _ _ _ hy) hparent
  rw [← hproper, ← placeOf_eq] at hfollow
  rw [← hproper]
  refine ⟨g, hmade, hfollow.resolve_right ?_⟩
  rintro ⟨-, hup, hnone⟩
  refine hdot ⟨?_, ?_, ?_⟩
  · obtain ⟨hne, -⟩ := exists_blanks htrim
    have hlast : x = "." := by
      simp only [leads, decide_eq_true_eq, not_and_or, not_not] at hx
      exact hx.resolve_left hne
    rw [filter_trimmed (by decide) htrim, hlast]
    exact List.getLast?_concat
  · rw [hproper, List.getLast?_concat]
    simpa using hup
  · by_contra hsome
    have hentry := hkeeps.entry (Option.isSome_iff_ne_none.2 hsome)
    rw [hnone] at hentry
    cases hentry

theorem exists_makeAll_way {path : String} {init : List String} {x : String}
    (hpass : f.Passable (f.origin (names path)) (names path)) (hdot : ¬f.Dotted path)
    (htrim : (names path).rdropWhile (· = "") = init ++ [x])
    (hmissing : f.follow (f.origin (names path)) init = .error .notFound) :
    ∃ g place, f.makeAll (around path) = (.ok (), g) ∧
      g.follow (f.origin (names path)) init = .ok place := by
  have hproper : properNames path = init.filter leads ++ [x].filter leads :=
    filter_trimmed (by decide) htrim
  have hinit : f.Passable (f.origin (names path)) init := by
    obtain ⟨-, blanks, hns, -⟩ := exists_blanks htrim
    rw [hns] at hpass ⊢
    exact hpass.of_append
  suffices hway : ∃ g place, f.makeAll (around path) = (.ok (), g) ∧
      g.follow (f.origin (names path)) (init.filter leads) = .ok place by
    obtain ⟨g, place, hmade, hfollow⟩ := hway
    obtain ⟨hkeeps, -⟩ := makeAll_eq_ok hmade
    rw [(hkeeps.passable hinit).follow_filter (hkeeps.rooted_origin _)] at hfollow
    exact ⟨g, place, hmade, hfollow⟩
  by_cases hx : leads x = true
  · rw [List.filter_cons_of_pos hx, List.filter_nil] at hproper
    rw [around_eq hproper]
    obtain ⟨g, hmade, hfollow⟩ :=
      exists_makeAll_beginnings (names path) (fun name => List.of_mem_filter) hinit.filter
    exact ⟨g, _, hmade, hfollow⟩
  · rw [List.filter_cons_of_neg hx, List.filter_nil, List.append_nil] at hproper
    have hfilter := hinit.filter
    rw [← hproper] at hfilter ⊢
    rcases List.eq_nil_or_concat' (properNames path) with hnil | ⟨l, y, hl⟩
    · rw [← hinit.follow_filter (f.rooted_origin _), ← hproper, hnil] at hmissing
      cases hmissing
    · rw [hl] at hfilter ⊢
      rw [around_eq hl]
      obtain ⟨g, hmade, hfollow⟩ := exists_makeAll_dot hdot htrim hx hl hfilter
      exact ⟨g, _, hmade, hfollow⟩

instance (f : Files) (path : String) : Decidable (f.Dotted path) :=
  inferInstanceAs (Decidable (_ ∧ _ ∧ _))

structure Reaches (f : Files) (path : String) : Prop where
  locate : f.locate (names path) = .ok (f.placeOf path)
  directory : f.hasDirectory (f.placeOf path) = true

theorem Keeps.reaches {path : String} (hfg : f.Keeps made changed g) (hreach : f.Reaches path) :
    g.Reaches path := by
  refine ⟨?_, ?_⟩
  · rw [Files.locate, hfg.origin, hfg.placeOf]
    exact hfg.follow hreach.locate
  · rw [hfg.placeOf]
    exact hfg.directory hreach.directory

/-- The directory of a path is made with all that is missing on the way, unless a file is on the way
or the path ends with the dot of a missing directory. -/
theorem exists_makeDirectories {path : String}
    (hpass : ∀ place ∈ f.wayTo path, f.file? place = none) (hdot : ¬f.Dotted path) :
    ∃ g, f.makeDirectories path = (.ok (), g) ∧ g.Reaches path := by
  suffices hmake : ∃ g, f.makeDirectories path = (.ok (), g) ∧
      g.follow (f.origin (names path)) (names path) = .ok (f.placeOf path) by
    obtain ⟨g, hmade, hfollow⟩ := hmake
    obtain ⟨hkeeps, hdirectory⟩ := makeDirectories_eq_ok hmade
    rw [← hkeeps.origin] at hfollow
    rw [← hkeeps.placeOf] at hfollow hdirectory
    exact ⟨g, hmade, hfollow, hdirectory⟩
  unfold makeDirectories
  by_cases hpath : path = ""
  · rw [if_pos hpath, hpath]
    exact ⟨f, rfl, follow_of_not_leads (f.rooted_origin _) (by decide)⟩
  · rw [if_neg hpath]
    rcases List.eq_nil_or_concat' ((names path).rdropWhile (· = "")) with htrim | ⟨init, x, htrim⟩
    · obtain ⟨hmade, hfollow⟩ := f.exists_makeAll_blanks
        (by simpa using List.rdropWhile_eq_nil_iff.1 htrim)
      exact ⟨f, hmade, hfollow.trans (congrArg Except.ok (follow_eq_ok hfollow))⟩
    · exact exists_makeAll rfl htrim hpass (exists_makeAll_way hpass hdot htrim)

end Files
end CoreLang.Command
