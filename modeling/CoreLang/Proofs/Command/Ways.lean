import CoreLang.Command.Files
import Mathlib.Data.List.Infix

/-! Where paths lead. The names of a path fix its place, whatever is there; following them can fail
only at a place on the way that is missing or is a file. -/
namespace CoreLang.Command

theorem exists_of_bind_eq_ok {ε α β : Type} {first : Except ε α} {next : α → Except ε β} {b : β}
    (hok : first.bind next = .ok b) : ∃ a, first = .ok a ∧ next a = .ok b := by
  cases first with
  | error e => cases hok
  | ok a => exact ⟨a, rfl, hok⟩

section Names

theorem splitSlashes_ne_nil (text : List Char) : splitSlashes text ≠ [] := by
  cases text with
  | nil => simp [splitSlashes]
  | cons c rest =>
    unfold splitSlashes
    split_ifs
    · simp
    · split <;> simp

theorem splitSlashes_append (a b : List Char) :
    splitSlashes (a ++ '/' :: b) = splitSlashes a ++ splitSlashes b := by
  induction a with
  | nil => rfl
  | cons c a ih =>
    rw [List.cons_append, splitSlashes, splitSlashes, ih]
    split_ifs
    · rfl
    · obtain ⟨name, more, hsplit⟩ := List.exists_cons_of_ne_nil (splitSlashes_ne_nil a)
      rw [hsplit]
      rfl

theorem splitSlashes_of_not_mem {text : List Char} (h : '/' ∉ text) :
    splitSlashes text = [text] := by
  induction text with
  | nil => rfl
  | cons c text ih =>
    obtain ⟨hc, hrest⟩ := not_or.1 (mt List.mem_cons.2 h)
    rw [splitSlashes, if_neg (Ne.symm hc), ih hrest]

theorem names_append (a b : String) : names (a ++ "/" ++ b) = names a ++ names b := by
  have htext : (a ++ "/" ++ b).toList = a.toList ++ '/' :: b.toList := by simp
  rw [names, htext, splitSlashes_append, List.map_append, names, names]

theorem names_of_not_mem {file : String} (h : '/' ∉ file.toList) : names file = [file] := by
  simp [names, splitSlashes_of_not_mem h]

theorem eq_nil_of_splitSlashes {text : List Char} (h : splitSlashes text = [[]]) : text = [] := by
  cases text with
  | nil => rfl
  | cons c rest =>
    unfold splitSlashes at h
    split_ifs at h
    · exact absurd (List.cons.inj h).2 (splitSlashes_ne_nil rest)
    · split at h <;> simp at h

theorem fromTop_cons_cons (name name' : String) (ns : List String) :
    fromTop (name :: name' :: ns) = decide (name = "") := by
  by_cases hname : name = ""
  · rw [hname]
    rfl
  · simp [fromTop, hname]

theorem fromTop_append_singleton (l : List String) (a b : String) :
    fromTop (l ++ [a]) = fromTop (l ++ [b]) := by
  match l with
  | [] => simp [fromTop]
  | [name] => simp only [List.cons_append, List.nil_append, fromTop_cons_cons]
  | name :: name' :: l => simp only [List.cons_append, fromTop_cons_cons]

theorem fromTop_names_append {dir : String} (hdir : dir ≠ "") (file : String) :
    fromTop (names dir ++ [file]) = fromTop (names dir) := by
  match hnames : names dir with
  | [] => simp [fromTop]
  | [name] =>
    have hname : name ≠ "" := by
      rintro rfl
      obtain ⟨text, hsplit, htext⟩ := List.map_eq_singleton_iff.1 hnames
      rw [String.ofList_eq_empty_iff.1 htext] at hsplit
      exact hdir (String.toList_eq_nil_iff.1 (eq_nil_of_splitSlashes hsplit))
    simp [fromTop, hname]
  | name :: name' :: l => simp only [List.cons_append, fromTop_cons_cons]

/-- The names of a file of a directory. An empty name at the end of the directory is left out. -/
theorem names_inDirectory (dir : String) {file : String} (hfile : '/' ∉ file.toList) :
    ∃ init, (names dir = init ∨ names dir = init ++ [""]) ∧
      names (inDirectory dir file) = init ++ [file] ∧
      fromTop (init ++ [file]) = fromTop (names dir) := by
  have hname := names_of_not_mem hfile
  unfold inDirectory
  by_cases hempty : dir = ""
  · subst hempty
    exact ⟨[], .inr rfl, by simpa using hname, fromTop_append_singleton [] file ""⟩
  · by_cases hlast : dir.toList.getLast? = some '/'
    · obtain ⟨text, htext⟩ := List.getLast?_eq_some_iff.1 hlast
      obtain rfl : dir = String.ofList text ++ "/" := by
        rw [← String.toList_inj, htext]
        simp
      have hnames := names_append (String.ofList text) ""
      rw [String.append_empty] at hnames
      refine ⟨names (String.ofList text), .inr hnames, ?_, ?_⟩
      · rw [if_pos (.inr hlast), names_append, hname]
      · rw [hnames]
        exact fromTop_append_singleton _ _ _
    · refine ⟨names dir, .inl rfl, ?_, fromTop_names_append hempty file⟩
      rw [if_neg (not_or.2 ⟨hempty, hlast⟩), names_append, hname]

end Names

def step (place : List String) (name : String) : List String :=
  if name = "" ∨ name = "." then place
  else if name = ".." then place.dropLast
  else place ++ [name]

/-- The place that names lead to, whether it is there or not. -/
def resolve (start : List String) (names : List String) : List String := names.foldl step start

theorem step_of_not_leads {place : List String} {name : String} (h : leads name = false) :
    step place name = place := by
  have hname : name = "" ∨ name = "." := by
    simp only [leads, decide_eq_false_iff_not] at h
    tauto
  rw [step, if_pos hname]

theorem step_of_leads {place : List String} {name : String} (h : leads name = true)
    (hup : name ≠ "..") : step place name = place ++ [name] := by
  have hname : ¬(name = "" ∨ name = ".") := by simpa [leads] using h
  rw [step, if_neg hname, if_neg hup]

theorem resolve_append (start a b : List String) :
    resolve start (a ++ b) = resolve (resolve start a) b := List.foldl_append

/-- Names that lead nowhere make no difference to a place. -/
theorem resolve_filter (start names : List String) :
    resolve start (names.filter leads) = resolve start names := by
  induction names generalizing start with
  | nil => rfl
  | cons name names ih =>
    unfold resolve at ih ⊢
    by_cases hname : leads name = true
    · rw [List.filter_cons_of_pos hname, List.foldl_cons, List.foldl_cons, ih]
    · rw [List.filter_cons_of_neg hname, List.foldl_cons, ih,
        step_of_not_leads (by simpa using hname)]

theorem resolve_of_not_leads {start names : List String} (h : ∀ name ∈ names, leads name = false) :
    resolve start names = start := by
  rw [← resolve_filter, List.filter_eq_nil_iff.2 (by simpa using h)]
  rfl

/-- The places on the way that names take from a place, with the first and the last one. -/
def way (start : List String) (names : List String) : List (List String) :=
  names.inits.map (resolve start)

theorem mem_way {start names place : List String} :
    place ∈ way start names ↔ ∃ before, before <+: names ∧ resolve start before = place := by
  simp [way, List.mem_inits]

theorem way_cons (start names : List String) (name : String) :
    way start (name :: names) = start :: way (step start name) names := by
  simp [way, resolve, Function.comp_def]

theorem start_mem_way (start names : List String) : start ∈ way start names :=
  mem_way.2 ⟨[], List.nil_prefix, rfl⟩

theorem resolve_mem_way (start names : List String) : resolve start names ∈ way start names :=
  mem_way.2 ⟨names, List.prefix_rfl, rfl⟩

theorem way_subset_append (start names names' : List String) :
    way start names ⊆ way start (names ++ names') := by
  intro place hplace
  obtain ⟨before, hbefore, rfl⟩ := mem_way.1 hplace
  exact mem_way.2 ⟨before, hbefore.trans (List.prefix_append names names'), rfl⟩

theorem way_filter_subset (start names : List String) :
    way start (names.filter leads) ⊆ way start names := by
  intro place hplace
  obtain ⟨before, ⟨rest, hsplit⟩, rfl⟩ := mem_way.1 hplace
  obtain ⟨before', rest', rfl, rfl, -⟩ := List.filter_eq_append_iff.1 hsplit.symm
  exact mem_way.2 ⟨before', List.prefix_append before' rest', (resolve_filter start before').symm⟩

namespace Files
variable {f g : Files} {start place : List String} {ns : List String}

/-- The content of the file at a place, if there is one. -/
def file? (f : Files) (place : List String) : Option ByteArray :=
  match f.entry? place with
  | some (.file content) => some content
  | _ => none

/-- The place of a path, whether it is there or not. -/
def placeOf (f : Files) (path : String) : List String :=
  resolve (f.origin (names path)) (names path)

/-- The places on the way that a path takes, whether they are there or not. -/
def wayTo (f : Files) (path : String) : List (List String) :=
  way (f.origin (names path)) (names path)

theorem file?_eq_some {content : ByteArray} :
    f.file? place = some content ↔ f.entry? place = some (.file content) := by
  unfold file?
  split
  · simp [*]
  · rename_i hentry
    simpa using hentry content

theorem hasDirectory_iff : f.hasDirectory place = true ↔ f.entry? place = some .directory := by
  unfold hasDirectory
  split
  · simp [*]
  · simpa

theorem isSome_entry? (h : f.hasDirectory place = true) : (f.entry? place).isSome := by
  rw [hasDirectory_iff.1 h]
  rfl

theorem hasDirectory_of_file? (hentry : (f.entry? place).isSome) (hfile : f.file? place = none) :
    f.hasDirectory place = true := by
  obtain ⟨entry, hentry⟩ := Option.isSome_iff_exists.1 hentry
  cases entry with
  | directory => exact hasDirectory_iff.2 hentry
  | file content =>
    rw [file?_eq_some.2 hentry] at hfile
    cases hfile

theorem file?_of_hasDirectory (h : f.hasDirectory place = true) : f.file? place = none := by
  rw [file?, hasDirectory_iff.1 h]

/-- A place whose directories are all there, itself included. -/
def Rooted (f : Files) (place : List String) : Prop := ∀ p, p <+: place → f.hasDirectory p = true

theorem Rooted.hasDirectory (h : f.Rooted place) : f.hasDirectory place = true :=
  h place List.prefix_rfl

theorem Rooted.dropLast (h : f.Rooted place) : f.Rooted place.dropLast :=
  fun p hp => h p (hp.trans place.dropLast_prefix)

theorem Rooted.concat (h : f.Rooted place) {name : String}
    (hname : f.hasDirectory (place ++ [name]) = true) : f.Rooted (place ++ [name]) := by
  intro p hp
  rcases List.prefix_concat_iff.1 hp with rfl | hp
  · exact hname
  · exact h p hp

theorem rooted_origin (f : Files) (ns : List String) : f.Rooted (f.origin ns) := by
  intro p hp
  have hhere : p <+: f.here := by
    unfold origin at hp
    split at hp
    · rw [List.prefix_nil.1 hp]
      exact List.nil_prefix
    · exact hp
  rw [hasDirectory, entry?, if_pos (List.isPrefixOf_iff_prefix.2 hhere)]

/-- No place on the way of some names is a file. -/
def Passable (f : Files) (start ns : List String) : Prop :=
  ∀ place ∈ way start ns, f.file? place = none

theorem passable_cons {name : String} : f.Passable start (name :: ns) ↔
    f.file? start = none ∧ f.Passable (step start name) ns := by
  simp [Passable, way_cons]

theorem Passable.first (h : f.Passable start ns) : f.file? start = none :=
  h start (start_mem_way start ns)

theorem Passable.resolve (h : f.Passable start ns) :
    f.file? (Command.resolve start ns) = none := h _ (resolve_mem_way start ns)

theorem Passable.of_append {ns' : List String} (h : f.Passable start (ns ++ ns')) :
    f.Passable start ns := fun place hplace => h place (way_subset_append start ns ns' hplace)

theorem Passable.filter (h : f.Passable start ns) : f.Passable start (ns.filter leads) :=
  fun place hplace => h place (way_filter_subset start ns hplace)

theorem follow_append (f : Files) (start ns ns' : List String) :
    f.follow start (ns ++ ns') = (f.follow start ns).bind (f.follow · ns') := by
  induction ns generalizing start with
  | nil => rfl
  | cons name ns ih =>
    simp only [List.cons_append, follow, ih]
    split_ifs <;> rfl

theorem follow_eq_ok (h : f.follow start ns = .ok place) : place = resolve start ns := by
  induction ns generalizing start with
  | nil => exact (Except.ok.inj h).symm
  | cons name ns ih =>
    unfold follow at h
    split_ifs at h with hdirectory hstay hup hentry
    · rw [ih h, resolve, resolve, List.foldl_cons, step, if_pos hstay]
    · rw [ih h, resolve, resolve, List.foldl_cons, step, if_neg hstay, if_pos hup]
    · rw [ih h, resolve, resolve, List.foldl_cons, step, if_neg hstay, if_neg hup]

/-- One name, followed from a directory: it leads on, or what it names is missing. -/
theorem Rooted.follow_cons (h : f.Rooted start) {name : String}
    (hname : f.file? (step start name) = none) :
    (f.Rooted (step start name) ∧
        ∀ ns, f.follow start (name :: ns) = f.follow (step start name) ns) ∨
      (leads name = true ∧ name ≠ ".." ∧ f.entry? (step start name) = none ∧
        ∀ ns, f.follow start (name :: ns) = .error .notFound) := by
  have hdirectory : ¬(!f.hasDirectory start) = true := by simp [h.hasDirectory]
  by_cases hstay : name = "" ∨ name = "."
  · rw [step, if_pos hstay]
    exact .inl ⟨h, fun ns => by rw [follow, if_neg hdirectory, if_pos hstay]⟩
  · rw [step, if_neg hstay] at hname ⊢
    by_cases hup : name = ".."
    · rw [if_pos hup]
      exact .inl ⟨h.dropLast, fun ns => by
        rw [follow, if_neg hdirectory, if_neg hstay, if_pos hup]⟩
    · rw [if_neg hup] at hname ⊢
      by_cases hentry : (f.entry? (start ++ [name])).isNone = true
      · have hnone := Option.isNone_iff_eq_none.1 hentry
        refine .inr ⟨by simpa [leads] using hstay, hup, hnone, fun ns => ?_⟩
        rw [follow, if_neg hdirectory, if_neg hstay, if_neg hup, if_pos hentry]
      · have hsome := Option.isSome_iff_ne_none.2 (mt Option.isNone_iff_eq_none.2 hentry)
        refine .inl ⟨h.concat (hasDirectory_of_file? hsome hname), fun ns => ?_⟩
        rw [follow, if_neg hdirectory, if_neg hstay, if_neg hup, if_neg hentry]

/-- Where no file is on the way, names lead to a directory or to what is missing. -/
theorem Passable.follow (hroot : f.Rooted start) (h : f.Passable start ns) :
    (f.follow start ns = .ok (Command.resolve start ns) ∧ f.Rooted (Command.resolve start ns)) ∨
      f.follow start ns = .error .notFound := by
  induction ns generalizing start with
  | nil => exact .inl ⟨rfl, hroot⟩
  | cons name ns ih =>
    obtain ⟨-, h⟩ := passable_cons.1 h
    rcases hroot.follow_cons h.first with ⟨hroot, hfollow⟩ | ⟨-, -, -, hfollow⟩
    · rw [hfollow]
      exact ih hroot h
    · exact .inr (hfollow ns)

/-- Where no file is on the way, names that lead nowhere can be left out. -/
theorem Passable.follow_filter (hroot : f.Rooted start) (h : f.Passable start ns) :
    f.follow start (ns.filter leads) = f.follow start ns := by
  induction ns generalizing start with
  | nil => rfl
  | cons name ns ih =>
    obtain ⟨-, h⟩ := passable_cons.1 h
    by_cases hleads : leads name = true
    · rw [List.filter_cons_of_pos hleads]
      rcases hroot.follow_cons h.first with ⟨hroot, hfollow⟩ | ⟨-, -, -, hfollow⟩
      · rw [hfollow, hfollow, ih hroot h]
      · rw [hfollow, hfollow]
    · rw [List.filter_cons_of_neg hleads]
      rcases hroot.follow_cons h.first with ⟨-, hfollow⟩ | ⟨hleads', -, -, -⟩
      · rw [step_of_not_leads (by simpa using hleads)] at hfollow h
        rw [hfollow, ih hroot h]
      · exact absurd hleads' hleads

end Files
end CoreLang.Command
