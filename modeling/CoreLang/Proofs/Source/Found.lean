import CoreLang.Proofs.Source.Tiles

/-! Where the fault of a piece is found: a numeral breaks at its first separator without a group,
a literal at its first escape that is none, and every other fault is found at the head of its
piece. -/
namespace CoreLang

namespace Source.Numeral
variable {text raw : List Char} {offset : Nat}

/-- The separator `offset` places into a numeral is the first one that no group follows. -/
structure BreaksAt (raw : List Char) (offset : Nat) : Prop where
  separator : ∃ c ∈ raw[offset]?, isSeparator c = true
  broken : groupFollows (raw.drop (offset + 1)) = false
  first : ∀ i < offset, ∀ c ∈ raw[i]?, isSeparator c = true → groupFollows (raw.drop (i + 1)) = true

theorem groupFollows_of_mem_read (point : Bool) (text : List Char) :
    ∀ i, ∀ c ∈ (split point text).read[i]?, isSeparator c = true →
      groupFollows (text.drop (i + 1)) = true := by
  fun_induction split point text with
  | case1 | case5 | case6 => exact fun i c hc => absurd hc (by simp)
  | case2 point d rest hd ih =>
    intro i c hc hsep
    cases i with
    | zero =>
      obtain rfl : d = c := by simpa [Split.cons] using hc
      rw [not_isSeparator_of_isDigit hd] at hsep
      cases hsep
    | succ i => exact ih i c (by simpa [Split.cons] using hc) hsep
  | case3 point d rest _ hd ih =>
    intro i c hc hsep
    cases i with
    | zero =>
      obtain rfl : d = c := by simpa [Split.cons] using hc
      exact absurd hd.1 (ne_point_of_isSeparator hsep)
    | succ i => exact ih i c (by simpa [Split.cons] using hc) hsep
  | case4 point d rest _ _ _ hgroup ih =>
    intro i c hc hsep
    cases i with
    | zero => exact hgroup
    | succ i => exact ih i c (by simpa [Split.cons] using hc) hsep

/-- What comes behind a numeral has no part in its groups. -/
theorem groupFollows_drop_append {next : List Char} (hnext : ∀ d ∈ next.head?, d.isDigit = false)
    {i : Nat} (hi : i ≤ raw.length) :
    groupFollows ((raw ++ next).drop i) = groupFollows (raw.drop i) := by
  rw [List.drop_append_of_le_length hi, groupFollows, takeWhile_append_left _ hnext, groupFollows]

theorem breaksAt_of_scan {f : Fault} (h : (scan text).reading = .fault f offset) :
    f = .badGrouping (scan text).raw ∧ BreaksAt (scan text).raw offset := by
  have hends := split_ends false text
  have hgroups := groupFollows_of_mem_read false text
  have happend := split_append false text
  generalize hsplit : split false text = s at hends hgroups happend
  obtain ⟨read, sound, rest⟩ := s
  rcases hends with ⟨rfl, -⟩ | ⟨rfl, c, next, rfl, hc, hgroup⟩
  · rw [scan_of_sound hsplit] at h
    cases h
  · rw [scan_of_unsound hsplit] at h ⊢
    obtain ⟨rfl, rfl⟩ := Reading.fault.inj h
    refine ⟨rfl, ?_⟩
    have hmember := isMember_of_isSeparator hc
    have hout : ∀ d ∈ (next.dropWhile isMember).head?, d.isDigit = false := fun d hd =>
      not_isDigit_of_not_isMember (not_of_mem_head?_dropWhile hd)
    simp only [List.takeWhile_cons_of_pos hmember]
    have htext : (read ++ c :: next.takeWhile isMember) ++ next.dropWhile isMember = text := by
      rw [← happend, List.append_assoc, List.cons_append, List.takeWhile_append_dropWhile]
    have hlength : (read ++ c :: next.takeWhile isMember).length =
        read.length + 1 + (next.takeWhile isMember).length := by
      simp only [List.length_append, List.length_cons]
      omega
    constructor
    · exact ⟨c, by simp, hc⟩
    · rw [← groupFollows_drop_append hout (by omega), htext, ← happend]
      simpa using hgroup
    · intro i hi d hd hsep
      rw [← groupFollows_drop_append hout (by omega), htext]
      rw [Option.mem_def, List.getElem?_append_left hi] at hd
      exact hgroups i d hd hsep

end Source.Numeral

namespace Source.Literal
open Text (Quote)
variable {quote : Quote} {c : Char} {text : List Char} {offset : Nat}

/-- In a literal stand sound units up to `offset`, and there a backslash before a `c` that makes no
escape. -/
def BreaksAt (quote : Quote) (c : Char) (raw : List Char) (offset : Nat) : Prop :=
  ∃ (marks : List Mark) (rest : List Char),
    raw = quote.char :: (marks.flatMap Mark.raw ++ '\\' :: c :: (rest ++ [quote.char])) ∧
      (∀ m ∈ marks, m.Inner quote ∧ (m.value? quote).isSome = true) ∧
        Text.unescape? quote c = none ∧ offset = 1 + (marks.flatMap Mark.raw).length

theorem exists_marks_of_badEscape? {marks : List Mark} {start : Nat}
    (h : badEscape? quote start marks = some (c, offset)) :
    ∃ sound rest, marks = sound ++ .escaped c :: rest ∧
      (∀ m ∈ sound, (m.value? quote).isSome = true) ∧ Text.unescape? quote c = none ∧
        offset = start + (sound.flatMap Mark.raw).length := by
  fun_induction badEscape? quote start marks with
  | case1 => cases h
  | case2 start d marks ih =>
    obtain ⟨sound, rest, rfl, hsound, hnone, rfl⟩ := ih h
    refine ⟨.plain d :: sound, rest, rfl, List.forall_mem_cons.2 ⟨rfl, hsound⟩, hnone, ?_⟩
    simp only [List.flatMap_cons, Mark.raw, List.length_append, List.length_singleton]
    omega
  | case3 start d marks hnone =>
    obtain ⟨rfl, rfl⟩ := Prod.mk.inj (Option.some.inj h)
    exact ⟨[], marks, rfl, List.forall_mem_nil _, by simpa using hnone, rfl⟩
  | case4 start d marks hsome ih =>
    obtain ⟨sound, rest, rfl, hsound, hnone, rfl⟩ := ih h
    have hvalue : ((Mark.escaped d).value? quote).isSome = true := by
      rw [Mark.value?, Option.isSome_iff_ne_none]
      simpa using hsome
    refine ⟨.escaped d :: sound, rest, rfl, List.forall_mem_cons.2 ⟨hvalue, hsound⟩, hnone, ?_⟩
    simp only [List.flatMap_cons, Mark.raw, List.length_append, List.length_cons, List.length_nil]
    omega

end Source.Literal

/-- The fault of a piece is found `offset` places into its text. -/
def Fault.FoundAt (raw : List Char) (offset : Nat) : Fault → Prop
  | badGrouping numeral => numeral = raw ∧ Source.Numeral.BreaksAt raw offset
  | invalidEscape quote c => Source.Literal.BreaksAt quote c raw offset
  | _ => offset = 0

namespace Source
open Text (Quote)
variable {c : Char} {rest : List Char} {f : Fault} {offset : Nat}

theorem Literal.foundAt_of_scan {quote : Quote} {text : List Char}
    (h : (scan quote text).reading = .fault f offset) : f.FoundAt (scan quote text).raw offset := by
  simp only [scan, Split.reading] at h ⊢
  split at h
  · next hclosed =>
    split at h
    · next d found hbad =>
      obtain ⟨rfl, rfl⟩ := Reading.fault.inj h
      obtain ⟨sound, rest, hmarks, hsound, hnone, rfl⟩ := exists_marks_of_badEscape? hbad
      have hinner := inner_of_closed hclosed
      rw [hmarks] at hinner
      refine ⟨sound, rest.flatMap Mark.raw, ?_, fun m hm => ?_, hnone, rfl⟩
      · simp [Split.raw, hclosed, hmarks, Mark.raw]
      · exact ⟨hinner m (List.mem_append_left _ hm), hsound m hm⟩
    · obtain ⟨rfl | rfl, rfl⟩ := fault_of_readValue h <;> rfl
  · cases h
    rfl

theorem scan_foundAt (h : (scan c rest).reading = .fault f offset) :
    f.FoundAt (scan c rest).raw offset := by
  revert h
  refine scan_cases (motive := fun s => s.reading = .fault f offset → f.FoundAt s.raw offset)
    (fun _ h => ?_) (fun h => ?_) (fun quote _ h => Literal.foundAt_of_scan h) (fun h => ?_)
  · obtain ⟨rfl, hbreaks⟩ := Numeral.breaksAt_of_scan h
    exact ⟨rfl, hbreaks⟩
  · unfold Word.scan Word.read at h
    split at h
    · cases h
      rfl
    · cases h
  · unfold scanSymbol at h
    split at h
    · cases h
    · cases h
      rfl

theorem tile_foundAt (text : List Char) :
    ∀ piece ∈ (tile text).pieces, ∀ f offset, piece.reading = .fault f offset →
      f.FoundAt piece.raw offset := by
  induction text using tile_induction with
  | gap text h =>
    rw [tile_of_gap h]
    exact List.forall_mem_nil _
  | piece text c rest h ih =>
    rw [tile_of_piece h]
    exact List.forall_mem_cons.2 ⟨fun f offset => scan_foundAt, ih⟩

end Source
end CoreLang
