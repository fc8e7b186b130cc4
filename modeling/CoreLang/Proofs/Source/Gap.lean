import CoreLang.Proofs.Source.Stretch
import CoreLang.Source.Gap

/-! Gaps seen as texts: what may stand in one, where it ends, and how a line feed or a piece goes on
after it. -/
namespace CoreLang.Source

/-- A gap before `next`: white space, and comments that run from two slashes up to a line feed or to
the end of the text. -/
inductive IsGap (next : List Char) : List Char → Prop
  | nil : IsGap next []
  | blank {c : Char} {gap : List Char} : Text.isBlank c = true → IsGap next gap →
      IsGap next (c :: gap)
  | comment {line gap : List Char} : '\n' ∉ line → (∀ d ∈ (gap ++ next).head?, d = '\n') →
      IsGap next gap → IsGap next ('/' :: '/' :: (line ++ gap))

/-- A text whose first character belongs to no gap. -/
def StartsPiece (c : Char) (rest : List Char) : Prop :=
  Text.isBlank c = false ∧ ¬(c = '/' ∧ rest.head? = some '/')

theorem splitGap_of_startsPiece {c : Char} {rest : List Char} (h : StartsPiece c rest) :
    splitGap false (c :: rest) = ([], c :: rest) := by
  unfold splitGap
  simp [h.1, h.2]

theorem splitGap_blank {c : Char} (h : Text.isBlank c = true) (rest : List Char) :
    splitGap false (c :: rest) = (c :: (splitGap false rest).1, (splitGap false rest).2) := by
  rw [splitGap]
  simp [h]

theorem splitGap_slashes (rest : List Char) :
    splitGap false ('/' :: '/' :: rest) =
      ('/' :: '/' :: (splitGap true rest).1, (splitGap true rest).2) := by
  have hblank : Text.isBlank '/' = false := by decide
  simp [splitGap, hblank]

/-- A comment takes in the rest of its line. -/
theorem splitGap_comment (text : List Char) :
    splitGap true text =
      (text.takeWhile (· ≠ '\n') ++ (splitGap false (text.dropWhile (· ≠ '\n'))).1,
        (splitGap false (text.dropWhile (· ≠ '\n'))).2) := by
  have hblank : Text.isBlank '\n' = true := by decide
  induction text with
  | nil => rfl
  | cons c rest ih =>
    by_cases hc : c = '\n'
    · subst hc
      simp [splitGap, hblank]
    · simp [splitGap, hc, ih]

/-- A gap goes as far as it can. -/
theorem startsPiece_of_splitGap {comment : Bool} {text gap rest : List Char} {c : Char}
    (h : splitGap comment text = (gap, c :: rest)) : StartsPiece c rest := by
  induction text generalizing comment gap with
  | nil => simp [splitGap] at h
  | cons d text ih =>
    unfold splitGap at h
    split at h
    · exact ih (Prod.ext rfl (Prod.ext_iff.1 h).2)
    · split at h
      · exact ih (Prod.ext rfl (Prod.ext_iff.1 h).2)
      · split at h
        · exact ih (Prod.ext rfl (Prod.ext_iff.1 h).2)
        · next hblank hcomment =>
          cases h
          exact ⟨by simpa using hblank, hcomment⟩

theorem isGap_splitGap (text : List Char) :
    IsGap (splitGap false text).2 (splitGap false text).1 := by
  match text with
  | [] => exact .nil
  | c :: rest =>
    by_cases hblank : Text.isBlank c = true
    · rw [splitGap_blank hblank]
      exact .blank hblank (isGap_splitGap rest)
    · by_cases hcomment : c = '/' ∧ rest.head? = some '/'
      · obtain ⟨rfl, hslash⟩ := hcomment
        obtain ⟨line, hrest⟩ := List.head?_eq_some_iff.1 hslash
        rw [hrest, splitGap_slashes, splitGap_comment]
        refine .comment (fun h => ?_) (fun d hd => ?_) (isGap_splitGap _)
        · simpa using List.mem_takeWhile_imp h
        · rw [splitGap_append] at hd
          simpa using not_of_mem_head?_dropWhile hd
      · rw [splitGap_of_startsPiece ⟨by simpa using hblank, hcomment⟩]
        exact .nil
termination_by text.length
decreasing_by
  · simp
  · have := List.length_dropWhile_le (· ≠ '\n') line
    simp only [hrest, List.length_cons]
    omega

/-- A gap that fills its line goes on with the gap of the next one, also out of a comment. -/
theorem splitGap_line_of_gap {comment : Bool} {a : List Char} (h : (splitGap comment a).2 = [])
    (b : List Char) :
    splitGap comment (a ++ '\n' :: b) =
      ((splitGap comment a).1 ++ '\n' :: (splitGap false b).1, (splitGap false b).2) := by
  have hblank : Text.isBlank '\n' = true := by decide
  fun_induction splitGap comment a with
  | case1 comment => cases comment <;> simp [splitGap, hblank]
  | case2 | case3 | case4 => simp_all [splitGap]
  | case5 => cases h

/-- A gap that ends at a piece does not depend on what follows the piece. -/
theorem splitGap_append_of_piece {comment : Bool} {a rest more : List Char} {c : Char}
    (h : (splitGap comment a).2 = c :: rest) (hmore : StartsPiece c (rest ++ more)) :
    splitGap comment (a ++ more) = ((splitGap comment a).1, c :: (rest ++ more)) := by
  fun_induction splitGap comment a with
  | case1 => cases h
  | case2 | case3 => simp_all [splitGap]
  | case4 _ _ a _ _ hslash =>
    have hhead : (a ++ more).head? = some '/' := by simp [hslash.2]
    simp_all [splitGap]
  | case5 _ _ _ hcomment =>
    cases h
    rw [Bool.not_eq_true] at hcomment
    rw [hcomment]
    exact splitGap_of_startsPiece hmore

end CoreLang.Source
