/-! Sets of characters, given by ranges of code points. -/
namespace CoreLang.Text

abbrev Ranges := List (Nat × Nat)

namespace Ranges

/-- Rising order, and no range empty. -/
def ordered : Ranges → Bool
  | [] => true
  | [(first, last)] => first ≤ last
  | (first, last) :: (next, stop) :: rest =>
    first ≤ last && last < next && ordered ((next, stop) :: rest)

/-- Membership in ordered ranges. The search ends at the first range that starts too high. -/
def covers : Ranges → Nat → Bool
  | [], _ => false
  | (first, last) :: rest, n => first ≤ n && (n ≤ last || covers rest n)

private theorem lt_of_mem_of_ordered {first last : Nat} {rest : Ranges}
    (h : ordered ((first, last) :: rest) = true) :
    first ≤ last ∧ ordered rest = true ∧ ∀ r ∈ rest, last < r.1 := by
  induction rest generalizing first last with
  | nil => simpa [ordered] using h
  | cons r rest ih =>
    obtain ⟨next, stop⟩ := r
    simp only [ordered, Bool.and_eq_true, decide_eq_true_eq] at h
    obtain ⟨hle, _, hlater⟩ := ih h.2
    refine ⟨h.1.1, h.2, fun r hr => ?_⟩
    rcases List.mem_cons.1 hr with rfl | hr
    · exact h.1.2
    · have := hlater r hr
      omega

/-- On ordered ranges the early end loses nothing. -/
theorem covers_iff {ranges : Ranges} (h : ranges.ordered = true) (n : Nat) :
    ranges.covers n = true ↔ ∃ r ∈ ranges, r.1 ≤ n ∧ n ≤ r.2 := by
  induction ranges with
  | nil => simp [covers]
  | cons r rest ih =>
    obtain ⟨first, last⟩ := r
    obtain ⟨_, hrest, hlater⟩ := lt_of_mem_of_ordered h
    simp only [covers, Bool.and_eq_true, Bool.or_eq_true, decide_eq_true_eq, ih hrest,
      List.mem_cons]
    constructor
    · rintro ⟨hfirst, hlast | ⟨r, hr, hn⟩⟩
      · exact ⟨_, .inl rfl, hfirst, hlast⟩
      · exact ⟨r, .inr hr, hn⟩
    · rintro ⟨r, rfl | hr, hn⟩
      · exact ⟨hn.1, .inl hn.2⟩
      · have := hlater r hr
        exact ⟨by omega, .inr ⟨r, hr, hn⟩⟩

end Ranges
end CoreLang.Text
