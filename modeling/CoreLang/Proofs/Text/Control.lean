import CoreLang.Source.Numeral
import CoreLang.Source.Word
import CoreLang.Text.Visible

/-! Control characters: what is written for a character or a number has none, and no word and no
numeral has one. -/
namespace CoreLang

namespace Text

/-- The control characters of a text. -/
def controls (text : List Char) : List Char := text.filter isControl

@[simp] theorem controls_append (a b : List Char) :
    controls (a ++ b) = controls a ++ controls b :=
  List.filter_append ..

theorem controls_eq_nil_iff {text : List Char} :
    controls text = [] ↔ ∀ c ∈ text, isControl c = false := by
  simp [controls, List.filter_eq_nil_iff]

theorem controls_concat {a b : String} (ha : controls a.toList = []) (hb : controls b.toList = []) :
    controls (a ++ b).toList = [] := by
  rw [String.toList_append, controls_append, ha, hb, List.append_nil]

theorem controls_behind {a b : String} (ha : controls a.toList = []) :
    controls (a ++ b).toList = controls b.toList := by
  rw [String.toList_append, controls_append, ha, List.nil_append]

theorem controls_before {a b : String} (hb : controls b.toList = []) :
    controls (a ++ b).toList = controls a.toList := by
  rw [String.toList_append, controls_append, hb, List.append_nil]

theorem isControl_iff (c : Char) :
    isControl c = true ↔ c.toNat < 0x20 ∨ 0x7F ≤ c.toNat ∧ c.toNat < 0xA0 := by
  simp [isControl]

/-- Ranges that leave out all control characters. -/
theorem isControl_of_covers {ranges : Ranges} {c : Char} (hordered : ranges.ordered = true)
    (hranges : ∀ r ∈ ranges, 0x20 ≤ r.1 ∧ (r.2 < 0x7F ∨ 0xA0 ≤ r.1))
    (h : ranges.covers c.toNat = true) : isControl c = false := by
  obtain ⟨r, hr, hfirst, hlast⟩ := (Ranges.covers_iff hordered _).1 h
  have hout := hranges r hr
  rw [Bool.eq_false_iff, ne_eq, isControl_iff]
  omega

theorem isControl_of_isAlphanumeric {c : Char} (h : isAlphanumeric c = true) :
    isControl c = false := by
  rcases Bool.or_eq_true_iff.1 h with h | h
  · exact isControl_of_covers alphabeticRanges_ordered (by decide +kernel) h
  · exact isControl_of_covers numericRanges_ordered (by decide +kernel) h

theorem isControl_of_isPrintable {c : Char} (h : isPrintable c = true) : isControl c = false := by
  rw [Bool.eq_false_iff, ne_eq, isControl_iff]
  intro hcontrol
  have hcovers : unprintableRanges.covers c.toNat = true := by
    rw [Ranges.covers_iff unprintableRanges_ordered]
    rcases hcontrol with hlow | ⟨hfirst, hlast⟩
    · exact ⟨(0x00, 0x1F), by decide +kernel, Nat.zero_le _, by omega⟩
    · exact ⟨(0x7F, 0xA0), by decide +kernel, hfirst, by omega⟩
  simp [isPrintable, hcovers] at h

theorem isControl_of_isDigit {c : Char} (h : c.isDigit = true) : isControl c = false :=
  isControl_of_isAlphanumeric (isAlphanumeric_of_isDigit h)

theorem isControl_of_mem_toDigits {base : Nat} (hbase : 1 < base) (hmax : base ≤ 16) (n : Nat) :
    ∀ c ∈ Nat.toDigits base n, isControl c = false := by
  have hdigit : ∀ d < 16, isControl d.digitChar = false := by decide
  induction n using Nat.strongRecOn with
  | ind n ih =>
    by_cases hn : n < base
    · rw [Nat.toDigits_of_lt_base hn]
      exact List.forall_mem_singleton.2 (hdigit n (by omega))
    · rw [Nat.toDigits_of_base_le hbase (by omega), List.forall_mem_append]
      have hlast : n % base < base := Nat.mod_lt n (by omega)
      exact ⟨ih (n / base) (Nat.div_lt_self (by omega) hbase),
        List.forall_mem_singleton.2 (hdigit _ (by omega))⟩

theorem controls_repr (n : Nat) : controls (toString n).toList = [] := by
  change controls (Nat.repr n).toList = []
  rw [Nat.toList_repr, controls_eq_nil_iff]
  exact isControl_of_mem_toDigits (by decide) (by decide) n

theorem controls_codeEscape (c : Char) : controls (codeEscape c) = [] := by
  have hdigits := controls_eq_nil_iff.2 (isControl_of_mem_toDigits (by decide) (Nat.le_refl 16) c.toNat)
  change controls ("\\u\x7b".toList ++ (Nat.toDigits 16 c.toNat ++ "\x7d".toList)) = []
  rw [controls_append, controls_append, hdigits]
  decide

theorem controls_visibleChar (attaches : Bool) (c : Char) :
    controls (visibleChar attaches c) = [] := by
  unfold visibleChar
  split
  case h_8 =>
    split
    · exact controls_codeEscape c
    · next h =>
      have hprintable : isPrintable c = true := by simp_all
      exact controls_eq_nil_iff.2 (List.forall_mem_singleton.2 (isControl_of_isPrintable hprintable))
  all_goals decide

theorem controls_visible (text : List Char) : controls (visible text) = [] := by
  cases text with
  | nil => rfl
  | cons c rest =>
    rw [visible, controls_append, controls_visibleChar, List.nil_append, controls,
      List.filter_flatMap, List.flatMap_eq_nil_iff]
    exact fun d _ => controls_visibleChar false d

end Text

namespace Source
open Text

theorem Word.isControl_of_isMember {c : Char} (h : isMember c = true) : isControl c = false := by
  rcases Bool.or_eq_true_iff.1 h with h | h
  · exact isControl_of_isAlphanumeric h
  · rw [of_decide_eq_true h]
    decide

theorem Numeral.isControl_of_isMember {c : Char} (h : isMember c = true) : isControl c = false := by
  simp only [isMember, isSeparator, Bool.or_eq_true, decide_eq_true_eq] at h
  rcases h with (h | rfl) | rfl | rfl
  · exact isControl_of_isDigit h
  all_goals decide

end Source
end CoreLang
