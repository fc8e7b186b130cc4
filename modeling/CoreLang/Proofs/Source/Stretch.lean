import Mathlib.Data.List.TakeWhile

/-! The longest stretch of characters of one class at the head of a text. -/
namespace CoreLang.Source
variable {p : Char → Bool} {stretch next : List Char}

theorem takeWhile_append_of_head (hin : ∀ c ∈ stretch, p c = true)
    (hout : ∀ d ∈ next.head?, p d = false) : (stretch ++ next).takeWhile p = stretch := by
  rw [List.takeWhile_append_of_pos hin]
  cases next with
  | nil => simp
  | cons d next => simp [hout d rfl]

theorem dropWhile_append_of_head (hin : ∀ c ∈ stretch, p c = true)
    (hout : ∀ d ∈ next.head?, p d = false) : (stretch ++ next).dropWhile p = next := by
  rw [List.dropWhile_append_of_pos hin]
  cases next with
  | nil => rfl
  | cons d next => simp [hout d rfl]

/-- Two texts that begin with stretches of one class have the same stretch. -/
theorem append_inj_of_head {stretch' next' : List Char} (hin : ∀ c ∈ stretch, p c = true)
    (hin' : ∀ c ∈ stretch', p c = true) (hout : ∀ d ∈ next.head?, p d = false)
    (hout' : ∀ d ∈ next'.head?, p d = false) (h : stretch ++ next = stretch' ++ next') :
    stretch = stretch' ∧ next = next' := by
  constructor
  · rw [← takeWhile_append_of_head hin hout, h, takeWhile_append_of_head hin' hout']
  · rw [← dropWhile_append_of_head hin hout, h, dropWhile_append_of_head hin' hout']

theorem takeWhile_append_left (text : List Char) (hout : ∀ d ∈ next.head?, p d = false) :
    (text ++ next).takeWhile p = text.takeWhile p := by
  induction text with
  | nil => exact takeWhile_append_of_head (by simp) hout
  | cons c text ih => simp only [List.cons_append, List.takeWhile_cons, ih]

theorem not_of_mem_head?_dropWhile {text : List Char} {d : Char}
    (h : d ∈ (text.dropWhile p).head?) : p d = false := by
  have hnot := List.head?_dropWhile_not p text
  rwa [Option.mem_def.1 h] at hnot

end CoreLang.Source
