import Mathlib.Data.List.Basic
import ScopedCheck.Text.Blank
/-! # Trimmed texts

A trimmed text has no blank at an end, and trimming takes nothing from a text without one. -/

namespace ScopedCheck.Text

variable {drop : Char → Bool} {cs : List Char}

theorem any_head?_dropWhile (drop : Char → Bool) (cs : List Char) :
    (cs.dropWhile drop).head?.any drop = false := by
  induction cs with
  | nil => rfl
  | cons c cs ih =>
    cases hc : drop c with
    | true => rwa [List.dropWhile_cons_of_pos hc]
    | false => simp [List.dropWhile_cons_of_neg, hc]

theorem dropWhile_eq_self (h : cs.head?.any drop = false) : cs.dropWhile drop = cs := by
  cases cs with
  | nil => rfl
  | cons c cs =>
    have hc : drop c = false := h
    exact List.dropWhile_cons_of_neg (by simp [hc])

/-- A text does not start with a blank once it is trimmed. -/
theorem any_head?_trimStart (cs : List Char) : (trimStart cs).head?.any isBlank = false :=
  any_head?_dropWhile isBlank cs

theorem any_getLast?_dropTail (drop : Char → Bool) (cs : List Char) :
    (dropTail drop cs).getLast?.any drop = false := by
  rw [dropTail, List.getLast?_reverse]
  exact any_head?_dropWhile drop cs.reverse

theorem dropTail_eq_self (h : cs.getLast?.any drop = false) : dropTail drop cs = cs := by
  rw [dropTail, dropWhile_eq_self (by rwa [List.head?_reverse]), List.reverse_reverse]

@[simp] theorem trimEnd_trimEnd (cs : List Char) : trimEnd (trimEnd cs) = trimEnd cs :=
  dropTail_eq_self (any_getLast?_dropTail isBlank cs)

theorem exists_append_dropTail (drop : Char → Bool) (cs : List Char) :
    ∃ back, cs = dropTail drop cs ++ back := by
  refine ⟨(cs.reverse.takeWhile drop).reverse, ?_⟩
  rw [dropTail, ← List.reverse_append, List.takeWhile_append_dropWhile, List.reverse_reverse]

/-- What is left of a text stands in it in one piece. -/
theorem exists_append_trim (cs : List Char) : ∃ front back, cs = front ++ (trim cs ++ back) := by
  obtain ⟨back, hback⟩ := exists_append_dropTail isBlank (trimStart cs)
  refine ⟨cs.takeWhile isBlank, back, ?_⟩
  conv_lhs => rw [← List.takeWhile_append_dropWhile (p := isBlank) (l := cs)]
  exact congrArg (cs.takeWhile isBlank ++ ·) hback

theorem any_head?_trimEnd (h : cs.head?.any isBlank = false) : (trimEnd cs).head?.any isBlank = false := by
  obtain ⟨back, hback⟩ := exists_append_dropTail isBlank cs
  change (dropTail isBlank cs).head?.any isBlank = false
  cases hkept : dropTail isBlank cs with
  | nil => rfl
  | cons c kept =>
    rw [hback, hkept] at h
    exact h

@[simp] theorem trim_trim (cs : List Char) : trim (trim cs) = trim cs := by
  have hstart : trimStart (trim cs) = trim cs :=
    dropWhile_eq_self (any_head?_trimEnd (any_head?_trimStart cs))
  rw [trim, hstart]
  exact trimEnd_trimEnd (trimStart cs)

end ScopedCheck.Text
