import Mathlib.Order.Monotone.Basic
import ScopedCheck.Json.Commented
/-! # Dropping comments and commas keeps the lines

What is dropped from a text is never a newline. So every character that is left stands on the line on which
it was written, whether or not the comments and the strings of the text are closed (`keepsLines_plain`). -/

namespace ScopedCheck.Json.Commented

/-! ## What is left of a text -/

/-- What is left of a text if some characters are dropped, but no newline. -/
inductive Leaves : List Char → List Char → Prop
  | nil : Leaves [] []
  | keep (c : Char) {text left : List Char} : Leaves text left → Leaves (c :: text) (c :: left)
  | drop {c : Char} {text left : List Char} : c ≠ '\n' → Leaves text left → Leaves (c :: text) left

namespace Leaves

variable {text left less : List Char}

theorem refl (text : List Char) : Leaves text text := by
  induction text with
  | nil => exact nil
  | cons c text ih => exact keep c ih

theorem trans (h : Leaves text left) (h' : Leaves left less) : Leaves text less := by
  induction h generalizing less with
  | nil => exact h'
  | keep c h ih =>
    cases h' with
    | keep _ h' => exact keep c (ih h')
    | drop hc h' => exact .drop hc (ih h')
  | drop hc h ih => exact .drop hc (ih h')

/-- What is left on either side of a place is left of one side of the text. -/
theorem split {front rest : List Char} (h : Leaves text (front ++ rest)) :
    ∃ before behind, text = before ++ behind ∧ Leaves before front ∧ Leaves behind rest := by
  generalize hleft : front ++ rest = left at h
  induction h generalizing front with
  | nil =>
    obtain ⟨rfl, rfl⟩ := List.append_eq_nil_iff.mp hleft
    exact ⟨[], [], rfl, nil, nil⟩
  | keep c h ih =>
    cases front with
    | nil =>
      obtain rfl : rest = _ := hleft
      exact ⟨[], _, rfl, nil, keep c h⟩
    | cons d front =>
      obtain ⟨rfl, hrest⟩ : d = c ∧ front ++ rest = _ := List.cons.inj hleft
      obtain ⟨before, behind, rfl, hbefore, hbehind⟩ := ih hrest
      exact ⟨d :: before, behind, rfl, keep d hbefore, hbehind⟩
  | @drop c text left hc h ih =>
    obtain ⟨before, behind, rfl, hbefore, hbehind⟩ := ih hleft
    exact ⟨c :: before, behind, rfl, .drop hc hbefore, hbehind⟩

/-- The characters that are left have places in the text, in their order and with as many newlines in front
of them. -/
theorem exists_place (h : Leaves text left) :
    ∃ place : Nat → Nat, StrictMono place ∧
      ∀ i, left[i]? = text[place i]? ∧ (left.take i).count '\n' = (text.take (place i)).count '\n' := by
  induction h with
  | nil => exact ⟨id, strictMono_id, fun i => ⟨rfl, by simp⟩⟩
  | keep c h ih =>
    obtain ⟨place, hmono, hplace⟩ := ih
    refine ⟨fun | 0 => 0 | i + 1 => place i + 1, strictMono_nat_of_lt_succ fun i => ?_, fun i => ?_⟩
    · cases i with
      | zero => exact Nat.succ_pos _
      | succ i => exact Nat.succ_lt_succ (hmono (Nat.lt_succ_self i))
    · cases i with
      | zero => exact ⟨rfl, rfl⟩
      | succ i => exact ⟨(hplace i).1, by simp only [List.take_succ_cons, List.count_cons, (hplace i).2]⟩
  | drop hc h ih =>
    obtain ⟨place, hmono, hplace⟩ := ih
    refine ⟨fun i => place i + 1, fun i j hij => Nat.succ_lt_succ (hmono hij), fun i => ⟨(hplace i).1, ?_⟩⟩
    rw [List.take_succ_cons, List.count_cons_of_ne hc, (hplace i).2]

theorem count_newline (h : Leaves text left) : left.count '\n' = text.count '\n' := by
  induction h with
  | nil => rfl
  | keep c h ih => rw [List.count_cons, List.count_cons, ih]
  | drop hc h ih => rw [List.count_cons_of_ne hc, ih]

end Leaves

/-- A text is left of another one, every character on its line, and with all its newlines. -/
structure KeepsLines (text left : List Char) : Prop where
  place : ∃ place : Nat → Nat, StrictMono place ∧
    ∀ i, left[i]? = text[place i]? ∧ (left.take i).count '\n' = (text.take (place i)).count '\n'
  newlines : left.count '\n' = text.count '\n'

theorem Leaves.keepsLines {text left : List Char} (h : Leaves text left) : KeepsLines text left :=
  ⟨h.exists_place, h.count_newline⟩

/-! ## The two passes -/

theorem leaves_stripComments (mode : Mode) (cs : List Char) : Leaves cs (stripComments mode cs) := by
  fun_induction stripComments mode cs with
  | case1 => exact .nil
  | case2 cs ih => exact .keep _ ih
  | case3 c cs hc ih => exact .drop hc ih
  | case4 cs ih => exact .drop (by decide) (.drop (by decide) ih)
  | case5 cs _ ih => exact .keep _ ih
  | case6 c cs _ hc ih => exact .drop hc ih
  | case7 c cs ih => exact .keep c ih
  | case8 c cs ih => exact .keep c ih
  | case9 cs ih => exact .drop (by decide) (.drop (by decide) ih)
  | case10 cs ih => exact .drop (by decide) (.drop (by decide) ih)
  | case11 c cs _ _ ih => exact .keep c ih

theorem leaves_dropTrailingCommas (mode : Mode) (cs : List Char) : Leaves cs (dropTrailingCommas mode cs) := by
  fun_induction dropTrailingCommas mode cs with
  | case1 => exact .nil
  | case2 c cs ih => exact .keep c ih
  | case3 c cs ih => exact .keep c ih
  | case4 c cs hcomma ih =>
    obtain ⟨hc, -⟩ := Bool.and_eq_true_iff.mp hcomma
    exact .drop (of_decide_eq_true hc ▸ by decide) ih
  | case5 c cs hcomma ih => exact .keep c ih
  | case6 c cs ih => exact .keep c ih
  | case7 c cs ih => exact .keep c ih

theorem leaves_plain (cs : List Char) : Leaves cs (plain cs) :=
  (leaves_stripComments .code cs).trans (leaves_dropTrailingCommas .code _)

theorem leaves_dropWhile {p : Char → Bool} (h : p '\n' = false) (cs : List Char) :
    Leaves cs (cs.dropWhile p) := by
  induction cs with
  | nil => exact .nil
  | cons c cs ih =>
    by_cases hc : p c = true
    · rw [List.dropWhile_cons_of_pos hc]
      refine .drop ?_ ih
      rintro rfl
      exact Bool.false_ne_true (h.symm.trans hc)
    · rw [List.dropWhile_cons_of_neg hc]
      exact .refl _

theorem leaves_document (text : String) : Leaves text.toList (document text) :=
  (leaves_plain text.toList).trans (leaves_dropWhile (by decide) _)

end ScopedCheck.Json.Commented
