import Mathlib.Data.List.Basic
import ScopedCheck.Report
import ScopedCheck.Text.Affix
import ScopedCheck.Proofs.Text.Lines
/-! # The last line of a report

A report ends in its summary, on a line of its own. Without colours the first words of the summary tell
whether the check found nothing and was complete. -/

namespace ScopedCheck

namespace Text

/-! ## The last line of a text -/

/-- Whether a text holds no part of a line ending. -/
def isOneLine (text : String) : Bool := text.toList.all fun c => c != '\n' && c != '\r'

theorem isOneLine_iff {text : String} :
    isOneLine text = true ↔ '\n' ∉ text.toList ∧ '\r' ∉ text.toList := by
  simp only [isOneLine, List.all_eq_true, Bool.and_eq_true, bne_iff_ne, ne_eq]
  constructor
  · exact fun h => ⟨fun hmem => (h _ hmem).1 rfl, fun hmem => (h _ hmem).2 rfl⟩
  · rintro ⟨hnewline, hreturn⟩ c hc
    exact ⟨fun h => hnewline (h ▸ hc), fun h => hreturn (h ▸ hc)⟩

@[simp] theorem isOneLine_append (text more : String) :
    isOneLine (text ++ more) = (isOneLine text && isOneLine more) := by
  simp [isOneLine]

@[simp] theorem isOneLine_repr (n : Nat) : isOneLine n.repr = true := by
  refine isOneLine_iff.mpr ⟨fun h => ?_, fun h => ?_⟩ <;>
    rw [Nat.toList_repr] at h <;>
    exact absurd (Nat.isDigit_of_mem_toDigits (by decide) (by decide) h) (by decide)

theorem intercalate_concat (sep : List Char) {pieces : List (List Char)} (hne : pieces ≠ [])
    (last : List Char) : sep.intercalate (pieces ++ [last]) = sep.intercalate pieces ++ sep ++ last := by
  induction pieces with
  | nil => exact absurd rfl hne
  | cons piece rest ih =>
      cases rest with
      | nil => simp
      | cons next rest =>
          rw [List.cons_append, List.cons_append, List.intercalate_cons_cons, ← List.cons_append,
            ih (by simp), List.intercalate_cons_cons]
          simp

/-- The last of some lines, each on a line of its own, is the last line of the whole. -/
theorem getLast?_lines (before : List String) {last : String} (h : isOneLine last = true) :
    (lines ("\n".intercalate (before ++ [last]) ++ "\n").toList).getLast? = some last.toList := by
  obtain ⟨hnewline, hreturn⟩ := isOneLine_iff.mp h
  have hlast : lines (last.toList ++ ['\n']) = [last.toList] := by
    rw [lines, rawLines_of_notMem hnewline, List.map_singleton, withoutEnding_concat hreturn]
  rcases List.eq_nil_or_concat' before with rfl | ⟨front, line, rfl⟩
  · simp [hlast]
  · have hjoin : ("\n".intercalate (front ++ [line] ++ [last]) ++ "\n").toList =
        ("\n".intercalate (front ++ [line])).toList ++ '\n' :: (last.toList ++ ['\n']) := by
      rw [String.toList_append, String.toList_intercalate, String.toList_intercalate, List.map_append,
        List.map_singleton, intercalate_concat _ (by simp)]
      simp
    rw [hjoin, lines, rawLines_append, List.map_append, ← lines, ← lines, hlast, List.getLast?_concat]

end Text

namespace Reporter

variable {result : CheckResult}

/-! ## The summary -/

/-- A report without colours. -/
def plain (verbose : Bool) : Reporter := ⟨false, verbose⟩

theorem isOneLine_counted (count : Nat) {noun : String} (h : Text.isOneLine noun = true) :
    Text.isOneLine (counted count noun) = true := by
  unfold counted
  split <;> simp +decide [h]

theorem isOneLine_duration (result : CheckResult) : Text.isOneLine (duration result) = true := by
  simp +decide [duration]

/-- The summary stands on one line. -/
theorem isOneLine_summary (verbose : Bool) (result : CheckResult) :
    Text.isOneLine ((plain verbose).summary result) = true := by
  have hcounted : ∀ noun ∈ ["error", "file", "group", "warning"], ∀ count,
      Text.isOneLine (counted count noun) = true := by
    intro noun hnoun count
    exact isOneLine_counted count ((by decide :
      ∀ noun ∈ ["error", "file", "group", "warning"], Text.isOneLine noun = true) noun hnoun)
  simp only [List.forall_mem_cons, List.not_mem_nil, false_implies, implies_true, and_true] at hcounted
  obtain ⟨herror, hfile, hgroup, hwarning⟩ := hcounted
  simp only [summary, styled, plain, Bool.false_eq_true, if_false]
  split
  · simp +decide [herror, hfile, isOneLine_duration]
  · split
    · simp +decide [hgroup]
    · split
      · simp +decide [hwarning, hfile, isOneLine_duration]
      · split <;> simp +decide [hwarning, hfile, isOneLine_duration]

theorem startsWith_append (text more start : String)
    (h : start.toList.isPrefixOf text.toList = true) : Text.startsWith (text ++ more) start = true := by
  rw [Text.startsWith, String.toList_append, List.isPrefixOf_iff_prefix]
  exact (List.isPrefixOf_iff_prefix.mp h).trans (List.prefix_append _ _)

/-- The summary says that there are no type errors when there are none, nothing failed and every compiler
was content. -/
theorem startsWith_summary_iff (verbose : Bool) (result : CheckResult) :
    Text.startsWith ((plain verbose).summary result) "No type errors" = true ↔
      result.errorCount = 0 ∧ result.failures = [] ∧ result.success = true := by
  have hother : ∀ start ∈ ["Found ", "Type check did not complete: ", "Type check failed with "],
      ∀ more, Text.startsWith (start ++ more) "No type errors" = false := by
    intro start hstart more
    simp only [List.mem_cons, List.not_mem_nil, or_false] at hstart
    rw [Text.startsWith, String.toList_append]
    rcases hstart with rfl | rfl | rfl <;> rfl
  simp only [List.forall_mem_cons, List.not_mem_nil, false_implies, implies_true, and_true] at hother
  obtain ⟨hfound, hincomplete, hfailed⟩ := hother
  simp only [summary, styled, plain, Bool.false_eq_true, if_false, String.append_assoc]
  by_cases herrors : 0 < result.errorCount
  · simp only [if_pos herrors, hfound, Bool.false_eq_true, false_iff, not_and]
    exact fun hzero => absurd hzero (by omega)
  · rw [if_neg herrors]
    have hzero : result.errorCount = 0 := by omega
    by_cases hfailures : result.failures = []
    · cases hsuccess : result.success with
      | false => simp [hfailures, hfailed]
      | true =>
          simp only [hfailures, List.isEmpty_nil, Bool.not_true, Bool.false_eq_true, if_false, hzero,
            and_self, iff_true]
          exact startsWith_append "No type errors in " _ _ (by decide)
    · have hsome : (!result.failures.isEmpty) = true := by simpa using hfailures
      simp only [hsome, if_true, hincomplete, hfailures, Bool.false_eq_true, false_and, and_false]

/-- The last line of a report is the summary. -/
theorem getLast?_lines_render (verbose : Bool) (result : CheckResult) :
    (Text.lines ((plain verbose).render result).toList).getLast? =
      some ((plain verbose).summary result).toList :=
  Text.getLast?_lines _ (isOneLine_summary verbose result)

end Reporter

end ScopedCheck
