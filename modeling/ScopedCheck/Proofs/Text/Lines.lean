import Mathlib.Data.List.Basic
import ScopedCheck.Text.Lines
/-! # Lines of a text

What stands behind a newline is cut into lines for itself. A text without a newline is one line, and its
first visible character is never part of the line ending. -/

namespace ScopedCheck.Text

/-! ## Cutting -/

theorem rawLines_ne_nil {cs : List Char} (h : cs ≠ []) : rawLines cs ≠ [] := by
  intro hnil
  have hflat := flatten_rawLines cs
  rw [hnil, List.flatten_nil] at hflat
  exact h hflat.symm

/-- What follows a newline is cut for itself. -/
theorem rawLines_append (front behind : List Char) :
    rawLines (front ++ '\n' :: behind) = rawLines (front ++ ['\n']) ++ rawLines behind := by
  induction front with
  | nil => simp [rawLines]
  | cons c front ih =>
      by_cases hc : c = '\n'
      · simp [rawLines, hc, ih]
      · have hne : rawLines (front ++ ['\n']) ≠ [] := rawLines_ne_nil (by simp)
        obtain ⟨line, rest, hlines⟩ := List.exists_cons_of_ne_nil hne
        simp [rawLines, hc, ih, hlines]

theorem rawLines_of_notMem {line : List Char} (h : '\n' ∉ line) :
    rawLines (line ++ ['\n']) = [line ++ ['\n']] := by
  induction line with
  | nil => rfl
  | cons c line ih =>
      have hc : c ≠ '\n' := fun hc => h (by simp [hc])
      have hline : '\n' ∉ line := fun hline => h (by simp [hline])
      simp [rawLines, hc, ih hline]

/-- A line and what follows it. -/
theorem rawLines_line {cs : List Char} (h : '\n' ∉ cs) (rest : List Char) :
    rawLines (cs ++ '\n' :: rest) = (cs ++ ['\n']) :: rawLines rest := by
  rw [rawLines_append, rawLines_of_notMem h, List.singleton_append]

theorem exists_rawLines {cs : List Char} (h : '\n' ∉ cs) (hne : cs ≠ []) (rest : List Char) :
    ∃ tail later, rawLines (cs ++ rest) = (cs ++ tail) :: later := by
  induction cs with
  | nil => exact absurd rfl hne
  | cons c cs ih =>
    obtain ⟨hc, hcs⟩ := not_or.mp (List.mem_cons.not.mp h)
    simp only [List.cons_append, rawLines, Ne.symm hc, if_false]
    cases hrest : rawLines (cs ++ rest) with
    | nil =>
      have hnil := congrArg List.flatten hrest
      rw [flatten_rawLines, List.flatten_nil, List.append_eq_nil_iff] at hnil
      exact ⟨[], [], by rw [hnil.1]; rfl⟩
    | cons line later =>
      cases cs with
      | nil => exact ⟨line, later, rfl⟩
      | cons d cs =>
        obtain ⟨tail, later', htail⟩ := ih hcs (List.cons_ne_nil d cs)
        obtain ⟨rfl, -⟩ := List.cons.inj (hrest.symm.trans htail)
        exact ⟨tail, later, rfl⟩

theorem ne_nil_of_mem_rawLines {cs piece : List Char} (h : piece ∈ rawLines cs) : piece ≠ [] := by
  induction cs generalizing piece with
  | nil => cases h
  | cons c cs ih =>
    rw [rawLines] at h
    split at h
    · rcases List.mem_cons.mp h with rfl | h
      · exact List.cons_ne_nil c []
      · exact ih h
    · split at h
      · exact List.mem_singleton.mp h ▸ List.cons_ne_nil c []
      · rename_i line later hcs
        rcases List.mem_cons.mp h with rfl | h
        · exact List.cons_ne_nil c line
        · exact ih (hcs ▸ List.mem_cons_of_mem line h)

/-! ## Endings -/

theorem dropLast?_append {c d : Char} (hd : d ≠ c) (front behind : List Char) :
    dropLast? c (front ++ d :: behind) = none ∨
      ∃ behind', dropLast? c (front ++ d :: behind) = some (front ++ d :: behind') := by
  unfold dropLast?
  split
  · rename_i hlast
    cases behind with
    | nil => simp [hd] at hlast
    | cons e behind =>
      exact Or.inr ⟨(e :: behind).dropLast, by rw [List.dropLast_append_of_ne_nil (by simp)]; rfl⟩
  · exact Or.inl rfl

theorem dropLast?_cons (c d : Char) {cs : List Char} (hne : cs ≠ []) :
    dropLast? d (c :: cs) = (dropLast? d cs).map (c :: ·) := by
  unfold dropLast?
  rw [List.getLast?_cons_of_ne_nil hne, List.dropLast_cons_of_ne_nil hne]
  split <;> rfl

/-- What belongs to the ending of a line comes behind every other character. -/
theorem exists_withoutEnding {d : Char} (hnewline : d ≠ '\n') (hreturn : d ≠ '\r')
    (front behind : List Char) :
    ∃ behind', withoutEnding (front ++ d :: behind) = front ++ d :: behind' := by
  rcases dropLast?_append hnewline front behind with h | ⟨behind', h⟩
  · exact ⟨behind, by simp only [withoutEnding, h]⟩
  · rcases dropLast?_append hreturn front behind' with h' | ⟨behind'', h'⟩
    · exact ⟨behind', by simp only [withoutEnding, h, h', Option.getD_none]⟩
    · exact ⟨behind'', by simp only [withoutEnding, h, h', Option.getD_some]⟩

theorem withoutEnding_concat {line : List Char} (h : '\r' ∉ line) :
    withoutEnding (line ++ ['\n']) = line := by
  have hnewline : dropLast? '\n' (line ++ ['\n']) = some line := by simp [dropLast?]
  have hreturn : dropLast? '\r' line = none :=
    if_neg fun hlast => h (List.mem_of_getLast? hlast)
  simp only [withoutEnding, hnewline, hreturn, Option.getD_none]

/-- A text without a newline up to a visible character is the start of the first line. -/
theorem exists_lines {cs : List Char} {d : Char} (h : '\n' ∉ cs) (hnewline : d ≠ '\n')
    (hreturn : d ≠ '\r') (rest : List Char) :
    ∃ tail later, lines (cs ++ d :: rest) = (cs ++ d :: tail) :: later := by
  have hone : '\n' ∉ cs ++ [d] := by simp [h, Ne.symm hnewline]
  obtain ⟨tail, later, hraw⟩ := exists_rawLines hone (by simp) rest
  obtain ⟨tail', htail⟩ := exists_withoutEnding hnewline hreturn cs tail
  rw [List.append_assoc, List.append_assoc] at hraw
  refine ⟨tail', later.map withoutEnding, ?_⟩
  rw [lines, show cs ++ d :: rest = cs ++ ([d] ++ rest) from rfl, hraw, List.map_cons]
  exact congrArg (· :: _) htail

end ScopedCheck.Text
