/-! # Cutting a text at a character

Cutting never loses anything: put together again with the same character, the pieces are the
text. -/

namespace ScopedCheck.Text

/-- The pieces between the occurrences of a character. There is always at least one piece. -/
def splitOn (sep : Char) : List Char → List (List Char)
  | [] => [[]]
  | c :: cs =>
      if c = sep then [] :: splitOn sep cs
      else
        match splitOn sep cs with
        | [] => [[c]]
        | piece :: rest => (c :: piece) :: rest

/-- The pieces with a character between each two of them. -/
def joinWith (sep : Char) : List (List Char) → List Char
  | [] => []
  | [piece] => piece
  | piece :: rest => piece ++ sep :: joinWith sep rest

theorem splitOn_ne_nil (sep : Char) (cs : List Char) : splitOn sep cs ≠ [] := by
  cases cs with
  | nil => simp [splitOn]
  | cons c cs =>
      simp only [splitOn]
      split
      · simp
      · split <;> simp

theorem joinWith_splitOn (sep : Char) (cs : List Char) : joinWith sep (splitOn sep cs) = cs := by
  induction cs with
  | nil => rfl
  | cons c cs ih =>
      cases hs : splitOn sep cs with
      | nil => exact absurd hs (splitOn_ne_nil sep cs)
      | cons piece rest =>
          rw [hs] at ih
          by_cases h : c = sep
          · simp [splitOn, h, hs, joinWith, ih]
          · cases rest <;> simp_all [splitOn, joinWith]

/-- No piece holds the character that the text was cut at. -/
theorem notMem_of_mem_splitOn {sep : Char} {cs piece : List Char} (h : piece ∈ splitOn sep cs) :
    sep ∉ piece := by
  induction cs generalizing piece with
  | nil => simp [splitOn] at h; simp [h]
  | cons c cs ih =>
      simp only [splitOn] at h
      split at h
      · rcases List.mem_cons.1 h with rfl | h
        · simp
        · exact ih h
      · rename_i hc
        split at h
        · simp at h; subst h; simpa using Ne.symm hc
        · rename_i first rest hs
          rcases List.mem_cons.1 h with rfl | h
          · have hfirst : sep ∉ first := ih (by rw [hs]; simp)
            simp [hfirst, Ne.symm hc]
          · exact ih (by rw [hs]; simp [h])

/-- Every occurrence of one character replaced by another. -/
def replaceChar (old new : Char) (s : String) : String :=
  String.ofList (s.toList.map fun c => if c = old then new else c)

/-- A text with forward slashes in the place of backslashes. -/
def forwardSlashes (s : String) : String :=
  replaceChar '\\' '/' s

/-- Texts with a separator between each two of them. -/
def joinTexts (sep : String) (texts : List String) : String :=
  sep.intercalate texts

end ScopedCheck.Text
