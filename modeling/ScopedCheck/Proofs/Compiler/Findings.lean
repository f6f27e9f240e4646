import ScopedCheck.Compiler.Execute
import ScopedCheck.Proofs.Compiler.Diagnostic
import ScopedCheck.Proofs.Text.Lines
/-! # Findings of two channels

What a compiler writes about errors is put behind its output, on a line of its own. Everything about the
findings of such a text follows from one equation: a newline cuts a text in two whose findings are found
for themselves (`findingsIn_newline`). -/

namespace ScopedCheck

open Text

namespace Diagnostic

/-! ## One line -/

/-- A line without a parenthesis has no finding. -/
theorem ofLine?_eq_none {line : List Char} (h : '(' ∉ line) : ofLine? line = none := by
  refine Option.eq_none_iff_forall_ne_some.mpr fun d hd => h ?_
  obtain ⟨file, t, hcut, -⟩ := exists_isCut_of_ofLine? hd
  rw [hcut.eq_append, Tail.chars]
  simp

/-- The finding in a piece of a text that was cut after its newlines. -/
def ofPiece? (piece : List Char) : Option Diagnostic :=
  ofLine? (dropTail (· == '\r') (withoutEnding piece))

theorem ofPiece?_of_notMem {piece : List Char} (h : '\n' ∉ piece) :
    ofPiece? piece = ofLine? (dropTail (· == '\r') piece) := by
  have hnewline : dropLast? '\n' piece = none := if_neg fun hlast => h (List.mem_of_getLast? hlast)
  rw [ofPiece?, withoutEnding, hnewline]

/-- Carriage returns at the end of a line do not matter, so that a newline behind it does not either. -/
theorem ofPiece?_newline (line : List Char) :
    ofPiece? (line ++ ['\n']) = ofLine? (dropTail (· == '\r') line) := by
  have hnewline : dropLast? '\n' (line ++ ['\n']) = Option.some line := by simp [dropLast?]
  have hreturn : dropTail (· == '\r') ((dropLast? '\r' line).getD line) = dropTail (· == '\r') line := by
    rcases List.eq_nil_or_concat' line with rfl | ⟨front, c, rfl⟩
    · rfl
    · by_cases hc : c = '\r'
      · simp [dropLast?, dropTail, hc]
      · simp [dropLast?, hc]
  rw [ofPiece?, withoutEnding, hnewline, hreturn]

/-! ## Texts -/

/-- The findings in a text, in order. -/
def findingsIn (cs : List Char) : List Diagnostic := (rawLines cs).filterMap ofPiece?

theorem ofOutput_eq (raw : String) : ofOutput raw = findingsIn raw.toList := by
  rw [ofOutput, lines, List.filterMap_map]
  rfl

@[simp] theorem findingsIn_nil : findingsIn [] = [] := rfl

theorem findingsIn_line {line : List Char} (h : '\n' ∉ line) (rest : List Char) :
    findingsIn (line ++ '\n' :: rest)
      = (ofLine? (dropTail (· == '\r') line)).toList ++ findingsIn rest := by
  rw [findingsIn, rawLines_line h, List.filterMap_cons, ofPiece?_newline]
  cases ofLine? (dropTail (· == '\r') line) <;> rfl

/-- The last line of a text may lack its newline. -/
theorem findingsIn_of_notMem {line : List Char} (h : '\n' ∉ line) :
    findingsIn line = (ofLine? (dropTail (· == '\r') line)).toList := by
  cases line with
  | nil => rfl
  | cons c cs =>
    have hone : rawLines (c :: cs) = [c :: cs] := by
      obtain ⟨tail, later, hlines⟩ := exists_rawLines h (List.cons_ne_nil c cs) []
      have hflat := flatten_rawLines (c :: cs)
      rw [List.append_nil] at hlines
      rw [hlines, List.flatten_cons, List.append_assoc, List.append_right_eq_self,
        List.append_eq_nil_iff] at hflat
      obtain ⟨rfl, hlater⟩ := hflat
      have hnone : later = [] := by
        refine List.eq_nil_iff_forall_not_mem.mpr fun piece hpiece => ?_
        have hmem : piece ∈ rawLines (c :: cs) := hlines ▸ List.mem_cons_of_mem _ hpiece
        exact ne_nil_of_mem_rawLines hmem (List.flatten_eq_nil_iff.mp hlater piece hpiece)
      rw [hlines, hnone, List.append_nil]
    rw [findingsIn, hone, List.filterMap_cons, ofPiece?_of_notMem h]
    cases ofLine? (dropTail (· == '\r') (c :: cs)) <;> rfl

/-- A newline cuts a text in two whose findings are found for themselves. -/
theorem findingsIn_newline (front behind : List Char) :
    findingsIn (front ++ '\n' :: behind) = findingsIn front ++ findingsIn behind := by
  by_cases h : '\n' ∈ front
  · -- the first line is found in both, and what follows it is shorter
    obtain ⟨line, rest, hfront, hline⟩ := List.eq_append_cons_of_mem h
    rw [hfront, List.append_assoc, List.cons_append, findingsIn_line hline, findingsIn_line hline,
      findingsIn_newline rest behind, List.append_assoc]
  · rw [findingsIn_line h, findingsIn_of_notMem h]
termination_by front.length
decreasing_by simp only [hfront, List.length_append, List.length_cons]; omega

theorem mem_of_mem_withoutEnding {piece : List Char} {c : Char} (h : c ∈ withoutEnding piece) : c ∈ piece := by
  have hdrop : ∀ {d : Char} {cs line : List Char}, dropLast? d cs = Option.some line → c ∈ line → c ∈ cs := by
    intro d cs line hline hmem
    unfold dropLast? at hline
    split at hline
    · exact List.dropLast_subset cs (Option.some.inj hline ▸ hmem)
    · cases hline
  unfold withoutEnding at h
  split at h
  · exact h
  · rename_i line hline
    cases hreturn : dropLast? '\r' line with
    | none => exact hdrop hline (by simpa [hreturn] using h)
    | some kept => exact hdrop hline (hdrop hreturn (by simpa [hreturn] using h))

/-- A text without a parenthesis, such as one of blanks, has no findings. -/
theorem findingsIn_eq_nil {cs : List Char} (h : '(' ∉ cs) : findingsIn cs = [] := by
  refine List.filterMap_eq_nil_iff.mpr fun piece hpiece => ofLine?_eq_none fun hmem => h ?_
  have hpieceMem : '(' ∈ withoutEnding piece :=
    (List.dropWhile_sublist _).subset (List.mem_reverse.mp hmem) |> List.mem_reverse.mp
  rw [← flatten_rawLines cs]
  exact List.mem_flatten.mpr ⟨piece, hpiece, mem_of_mem_withoutEnding hpieceMem⟩

end Diagnostic

/-! ## Both channels -/

namespace Findings

/-- The findings of one text followed by those of another one, by severity. -/
def append (front behind : Findings) : Findings :=
  ⟨front.errors ++ behind.errors, front.warnings ++ behind.warnings⟩

theorem ofOutput_newline (front behind : String) :
    ofOutput (front ++ "\n" ++ behind) = (ofOutput front).append (ofOutput behind) := by
  have hcut : (front ++ "\n" ++ behind).toList = front.toList ++ '\n' :: behind.toList := by simp
  simp only [ofOutput, Diagnostic.ofOutput_eq, hcut, Diagnostic.findingsIn_newline, append,
    List.filter_append]

theorem ofOutput_of_isBlankText {text : String} (h : isBlankText text = true) : ofOutput text = {} := by
  have hparen : '(' ∉ text.toList := fun hmem =>
    absurd (List.all_eq_true.mp h '(' hmem) (by decide)
  simp only [ofOutput, Diagnostic.ofOutput_eq, Diagnostic.findingsIn_eq_nil hparen, List.filter_nil]

end Findings

/-- The findings of a compiler are those of its output followed by those of what it writes about errors,
however the lines of both end, and they are the findings of the text that is kept. -/
theorem Execution.findings_ofEnding (kind : CompilerKind) (reason : String) (stdout stderr : Content)
    (ending : Ending) :
    let run := Execution.ofEnding kind reason stdout stderr ending
    run.findings = (Findings.ofOutput stdout.lossyText).append (Findings.ofOutput stderr.lossyText) ∧
      run.findings = Findings.ofOutput run.output := by
  refine ⟨?_, rfl⟩
  change Findings.ofOutput (Execution.outputOf stdout stderr) = _
  unfold Execution.outputOf
  split
  · rename_i hblank
    simp only [Findings.ofOutput_of_isBlankText hblank, Findings.append, List.append_nil]
  · exact Findings.ofOutput_newline _ _

end ScopedCheck
