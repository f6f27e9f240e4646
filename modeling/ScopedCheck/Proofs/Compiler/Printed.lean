import ScopedCheck.Proofs.Compiler.Findings
import ScopedCheck.Proofs.Report
/-! # Findings that were printed

What is printed about a finding is a line with the same finding. The file of a finding may hold
parentheses, numbers and severities itself: the printed line could be cut at one of these only if the line
that was read could be cut there as well (`IsCut.printed`). -/

namespace ScopedCheck

open Text

namespace Diagnostic

/-! ## Numbers -/

theorem position?_eq_some_iff {digits : String} {n : Nat} :
    position? digits = some n ↔
      digits.toList.all Char.isDigit = true ∧ Nat.ofDigitChars 10 digits.toList 0 = n ∧ n ≤ maxPosition := by
  have hvalue : digits.toList.foldl (fun n c => n * 10 + (c.toNat - '0'.toNat)) 0
      = Nat.ofDigitChars 10 digits.toList 0 := by
    rw [Nat.ofDigitChars_eq_foldl]
    simp only [Nat.mul_comm]
  rw [position?, hvalue]
  cases digits.toList.all Char.isDigit with
  | false => exact iff_of_false (fun h => by cases h) fun h => by cases h.1
  | true =>
    by_cases hmax : Nat.ofDigitChars 10 digits.toList 0 ≤ maxPosition
    · simp only [guard, if_pos hmax]
      constructor
      · exact fun h => ⟨trivial, Option.some.inj h, Option.some.inj h ▸ hmax⟩
      · exact fun h => congrArg some h.2.1
    · simp only [guard, if_neg hmax]
      exact iff_of_false (fun h => by cases h) fun h => hmax (h.2.1 ▸ h.2.2)

/-- A number is printed in its digits. -/
theorem position?_toDigits {n : Nat} (h : n ≤ maxPosition) :
    position? (String.ofList (Nat.toDigits 10 n)) = some n := by
  rw [position?_eq_some_iff, String.toList_ofList]
  exact ⟨List.all_eq_true.mpr fun _ hc => Nat.isDigit_of_mem_toDigits (by decide) (by decide) hc,
    Nat.ofDigitChars_ten_toDigits, h⟩

theorem isDecimalDigit_of_isDigit {c : Char} (h : c.isDigit = true) : isDecimalDigit c = true := by
  have hascii : c.toNat < 0x80 := by
    have hnine : c.toNat ≤ 57 := (Char.isDigit_iff_toNat.mp h).2
    omega
  rw [isDecimalDigit, if_pos hascii, h]

theorem isDecimalDigit_of_mem_toDigits {n : Nat} {c : Char} (h : c ∈ Nat.toDigits 10 n) :
    isDecimalDigit c = true :=
  isDecimalDigit_of_isDigit (Nat.isDigit_of_mem_toDigits (by decide) (by decide) h)

/-! ## Lines -/

namespace Tail

/-- What is printed of it, with the numbers of the finding. -/
def printed (t : Tail) (line column : Nat) : Tail where
  line := Nat.toDigits 10 line
  column := Nat.toDigits 10 column
  beforeSeverity := [' ']
  severity := t.severity
  beforeCode := [' ']
  code := t.code
  beforeMessage := [' ']
  message := trimEnd t.message
  line_digits := ⟨Nat.toDigits_ne_nil, fun _ => isDecimalDigit_of_mem_toDigits⟩
  column_digits := ⟨Nat.toDigits_ne_nil, fun _ => isDecimalDigit_of_mem_toDigits⟩
  beforeSeverity_blank := by decide
  beforeCode_blank := by decide
  code_chars := t.code_chars
  beforeMessage_blank := by decide
  message_line := by
    obtain ⟨back, hback⟩ := exists_append_dropTail isBlank t.message
    exact fun c hc => t.message_line c (hback ▸ List.mem_append_left back hc)
  message_head := any_head?_trimEnd t.message_head

/-- What is printed stays on one line. -/
theorem newline_notMem_printed (t : Tail) (line column : Nat) : '\n' ∉ (t.printed line column).chars := by
  have hnumber : ∀ n, '\n' ∉ Nat.toDigits 10 n := fun n h =>
    absurd (Nat.isDigit_of_mem_toDigits (by decide) (by decide) h) (by decide)
  have hword : ∀ severity : Severity, '\n' ∉ severity.word.toList := by
    intro severity
    cases severity <;> decide
  have hcode : '\n' ∉ t.code := fun h => absurd (t.code_chars.2 _ h) (by decide)
  have hmessage : '\n' ∉ trimEnd t.message := fun h => absurd ((t.printed line column).message_line _ h) (by decide)
  simp [chars, inner, printed, hnumber, hword, hcode, hmessage]

/-- A carriage return at its end would be a blank at the end of the message. -/
theorem any_getLast?_printed (t : Tail) (line column : Nat) (front : List Char) :
    (front ++ (t.printed line column).chars).getLast?.any (· == '\r') = false := by
  have hend : ∃ more, front ++ (t.printed line column).chars = more ++ (' ' :: trimEnd t.message) :=
    ⟨front ++ '(' :: ((t.printed line column).inner ++ [':']), by simp [chars, printed]⟩
  obtain ⟨more, hend⟩ := hend
  have hlast : (trimEnd t.message).getLast?.any isBlank = false := any_getLast?_dropTail isBlank t.message
  rw [hend, List.getLast?_append, List.getLast?_cons, Option.some_or]
  cases hmessage : (trimEnd t.message).getLast? with
  | none => rfl
  | some c =>
    rw [hmessage] at hlast
    refine beq_eq_false_iff_ne.mpr fun hc => ?_
    obtain rfl : c = '\r' := hc
    cases hlast

end Tail

/-- The file as it is printed, trimmed, is cut off at the same parenthesis. -/
theorem IsCut.printed {line file : List Char} {t : Tail} (h : IsCut line file t) (hline : '\n' ∉ line)
    (hfile : trim file ≠ []) (number column : Nat) :
    IsCut (trim file ++ (t.printed number column).chars) (trim file) (t.printed number column) := by
  obtain ⟨before, back, hsplit⟩ := exists_append_trim file
  refine ⟨rfl, hfile, fun c hc => h.file_line c ?_, fun front c left hfront hcut t' ht' => ?_⟩
  · rw [hsplit]
    exact List.mem_append_right before (List.mem_append_left back hc)
  · -- a cut within the printed file is one within the file that was read
    have hbehind : '\n' ∉ c :: left ++ (back ++ t.chars) := by
      intro hmem
      refine hline ?_
      rw [h.eq_append, hsplit, ← hcut]
      simp only [List.append_assoc, List.cons_append] at hmem ⊢
      exact List.mem_append_right before (List.mem_append_right front hmem)
    obtain ⟨earlier, hearlier⟩ := Tail.exists_of_cut ht' (List.cons_ne_nil c left) hbehind
    refine h.shortest (before ++ front) c (left ++ back) (by simp [hfront]) ?_ earlier ?_
    · rw [hsplit, ← hcut]
      simp
    · rw [hearlier]
      simp

theorem Tail.finding?_eq_some_iff {t : Tail} {file : List Char} {d : Diagnostic} :
    t.finding? file = some d ↔ position? (String.ofList t.line) = some d.line ∧
      position? (String.ofList t.column) = some d.column ∧ String.ofList (trim file) = d.file ∧
      t.severity = d.severity ∧ String.ofList t.code = d.code ∧ String.ofList (trimEnd t.message) = d.message := by
  simp only [finding?, Option.bind_eq_bind, Option.bind_eq_some_iff, Option.pure_def, Option.some.injEq]
  constructor
  · rintro ⟨line, hline, column, hcolumn, rfl⟩
    exact ⟨hline, hcolumn, rfl, rfl, rfl, rfl⟩
  · cases d
    rintro ⟨hline, hcolumn, rfl, rfl, rfl, rfl⟩
    exact ⟨_, hline, _, hcolumn, rfl⟩

/-- The text of a finding as it is printed without colours. -/
theorem toList_diagnostic_plain {t : Tail} {file : List Char} {d : Diagnostic} (h : t.finding? file = some d)
    (verbose : Bool) :
    ((Reporter.plain verbose).diagnostic d).toList = trim file ++ (t.printed d.line d.column).chars := by
  obtain ⟨-, -, hfile, hseverity, hcode, hmessage⟩ := Tail.finding?_eq_some_iff.mp h
  simp [Reporter.diagnostic, Reporter.styled, Reporter.plain, Reporter.location, Tail.chars, Tail.inner,
    Tail.printed, ← hfile, ← hseverity, ← hcode, ← hmessage]

/-- A finding with a file is found in the line that is printed about it. -/
theorem ofLine?_printed {line : List Char} {d : Diagnostic} (hline : '\n' ∉ line)
    (h : ofLine? line = some d) (hfile : d.file ≠ "") (verbose : Bool) :
    '\n' ∉ ((Reporter.plain verbose).diagnostic d).toList ∧
      ofLine? (dropTail (· == '\r') ((Reporter.plain verbose).diagnostic d).toList) = some d := by
  obtain ⟨file, t, hcut, hfinding⟩ := exists_isCut_of_ofLine? h
  obtain ⟨hnumber, hcolumn, hname, hseverity, hcode, hmessage⟩ := Tail.finding?_eq_some_iff.mp hfinding
  have hne : trim file ≠ [] := fun hnil => hfile (by rw [← hname, hnil, String.ofList_nil])
  have hprinted := hcut.printed hline hne d.line d.column
  rw [toList_diagnostic_plain hfinding, dropTail_eq_self (t.any_getLast?_printed d.line d.column _),
    ofLine?_of_isCut hprinted]
  constructor
  · refine fun hmem => (List.mem_append.mp hmem).elim (fun hmem => ?_) (t.newline_notMem_printed d.line d.column)
    exact absurd (hprinted.file_line _ hmem) (by decide)
  · refine Tail.finding?_eq_some_iff.mpr ⟨position?_toDigits (position?_eq_some_iff.mp hnumber).2.2,
      position?_toDigits (position?_eq_some_iff.mp hcolumn).2.2, ?_, hseverity, hcode, ?_⟩
    · rw [trim_trim, hname]
    · rw [← hmessage]
      exact congrArg String.ofList (trimEnd_trimEnd t.message)

/-! ## Texts -/

/-- What is printed on lines of their own is found line by line. -/
theorem findingsIn_intercalate {found : List Diagnostic} {print : Diagnostic → String}
    (h : ∀ d ∈ found, '\n' ∉ (print d).toList ∧ ofLine? (dropTail (· == '\r') (print d).toList) = some d) :
    findingsIn ("\n".intercalate (found.map print)).toList = found := by
  induction found with
  | nil => rfl
  | cons d found ih =>
    obtain ⟨⟨hline, hfound⟩, hlater⟩ := List.forall_mem_cons.mp h
    have hfirst : findingsIn (print d).toList = [d] := by
      rw [findingsIn_of_notMem hline, hfound]
      rfl
    cases found with
    | nil => simpa using hfirst
    | cons next found =>
      have hcut : ("\n".intercalate ((d :: next :: found).map print)).toList
          = (print d).toList ++ '\n' :: ("\n".intercalate ((next :: found).map print)).toList := by
        simp
      rw [hcut, findingsIn_newline, hfirst, ih hlater]
      rfl

/-- A finding is read off a single line. -/
theorem exists_line_of_mem_findingsIn {cs : List Char} {d : Diagnostic} (h : d ∈ findingsIn cs) :
    ∃ line, '\n' ∉ line ∧ ofLine? line = some d := by
  have hreturns : ∀ {line : List Char}, '\n' ∉ line → '\n' ∉ dropTail (· == '\r') line := by
    intro line hline hmem
    obtain ⟨back, hback⟩ := exists_append_dropTail (· == '\r') line
    exact hline (hback ▸ List.mem_append_left back hmem)
  by_cases hnewline : '\n' ∈ cs
  · obtain ⟨line, rest, hcs, hline⟩ := List.eq_append_cons_of_mem hnewline
    rw [hcs, findingsIn_line hline, List.mem_append, Option.mem_toList] at h
    rcases h with hfirst | hlater
    · exact ⟨_, hreturns hline, hfirst⟩
    · exact exists_line_of_mem_findingsIn hlater
  · rw [findingsIn_of_notMem hnewline, Option.mem_toList] at h
    exact ⟨_, hreturns hnewline, h⟩
termination_by cs.length
decreasing_by simp only [hcs, List.length_append, List.length_cons]; omega

end Diagnostic

namespace Findings

/-- The findings as they are printed without colours: the errors, then the warnings, each on a line of its
own. -/
def printed (verbose : Bool) (found : Findings) : String :=
  "\n".intercalate ((found.errors ++ found.warnings).map (Reporter.plain verbose).diagnostic)

theorem ofOutput_of_findingsIn {raw : String} {errors warnings : List Diagnostic}
    (h : Diagnostic.findingsIn raw.toList = errors ++ warnings)
    (herrors : ∀ d ∈ errors, d.severity = .error) (hwarnings : ∀ d ∈ warnings, d.severity = .warning) :
    ofOutput raw = ⟨errors, warnings⟩ := by
  have hkeep : ∀ {found : List Diagnostic} {severity : Severity}, (∀ d ∈ found, d.severity = severity) →
      ∀ other, found.filter (·.severity = other) = if severity = other then found else [] := by
    intro found severity hfound other
    split
    · next heq => exact List.filter_eq_self.mpr fun d hd => by simp [hfound d hd, heq]
    · next hne => exact List.filter_eq_nil_iff.mpr fun d hd => by simp [hfound d hd, hne]
  simp [ofOutput, Diagnostic.ofOutput_eq, h, hkeep herrors, hkeep hwarnings]

/-- Reading what is printed about the findings of an output finds them again, unless the file of one of them
is empty. -/
theorem ofOutput_printed (verbose : Bool) (raw : String)
    (hfile : ∀ d ∈ (ofOutput raw).errors ++ (ofOutput raw).warnings, d.file ≠ "") :
    ofOutput ((ofOutput raw).printed verbose) = ofOutput raw ∧
      ofOutput ((ofOutput raw).printed verbose ++ "\n") = ofOutput raw := by
  have hmem : ∀ d ∈ (ofOutput raw).errors ++ (ofOutput raw).warnings,
      d ∈ Diagnostic.findingsIn raw.toList := by
    intro d hd
    rw [← Diagnostic.ofOutput_eq]
    exact (List.mem_append.mp hd).elim List.mem_of_mem_filter List.mem_of_mem_filter
  have hprinted : ofOutput ((ofOutput raw).printed verbose) = ofOutput raw := by
    refine ofOutput_of_findingsIn (Diagnostic.findingsIn_intercalate fun d hd => ?_) ?_ ?_
    · obtain ⟨line, hline, hfound⟩ := Diagnostic.exists_line_of_mem_findingsIn (hmem d hd)
      exact Diagnostic.ofLine?_printed hline hfound (hfile d hd) verbose
    · exact fun d hd => of_decide_eq_true (List.mem_filter.mp hd).2
    · exact fun d hd => of_decide_eq_true (List.mem_filter.mp hd).2
  have hend : ofOutput ((ofOutput raw).printed verbose ++ "\n" ++ "") = ofOutput raw := by
    rw [ofOutput_newline, hprinted]
    simp [append, ofOutput, Diagnostic.ofOutput_eq]
  exact ⟨hprinted, by rwa [String.append_empty] at hend⟩

/-- A line about a file that has a position in its name. -/
def positionInName : String :=
  "C:\\work (copy)\\a(1,2).ts (3,1): error  TS1005:  ';' expected. \r\n"

theorem ofOutput_printed_positionInName :
    (∀ d ∈ (ofOutput positionInName).errors ++ (ofOutput positionInName).warnings, d.file ≠ "") ∧
      ofOutput positionInName
        = ⟨[⟨"C:\\work (copy)\\a(1,2).ts", 3, 1, .error, "TS1005", "';' expected."⟩], []⟩ ∧
      ofOutput ((ofOutput positionInName).printed false) = ofOutput positionInName := by
  have hfile : ∀ d ∈ (ofOutput positionInName).errors ++ (ofOutput positionInName).warnings,
      d.file ≠ "" := by decide +kernel
  exact ⟨hfile, by decide +kernel, (ofOutput_printed false positionInName hfile).1⟩

end Findings

end ScopedCheck
