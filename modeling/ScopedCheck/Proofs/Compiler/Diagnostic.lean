import Mathlib.Data.List.TakeWhile
import ScopedCheck.Compiler.Diagnostic
import ScopedCheck.Proofs.Text.Pattern
import ScopedCheck.Proofs.Text.Trim
/-! # Lines with a finding

A line with a finding is cut into the file and what stands behind it. The cut is the first one that is
possible, and the finding is read off the pieces (`ofLine?_of_isCut`). -/

namespace ScopedCheck

open Text Text.Pattern

namespace Diagnostic

/-! ## What stands behind the file -/

/-- What stands behind the file in a line with a finding, piece by piece. -/
structure Tail where
  line : List Char
  column : List Char
  beforeSeverity : List Char
  severity : Severity
  beforeCode : List Char
  code : List Char
  beforeMessage : List Char
  message : List Char
  line_digits : line ≠ [] ∧ ∀ c ∈ line, isDecimalDigit c = true
  column_digits : column ≠ [] ∧ ∀ c ∈ column, isDecimalDigit c = true
  beforeSeverity_blank : beforeSeverity ≠ [] ∧ ∀ c ∈ beforeSeverity, isBlank c = true
  beforeCode_blank : beforeCode ≠ [] ∧ ∀ c ∈ beforeCode, isBlank c = true
  code_chars : code ≠ [] ∧ ∀ c ∈ code, isCodeChar c = true
  beforeMessage_blank : ∀ c ∈ beforeMessage, isBlank c = true
  message_line : ∀ c ∈ message, (c != '\n') = true
  message_head : message.head?.any isBlank = false

namespace Tail

/-- What stands between the parenthesis and the colon behind the code. -/
def inner (t : Tail) : List Char :=
  t.line ++ ',' :: (t.column ++ ')' :: ':' :: (t.beforeSeverity
    ++ (t.severity.word.toList ++ (t.beforeCode ++ t.code))))

/-- The text. -/
def chars (t : Tail) : List Char := '(' :: (t.inner ++ ':' :: (t.beforeMessage ++ t.message))

/-- What a match remembers, the latest first. -/
def groups (t : Tail) : List (Nat × List Char) :=
  [(6, t.message), (5, t.code), (4, t.severity.word.toList), (3, t.column), (2, t.line)]

theorem paren_notMem_inner (t : Tail) : '(' ∉ t.inner := by
  have hword : ∀ severity : Severity, '(' ∉ severity.word.toList := by
    intro severity
    cases severity <;> decide
  simp only [inner, List.mem_append, List.mem_cons, not_or]
  refine ⟨fun h => ?_, by decide, fun h => ?_, by decide, by decide, fun h => ?_, hword _, fun h => ?_,
    fun h => ?_⟩
  · exact absurd (t.line_digits.2 _ h) (by decide)
  · exact absurd (t.column_digits.2 _ h) (by decide)
  · exact absurd (t.beforeSeverity_blank.2 _ h) (by decide)
  · exact absurd (t.beforeCode_blank.2 _ h) (by decide)
  · exact absurd (t.code_chars.2 _ h) (by decide)

theorem ne_newline_of_mem_trimStart {cs : List Char} (h : '\n' ∉ cs) :
    ∀ c ∈ trimStart cs, (c != '\n') = true := fun _ hc =>
  bne_iff_ne.mpr fun hnewline => h ((List.dropWhile_sublist _).subset (hnewline ▸ hc))

/-- The same with another text behind the colon. -/
def withEnd (t : Tail) (cs : List Char) (h : '\n' ∉ cs) : Tail :=
  { t with
    beforeMessage := cs.takeWhile isBlank
    message := trimStart cs
    beforeMessage_blank := fun _ hc => List.mem_takeWhile_imp hc
    message_line := ne_newline_of_mem_trimStart h
    message_head := any_head?_trimStart cs }

theorem chars_withEnd (t : Tail) {cs : List Char} (h : '\n' ∉ cs) :
    (t.withEnd cs h).chars = '(' :: (t.inner ++ ':' :: cs) := by
  change '(' :: (t.inner ++ ':' :: (cs.takeWhile isBlank ++ cs.dropWhile isBlank)) = _
  rw [List.takeWhile_append_dropWhile]

/-- A text that is cut in front of a later parenthesis holds everything up to the colon: anything may
stand behind the cut. -/
theorem exists_of_cut {t : Tail} {front rest : List Char} (h : t.chars = front ++ '(' :: rest)
    (hne : front ≠ []) {behind : List Char} (hnewline : '\n' ∉ front ++ behind) :
    ∃ t' : Tail, t'.chars = front ++ behind := by
  obtain ⟨c, front, rfl⟩ := List.exists_cons_of_ne_nil hne
  obtain ⟨rfl, hinner⟩ := List.cons.inj h
  rcases List.append_eq_append_iff.mp hinner with ⟨more, rfl, hmore⟩ | ⟨more, hmem, hmore⟩
  · cases more with
    | nil => exact absurd (List.cons.inj hmore).1 (by decide)
    | cons d more =>
      -- the colon stands in front of the cut
      obtain ⟨rfl, -⟩ := List.cons.inj hmore
      have hend : '\n' ∉ more ++ behind := fun hmem => hnewline (by simp_all)
      exact ⟨t.withEnd (more ++ behind) hend, by simp [chars_withEnd]⟩
  · cases more with
    | nil => exact absurd (List.cons.inj hmore).1 (by decide)
    | cons d more =>
      obtain ⟨rfl, -⟩ := List.cons.inj hmore
      exact absurd (hmem ▸ by simp) t.paren_notMem_inner

end Tail

/-! ## Matches -/

section Matches

variable {α : Type} {goOn : Place → Groups → Option α} {before : Option Char} {offset : Nat}
  {known : Groups}

/-- What the pattern asks for behind the file. -/
def tailPattern : List Pattern :=
  [text "(", capture 2 (some .more isDecimalDigit), text ",", capture 3 (some .more isDecimalDigit),
    text "):", blank, capture 4 (either (text "error") (text "warning")), blank,
    capture 5 (some .more isCodeChar), text ":", blanks, capture 6 (many .more (· != '\n')), atEnd]

theorem linePattern_eq :
    linePattern = all (atStart :: capture 1 (some .fewer (· != '\n')) :: tailPattern) := rfl

theorem first?_severity (severity : Severity) (cs : List Char) :
    (either (text "error") (text "warning")).first? goOn ⟨before, offset, severity.word.toList ++ cs⟩ known
      = goOn ⟨lastChar before severity.word.toList, offset + severity.word.toList.length, cs⟩ known := by
  rw [first?_either]
  cases severity with
  | error =>
    have hother : (text "warning").first? goOn ⟨before, offset, "error".toList ++ cs⟩ known = none :=
      first?_text_eq_none fun h => by simp at h
    rw [Severity.word, first?_text, hother, Option.or_none]
  | warning =>
    have hother : (text "error").first? goOn ⟨before, offset, "warning".toList ++ cs⟩ known = none :=
      first?_text_eq_none fun h => by simp at h
    rw [Severity.word, first?_text, hother, Option.none_or]

theorem refuses_severity (group : Nat) (parts : List Pattern) :
    Refuses ((all (capture group (either (text "error") (text "warning")) :: parts)).first? goOn)
      isBlank := by
  intro here groups hnext
  rw [first?_all_cons, first?_capture, first?_either,
    refuses_text (by decide) here groups hnext, refuses_text (by decide) here groups hnext, Option.none_or]

theorem isBlank_of_isCodeChar {c : Char} (h : isCodeChar c = true) : isBlank c = false := by
  have hkind : ((decide ('A'.val ≤ c.val ∧ c.val ≤ 'Z'.val) ||
      (decide ('a'.val ≤ c.val) && decide (c.val ≤ 'z'.val))) || c.isDigit) = true := h
  have hrange : 48 ≤ c.toNat ∧ c.toNat ≤ 122 := by
    simp only [Bool.or_eq_true, Bool.and_eq_true, decide_eq_true_eq, UInt32.le_iff_toNat_le,
      Char.isDigit_iff_toNat] at hkind
    simp at hkind
    omega
  simp only [isBlank, Bool.or_eq_false_iff, Bool.and_eq_false_iff, decide_eq_false_iff_not,
    beq_eq_false_iff_ne]
  omega

theorem isCodeChar_of_isBlank {c : Char} (h : isBlank c = true) : isCodeChar c = false := by
  cases hc : isCodeChar c with
  | false => rfl
  | true => exact absurd ((isBlank_of_isCodeChar hc).symm.trans h) Bool.false_ne_true

theorem refuses_code (group : Nat) (parts : List Pattern) :
    Refuses ((all (capture group (some .more isCodeChar) :: parts)).first? goOn) isBlank := by
  intro here groups hnext
  rw [first?_all_cons, first?_capture]
  exact refuses_char (fun _ => isCodeChar_of_isBlank) here groups hnext

/-- The blanks in front of a message are not part of it. -/
theorem first?_message (found : Place → Groups → α) {blank message : List Char}
    (hblank : ∀ c ∈ blank, isBlank c = true) (hmessage : ∀ c ∈ message, (c != '\n') = true)
    (hhead : message.head?.any isBlank = false) :
    (all [blanks, capture 6 (many .more (· != '\n')), atEnd]).first?
        (fun stop known => Option.some (found stop known)) ⟨before, offset, blank ++ message⟩ known
      = .some (found ⟨lastChar before (blank ++ message), offset + blank.length + message.length, []⟩
          ((6, ⟨lastChar before blank, offset + blank.length, message⟩,
            ⟨lastChar before (blank ++ message), offset + blank.length + message.length, []⟩) :: known)) := by
  have hall : (all [capture 6 (many .more (· != '\n')), atEnd]).first?
      (fun stop known => Option.some (found stop known)) ⟨lastChar before blank, offset + blank.length, message⟩
      known = .some (found ⟨lastChar before (blank ++ message), offset + blank.length + message.length, []⟩
        ((6, ⟨lastChar before blank, offset + blank.length, message⟩,
          ⟨lastChar before (blank ++ message), offset + blank.length + message.length, []⟩) :: known)) := by
    rw [first?_all_cons, first?_capture, lastChar_append]
    exact first?_more_of_forall hmessage rfl
  exact first?_more_of_some hblank hhead hall

/-- What follows the file is taken piece by piece. -/
theorem first?_tail (found : Place → Groups → α) (t : Tail) :
    ∃ stop known', remembered known' = t.groups ++ remembered known ∧
      (all tailPattern).first? (fun stop known => Option.some (found stop known))
        ⟨before, offset, t.chars⟩ known = .some (found stop known') := by
  have hchars : t.chars = "(".toList ++ (t.line ++ (",".toList ++ (t.column ++ ("):".toList
      ++ (t.beforeSeverity ++ (t.severity.word.toList ++ (t.beforeCode ++ (t.code ++ (":".toList
      ++ (t.beforeMessage ++ t.message)))))))))) := by simp [Tail.chars, Tail.inner]
  have hword : ∀ rest, (t.severity.word.toList ++ rest).head?.any isBlank = false :=
    any_head?_text (by cases t.severity <;> decide)
  have hcode : ∀ rest, (t.code ++ rest).head?.any isBlank = false := by
    intro rest
    obtain ⟨c, cs, hcs⟩ := List.exists_cons_of_ne_nil t.code_chars.1
    simpa [hcs] using isBlank_of_isCodeChar (t.code_chars.2 c (by simp [hcs]))
  refine ⟨?stop, ?known, ?remembered, ?found⟩
  case found =>
    rw [hchars, tailPattern, first?_all_cons, first?_text, first?_all_cons, first?_capture,
      first?_some (.capture (.all (refuses_text (by decide))) 2 _) t.line_digits.1 t.line_digits.2
        (any_head?_text (by decide) _),
      first?_all_cons, first?_text, first?_all_cons, first?_capture,
      first?_some (.capture (.all (refuses_text (by decide))) 3 _) t.column_digits.1 t.column_digits.2
        (any_head?_text (by decide) _),
      first?_all_cons, first?_text, first?_all_cons, blank,
      first?_some (refuses_severity 4 _) t.beforeSeverity_blank.1 t.beforeSeverity_blank.2 (hword _),
      first?_all_cons, first?_capture, first?_severity, first?_all_cons,
      first?_some (refuses_code 5 _) t.beforeCode_blank.1 t.beforeCode_blank.2 (hcode _),
      first?_all_cons, first?_capture,
      first?_some (.capture (.all (refuses_text (by decide))) 5 _) t.code_chars.1 t.code_chars.2
        (any_head?_text (by decide) _),
      first?_all_cons, first?_text,
      first?_message found t.beforeMessage_blank t.message_line t.message_head]
  case remembered =>
    have hmessage : ∀ (before before' : Option Char) (offset : Nat) (cs : List Char),
        Place.textUpTo ⟨before, offset, cs⟩ ⟨before', offset + cs.length, []⟩ = cs := by
      intro before before' offset cs
      simp [Place.textUpTo]
    simp only [remembered, List.map_cons, Place.textUpTo_append, hmessage, Tail.groups, List.cons_append,
      List.nil_append]

/-- A text that the pattern behind the file leads through is such a text. -/
theorem exists_tail {cs : List Char} (h : (all tailPattern).first? goOn ⟨before, offset, cs⟩ known ≠ none) :
    ∃ t : Tail, t.chars = cs := by
  by_contra hnone
  refine h ?_
  have hcut : all tailPattern = all (tailPattern.dropLast ++ [atEnd]) := rfl
  rw [hcut, first?_all_append]
  refine first?_eq_none fun taken left hsplit htaken groups => ?_
  cases left with
  | cons c left =>
    rw [first?_all_cons]
    exact first?_place_eq_none rfl
  | nil =>
    refine absurd ?_ hnone
    rw [List.append_nil] at hsplit
    obtain ⟨_, _, rfl, hparen, line, _, rfl, hline, _, _, rfl, hcomma, column, _, rfl, hcolumn, _, _, rfl,
      hclose, blank, _, rfl, hblank, word, _, rfl, hword, blank', _, rfl, hblank', code, _, rfl, hcode, _, _,
      rfl, hcolon, margin, _, rfl, hmargin, message, _, rfl, hmessage, rfl⟩ := htaken
    obtain ⟨severity, rfl⟩ : ∃ severity : Severity, word = severity.word.toList := by
      rcases hword with hword | hword
      · exact ⟨.error, fits_text.mp hword⟩
      · exact ⟨.warning, fits_text.mp hword⟩
    -- blanks at the start of the message count as standing in front of it
    refine ⟨⟨line, column, blank, severity, blank', code, margin ++ message.takeWhile isBlank,
      trimStart message, fits_some.mp hline, fits_some.mp hcolumn, fits_some.mp hblank,
      fits_some.mp hblank', fits_some.mp hcode,
      List.forall_mem_append.mpr ⟨hmargin, fun _ hc => List.mem_takeWhile_imp hc⟩,
      fun c hc => hmessage c ((List.dropWhile_sublist _).subset hc), any_head?_trimStart message⟩, ?_⟩
    have hmessage : message.takeWhile isBlank ++ trimStart message = message :=
      List.takeWhile_append_dropWhile
    rw [← hsplit, fits_text.mp hparen, fits_text.mp hcomma, fits_text.mp hclose, fits_text.mp hcolon]
    simp [Tail.chars, Tail.inner, hmessage]

end Matches

/-! ## Lines -/

/-- A line that is cut into a file and what stands behind it. The file is not empty, and as short as
possible. -/
structure IsCut (line file : List Char) (t : Tail) : Prop where
  eq_append : line = file ++ t.chars
  ne_nil : file ≠ []
  file_line : ∀ c ∈ file, (c != '\n') = true
  shortest : ∀ front c left, front ≠ [] → front ++ c :: left = file →
    ∀ t' : Tail, t'.chars ≠ c :: left ++ t.chars

theorem matchAt?_cons {c : Char} (hc : (c != '\n') = true) (cs : List Char) :
    linePattern.matchAt? (Place.start (c :: cs))
      = (many .fewer (· != '\n')).first? (fun stop known => (all tailPattern).first?
          (fun stop groups => Option.some ⟨Place.start (c :: cs), stop, groups⟩) stop
          ((1, Place.start (c :: cs), stop) :: known)) ⟨.some c, 1, cs⟩ [] := by
  rw [matchAt?, linePattern_eq, first?_all_cons, Place.start, first?_atStart, first?_all_cons,
    first?_capture, first?_some_cons .fewer (· != '\n') hc]

theorem exists_isCut {line : List Char} {found : Found}
    (h : linePattern.matchAt? (Place.start line) = .some found) : ∃ file t, IsCut line file t := by
  cases line with
  | nil => cases h
  | cons c cs =>
    cases hc : c != '\n' with
    | false =>
      have hhead : (c :: cs).head?.any (· != '\n') = false := hc
      have hnone : linePattern.matchAt? (Place.start (c :: cs)) = none := first?_some_eq_none hhead
      rw [hnone] at h
      cases h
    | true =>
      rw [matchAt?_cons hc] at h
      obtain ⟨taken, rest, rfl, htaken, hfound, hearly⟩ := exists_of_first?_fewer h
      obtain ⟨t, rfl⟩ := exists_tail (hfound ▸ Option.some_ne_none found)
      refine ⟨c :: taken, t, rfl, List.cons_ne_nil c taken, List.forall_mem_cons.mpr ⟨hc, htaken⟩, ?_⟩
      intro front d left hfront hsplit t' ht'
      -- the place where the other cut would be comes first
      obtain ⟨e, front, rfl⟩ := List.exists_cons_of_ne_nil hfront
      rw [List.cons_append, List.cons.injEq] at hsplit
      obtain ⟨rfl, hsplit⟩ := hsplit
      have hnone := hearly front d left hsplit
      rw [← ht'] at hnone
      obtain ⟨stop, known, -, hsome⟩ := first?_tail _ t'
      rw [hsome] at hnone
      cases hnone

/-- A line that can be cut is matched that way. -/
theorem exists_matchAt?_of_isCut {line file : List Char} {t : Tail} (h : IsCut line file t) :
    ∃ found, linePattern.matchAt? (Place.start line) = .some found ∧
      remembered found.groups = t.groups ++ [(1, file)] := by
  obtain ⟨c, cs, rfl⟩ := List.exists_cons_of_ne_nil h.ne_nil
  obtain ⟨hc, hcs⟩ := List.forall_mem_cons.mp h.file_line
  obtain rfl := h.eq_append
  have hfile : Place.textUpTo (Place.start (c :: (cs ++ t.chars)))
      ⟨lastChar (.some c) cs, 1 + cs.length, t.chars⟩ = c :: cs := by
    simp [Place.textUpTo, Place.start, Nat.add_comm 1]
  rw [List.cons_append, matchAt?_cons hc]
  obtain ⟨stop, known, hknown, hfound⟩ := first?_tail
    (fun stop groups => (⟨Place.start (c :: (cs ++ t.chars)), stop, groups⟩ : Found)) t
  refine ⟨_, first?_fewer hcs (fun front d left hsplit => ?_) hfound, hknown.trans ?_⟩
  · -- a cut at an earlier place would be a shorter one
    by_contra hsome
    obtain ⟨t', ht'⟩ := exists_tail hsome
    exact h.shortest (c :: front) d left (List.cons_ne_nil c front) (by rw [List.cons_append, hsplit]) t' ht'
  · exact congrArg (fun file : List Char => t.groups ++ [(1, file)]) hfile

/-! ## Findings -/

/-- The finding in a line that is cut into a file and what stands behind it, if its numbers are not too
great. -/
def Tail.finding? (t : Tail) (file : List Char) : Option Diagnostic := do
  let line ← position? (String.ofList t.line)
  let column ← position? (String.ofList t.column)
  return {
    file := String.ofList (trim file), line, column, severity := t.severity,
    code := String.ofList t.code, message := String.ofList (trimEnd t.message) }

theorem ofLine?_of_isCut {line file : List Char} {t : Tail} (h : IsCut line file t) :
    ofLine? line = t.finding? file := by
  obtain ⟨found, hfound, hgroups⟩ := exists_matchAt?_of_isCut h
  have hseverity : (if String.ofList t.severity.word.toList = "error" then Severity.error
      else Severity.warning) = t.severity := by
    cases t.severity <;> rfl
  have hgroup : ∀ number (text : List Char),
      (t.groups ++ [(1, file)]).find? (fun known : Nat × List Char => known.1 == number) = .some (number, text) →
      found.group number = String.ofList text := by
    intro number text hfind
    rw [Found.group, group?_eq, hgroups, hfind]
    rfl
  simp only [ofLine?, hfound, Option.bind_eq_bind, Option.bind_some, hgroup 1 file rfl,
    hgroup 2 t.line rfl, hgroup 3 t.column rfl, hgroup 4 t.severity.word.toList rfl, hgroup 5 t.code rfl,
    hgroup 6 t.message rfl, hseverity, trimmed, String.toList_ofList]
  rfl

theorem exists_isCut_of_ofLine? {line : List Char} {d : Diagnostic} (h : ofLine? line = .some d) :
    ∃ file t, IsCut line file t ∧ t.finding? file = .some d := by
  cases hmatch : linePattern.matchAt? (Place.start line) with
  | none =>
    rw [ofLine?, hmatch] at h
    cases h
  | some found =>
    obtain ⟨file, t, hcut⟩ := exists_isCut hmatch
    exact ⟨file, t, hcut, (ofLine?_of_isCut hcut).symm.trans h⟩

end Diagnostic

end ScopedCheck
