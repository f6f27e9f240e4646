import ScopedCheck.Proofs.Import.Shape
/-! # Printed statements

Statements and comments as they are printed, one on each line. What a statement says in front of its
string is made of words with a blank behind each of them. -/

namespace ScopedCheck.Import

open Text

/-! ## Names and texts -/

/-- Whether a character may be part of a name: beyond ASCII every one that is no blank. -/
def isNamePart (c : Char) : Bool :=
  if c.toNat < 0x80 then c.isAlphanum || c == '_' || c == '$' else !isBlank c

/-- A name. -/
structure Identifier where
  chars : List Char
  named : chars ≠ []
  parts : ∀ c ∈ chars, isNamePart c = true

/-- What a statement imports from. -/
structure Specifier where
  text : String
  named : text.toList ≠ []
  plain : ∀ c ∈ text.toList, isBlank c = false ∧ isQuote c = false ∧ c ≠ '\\'

/-- Whether a text holds a word with nothing of a word on either side. -/
def HasWord (word : String) (cs : List Char) : Prop :=
  ∃ front behind, cs = front ++ (word.toList ++ behind) ∧
    (lastChar none front).any isWordChar = false ∧ behind.head?.any isWordChar = false

/-- What a string holds that is no specifier. -/
structure Content where
  chars : List Char
  plain : ∀ c ∈ chars, isQuote c = false ∧ c ≠ '\\' ∧ c ≠ '\n'
  wordless : ¬HasWord "export" chars

/-- What a line comment says. -/
structure LineRemark where
  chars : List Char
  online : '\n' ∉ chars

/-- What a block comment says. -/
structure BlockRemark where
  chars : List Char
  closed : ¬['*', '/'] <:+: chars

/-! ## Statements -/

/-- One of several names, with the name that stands for it in the other module. -/
structure Member where
  name : Identifier
  alias? : Option Identifier

/-- What an import of names binds: the default of a module, some of its names, or all of it. -/
inductive Clause
  | one (name : Identifier)
  | named (members : List Member)
  | whole (name : Identifier)

/-- What is said of another module in front of its specifier. -/
inductive Phrase
  /-- An import of names. -/
  | importNames (clause : Clause)
  /-- An import of types. -/
  | importTypes (members : List Member)
  /-- An import of effects. -/
  | importEffects
  /-- An export of everything. -/
  | exportAll
  /-- An export of some names. -/
  | exportNames (members : List Member)
  /-- An export of some types. -/
  | exportTypes (members : List Member)
  /-- A constant for what a call of `import` gives. -/
  | importCall (name : Identifier)
  /-- A constant for what a call of `require` gives. -/
  | requireCall (name : Identifier)
  /-- An import of what a call of `require` gives. -/
  | importRequire (name : Identifier)

/-- What may stand on a line. -/
inductive Statement
  /-- A statement about another module. -/
  | about (phrase : Phrase) (source : Specifier)
  /-- A constant for a text. -/
  | text (name : Identifier) (content : Content)
  | lineComment (remark : LineRemark)
  | blockComment (remark : BlockRemark)

/-! ## How they are printed -/

/-- Words with a blank behind each of them. -/
def spaced (words : List (List Char)) : List Char := words.flatMap (· ++ [' '])

/-- The words of a member, with a mark at the end of the last one. -/
def Member.words (m : Member) (mark : List Char) : List (List Char) :=
  match m.alias? with
  | none => [m.name.chars ++ mark]
  | some other => [m.name.chars, "as".toList, other.chars ++ mark]

/-- The words of several members with commas between them. -/
def memberWords : List Member → List (List Char)
  | [] => []
  | [m] => m.words []
  | m :: rest => m.words [','] ++ memberWords rest

/-- Members in braces. -/
def bracedWords (members : List Member) : List (List Char) :=
  ['{'] :: (memberWords members ++ [['}']])

/-- The words of a clause. -/
def Clause.words : Clause → List (List Char)
  | one name => [name.chars]
  | named members => bracedWords members
  | whole name => [['*'], "as".toList, name.chars]

/-- The words of a constant. -/
def constantWords (name : Identifier) : List (List Char) := ["const".toList, name.chars, ['=']]

namespace Phrase

/-- The words in front of a specifier. -/
def words : Phrase → List (List Char)
  | importNames clause => "import".toList :: (clause.words ++ ["from".toList])
  | importTypes members => "import".toList :: "type".toList :: (bracedWords members ++ ["from".toList])
  | importEffects => ["import".toList]
  | exportAll => ["export".toList, ['*'], "from".toList]
  | exportNames members => "export".toList :: (bracedWords members ++ ["from".toList])
  | exportTypes members => "export".toList :: "type".toList :: (bracedWords members ++ ["from".toList])
  | importCall name => constantWords name
  | requireCall name => constantWords name
  | importRequire name => ["import".toList, name.chars, ['=']]

/-- What is called with a specifier. -/
def opener : Phrase → List Char
  | importCall _ => "import(".toList
  | requireCall _ => "require(".toList
  | importRequire _ => "require(".toList
  | _ => []

/-- What ends a call. -/
def closer : Phrase → List Char
  | importCall _ => [')']
  | requireCall _ => [')']
  | importRequire _ => [')']
  | _ => []

/-- The text in front of a specifier. -/
def front (phrase : Phrase) : List Char := spaced phrase.words ++ phrase.opener

/-- The text behind a specifier. -/
def behind (phrase : Phrase) : List Char := phrase.closer ++ [';']

/-- The shape in which something is imported. -/
def shape : Phrase → Shape
  | importNames _ => .static
  | importTypes _ => .static
  | importEffects => .sideEffect
  | exportAll => .reExport
  | exportNames _ => .reExport
  | exportTypes _ => .reExport
  | importCall _ => .dynamic
  | requireCall _ => .require
  | importRequire _ => .require

/-- Whether types alone are imported or exported. -/
def isTyped : Phrase → Bool
  | importTypes _ => true
  | exportTypes _ => true
  | _ => false

end Phrase

/-- A line of code with a string in it. -/
def codeLine (front : List Char) (quote : Char) (body behind : List Char) : List Char :=
  front ++ quote :: (body ++ quote :: behind)

/-- A line as it is printed. -/
def Statement.chars : Statement → List Char
  | about phrase source => codeLine phrase.front '\'' source.text.toList phrase.behind
  | text name content => codeLine (spaced (constantWords name)) '"' content.chars [';']
  | lineComment remark => '/' :: '/' :: remark.chars
  | blockComment remark => '/' :: '*' :: (remark.chars ++ ['*', '/'])

/-- Statements as they are printed. -/
def printed (statements : List Statement) : List Char := statements.flatMap (·.chars ++ ['\n'])

/-! ## What they import -/

/-- The import of a shape that a statement stands for. -/
def Statement.importIn? (s : Shape) : Statement → Option Import
  | about phrase source =>
      if phrase.shape = s then
        some ⟨if phrase.isTyped then .typeOnly else s.kind, source.text⟩
      else none
  | _ => none

/-- The imports that statements stand for, one shape after the other. -/
def importsOf (statements : List Statement) : List Import :=
  Shape.inOrder.flatMap fun s => statements.filterMap (·.importIn? s)

/-! ## Which characters they hold -/

/-- The names in members. -/
def namesOf (members : List Member) : List Identifier :=
  members.flatMap fun m => m.name :: m.alias?.toList

/-- The names that a clause binds or takes. -/
def Clause.names : Clause → List Identifier
  | one name => [name]
  | named members => namesOf members
  | whole name => [name]

section Characters

variable {p : Char → Prop}

theorem forall_mem_spaced {words : List (List Char)} (h : ∀ word ∈ words, ∀ c ∈ word, p c)
    (hblank : p ' ') : ∀ c ∈ spaced words, p c := by
  intro c hc
  obtain ⟨word, hword, hc⟩ := List.mem_flatMap.mp hc
  rcases List.mem_append.mp hc with hc | hc
  · exact h word hword c hc
  · exact List.mem_singleton.mp hc ▸ hblank

theorem forall_mem_words_of_member {m : Member} (hname : ∀ c ∈ m.name.chars, p c)
    (halias : ∀ other ∈ m.alias?.toList, ∀ c ∈ other.chars, p c) (has : ∀ c ∈ "as".toList, p c)
    {mark : List Char} (hmark : ∀ c ∈ mark, p c) : ∀ word ∈ m.words mark, ∀ c ∈ word, p c := by
  obtain ⟨name, alias?⟩ := m
  cases alias? with
  | none => simpa [Member.words, or_imp, forall_and] using ⟨hname, hmark⟩
  | some other =>
    have hother := halias other (by simp)
    simp only [Member.words, List.forall_mem_cons, List.forall_mem_append]
    exact ⟨hname, has, ⟨hother, hmark⟩, by simp⟩

theorem forall_mem_memberWords {members : List Member}
    (hnames : ∀ name ∈ namesOf members, ∀ c ∈ name.chars, p c) (has : ∀ c ∈ "as".toList, p c)
    (hcomma : p ',') : ∀ word ∈ memberWords members, ∀ c ∈ word, p c := by
  induction members with
  | nil => simp [memberWords]
  | cons m rest ih =>
    have hname : ∀ c ∈ m.name.chars, p c := hnames m.name (by simp [namesOf])
    have halias : ∀ other ∈ m.alias?.toList, ∀ c ∈ other.chars, p c :=
      fun other hother => hnames other (by simp [namesOf, hother])
    cases rest with
    | nil => exact forall_mem_words_of_member hname halias has (by simp)
    | cons next rest =>
      refine List.forall_mem_append.mpr ⟨?_, ih fun name hin => hnames name ?_⟩
      · exact forall_mem_words_of_member hname halias has (List.forall_mem_singleton.mpr hcomma)
      · exact List.mem_append_right (m.name :: m.alias?.toList) hin

theorem forall_mem_bracedWords {members : List Member}
    (hnames : ∀ name ∈ namesOf members, ∀ c ∈ name.chars, p c) (has : ∀ c ∈ "as".toList, p c)
    (hmarks : p ',' ∧ p '{' ∧ p '}') : ∀ word ∈ bracedWords members, ∀ c ∈ word, p c := by
  simp only [bracedWords, List.forall_mem_cons, List.forall_mem_append]
  exact ⟨⟨hmarks.2.1, by simp⟩, forall_mem_memberWords hnames has hmarks.1, ⟨hmarks.2.2, by simp⟩, by simp⟩

theorem forall_mem_words_of_clause {clause : Clause}
    (hnames : ∀ name ∈ clause.names, ∀ c ∈ name.chars, p c) (has : ∀ c ∈ "as".toList, p c)
    (hmarks : p ',' ∧ p '{' ∧ p '}') (hstar : p '*') : ∀ word ∈ clause.words, ∀ c ∈ word, p c := by
  cases clause with
  | one name => simpa [Clause.words, Clause.names] using hnames
  | named members => exact forall_mem_bracedWords hnames has hmarks
  | whole name =>
    simp only [Clause.words, List.forall_mem_cons]
    exact ⟨⟨hstar, by simp⟩, has, hnames name (by simp [Clause.names]), by simp⟩

end Characters

/-- Whether a character may be part of a word in a statement. -/
def isWordPart (c : Char) : Bool := isNamePart c || [',', '{', '}', '*', '=', '('].contains c

theorem isBlank_of_isNamePart {c : Char} (h : isNamePart c = true) : isBlank c = false := by
  have hascii : ∀ n < 0x80, isNamePart (Char.ofNat n) = true → isBlank (Char.ofNat n) = false := by
    decide +kernel
  by_cases hlow : c.toNat < 0x80
  · rw [← Char.ofNat_toNat c] at h ⊢
    exact hascii c.toNat hlow h
  · simpa [isNamePart, hlow] using h

theorem isBlank_of_isWordPart {c : Char} (h : isWordPart c = true) : isBlank c = false := by
  rcases Bool.or_eq_true_iff.mp h with h | h
  · exact isBlank_of_isNamePart h
  · have hmarks : ∀ d ∈ [',', '{', '}', '*', '=', '('], isBlank d = false := by decide
    exact hmarks c (List.contains_iff_mem.mp h)

theorem isPlain_of_isWordPart {c : Char} (h : isWordPart c = true) :
    isPlain c = true ∧ isQuote c = false := by
  have hmarks : ∀ d ∈ ['"', '\'', '`', '/'], isWordPart d = false := by decide
  have hne : ∀ d ∈ ['"', '\'', '`', '/'], c ≠ d := by
    rintro d hd rfl
    exact absurd ((hmarks c hd).symm.trans h) Bool.false_ne_true
  simp only [List.forall_mem_cons] at hne
  simp [isPlain, isQuote, hne]

theorem isWordPart_of_mem {name : Identifier} : ∀ c ∈ name.chars, isWordPart c = true := by
  intro c hc
  rw [isWordPart, name.parts c hc, Bool.true_or]

theorem isWordPart_of_mem_constantWords (name : Identifier) :
    ∀ word ∈ constantWords name, ∀ c ∈ word, isWordPart c = true := by
  simp only [constantWords, List.forall_mem_cons]
  exact ⟨by decide, isWordPart_of_mem, by decide, by simp⟩

theorem isWordPart_of_mem_words (phrase : Phrase) :
    ∀ word ∈ phrase.words, ∀ c ∈ word, isWordPart c = true := by
  have hfixed : ∀ fixed ∈ ["import", "export", "from", "type"], ∀ c ∈ fixed.toList,
      isWordPart c = true := by decide +kernel
  simp only [List.forall_mem_cons] at hfixed
  obtain ⟨himport, hexport, hfrom, htype, -⟩ := hfixed
  have hnil : ∀ c ∈ ([] : List Char), isWordPart c = true := by simp
  have hnone : ∀ word ∈ ([] : List (List Char)), ∀ c ∈ word, isWordPart c = true := by simp
  have hbraced : ∀ members, ∀ word ∈ bracedWords members, ∀ c ∈ word, isWordPart c = true :=
    fun members => forall_mem_bracedWords (fun _ _ => isWordPart_of_mem) (by decide) (by decide)
  have hclause : ∀ clause : Clause, ∀ word ∈ clause.words, ∀ c ∈ word, isWordPart c = true :=
    fun clause => forall_mem_words_of_clause (fun _ _ => isWordPart_of_mem) (by decide) (by decide)
      (by decide)
  cases phrase <;> simp only [Phrase.words, List.forall_mem_cons, List.forall_mem_append]
  case importNames clause => exact ⟨himport, hclause clause, hfrom, hnone⟩
  case importTypes members => exact ⟨himport, htype, hbraced members, hfrom, hnone⟩
  case importEffects => exact ⟨himport, hnone⟩
  case exportAll => exact ⟨hexport, ⟨by decide, hnil⟩, hfrom, hnone⟩
  case exportNames members => exact ⟨hexport, hbraced members, hfrom, hnone⟩
  case exportTypes members => exact ⟨hexport, htype, hbraced members, hfrom, hnone⟩
  case importCall name => exact isWordPart_of_mem_constantWords name
  case requireCall name => exact isWordPart_of_mem_constantWords name
  case importRequire name => exact ⟨himport, isWordPart_of_mem, ⟨by decide, hnil⟩, hnone⟩

/-- A character of words with blanks between them starts nothing that is no code. -/
theorem isPlain_of_mem_spaced {words : List (List Char)}
    (h : ∀ word ∈ words, ∀ c ∈ word, isWordPart c = true) :
    ∀ c ∈ spaced words, isPlain c = true ∧ isQuote c = false :=
  forall_mem_spaced (fun word hword c hc => isPlain_of_isWordPart (h word hword c hc)) (by decide)

theorem isPlain_of_mem_front (phrase : Phrase) :
    ∀ c ∈ phrase.front, isPlain c = true ∧ isQuote c = false := by
  have hopener : ∀ c ∈ phrase.opener, isPlain c = true ∧ isQuote c = false := by
    have hcalls : ∀ call ∈ ["import(", "require(", ""], ∀ c ∈ call.toList,
        isPlain c = true ∧ isQuote c = false := by decide +kernel
    simp only [List.forall_mem_cons] at hcalls
    cases phrase with
    | importCall name => exact hcalls.1
    | requireCall name => exact hcalls.2.1
    | importRequire name => exact hcalls.2.1
    | _ => exact hcalls.2.2.1
  exact List.forall_mem_append.mpr ⟨isPlain_of_mem_spaced (isWordPart_of_mem_words phrase), hopener⟩

theorem isPlain_of_mem_behind (phrase : Phrase) :
    ∀ c ∈ phrase.behind, isPlain c = true ∧ isQuote c = false ∧ c ≠ '\n' := by
  have hcloser : phrase.closer = [] ∨ phrase.closer = [')'] := by
    cases phrase <;> simp [Phrase.closer]
  rcases hcloser with h | h <;> rw [Phrase.behind, h] <;> decide

/-! ## How they are masked -/

/-- The pieces of a line of code. -/
def linePieces (front : List Char) (quote : Char) (body behind : List Char) : List Piece :=
  codeOf front ++ .literal (quote :: (body ++ [quote])) :: codeOf (behind ++ ['\n'])

/-- The pieces of a line with its newline. -/
def Statement.pieces : Statement → List Piece
  | about phrase source => linePieces phrase.front '\'' source.text.toList phrase.behind
  | text name content => linePieces (spaced (constantWords name)) '"' content.chars [';']
  | lineComment _ => codeOf ['\n']
  | blockComment remark => codeOf (remark.chars.filter (· == '\n') ++ [' ', '\n'])

theorem exists_maskFrom_codeLine {front body behind : List Char} {quote : Char}
    (hfront : ∀ c ∈ front, isPlain c = true) (hquote : isQuote quote = true)
    (hbody : ∀ c ∈ body, isQuote c = false ∧ c ≠ '\\' ∧ c ≠ '\n')
    (hbehind : ∀ c ∈ behind, isPlain c = true) (b : Behind) (rest : List Char) :
    ∃ b', maskFrom b (codeLine front quote body behind ++ '\n' :: rest)
      = linePieces front quote body behind ++ maskFrom b' rest := by
  have hsplit : codeLine front quote body behind ++ '\n' :: rest
      = front ++ quote :: (body ++ quote :: ((behind ++ ['\n']) ++ rest)) := by
    simp [codeLine]
  have hline : ∀ c ∈ behind ++ ['\n'], isPlain c = true :=
    List.forall_mem_append.mpr ⟨hbehind, by decide⟩
  obtain ⟨b₁, hfront⟩ := exists_maskFrom_append hfront b
    (quote :: (body ++ quote :: ((behind ++ ['\n']) ++ rest)))
  obtain ⟨b₂, hbehind⟩ := exists_maskFrom_append hline (b₁.afterLiteral quote) rest
  refine ⟨b₂, ?_⟩
  rw [hsplit, hfront, maskFrom_literal hquote hbody, hbehind, linePieces, List.append_assoc,
    List.cons_append]

theorem Statement.exists_maskFrom (s : Statement) (b : Behind) (rest : List Char) :
    ∃ b', maskFrom b (s.chars ++ '\n' :: rest) = s.pieces ++ maskFrom b' rest := by
  cases s with
  | about phrase source =>
    have hbody : ∀ c ∈ source.text.toList, isQuote c = false ∧ c ≠ '\\' ∧ c ≠ '\n' := by
      intro c hc
      obtain ⟨hblank, hquote, hback⟩ := source.plain c hc
      refine ⟨hquote, hback, ?_⟩
      rintro rfl
      exact absurd hblank (by decide)
    exact exists_maskFrom_codeLine (fun c hc => (isPlain_of_mem_front phrase c hc).1) (by decide) hbody
      (fun c hc => (isPlain_of_mem_behind phrase c hc).1) b rest
  | text name content =>
    exact exists_maskFrom_codeLine
      (fun c hc => (isPlain_of_mem_spaced (isWordPart_of_mem_constantWords name) c hc).1) (by decide)
      content.plain (by decide) b rest
  | lineComment remark =>
    refine ⟨b.afterChar '\n', ?_⟩
    rw [chars, List.cons_append, List.cons_append, maskFrom_lineComment remark.online,
      maskFrom_cons_of_isPlain (by decide)]
    rfl
  | blockComment remark =>
    obtain ⟨b', hb'⟩ := maskFrom_blockComment remark.closed b ('\n' :: rest)
    refine ⟨b'.afterChar '\n', ?_⟩
    have hsplit : (blockComment remark).chars ++ '\n' :: rest
        = '/' :: '*' :: (remark.chars ++ '*' :: '/' :: ('\n' :: rest)) := by
      simp [chars]
    rw [hsplit, hb', maskFrom_cons_of_isPlain (by decide), pieces, codeOf_append, codeOf_append]
    simp [codeOf]

/-- Printed statements are masked line by line. -/
theorem maskFrom_printed (statements : List Statement) (b : Behind) :
    maskFrom b (printed statements) = statements.flatMap Statement.pieces := by
  induction statements generalizing b with
  | nil => rw [printed, List.flatMap_nil, maskFrom, List.flatMap_nil]
  | cons s rest ih =>
    obtain ⟨b', hb'⟩ := s.exists_maskFrom b (printed rest)
    have hsplit : printed (s :: rest) = s.chars ++ '\n' :: printed rest := by
      simp [printed]
    rw [hsplit, hb', ih, List.flatMap_cons]

end ScopedCheck.Import
