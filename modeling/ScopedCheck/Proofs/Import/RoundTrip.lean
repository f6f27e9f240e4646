import ScopedCheck.Proofs.Import.Silence
/-! # Printed statements are read back

Each line is found in its own shape and passed over in all the others, whatever stands on the other lines.
So a search over all lines finds the imports of the statements in their order. -/

namespace ScopedCheck.Import

open Text Text.Pattern

/-! ## One line -/

/-- Whether the searches read the names of a statement as names. -/
def Statement.IsLegible : Statement → Prop
  | about phrase _ => phrase.IsLegible
  | _ => True

theorem charsOf_linePieces (front : List Char) (quote : Char) (body behind : List Char) :
    charsOf (linePieces front quote body behind) = codeLine front quote body behind ++ ['\n'] := by
  simp [linePieces, codeLine, Piece.chars]

theorem Statement.lastChar_pieces (st : Statement) (before : Option Char) :
    lastChar before (charsOf st.pieces) = some '\n' := by
  cases st with
  | about phrase source => rw [pieces, charsOf_linePieces, lastChar_append]; rfl
  | text name content => rw [pieces, charsOf_linePieces, lastChar_append]; rfl
  | lineComment remark => rfl
  | blockComment remark => rw [pieces, charsOf_codeOf, lastChar_append]; rfl

theorem Specifier.isQuote_of_mem (source : Specifier) :
    ∀ c ∈ source.text.toList, isQuote c = false ∧ c ≠ '\n' := by
  intro c hc
  obtain ⟨hblank, hquote, -⟩ := source.plain c hc
  refine ⟨hquote, ?_⟩
  rintro rfl
  exact absurd hblank (by decide)

theorem Phrase.letters_of_mem_behind (phrase : Phrase) :
    ∀ c ∈ phrase.behind ++ ['\n'], c ∉ ['i', 'e', 'r'] := by
  have hcloser : phrase.closer = [] ∨ phrase.closer = [')'] := by
    cases phrase <;> simp [Phrase.closer]
  rcases hcloser with h | h <;> rw [Phrase.behind, h] <;> decide

/-- No match in a shape starts on a line that stands for no import in it. -/
theorem Statement.silent {st : Statement} (h : st.IsLegible) {s : Shape} (hs : st.importIn? s = none)
    (before : Option Char) (rest : List Char) : Silent s.pattern before (charsOf st.pieces) rest := by
  cases st with
  | about phrase source =>
    have hshape : phrase.shape ≠ s := by simpa [importIn?] using hs
    rw [pieces, charsOf_linePieces]
    exact silent_codeLine (by decide) (fun rest => Phrase.silent_front h hshape before rest)
      (fun c hc => (source.isQuote_of_mem c hc).1) source.isWordless
      (fun c hc => (isPlain_of_mem_behind phrase c hc).2)
      fun c hc => phrase.letters_of_mem_behind c (List.mem_append_left _ hc)
  | text name content =>
    rw [pieces, charsOf_linePieces]
    exact silent_codeLine (by decide) (fun rest => silent_constant name before rest)
      (fun c hc => (content.plain c hc).1) content.isWordless (by decide) (by decide)
  | lineComment remark => exact Shape.silent_of_notMem (show ∀ c ∈ ['\n'], c ∉ ['i', 'e', 'r'] by decide) rest
  | blockComment remark =>
    rw [pieces, charsOf_codeOf]
    refine Shape.silent_of_notMem (List.forall_mem_append.mpr ⟨fun c hc => ?_, by decide⟩) rest
    have hnewline : c = '\n' := by simpa using (List.mem_filter.mp hc).2
    subst hnewline
    decide

theorem Reads.ne_nil {s : Shape} {typed : Bool} {cs : List Char} (h : Reads s typed cs) : cs ≠ [] := by
  rintro rfl
  obtain ⟨found, hfound, -⟩ := h.exists_matchAt? (show ['.'] ≠ [] by decide) (by decide)
    (show (none : Option Char).any isWordChar = false from rfl) 0 []
  have hnone : ¬s.keyword.toList <+: [] ++ '\'' :: (['.'] ++ '\'' :: s.closes) ++ [] := by
    cases s <;> decide
  rw [Shape.matchAt?_eq_none_of_not_prefix hnone] at hfound
  cases hfound

/-- On its line a statement is found once, in its own shape. -/
theorem Phrase.IsRead.exists_findFrom {phrase : Phrase} {front own left : List Char}
    (h : phrase.IsRead front own left) (source : Specifier) {before : Option Char}
    (hbefore : before.any isWordChar = false) (offset : Nat) (rest : List Char) :
    ∃ found, phrase.shape.pattern.findFrom
        ⟨before, offset, codeLine phrase.front '\'' source.text.toList phrase.behind ++ ['\n'] ++ rest⟩
      = found :: phrase.shape.pattern.findFrom ⟨some '\n', offset
          + (codeLine phrase.front '\'' source.text.toList phrase.behind ++ ['\n']).length, rest⟩ ∧
      found.start.offset = offset + front.length ∧
      entryOf phrase.shape.kind found
        = ⟨if phrase.isTyped then .typeOnly else phrase.shape.kind, source.text⟩ := by
  obtain ⟨found, hmatch, hstop, hentry⟩ := h.reads.exists_matchAt? source.named source.isQuote_of_mem
    (h.apart before hbefore) (offset + front.length) (left ++ ['\n'] ++ rest)
  have hsilent : Silent phrase.shape.pattern before front
      (own ++ '\'' :: (source.text.toList ++ '\'' :: phrase.shape.closes) ++ (left ++ ['\n'] ++ rest)) := by
    have hfront := h.silent before
      (source.text.toList ++ '\'' :: phrase.shape.closes ++ (left ++ ['\n'] ++ rest))
    simpa only [List.append_assoc, List.cons_append] using hfront
  have hleft : ∀ c ∈ left ++ ['\n'], c ∉ ['i', 'e', 'r'] := by
    intro c hc
    refine phrase.letters_of_mem_behind c ?_
    rw [h.behind_eq, List.append_assoc]
    exact List.mem_append_right _ hc
  have hjoined : codeLine phrase.front '\'' source.text.toList phrase.behind ++ ['\n']
      = front ++ (own ++ '\'' :: (source.text.toList ++ '\'' :: phrase.shape.closes) ++ (left ++ ['\n'])) := by
    rw [h.front_eq, h.behind_eq]
    simp only [codeLine, List.append_assoc, List.cons_append]
  refine ⟨found, ?_, congrArg Place.offset (start_of_matchAt? hmatch), by rw [hentry, String.ofList_toList]⟩
  rw [hjoined, List.append_assoc, List.append_assoc, hsilent.findFrom,
    findFrom_of_matchAt? hmatch (by simp) hstop, hstop, (Shape.silent_of_notMem hleft rest).findFrom]
  simp only [lastChar_append, lastChar_cons, lastChar_nil, List.length_append]
  congr 3
  omega

/-- What is found on a line is what it stands for, and it starts in code. -/
theorem Statement.exists_findFrom {st : Statement} (h : st.IsLegible) (s : Shape) {before : Option Char}
    (hbefore : before.any isWordChar = false) (offset : Nat) (rest : List Char) :
    ∃ founds, s.pattern.findFrom ⟨before, offset, charsOf st.pieces ++ rest⟩
        = founds ++ s.pattern.findFrom ⟨some '\n', offset + (charsOf st.pieces).length, rest⟩ ∧
      founds.map (entryOf s.kind) = (st.importIn? s).toList ∧
      ∀ found ∈ founds, ∃ n, found.start.offset = offset + n ∧
        ∀ more, isCodeAt (st.pieces ++ more) n = true := by
  cases himport : st.importIn? s with
  | none =>
    refine ⟨[], ?_, rfl, by simp⟩
    rw [(silent h himport before rest).findFrom, st.lastChar_pieces, List.nil_append]
  | some entry =>
    cases st with
    | about phrase source =>
      obtain ⟨rfl, rfl⟩ : phrase.shape = s ∧
          ⟨if phrase.isTyped then .typeOnly else s.kind, source.text⟩ = entry := by
        simpa [importIn?] using himport
      obtain ⟨front, own, left, hread⟩ := Phrase.exists_isRead h
      obtain ⟨found, hfound, hstart, hentry⟩ := hread.exists_findFrom source hbefore offset rest
      refine ⟨[found], ?_, by simp [hentry], List.forall_mem_singleton.mpr ⟨front.length, hstart, ?_⟩⟩
      · rw [pieces, charsOf_linePieces, hfound, List.singleton_append]
      · intro more
        have hshorter : front.length < phrase.front.length := by
          have := List.length_pos_iff.mpr hread.reads.ne_nil
          rw [hread.front_eq, List.length_append]
          omega
        rw [pieces, linePieces, List.append_assoc]
        exact isCodeAt_codeOf hshorter _
    | _ => cases himport

/-! ## All lines -/

/-- What is found in one shape behind other pieces. -/
theorem entriesFrom_pieces {statements : List Statement} (h : ∀ st ∈ statements, st.IsLegible) (s : Shape)
    {before : Option Char} (hbefore : before.any isWordChar = false) (done : List Piece) :
    entriesFrom s.pattern s.kind (done ++ statements.flatMap Statement.pieces)
        ⟨before, (charsOf done).length, charsOf (statements.flatMap Statement.pieces)⟩
      = statements.filterMap (·.importIn? s) := by
  induction statements generalizing before done with
  | nil =>
    have hnone : ¬s.keyword.toList <+: [] := by cases s <;> decide
    rw [List.flatMap_nil, charsOf_nil, entriesFrom,
      findFrom_nil (Shape.matchAt?_eq_none_of_not_prefix hnone)]
    rfl
  | cons st rest ih =>
    obtain ⟨hst, hrest⟩ := List.forall_mem_cons.mp h
    obtain ⟨founds, hfind, hentries, hcode⟩ := st.exists_findFrom hst s hbefore (charsOf done).length
      (charsOf (rest.flatMap Statement.pieces))
    have hkept : founds.filter (fun found => isCodeAt (done ++ (st.pieces ++ rest.flatMap Statement.pieces))
        found.start.offset) = founds := by
      refine List.filter_eq_self.mpr fun found hfound => ?_
      obtain ⟨n, hn, hcode⟩ := hcode found hfound
      rw [hn, isCodeAt_append, hcode]
    have hlater := ih hrest (show (some '\n').any isWordChar = false by decide) (done ++ st.pieces)
    rw [entriesFrom, charsOf_append, List.length_append, List.append_assoc] at hlater
    rw [List.flatMap_cons, charsOf_append, entriesFrom, hfind, List.filter_append, List.map_append, hkept,
      hentries, hlater, List.filterMap_cons]
    cases st.importIn? s <;> rfl

theorem ofMasked_printed {statements : List Statement} (h : ∀ st ∈ statements, st.IsLegible) :
    ofMasked (mask (printed statements)) = importsOf statements := by
  rw [Shape.ofMasked_eq, importsOf]
  congr 1
  funext s
  rw [ofShape_mask, maskFrom_printed]
  exact entriesFrom_pieces h s rfl []

/-- Legible statements are read back from what is printed of them. -/
theorem scan_printed {statements : List Statement} (h : ∀ st ∈ statements, st.IsLegible) :
    (scan (String.ofList (printed statements))).filter (fun found => found.kind ≠ .reference)
      = importsOf statements := by
  rw [filter_scan, String.toList_ofList, ofMasked_printed h]

theorem HasWord.isInfix {word : String} {cs : List Char} (h : HasWord word cs) : word.toList <:+: cs := by
  obtain ⟨front, behind, rfl, -⟩ := h
  exact ⟨front, behind, by simp⟩

theorem Identifier.EndsInImport.isSuffix {name : Identifier} (h : name.EndsInImport) :
    "import".toList <:+ name.chars := by
  obtain ⟨front, hname, -⟩ := h
  exact ⟨front, hname.symm⟩

/-- An import of a name that is a word of the statement as well, a comment with a statement in it, a text
with a comment in it, an export of an import and a call. -/
def mixedStatements : List Statement :=
  [.about (.importNames (.one ⟨"from".toList, by decide, by decide⟩))
      ⟨"./a", by decide, by decide⟩,
    .lineComment ⟨" it's import './b';".toList, by decide⟩,
    .text ⟨"type".toList, by decide, by decide⟩
      ⟨" /* not closed // ".toList, by decide, fun h => absurd h.isInfix (by decide +kernel)⟩,
    .about (.exportNames [⟨⟨"$a".toList, by decide, by decide⟩, some ⟨"import_".toList, by decide, by decide⟩⟩])
      ⟨"./c", by decide, by decide⟩,
    .about (.importCall ⟨"d".toList, by decide, by decide⟩) ⟨"../d//e", by decide, by decide⟩]

example : String.ofList (printed mixedStatements)
    = "import from from './a';\n// it's import './b';\nconst type = \" /* not closed // \";\n"
      ++ "export \x7b $a as import_ \x7d from './c';\nconst d = import('../d//e');\n" := by
  decide +kernel

theorem scan_printed_mixedStatements : (∀ st ∈ mixedStatements, st.IsLegible) ∧
    (scan (String.ofList (printed mixedStatements))).filter (fun found => found.kind ≠ .reference)
      = [⟨.static, "./a"⟩, ⟨.reExport, "./c"⟩, ⟨.dynamic, "../d//e"⟩] := by
  have hlegible : ∀ st ∈ mixedStatements, st.IsLegible := by
    simp only [mixedStatements, List.forall_mem_cons]
    refine ⟨?_, trivial, trivial, ?_, trivial, by simp⟩
    · exact List.forall_mem_singleton.mpr (show ∀ c ∈ "from".toList, isNameChar c = true by decide)
    · have hnames : ∀ name ∈ ["$a".toList, "import_".toList], ¬"import".toList <:+ name := by decide
      simp only [Statement.IsLegible, Phrase.IsLegible, namesOf, List.flatMap_singleton, List.forall_mem_cons,
        Option.toList] at hnames ⊢
      exact ⟨fun h => hnames.1 h.isSuffix, fun h => hnames.2.1 h.isSuffix, by simp⟩
  exact ⟨hlegible, (scan_printed hlegible).trans (by decide +kernel)⟩

/-- An export of a name that ends in `import`. -/
def markedStatements : List Statement :=
  [.about (.exportNames [⟨⟨"$import".toList, by decide, by decide⟩, none⟩]) ⟨"./a", by decide, by decide⟩]

/-- An import of a name with a letter that no class of the patterns has. -/
def letteredStatements : List Statement :=
  [.about (.importNames (.one ⟨['℘'], by decide, by decide +kernel⟩)) ⟨"./a", by decide, by decide⟩]

/-- The end of a name may be taken for the start of an import, and not every name is taken for one. -/
theorem some_printed_statements_are_misread :
    ((scan (String.ofList (printed markedStatements))).filter (fun found => found.kind ≠ .reference)
        = [⟨.static, "./a"⟩, ⟨.reExport, "./a"⟩] ∧
      importsOf markedStatements = [⟨.reExport, "./a"⟩]) ∧
    (scan (String.ofList (printed letteredStatements))).filter (fun found => found.kind ≠ .reference) = [] ∧
      importsOf letteredStatements = [⟨.static, "./a"⟩] :=
  ⟨⟨by decide +kernel, by decide +kernel⟩, by decide +kernel, by decide +kernel⟩

end ScopedCheck.Import
