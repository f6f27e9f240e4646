import ScopedCheck.Proofs.Closure.Limits
import ScopedCheck.Proofs.Text.Lines
import ScopedCheck.Proofs.Text.Pattern
/-! # Path directives

A path directive in front of the code of a file leads a walk to the file it names. Blank lines and line
comments may stand in front of it, and the path has to start with a step to a directory: any other path
is taken for the name of a package, and a block comment ends what is read of directives. -/

namespace ScopedCheck

namespace Text

/-! ## Trimmed lines -/

theorem trimStart_blank {c : Char} (h : isBlank c = true) (cs : List Char) :
    trimStart (c :: cs) = trimStart cs := List.dropWhile_cons_of_pos h

theorem trimStart_visible {c : Char} (h : isBlank c = false) (cs : List Char) :
    trimStart (c :: cs) = c :: cs := List.dropWhile_cons_of_neg (by simp [h])

/-- A blank in front of a line goes when the line is trimmed. -/
theorem trimStart_withoutEnding {c : Char} (h : isBlank c = true) {piece : List Char} (hne : piece ≠ []) :
    trimStart (withoutEnding (c :: piece)) = trimStart (withoutEnding piece) := by
  simp only [withoutEnding, dropLast?_cons c '\n' hne]
  cases hpiece : dropLast? '\n' piece with
  | none => exact trimStart_blank h piece
  | some line =>
    simp only [Option.map_some]
    cases line with
    | nil =>
      -- the blank is the whole line, or the ending takes it
      unfold dropLast?
      split
      · rfl
      · exact trimStart_blank h []
    | cons d line =>
      rw [dropLast?_cons c '\r' (List.cons_ne_nil d line)]
      cases dropLast? '\r' (d :: line) with
      | none => exact trimStart_blank h (d :: line)
      | some kept => exact trimStart_blank h kept

end Text

namespace Import

open Text Text.Pattern

/-! ## Headers -/

/-- A text of blanks and comments, among them block comments only where these are allowed. -/
inductive IsHeader (blocks : Bool) : List Char → Prop
  | nil : IsHeader blocks []
  | blank {c : Char} {rest : List Char} (hblank : isBlank c = true) (hrest : IsHeader blocks rest) :
      IsHeader blocks (c :: rest)
  | line {comment rest : List Char} (hline : '\n' ∉ comment) (hrest : IsHeader blocks rest) :
      IsHeader blocks ('/' :: '/' :: (comment ++ '\n' :: rest))
  | block {comment rest : List Char} (hblocks : blocks = true) (hclosed : ¬['*', '/'] <:+: comment)
      (hrest : IsHeader blocks rest) : IsHeader blocks ('/' :: '*' :: (comment ++ '*' :: '/' :: rest))

theorem references_congr {line other : List Char} (h : trimStart line = trimStart other)
    (rest : List (List Char)) : references (line :: rest) = references (other :: rest) := by
  simp only [references, h]

/-- A blank in front of a text changes nothing. -/
theorem references_blank {c : Char} (h : isBlank c = true) (cs : List Char) :
    references (lines (c :: cs)) = references (lines cs) := by
  by_cases hc : c = '\n'
  · subst hc
    rfl
  · cases hcs : rawLines cs with
    | nil =>
      have hcons : rawLines (c :: cs) = [[c]] := by simp only [rawLines, hc, if_false, hcs]
      have hempty : trimStart (withoutEnding [c]) = trimStart [] := by
        simp only [withoutEnding, dropLast?, List.getLast?_singleton, Option.some.injEq, hc, if_false]
        exact trimStart_blank h []
      simp only [lines, hcons, hcs, List.map_cons, List.map_nil]
      exact references_congr hempty []
    | cons piece later =>
      have hne : piece ≠ [] := ne_nil_of_mem_rawLines (hcs ▸ List.mem_cons_self)
      have hcons : rawLines (c :: cs) = (c :: piece) :: later := by simp only [rawLines, hc, if_false, hcs]
      simp only [lines, hcons, hcs, List.map_cons]
      exact references_congr (trimStart_withoutEnding h hne) _

/-- What stands behind a line comment is read. -/
theorem mem_references_comment {comment rest : List Char} (h : '\n' ∉ comment) {i : Import}
    (hi : i ∈ references (lines rest)) :
    i ∈ references (lines ('/' :: '/' :: (comment ++ '\n' :: rest))) := by
  have hraw : rawLines ('/' :: '/' :: comment ++ '\n' :: rest)
      = ('/' :: '/' :: comment ++ ['\n']) :: rawLines rest := rawLines_line (by simp [h]) rest
  obtain ⟨tail, htail⟩ := exists_withoutEnding (d := '/') (by decide) (by decide) ['/'] (comment ++ ['\n'])
  have hlines : lines ('/' :: '/' :: (comment ++ '\n' :: rest)) = ('/' :: '/' :: tail) :: lines rest := by
    rw [lines, ← List.cons_append, ← List.cons_append, hraw]
    exact congrArg (· :: lines rest) htail
  have htrim : trimStart ('/' :: '/' :: tail) = '/' :: '/' :: tail := trimStart_visible (by decide) _
  have htake : ('/' :: '/' :: tail).take 2 = ['/', '/'] := rfl
  rw [hlines, references]
  simp only [htrim, htake, decide_true, Bool.or_true, if_true]
  -- a comment of three slashes may be a directive itself
  split
  · split
    · exact List.mem_cons_of_mem _ hi
    · exact hi
  · exact hi

/-- What stands behind a header without block comments is read. -/
theorem IsHeader.mem_references {header rest : List Char} (h : IsHeader false header) {i : Import}
    (hi : i ∈ references (lines rest)) : i ∈ references (lines (header ++ rest)) := by
  induction h with
  | nil => exact hi
  | blank hblank _ ih =>
    rw [List.cons_append, references_blank hblank]
    exact ih
  | line hline _ ih =>
    rw [List.cons_append, List.cons_append, List.append_assoc]
    exact mem_references_comment hline ih
  | block hblocks _ _ => cases hblocks

/-! ## Directives -/

/-- Blanks within a line. -/
abbrev Gap := { cs : List Char // ∀ c ∈ cs, isBlank c = true ∧ c ≠ '\n' }

/-- A path directive as it is written, up to the closing quote of the path. -/
structure Directive where
  indent : Gap
  gap : Gap
  beforeSign : Gap
  behindSign : Gap
  quote : Char
  path : String
  parted : gap.1 ≠ []
  quoted : isQuote quote = true
  named : path.toList ≠ []
  plain : ∀ c ∈ path.toList, isQuote c = false ∧ c ≠ '\n'

namespace Directive

/-- The text of a directive up to the closing quote. -/
def front (d : Directive) : List Char :=
  "///".toList ++ d.indent.1 ++ "<reference".toList ++ d.gap.1 ++ "path".toList ++ d.beforeSign.1
    ++ "=".toList ++ d.behindSign.1 ++ d.quote :: d.path.toList

theorem front_append (d : Directive) (behind : List Char) :
    d.front ++ behind = "///".toList ++ (d.indent.1 ++ ("<reference".toList ++ (d.gap.1
      ++ ("path".toList ++ (d.beforeSign.1 ++ ("=".toList ++ (d.behindSign.1
        ++ d.quote :: (d.path.toList ++ behind)))))))) := by
  unfold front
  simp only [List.append_assoc, List.cons_append]

theorem quote_eq (d : Directive) : d.quote = '"' ∨ d.quote = '\'' := by
  simpa only [isQuote, Bool.or_eq_true, beq_iff_eq] using d.quoted

theorem newline_notMem_front (d : Directive) : '\n' ∉ d.front := by
  have hgap : ∀ gap : Gap, '\n' ∉ gap.1 := fun gap h => (gap.2 _ h).2 rfl
  have hpath : '\n' ∉ d.path.toList := fun h => (d.plain _ h).2 rfl
  have hquote : '\n' ≠ d.quote := by rcases d.quote_eq with h | h <;> rw [h] <;> decide
  have hfixed : '\n' ∉ "///".toList ∧ '\n' ∉ "<reference".toList ∧ '\n' ∉ "path".toList ∧
      '\n' ∉ "=".toList := by decide
  unfold front
  simp only [List.mem_append, List.mem_cons, hgap, hpath, hquote, hfixed, or_self, not_false_eq_true]

end Directive

/-- A directive is read as it is written. -/
theorem exists_matchAt?_front (d : Directive) (behind : List Char) :
    ∃ found, referencePattern.matchAt? (Place.start (d.front ++ d.quote :: behind)) = .some found ∧
      found.group 2 = d.path := by
  have hblank : ∀ gap : Gap, ∀ c ∈ gap.1, isBlank c = true := fun gap c hc => (gap.2 c hc).1
  have hquote : isBlank d.quote = false := by
    rcases d.quote_eq with h | h <;> rw [h] <;> rfl
  have hblankQuote : ∀ c, isBlank c = true → isQuote c = false := by
    intro c hc
    by_contra h
    simp only [isQuote, Bool.not_eq_false, Bool.or_eq_true, beq_iff_eq] at h
    rcases h with rfl | rfl <;> exact absurd hc (by decide)
  have hplainQuote : ∀ c, (!isQuote c) = true → isQuote c = false := fun c hc => by simpa using hc
  have hpath : ∀ c ∈ d.path.toList, (!isQuote c) = true := fun c hc => by rw [(d.plain c hc).1]; rfl
  rw [d.front_append, matchAt?, referencePattern, Place.start, first?_all_cons, first?_atStart,
    first?_all_cons, first?_text, first?_all_cons, blanks,
    first?_more (.all (refuses_text (by decide))) (hblank d.indent) (any_head?_text (by decide) _),
    first?_all_cons, first?_text, first?_all_cons, blank,
    first?_some (.all (refuses_text (by decide))) d.parted (hblank d.gap) (any_head?_text (by decide) _),
    first?_all_cons, first?_text, first?_all_cons,
    first?_more (.all (refuses_text (by decide))) (hblank d.beforeSign) (any_head?_text (by decide) _),
    first?_all_cons, first?_text, first?_all_cons,
    first?_more (.all (refuses_char hblankQuote)) (hblank d.behindSign) (by exact hquote),
    first?_all_cons, first?_char d.quoted, first?_all_cons, first?_capture,
    first?_some (.capture (.all (refuses_char hplainQuote)) 2 _) d.named hpath (by simp [d.quoted]),
    first?_all_cons, first?_char d.quoted, first?_all_nil]
  refine ⟨_, rfl, ?_⟩
  simp only [Found.group, Found.group?, List.find?_cons, beq_self_eq_true, Option.map_some,
    Option.getD_some, Place.textUpTo_append, String.ofList_toList]

/-- A directive behind a header without block comments is among the imports of a source. -/
theorem mem_scan_of_directive {header : List Char} (h : IsHeader false header) (d : Directive)
    (behind : List Char) {source : String}
    (hsource : source.toList = header ++ (d.front ++ d.quote :: behind)) :
    ⟨.reference, d.path⟩ ∈ scan source := by
  have hquote : d.quote ≠ '\n' ∧ d.quote ≠ '\r' := by
    rcases d.quote_eq with h | h <;> rw [h] <;> decide
  obtain ⟨tail, later, hlines⟩ := exists_lines d.newline_notMem_front hquote.1 hquote.2 behind
  obtain ⟨found, hfound, hpath⟩ := exists_matchAt?_front d tail
  have hslashes : ∀ cs, ∃ rest, d.front ++ cs = '/' :: '/' :: '/' :: rest :=
    fun cs => ⟨_, d.front_append cs⟩
  obtain ⟨rest, hrest⟩ := hslashes (d.quote :: tail)
  have htrim : trimStart (d.front ++ d.quote :: tail) = d.front ++ d.quote :: tail := by
    rw [hrest]
    exact trimStart_visible (by decide) _
  have htake : (d.front ++ d.quote :: tail).take 3 = ['/', '/', '/'] := by
    rw [hrest]
    rfl
  have hmem : (⟨.reference, d.path⟩ : Import) ∈ references (lines (d.front ++ d.quote :: behind)) := by
    rw [hlines, references]
    simp only [htrim, htake, if_true, hfound, hpath]
    exact List.mem_cons_self
  rw [scan, hsource]
  exact List.mem_append_left _ (h.mem_references hmem)

end Import

namespace ImportWalk

open Import (IsHeader Directive)

/-! ## Walks -/

/-- At the head of a file stands a directive of a path. -/
def Names (tree : FileTree) (blocks : Bool) (file : Path) (path : String) : Prop :=
  ∃ text header, ∃ d : Directive, ∃ behind, tree.readText file = .ok text ∧
    text.toList = header ++ (d.front ++ d.quote :: behind) ∧ IsHeader blocks header ∧ d.path = path

/-- The place that a directive names: a path counts from the directory of the file. -/
def namedPlace (file : Path) (path : String) : Path :=
  (file.parent.child (Import.Alias.plain path)).normalize

/-- The named place is that of a typed source in no installed package. -/
def Offers (tree : FileTree) (file : Path) (path : String) : Prop :=
  tree.isFile (namedPlace file path) = true ∧
    Path.typedExtensions.any (Text.endsWith (namedPlace file path).text) = true ∧
    (namedPlace file path).isInPackages = false

/-- A walk takes the sources that the directives of its files name, those directives whose paths are
read in a certain way. -/
def TakesNamed (tree : FileTree) (walk : ImportWalk) (blocks : Bool) (reads : String → Bool) : Prop :=
  ∀ file ∈ walk.files, ∀ path, Names tree blocks file path →
    reads (Import.Alias.plain path) = true → Offers tree file path →
    (namedPlace file path).listed walk.files = true

/-- A relative path starts with a dot. -/
theorem head?_of_isRelative {path : String} (h : Import.Resolver.isRelative path = true) :
    path.toList.head? = some '.' := by
  have hstart : ∀ start : String, start.toList.head? = some '.' → Text.startsWith path start = true →
      path.toList.head? = some '.' := by
    intro start hdot hstarts
    obtain ⟨rest, hrest⟩ := List.isPrefixOf_iff_prefix.mp hstarts
    rw [← hrest, List.head?_append, hdot]
    rfl
  simp only [Import.Resolver.isRelative, Bool.or_eq_true, decide_eq_true_eq] at h
  rcases h with ((h | h) | rfl) | rfl
  · exact hstart "./" (by decide) h
  · exact hstart "../" (by decide) h
  · decide
  · decide

/-- A relative path stands for the place that it names if a typed source is there. -/
theorem resolve_of_offers {tree : FileTree} {file : Path} {path : String}
    (hrelative : Import.Resolver.isRelative (Import.Alias.plain path) = true)
    (h : Offers tree file path) (resolver : Import.Resolver) :
    resolver.resolve tree file path = .file (namedPlace file path) := by
  obtain ⟨hfile, htyped, hout⟩ := h
  have hdot := head?_of_isRelative hrelative
  have hnamed : (Import.Alias.plain path).isEmpty = false := by
    refine Bool.eq_false_iff.mpr fun hempty => ?_
    rw [String.isEmpty_iff.mp hempty] at hdot
    cases hdot
  have hown : Text.startsWith (Import.Alias.plain path) "#" = false := by
    refine Bool.eq_false_iff.mpr fun hown => ?_
    obtain ⟨rest, hrest⟩ := List.isPrefixOf_iff_prefix.mp hown
    rw [← hrest] at hdot
    cases hdot
  have hrooted : (⟨Import.Alias.plain path⟩ : Path).isAbsolute = false := by
    rw [Path.isAbsolute, Path.chars, hdot]
    rfl
  have hfirst : (resolver.candidates (file.parent.child (Import.Alias.plain path))).find? tree.isFile
      = some (namedPlace file path) := by
    rw [Import.Resolver.candidates, Import.Resolver.ownCandidates]
    change List.find? tree.isFile ((if Path.typedExtensions.any (Text.endsWith (namedPlace file path).text)
      then [namedPlace file path] else _) ++ _ ++ _) = _
    rw [if_pos htyped, List.append_assoc, List.singleton_append, List.find?_cons_of_pos hfile]
  simp only [Import.Resolver.resolve, hnamed, hown, hrooted, hrelative, Bool.false_eq_true, if_false,
    if_true, Import.Resolver.atPath, hfirst, hout]

theorem isFile_of_readText {tree : FileTree} {path : Path} {text : String}
    (h : tree.readText path = .ok text) : tree.isFile path = true := by
  obtain ⟨node, hnode, hread⟩ := Fallible.bind_eq_ok_iff.mp h
  refine FileTree.isFile_iff.mpr ?_
  cases node with
  | file file => exact ⟨file, hnode⟩
  | link _ => cases hread
  | dir _ => cases hread

/-- A walk that hits no bound takes the sources that directives name by a relative path, if no block
comment stands in front of the directives. In a readable tree there is such a walk. -/
theorem takesNamed_of_isRelative (tree : FileTree) (resolver : Import.Resolver) (roots : List Path)
    (limits : Limits) {follows : Import.Kind → Bool} (hfollows : follows .reference = true) :
    (tree.isReadable = true → ∃ walk, ofRoots tree resolver roots limits follows = .ok walk) ∧
      ∀ walk, ofRoots tree resolver roots limits follows = .ok walk → walk.limit = none →
        TakesNamed tree walk false Import.Resolver.isRelative := by
  refine ⟨fun htree => ?_, fun walk hwalk hlimit file hfile path hnames hrelative hoffers => ?_⟩
  · exact exists_ofRoots limits fun f _ =>
      (targetsOf_spec htree resolver follows f).imp fun _ h => h.1
  · obtain ⟨text, header, d, behind, htext, hsource, hheader, rfl⟩ := hnames
    have himport : Imports tree resolver follows file (namedPlace file d.path) :=
      ⟨isFile_of_readText htext, text, htext, _, Import.mem_scan_of_directive hheader d behind hsource, hfollows, by
        rw [resolve_of_offers hrelative hoffers]
        rfl⟩
    obtain ⟨found, hfound, hall⟩ := (going_of_ofRoots hwalk).2 file (Path.mem_sorted.mp hfile)
    exact listed_files.mpr (hall hlimit _ ((mem_targetsOf_iff hfound).mpr himport))

/-- A project of two files, the first one with a text of its own. -/
def referringProject (text : String) : FileTree :=
  ⟨[("p".toList, .dir [("a.ts".toList, .file { content := .text text }),
    ("b.ts".toList, .file { content := .text "" })])]⟩

/-- The walk from the first file of the project. -/
def referringWalk (text : String) : Except Setback ImportWalk :=
  ofRoots (referringProject text) (.ofConfig { configPath := ⟨"/p/tsconfig.json"⟩ }) [⟨"/p/a.ts"⟩] {}
    Import.Kind.followedByCompiler

/-- A directive with a single blank where one is needed, and none elsewhere. -/
def slimDirective (path : String) (named : path.toList ≠ [])
    (plain : ∀ c ∈ path.toList, Import.isQuote c = false ∧ c ≠ '\n') : Directive :=
  ⟨⟨[], by simp⟩, ⟨[' '], by decide⟩, ⟨[], by simp⟩, ⟨[], by simp⟩, '"', path, by simp, by decide, named,
    plain⟩

/-- A directive of a relative path behind a blank line and a line comment. -/
def notedText : String := " \n// a note\n///<reference path=\"./b.ts\" />\n"

/-- A directive of a relative path behind a block comment. -/
def headedText : String := "/* a note */\n///<reference path=\"./b.ts\" />\n"

/-- A directive of a path without a step to a directory. -/
def bareText : String := "///<reference path=\"b.ts\" />\n"

theorem takesNamed_in_referringProject :
    Import.Kind.followedByCompiler .reference = true ∧
      ∃ walk, referringWalk notedText = .ok walk ∧ walk.limit = none ∧
        Names (referringProject notedText) false ⟨"/p/a.ts"⟩ "./b.ts" ∧
        (⟨"/p/b.ts"⟩ : Path).listed walk.files = true := by
  have hfollows : Import.Kind.followedByCompiler .reference = true := by decide
  obtain ⟨hexists, htakes⟩ := takesNamed_of_isRelative (referringProject notedText)
    (.ofConfig { configPath := ⟨"/p/tsconfig.json"⟩ }) [⟨"/p/a.ts"⟩] {} hfollows
  obtain ⟨walk, hwalk⟩ := hexists (by decide +kernel)
  obtain ⟨hlimit, hroot⟩ := Prod.mk.inj (Fallible.of_toOption hwalk
    (f := fun walk => (walk.limit, walk.taken.head?)) (b := (none, some ⟨"/p/a.ts"⟩)) (by decide +kernel))
  have hnames : Names (referringProject notedText) false ⟨"/p/a.ts"⟩ "./b.ts" :=
    ⟨notedText, " \n// a note\n".toList, slimDirective "./b.ts" (by decide) (by decide), " />\n".toList,
      by decide +kernel, by decide +kernel,
      .blank (by decide) (.blank (by decide) (.line (show '\n' ∉ " a note".toList by decide) .nil)), rfl⟩
  refine ⟨hfollows, walk, hwalk, hlimit, hnames, ?_⟩
  exact htakes walk hwalk hlimit ⟨"/p/a.ts"⟩ (Path.mem_sorted.mpr (List.mem_of_mem_head? hroot)) "./b.ts"
    hnames (by decide +kernel) ⟨by decide +kernel, by decide +kernel, by decide +kernel⟩

/-- A walk without the second file of the project does not take what a directive of this file names. -/
theorem not_takesNamed {text path : String} {blocks : Bool} {reads : String → Bool}
    (hstate : (referringWalk text).toOption.map (fun walk => (walk.limit, walk.taken))
      = some (none, [⟨"/p/a.ts"⟩]))
    (hnames : Names (referringProject text) blocks ⟨"/p/a.ts"⟩ path)
    (hreads : reads (Import.Alias.plain path) = true)
    (hoffers : Offers (referringProject text) ⟨"/p/a.ts"⟩ path)
    (hplace : namedPlace ⟨"/p/a.ts"⟩ path = ⟨"/p/b.ts"⟩) :
    ∃ walk, referringWalk text = .ok walk ∧ walk.limit = none ∧
      ¬TakesNamed (referringProject text) walk blocks reads := by
  obtain ⟨walk, hwalk, hstate⟩ := Fallible.exists_of_toOption hstate
  obtain ⟨hlimit, htaken⟩ := Prod.mk.inj hstate
  refine ⟨walk, hwalk, hlimit, fun htakes => ?_⟩
  have hfile : (⟨"/p/a.ts"⟩ : Path) ∈ walk.files := Path.mem_sorted.mpr (by rw [htaken]; simp)
  have hlisted := htakes ⟨"/p/a.ts"⟩ hfile path hnames hreads hoffers
  rw [hplace, listed_files, htaken] at hlisted
  exact absurd hlisted (by decide +kernel)

/-- A path without a step to a directory in front is taken for a package, and what stands behind a block
comment is not read. -/
theorem some_named_files_are_left_out :
    (∃ walk, referringWalk bareText = .ok walk ∧ walk.limit = none ∧
      ¬TakesNamed (referringProject bareText) walk false fun _ => true) ∧
    ∃ walk, referringWalk headedText = .ok walk ∧ walk.limit = none ∧
      ¬TakesNamed (referringProject headedText) walk true Import.Resolver.isRelative :=
  ⟨not_takesNamed (by decide +kernel)
      ⟨bareText, [], slimDirective "b.ts" (by decide) (by decide), " />\n".toList, by decide +kernel,
        by decide +kernel, .nil, rfl⟩
      rfl ⟨by decide +kernel, by decide +kernel, by decide +kernel⟩ (by decide +kernel),
    not_takesNamed (by decide +kernel)
      ⟨headedText, '/' :: '*' :: (" a note ".toList ++ '*' :: '/' :: ['\n']),
        slimDirective "./b.ts" (by decide) (by decide), " />\n".toList, by decide +kernel,
        by decide +kernel, .block rfl (by decide +kernel) (.blank (by decide) .nil), rfl⟩
      (by decide +kernel) ⟨by decide +kernel, by decide +kernel, by decide +kernel⟩ (by decide +kernel)⟩

end ImportWalk

end ScopedCheck
