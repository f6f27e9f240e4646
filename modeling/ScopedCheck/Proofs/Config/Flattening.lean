import Mathlib.Logic.Relation
import ScopedCheck.Proofs.Config.Load
/-! # What a config is made of

The documents that a config is made of have their say one after the other: first those that a
document builds on, from left to right, each behind what it builds on itself, and then the document.
A document that several others build on has its say once for each of them. Every setting of the
loaded config is what the last document that says anything about it says, and paths in it are
relative to the directory of that document. -/

namespace ScopedCheck

/-- What a document builds on, in order. -/
def Document.specifiers (document : Document) : List String :=
  (document.extends?.map Extends.specifiers).getD []

namespace Config

open Fallible (bind_eq_ok_iff)
open FileTree (IsFilePlace)

/-! ## Documents that have their say -/

/-- A document and the path that it was read from. -/
structure Source where
  path : Path
  document : Document

namespace Source

/-- The directory of the document. -/
def dir (source : Source) : Path := source.path.parent

/-- The options of the document as they were written. -/
def options (source : Source) : Options := source.document.options.getD {}

/-- The import patterns of the document with its directory. -/
def paths? (source : Source) : Option (Entries (List String) × Path) :=
  source.options.paths.map fun paths => (paths, source.dir)

/-- The base directory of the document, made absolute. A blank one says nothing. -/
def baseUrl? (source : Source) : Option String :=
  (source.options.baseUrl.filter (!Text.isBlankText ·)).map fun value =>
    anchored source.dir (Text.trimmed value)

/-- The roots of types of the document, made absolute. Blank ones are left out. -/
def typeRoots? (source : Source) : Option (List String) :=
  source.options.typeRoots.map fun roots =>
    ((roots.map Text.trimmed).filter (!·.isEmpty)).map (anchored source.dir)

/-- How the value of an option without a field of its own is made absolute. -/
def anchorOf (dir : Path) (key : String) : Json → Json :=
  if key ∈ pathOptions then anchoredValue dir
  else if key = pathListOption then anchoredList dir
  else id

/-- The value of an option without a field of its own, with its paths made absolute. -/
def other? (key : String) (source : Source) : Option Json :=
  (source.options.other.get? key).map (anchorOf source.dir key)

/-- File patterns of the document with its directory. -/
def patterns? (field : Document → Option (List String)) (source : Source) : Option FilePatterns :=
  (field source.document).map (⟨source.dir, ·⟩)

end Source

/-- What the last of several sources says of those that say anything. -/
def lastSaid {α : Type} (said : Source → Option α) (sources : List Source) : Option α :=
  sources.reverse.findSome? said

theorem eq_lastSaid_singleton {α : Type} {said : Source → Option α} {source : Source}
    {value : Option α} (h : value = said source) : value = lastSaid said [source] := by
  rw [lastSaid, List.reverse_singleton, List.findSome?_singleton, h]

theorem lastSaid_append {α : Type} (said : Source → Option α) (front rear : List Source) :
    lastSaid said (front ++ rear) = (lastSaid said rear).or (lastSaid said front) := by
  rw [lastSaid, List.reverse_append, List.findSome?_append]
  rfl

/-- What is laid over something else has the last say. -/
theorem lastSaid_append_eq {α : Type} {said : Source → Option α} {front rear : List Source}
    {base child : Option α} (hbase : base = lastSaid said front) (hchild : child = lastSaid said rear) :
    (child <|> base) = lastSaid said (front ++ rear) := by
  rw [lastSaid_append, ← hbase, ← hchild]
  cases child <;> rfl

/-- Whether every setting of a layer is what the last of the sources says about it. -/
structure Layer.IsFlattened (layer : Layer) (sources : List Source) : Prop where
  paths : layer.options.paths = (lastSaid Source.paths? sources).map Prod.fst
  pathsBaseDir : layer.pathsBaseDir = (lastSaid Source.paths? sources).map Prod.snd
  baseUrl : layer.options.baseUrl = lastSaid Source.baseUrl? sources
  moduleResolution : layer.options.moduleResolution = lastSaid (·.options.moduleResolution) sources
  moduleKind : layer.options.moduleKind = lastSaid (·.options.moduleKind) sources
  allowJs : layer.options.allowJs = lastSaid (·.options.allowJs) sources
  checkJs : layer.options.checkJs = lastSaid (·.options.checkJs) sources
  skipLibCheck : layer.options.skipLibCheck = lastSaid (·.options.skipLibCheck) sources
  noEmit : layer.options.noEmit = lastSaid (·.options.noEmit) sources
  typeRoots : layer.options.typeRoots = lastSaid Source.typeRoots? sources
  types : layer.options.types = lastSaid (·.options.types) sources
  other : ∀ key, layer.options.other.get? key = lastSaid (Source.other? key) sources
  keys : layer.options.other.keys.Nodup
  includes : layer.includes = lastSaid (Source.patterns? (·.includes)) sources
  excludes : layer.excludes = lastSaid (Source.patterns? (·.excludes)) sources
  files : layer.files = lastSaid (Source.patterns? (·.files)) sources

/-! ## Laying layers over each other -/

theorem get?_anchoredOthers (dir : Path) (other : Entries Json) (key : String) :
    (anchoredOthers dir other).get? key = (other.get? key).map (Source.anchorOf dir key) := by
  have hfold : ∀ (names : List String), names.Nodup → ∀ entries : Entries Json,
      Entries.get? (names.foldl (fun entries key => entries.change key (anchoredValue dir)) entries) key =
        if key ∈ names then (entries.get? key).map (anchoredValue dir) else entries.get? key := by
    intro names
    induction names with
    | nil => simp
    | cons first names ih =>
        intro hnodup entries
        rw [List.nodup_cons] at hnodup
        rw [List.foldl_cons, ih hnodup.2, Entries.get?_change]
        by_cases hkey : first = key
        · subst hkey
          simp [hnodup.1]
        · simp [hkey, Ne.symm hkey]
  rw [anchoredOthers, Entries.get?_change, hfold pathOptions (by decide), Source.anchorOf]
  by_cases hlist : pathListOption = key
  · subst hlist
    rw [if_pos rfl, if_neg (by decide), if_neg (by decide), if_pos rfl]
  · rw [if_neg hlist, if_neg (Ne.symm hlist)]
    split
    · rfl
    · rw [Option.map_id_fun, id]

theorem Layer.isFlattened_empty : Layer.IsFlattened {} [] := by
  constructor <;> intros <;> first | rfl | exact List.nodup_nil

/-- The layer of one document says what the document says. -/
theorem Layer.isFlattened_ownLayer {tree : FileTree} {path : Path} {document : Document}
    (h : readDocument tree path = .ok document) :
    (ownLayer document path.parent).IsFlattened [⟨path, document⟩] where
  paths := by
    rw [← eq_lastSaid_singleton rfl, Source.paths?, Option.map_map]
    exact Option.map_id'.symm
  pathsBaseDir := by
    rw [← eq_lastSaid_singleton rfl, Source.paths?, Option.map_map]
    rfl
  baseUrl := eq_lastSaid_singleton rfl
  moduleResolution := eq_lastSaid_singleton rfl
  moduleKind := eq_lastSaid_singleton rfl
  allowJs := eq_lastSaid_singleton rfl
  checkJs := eq_lastSaid_singleton rfl
  skipLibCheck := eq_lastSaid_singleton rfl
  noEmit := eq_lastSaid_singleton rfl
  typeRoots := eq_lastSaid_singleton rfl
  types := eq_lastSaid_singleton rfl
  other key := eq_lastSaid_singleton (get?_anchoredOthers path.parent (document.options.getD {}).other key)
  keys := (isSound_ownLayer (isSound_of_readDocument h) path.parent).keys
  includes := eq_lastSaid_singleton rfl
  excludes := eq_lastSaid_singleton rfl
  files := eq_lastSaid_singleton rfl

/-- A layer that is laid over another one has the last say. -/
theorem Layer.IsFlattened.merge {base child : Layer} {front rear : List Source}
    (hbase : base.IsFlattened front) (hchild : child.IsFlattened rear) :
    (mergeLayers base child).IsFlattened (front ++ rear) where
  paths := by
    have hwhose : (mergeLayers base child).options.paths =
        (child.options.paths <|> base.options.paths) := rfl
    rw [hwhose, hchild.paths, hbase.paths, lastSaid_append]
    cases lastSaid Source.paths? rear <;> rfl
  pathsBaseDir := by
    have hwhose : (mergeLayers base child).pathsBaseDir =
        if child.options.paths.isSome then child.pathsBaseDir else base.pathsBaseDir := rfl
    rw [hwhose, hchild.paths, hchild.pathsBaseDir, hbase.pathsBaseDir, lastSaid_append]
    cases lastSaid Source.paths? rear <;> rfl
  baseUrl := lastSaid_append_eq hbase.baseUrl hchild.baseUrl
  moduleResolution := lastSaid_append_eq hbase.moduleResolution hchild.moduleResolution
  moduleKind := lastSaid_append_eq hbase.moduleKind hchild.moduleKind
  allowJs := lastSaid_append_eq hbase.allowJs hchild.allowJs
  checkJs := lastSaid_append_eq hbase.checkJs hchild.checkJs
  skipLibCheck := lastSaid_append_eq hbase.skipLibCheck hchild.skipLibCheck
  noEmit := lastSaid_append_eq hbase.noEmit hchild.noEmit
  typeRoots := lastSaid_append_eq hbase.typeRoots hchild.typeRoots
  types := lastSaid_append_eq hbase.types hchild.types
  other key := by
    rw [lastSaid_append, ← hchild.other, ← hbase.other]
    exact Entries.get?_setAll _ hchild.keys key
  keys := Entries.nodup_setAll hbase.keys _
  includes := lastSaid_append_eq hbase.includes hchild.includes
  excludes := lastSaid_append_eq hbase.excludes hchild.excludes
  files := lastSaid_append_eq hbase.files hchild.files

/-! ## The order in which documents have their say -/

/-- The documents that have their say for what a document at a path builds on: for every specifier
what the document behind it builds on, and then this document. -/
inductive Sequence (tree : FileTree) : Path → List String → List Source → Prop
  | nil {path : Path} : Sequence tree path [] []
  | cons {path base : Path} {specifier : String} {specifiers : List String} {document : Document}
      {below rest : List Source} (hbase : baseOf tree path specifier = .ok base)
      (hread : readDocument tree (tree.canonical base) = .ok document)
      (hbelow : Sequence tree (tree.canonical base) document.specifiers below)
      (hrest : Sequence tree path specifiers rest) :
      Sequence tree path (specifier :: specifiers) (below ++ [⟨tree.canonical base, document⟩] ++ rest)

/-- Which documents have their say is determined, and so is their order. -/
theorem Sequence.unique {tree : FileTree} {path : Path} {specifiers : List String}
    {sources others : List Source} (h : Sequence tree path specifiers sources)
    (hother : Sequence tree path specifiers others) : sources = others := by
  induction h generalizing others with
  | nil =>
      cases hother
      rfl
  | cons hbase hread _ _ ihbelow ihrest =>
      cases hother with
      | cons hbase' hread' hbelow' hrest' =>
          obtain rfl := Except.ok.inj (hbase.symm.trans hbase')
          obtain rfl := Except.ok.inj (hread.symm.trans hread')
          rw [ihbelow hbelow', ihrest hrest']

/-- Whether a document builds directly on another one; both are given by their canonical paths. -/
def BuildsOn (tree : FileTree) (path base : Path) : Prop :=
  ∃ document specifier found, readDocument tree path = .ok document ∧
    specifier ∈ document.specifiers ∧ baseOf tree path specifier = .ok found ∧
      base = tree.canonical found

/-- Whether a document can be read and all that it builds on can be found. -/
def IsComplete (tree : FileTree) (path : Path) : Prop :=
  ∃ document, readDocument tree path = .ok document ∧
    ∀ specifier ∈ document.specifiers, ∃ found, baseOf tree path specifier = .ok found

/-- Whether a document and all that it builds on, directly or not, are complete, and none of them
builds on itself. -/
structure IsGrounded (tree : FileTree) (leaf : Path) : Prop where
  complete : ∀ path, Relation.ReflTransGen (BuildsOn tree) leaf path → IsComplete tree path
  acyclic : ∀ path, Relation.ReflTransGen (BuildsOn tree) leaf path →
    ¬Relation.TransGen (BuildsOn tree) path path

/-- A document that can be read has the path of its place as its canonical path. -/
theorem isFilePlace_of_baseOf {tree : FileTree} {path base : Path} {specifier : String}
    (h : baseOf tree path specifier = .ok base) (hcomplete : IsComplete tree (tree.canonical base)) :
    tree.IsFilePlace (tree.canonical base) := by
  obtain ⟨document, hread, -⟩ := hcomplete
  exact isFilePlace_of_readDocument (isFile_or_normal_of_baseOf h) hread

theorem cycleFrom?_eq_none {path : Path} {stack : List Path}
    (h : ∀ above ∈ stack, path.same above = false) : cycleFrom? path stack = none := by
  have hdropped : stack.dropWhile (!path.same ·) = [] := by
    induction stack with
    | nil => rfl
    | cons above rest ih =>
        rw [List.dropWhile_cons_of_pos (by simp [h above])]
        exact ih fun other hother => h other (List.mem_cons_of_mem _ hother)
  rw [cycleFrom?, hdropped]

/-! ## Documents in an order that can be checked -/

/-- What a document builds on, if it is complete. -/
def basesOf (tree : FileTree) (path : Path) : Except Failure (List Path) := do
  let document ← readDocument tree path
  document.specifiers.mapM fun specifier => return tree.canonical (← baseOf tree path specifier)

/-- Whether documents are complete and each of them builds only on documents that come later. -/
def areOrdered (tree : FileTree) : List Path → Bool
  | [] => true
  | path :: rest =>
      (basesOf tree path).toOption.any (fun bases => bases.all (rest.contains ·)) &&
        !rest.contains path && areOrdered tree rest

theorem areOrdered_cons {tree : FileTree} {path : Path} {rest : List Path} :
    areOrdered tree (path :: rest) = true ↔
      (∃ bases, basesOf tree path = .ok bases ∧ ∀ base ∈ bases, base ∈ rest) ∧ path ∉ rest ∧
        areOrdered tree rest = true := by
  cases hbases : basesOf tree path <;> simp [areOrdered, hbases, Except.toOption, and_assoc]

theorem basesOf_spec {tree : FileTree} {path : Path} {bases : List Path}
    (h : basesOf tree path = .ok bases) :
    IsComplete tree path ∧ ∀ base, BuildsOn tree path base → base ∈ bases := by
  obtain ⟨document, hread, hbases⟩ := bind_eq_ok_iff.mp h
  refine ⟨⟨document, hread, fun specifier hspecifier => ?_⟩, ?_⟩
  · obtain ⟨base, -, hbase⟩ := Fallible.exists_of_mapM hbases hspecifier
    obtain ⟨found, hfound, -⟩ := bind_eq_ok_iff.mp hbase
    exact ⟨found, hfound⟩
  · rintro _ ⟨other, specifier, found, hread', hspecifier, hfound, rfl⟩
    obtain rfl := Except.ok.inj (hread.symm.trans hread')
    obtain ⟨base, hmem, hbase⟩ := Fallible.exists_of_mapM hbases hspecifier
    obtain ⟨found', hfound', hsame⟩ := bind_eq_ok_iff.mp hbase
    obtain rfl := Except.ok.inj (hfound.symm.trans hfound')
    rwa [Except.ok.inj hsame]

/-- Whatever ordered documents build on is one of them. -/
theorem mem_of_reflTransGen {tree : FileTree} {paths : List Path} (h : areOrdered tree paths = true)
    {path base : Path} (hpath : path ∈ paths) (hdown : Relation.ReflTransGen (BuildsOn tree) path base) :
    base ∈ paths := by
  have hstep : ∀ path ∈ paths, ∀ base, BuildsOn tree path base → base ∈ paths := by
    clear hpath hdown
    induction paths with
    | nil => simp
    | cons first rest ih =>
        obtain ⟨⟨bases, hbases, hlater⟩, -, hrest⟩ := areOrdered_cons.mp h
        intro path hpath base hbase
        rcases List.mem_cons.mp hpath with rfl | hpath
        · exact List.mem_cons_of_mem _ (hlater base ((basesOf_spec hbases).2 base hbase))
        · exact List.mem_cons_of_mem _ (ih hrest path hpath base hbase)
  induction hdown with
  | refl => exact hpath
  | tail _ hbase ih => exact hstep _ ih _ hbase

/-- Ordered documents are complete, and none of them builds on itself. -/
theorem isGrounded_of_areOrdered {tree : FileTree} (paths : List Path) (h : areOrdered tree paths = true)
    {leaf : Path} (hleaf : leaf ∈ paths) : IsGrounded tree leaf := by
  have hall : ∀ path ∈ paths, IsComplete tree path ∧ ¬Relation.TransGen (BuildsOn tree) path path := by
    clear hleaf
    induction paths with
    | nil => simp
    | cons first rest ih =>
        obtain ⟨⟨bases, hbases, hlater⟩, hfresh, hrest⟩ := areOrdered_cons.mp h
        obtain ⟨hcomplete, hbelow⟩ := basesOf_spec hbases
        intro path hpath
        rcases List.mem_cons.mp hpath with rfl | hpath
        · refine ⟨hcomplete, fun hcycle => hfresh ?_⟩
          obtain ⟨base, hbase, hback⟩ := Relation.TransGen.head'_iff.mp hcycle
          exact mem_of_reflTransGen hrest (hlater base (hbelow base hbase)) hback
        · exact ih hrest path hpath
  exact ⟨fun path hpath => (hall path (mem_of_reflTransGen h hleaf hpath)).1,
    fun path hpath => (hall path (mem_of_reflTransGen h hleaf hpath)).2⟩

/-! ## Loading goes through -/

/-- If everything that a document builds on can be loaded and says what its documents say, then so
does all of it, laid over each other. -/
theorem exists_bases {tree : FileTree} {path : Path} {load : Path → Except Failure (Layer × List Path)}
    {specifiers : List String}
    (h : ∀ specifier ∈ specifiers, ∃ base document below layer chain,
      baseOf tree path specifier = .ok base ∧ load base = .ok (layer, chain) ∧
        readDocument tree (tree.canonical base) = .ok document ∧
          Sequence tree (tree.canonical base) document.specifiers below ∧
            layer.IsFlattened (below ++ [⟨tree.canonical base, document⟩])) :
    ∃ found sources, (specifiers.mapM fun specifier => do
        let base ← baseOf tree path specifier
        load base) = .ok found ∧ Sequence tree path specifiers sources ∧
      ∀ layer front, Layer.IsFlattened layer front →
        ((found.map (·.1)).foldl mergeLayers layer).IsFlattened (front ++ sources) := by
  induction specifiers with
  | nil =>
      refine ⟨[], [], rfl, .nil, fun layer front hlayer => ?_⟩
      rwa [List.append_nil]
  | cons specifier specifiers ih =>
      obtain ⟨base, document, below, layer, chain, hbase, hload, hread, hbelow, hlayer⟩ :=
        h specifier (List.mem_cons_self ..)
      obtain ⟨found, rest, hfound, hrest, hlayers⟩ :=
        ih fun other hother => h other (List.mem_cons_of_mem _ hother)
      refine ⟨(layer, chain) :: found, _, ?_, .cons hbase hread hbelow hrest, ?_⟩
      · rw [List.mapM_cons, hfound, hbase]
        simp only [bind, Except.bind, hload]
        rfl
      · intro under front hunder
        rw [← List.append_assoc]
        exact hlayers _ _ (hunder.merge hlayer)

/-- What is known of the documents whose loading waits for another one: they are different files, and
all of them build on it, directly or not. -/
structure AreAbove (tree : FileTree) (stack : List Path) (here : Path) : Prop where
  nodup : stack.Nodup
  places : ∀ above ∈ stack, tree.IsFilePlace above
  leads : ∀ above ∈ stack, Relation.TransGen (BuildsOn tree) above here

namespace AreAbove

variable {tree : FileTree} {stack : List Path} {here : Path}

theorem nil (tree : FileTree) (here : Path) : AreAbove tree [] here :=
  ⟨List.nodup_nil, by simp, by simp⟩

theorem length_le (h : AreAbove tree stack here) : stack.length ≤ tree.fileCount :=
  FileTree.length_le_fileCount h.nodup h.places

/-- A document that does not build on itself is none of those above it. -/
theorem same_eq_false (h : AreAbove tree stack here) (hplace : tree.IsFilePlace here)
    (hacyclic : ¬Relation.TransGen (BuildsOn tree) here here) :
    ∀ above ∈ stack, here.same above = false := by
  intro above habove
  rw [Bool.eq_false_iff]
  intro hsame
  obtain rfl := hplace.eq_of_same (h.places above habove) hsame
  exact hacyclic (h.leads here habove)

/-- What a document builds on has the document above it as well. -/
theorem down (h : AreAbove tree stack here) (hplace : tree.IsFilePlace here) (hnew : here ∉ stack)
    {base : Path} (hbase : BuildsOn tree here base) : AreAbove tree (stack ++ [here]) base := by
  constructor
  case nodup =>
    rw [← List.concat_eq_append]
    exact h.nodup.concat hnew
  case places =>
    rw [List.forall_mem_append, List.forall_mem_singleton]
    exact ⟨h.places, hplace⟩
  case leads =>
    rw [List.forall_mem_append, List.forall_mem_singleton]
    exact ⟨fun above habove => (h.leads above habove).tail hbase, .single hbase⟩

end AreAbove

/-- The fuel lasts: the documents on the stack are different files, and there is more fuel than other
files. -/
theorem exists_loadLayer {tree : FileTree} {leaf : Path} (hleaf : IsGrounded tree leaf) (fuel : Nat)
    (stack : List Path) {path : Path}
    (hreach : Relation.ReflTransGen (BuildsOn tree) leaf (tree.canonical path))
    (hplace : tree.IsFilePlace (tree.canonical path))
    (hstack : AreAbove tree stack (tree.canonical path)) (hfuel : tree.fileCount < fuel + stack.length) :
    ∃ document bases layer chain, readDocument tree (tree.canonical path) = .ok document ∧
      Sequence tree (tree.canonical path) document.specifiers bases ∧
      loadLayer tree fuel stack path = .ok (layer, chain) ∧
      layer.IsFlattened (bases ++ [⟨tree.canonical path, document⟩]) ∧
      layer.references = document.references.getD [] := by
  induction fuel generalizing stack path with
  | zero =>
      have hfew := hstack.length_le
      omega
  | succ fuel ih =>
      generalize hcanonical : tree.canonical path = here at *
      have hother := hstack.same_eq_false hplace (hleaf.acyclic here hreach)
      have hnew : here ∉ stack := by
        intro hmem
        have hsame := hother here hmem
        rw [Path.same_iff.mpr rfl] at hsame
        cases hsame
      obtain ⟨document, hread, hfound⟩ := hleaf.complete here hreach
      have hall : ∀ specifier ∈ document.specifiers, ∃ base document below layer chain,
          baseOf tree here specifier = .ok base ∧
            loadLayer tree fuel (stack ++ [here]) base = .ok (layer, chain) ∧
              readDocument tree (tree.canonical base) = .ok document ∧
                Sequence tree (tree.canonical base) document.specifiers below ∧
                  layer.IsFlattened (below ++ [⟨tree.canonical base, document⟩]) := by
        intro specifier hspecifier
        obtain ⟨base, hbase⟩ := hfound specifier hspecifier
        have hbuilds : BuildsOn tree here (tree.canonical base) :=
          ⟨document, specifier, base, hread, hspecifier, hbase, rfl⟩
        have hreach' := hreach.tail hbuilds
        have hplace' := isFilePlace_of_baseOf hbase (hleaf.complete _ hreach')
        have hroom : tree.fileCount < fuel + (stack ++ [here]).length := by
          rw [List.length_append, List.length_singleton]
          omega
        obtain ⟨inner, below, layer, chain, hinner, hsequence, hload, hlayer, -⟩ :=
          ih (stack ++ [here]) hreach' hplace' (hstack.down hplace hnew hbuilds) hroom
        exact ⟨base, inner, below, layer, chain, hbase, hload, hinner, hsequence, hlayer⟩
      obtain ⟨found, sources, hmapM, hbases, hlayers⟩ := exists_bases hall
      have hload : loadLayer tree (fuel + 1) stack path =
          .ok (mergeLayers ((found.map (·.1)).foldl mergeLayers {}) (ownLayer document here.parent),
            here :: (found.map (·.2)).flatten) := by
        have hspecifiers : (document.extends?.map Extends.specifiers).getD [] = document.specifiers := rfl
        rw [loadLayer, hcanonical, cycleFrom?_eq_none hother]
        simp only [hread, hspecifiers, bind, Except.bind] at hmapM ⊢
        rw [hmapM]
        rfl
      have hown := Layer.isFlattened_ownLayer hread
      have hbase := hlayers {} [] Layer.isFlattened_empty
      exact ⟨document, sources, _, _, hread, hbases, hload, hbase.merge hown, rfl⟩

/-- Whatever a document builds on, as long as no document builds on itself: every setting of the loaded
config is what the last document that says anything about it says, and only the references of the
document itself count. -/
theorem load_isFlattened {tree : FileTree} {path leaf : Path}
    (hpath : leaf = tree.canonical (tree.canonical path)) (hleaf : IsGrounded tree leaf) :
    ∃ (document : Document) (bases : List Source) (layer : Layer) (chain : List Path),
      readDocument tree leaf = .ok document ∧ Sequence tree leaf document.specifiers bases ∧
      layer.IsFlattened (bases ++ [⟨leaf, document⟩]) ∧
      load tree path = .ok {
        configPath := tree.canonical path
        options := layer.options
        includes := layer.includes
        excludes := layer.excludes
        files := layer.files
        references := (document.references.getD []).map (referencedConfig (tree.canonical path))
        pathsBaseDir := layer.pathsBaseDir
        chain } := by
  subst hpath
  obtain ⟨document, hread, -⟩ := hleaf.complete _ .refl
  have hplace := isFilePlace_of_readDocument (.inr (FileTree.normalize_canonical tree path)) hread
  obtain ⟨document, bases, layer, chain, hread, hbases, hload, hlayer, hreferences⟩ :=
    exists_loadLayer hleaf (tree.fileCount + 1) [] .refl hplace (.nil _ _) (by simp)
  refine ⟨document, bases, layer, chain, hread, hbases, hlayer, ?_⟩
  rw [load, ← hreferences]
  simp only [hload, bind, Except.bind]
  rfl

/-- A project whose config builds on two documents that both build on a third one. -/
def diamondProject : FileTree :=
  ⟨[FileTree.textEntry "tsconfig.json" "\x7b\"extends\": [\"./a.json\", \"./b/b.json\"]\x7d",
    FileTree.textEntry "a.json"
      "\x7b\"extends\": \"./base\", \"compilerOptions\": \x7b\"allowJs\": false, \"baseUrl\": \".\"\x7d\x7d",
    ("b".toList, .dir [FileTree.textEntry "b.json"
      "\x7b\"extends\": \"../base\", \"compilerOptions\": \x7b\"baseUrl\": \".\"\x7d\x7d"]),
    FileTree.textEntry "base.json" "\x7b\"compilerOptions\": \x7b\"allowJs\": true\x7d\x7d"]⟩

theorem load_isFlattened_in_diamondProject :
    (⟨"/tsconfig.json"⟩ : Path) = diamondProject.canonical (diamondProject.canonical ⟨"/tsconfig.json"⟩) ∧
    IsGrounded diamondProject ⟨"/tsconfig.json"⟩ ∧
    ∃ (document : Document) (bases : List Source) (layer : Layer) (chain : List Path),
      Sequence diamondProject ⟨"/tsconfig.json"⟩ document.specifiers bases ∧
      layer.IsFlattened (bases ++ [⟨⟨"/tsconfig.json"⟩, document⟩]) ∧
      chain = [⟨"/tsconfig.json"⟩, ⟨"/a.json"⟩, ⟨"/base.json"⟩, ⟨"/b/b.json"⟩, ⟨"/base.json"⟩] ∧
      -- the base has its say once more behind the first document that builds on it
      layer.options.allowJs = some true ∧ layer.options.baseUrl = some "/b" := by
  have hpath : (⟨"/tsconfig.json"⟩ : Path) =
      diamondProject.canonical (diamondProject.canonical ⟨"/tsconfig.json"⟩) := by decide +kernel
  have hleaf : IsGrounded diamondProject ⟨"/tsconfig.json"⟩ :=
    isGrounded_of_areOrdered [⟨"/tsconfig.json"⟩, ⟨"/a.json"⟩, ⟨"/b/b.json"⟩, ⟨"/base.json"⟩]
      (by decide +kernel) (List.mem_cons_self ..)
  obtain ⟨document, bases, layer, chain, -, hbases, hlayer, hload⟩ := load_isFlattened hpath hleaf
  have hfound : (load diamondProject ⟨"/tsconfig.json"⟩).toOption.map
      (fun config => (config.chain, config.options.allowJs, config.options.baseUrl)) =
        some ([⟨"/tsconfig.json"⟩, ⟨"/a.json"⟩, ⟨"/base.json"⟩, ⟨"/b/b.json"⟩, ⟨"/base.json"⟩],
          some true, some "/b") := by decide +kernel
  have hvalues := Fallible.of_toOption hload hfound
  simp only [Prod.mk.injEq] at hvalues
  exact ⟨hpath, hleaf, document, bases, layer, chain, hbases, hlayer, hvalues⟩

end Config

end ScopedCheck
