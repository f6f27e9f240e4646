import ScopedCheck.Proofs.TempConfig.BareImports
/-! # What import patterns lead to

A bare specifier stands for what the most specific import pattern that it matches leads to. The targets
of the pattern are tried one after the other, and one that leads into an installed package or nowhere
is passed over. Two kinds of bare specifiers are left to others before any pattern is tried: those that
start with a number sign, which name something within a package, and those of blanks alone, which name
nothing. -/

namespace ScopedCheck.Import

open Std (TransCmp OrientedCmp)

namespace Alias

/-- The order in which import patterns are tried, criterion by criterion. -/
theorem order_eq_compareLex : order =
    compareLex (fun a b => compareOn specificity b a)
      (compareLex (fun a b => compareOn (fun c : Alias => c.pattern.utf8ByteSize) b a)
        (compareOn pattern)) := rfl

instance : TransCmp order :=
  have _ : TransCmp fun a b : Alias => compareOn specificity b a := TransCmp.opposite
  have _ : TransCmp fun a b : Alias => compareOn (fun c : Alias => c.pattern.utf8ByteSize) b a :=
    TransCmp.opposite
  order_eq_compareLex ▸ inferInstance

theorem order_total (a b : Alias) : ((order a b).isLE || (order b a).isLE) = true := by
  have hswap : order b a = (order a b).swap := OrientedCmp.eq_swap
  rw [hswap]
  cases order a b <;> rfl

theorem pairwise_ofPaths (paths : Entries (List String)) :
    (ofPaths paths).Pairwise fun a b => (order a b).isLE = true :=
  @List.pairwise_mergeSort Alias (fun a b => (order a b).isLE)
    (fun _ _ _ hab hbc => TransCmp.isLE_trans hab hbc) order_total _

/-- An import pattern that a specifier matches, with what stands for its star. No other pattern that the
specifier matches comes before it. -/
structure IsBest (paths : Entries (List String)) (specifier : String) (a : Alias) (wildcard : String) :
    Prop where
  stands : ∃ entry ∈ paths, entry.2 ≠ [] ∧ ofEntry entry = a
  fits : a.match? specifier = some wildcard
  first : ∀ entry ∈ paths, entry.2 ≠ [] → ((ofEntry entry).match? specifier).isSome = true →
    (order a (ofEntry entry)).isLE = true

/-- What is selected is the best pattern. -/
theorem isBest_of_select {paths : Entries (List String)} {specifier : String} {a : Alias}
    {wildcard : String} (h : select (ofPaths paths) specifier = some (a, wildcard)) :
    IsBest paths specifier a wildcard := by
  obtain ⟨before, best, behind, hpaths, hbest, hbefore⟩ := List.findSome?_eq_some_iff.mp h
  obtain ⟨wildcard', hfits, heq⟩ := Option.map_eq_some_iff.mp hbest
  obtain ⟨rfl, rfl⟩ := Prod.mk.inj heq
  have hmem : best ∈ ofPaths paths := by rw [hpaths]; simp
  refine ⟨mem_ofPaths.mp hmem, hfits, fun entry hentry hsome hmatch => ?_⟩
  have hsorted := pairwise_ofPaths paths
  have hin : ofEntry entry ∈ ofPaths paths := mem_ofPaths.mpr ⟨entry, hentry, hsome, rfl⟩
  rw [hpaths] at hsorted hin
  rcases List.mem_append.mp hin with hearlier | hlater
  · -- a pattern before the selected one was tried and did not match
    rw [Option.map_eq_none_iff.mp (hbefore _ hearlier)] at hmatch
    cases hmatch
  · rcases List.mem_cons.mp hlater with hsame | hlater
    · rw [hsame, show order best best = .eq from Std.ReflCmp.compare_self]
      rfl
    · exact List.rel_of_pairwise_cons (List.pairwise_append.mp hsorted).2.1 hlater

/-- A pattern is selected if any of those that stand for something matches. -/
theorem exists_select {paths : Entries (List String)} {specifier : String}
    (h : ∃ entry ∈ paths, entry.2 ≠ [] ∧ ((ofEntry entry).match? specifier).isSome = true) :
    ∃ a wildcard, select (ofPaths paths) specifier = some (a, wildcard) := by
  obtain ⟨entry, hentry, hsome, hmatch⟩ := h
  cases hselect : select (ofPaths paths) specifier with
  | some found => exact ⟨found.1, found.2, rfl⟩
  | none =>
      rw [select_ofPaths_eq_none_iff.mp hselect entry hentry hsome] at hmatch
      cases hmatch

end Alias

namespace Resolver

/-- A path leads to a file outside of installed packages: the first of its candidates that is there. -/
def Finds (r : Resolver) (tree : FileTree) (path found : Path) : Prop :=
  ∃ before behind, r.candidates path = before ++ found :: behind ∧
    (∀ candidate ∈ before, tree.isFile candidate = false) ∧
    tree.isFile found = true ∧ found.isInPackages = false

theorem finds_iff {r : Resolver} {tree : FileTree} {path found : Path} :
    r.Finds tree path found ↔ (r.atPath tree path).file? = some found := by
  unfold atPath
  constructor
  · rintro ⟨before, behind, hcandidates, hbefore, hfile, hout⟩
    have hfirst : (r.candidates path).find? tree.isFile = some found := by
      refine List.find?_eq_some_iff_append.mpr ⟨hfile, before, behind, hcandidates, fun c hc => ?_⟩
      rw [hbefore c hc]
      rfl
    rw [hfirst]
    simp only [hout, Bool.false_eq_true, if_false]
    rfl
  · intro h
    split at h
    · rename_i first hfirst
      split at h
      · cases h
      · rename_i hout
        obtain rfl := Option.some.inj h
        obtain ⟨hfile, before, behind, hcandidates, hbefore⟩ := List.find?_eq_some_iff_append.mp hfirst
        exact ⟨before, behind, hcandidates, fun c hc => by simpa using hbefore c hc, hfile,
          Bool.eq_false_iff.mpr hout⟩
    · cases h

-- of a directory the first index file that is there is found
example : (atPath (ofConfig { configPath := ⟨"/p/tsconfig.json"⟩ })
    ⟨[("p".toList, .dir [("lib".toList, .dir [FileTree.textEntry "index.d.ts" "",
      FileTree.textEntry "index.tsx" ""])])]⟩ ⟨"/p/lib"⟩).file? = some ⟨"/p/lib/index.tsx"⟩ := by
  decide +kernel

/-- The first of several targets that leads to a file, with its star filled in, leads to this one. -/
def FindsFirst (r : Resolver) (tree : FileTree) (wildcard : String) (targets : List String)
    (found : Path) : Prop :=
  ∃ before target behind, targets = before ++ target :: behind ∧
    (∀ passed ∈ before, ∀ other, ¬r.Finds tree (r.filled passed wildcard) other) ∧
    r.Finds tree (r.filled target wildcard) found

theorem findsFirst_iff {r : Resolver} {tree : FileTree} {wildcard : String} {targets : List String}
    {found : Path} : r.FindsFirst tree wildcard targets found ↔
      targets.findSome? (fun target => (r.atPath tree (r.filled target wildcard)).file?) = some found := by
  simp only [FindsFirst, finds_iff, List.findSome?_eq_some_iff, Option.eq_none_iff_forall_ne_some,
    and_comm]

/-- If any target leads to a file then some target is the first one that does. -/
theorem exists_findsFirst {r : Resolver} {tree : FileTree} {wildcard : String} {targets : List String}
    {target : String} (htarget : target ∈ targets) {found : Path}
    (h : r.Finds tree (r.filled target wildcard) found) :
    ∃ first, r.FindsFirst tree wildcard targets first := by
  simp only [findsFirst_iff]
  refine Option.isSome_iff_exists.mp (List.findSome?_isSome_iff.mpr ⟨target, htarget, ?_⟩)
  rw [finds_iff.mp h]
  rfl

/-- Import patterns are honoured for a specifier: if one of them matches, then the best of them decides
what the specifier stands for, in whatever file it is used, as soon as one of its targets leads to a
file. -/
def Honours (config : Config) (tree : FileTree) (fromFile : Path) (specifier : String) : Prop :=
  ∀ paths, config.options.paths = some paths →
    (∃ entry ∈ paths, entry.2 ≠ [] ∧
      ((Alias.ofEntry entry).match? (Alias.plain specifier)).isSome = true) →
    ∃ a wildcard, Alias.IsBest paths (Alias.plain specifier) a wildcard ∧
      ∀ target ∈ a.targets, ∀ found,
        (ofConfig config).Finds tree ((ofConfig config).filled target wildcard) found →
        ∃ first, (ofConfig config).FindsFirst tree wildcard a.targets first ∧
          (ofConfig config).resolve tree fromFile specifier = .file first

/-- What the targets of the selected pattern lead to is what a bare specifier stands for, unless it is
left to a package or names nothing. -/
theorem resolve_of_findsFirst {r : Resolver} {tree : FileTree} {specifier : String}
    (hbare : isBare specifier = true) (hnamed : (Alias.plain specifier).isEmpty = false)
    (hown : Text.startsWith (Alias.plain specifier) "#" = false) {a : Alias} {wildcard : String}
    (hselect : Alias.select r.aliases (Alias.plain specifier) = some (a, wildcard)) {found : Path}
    (h : r.FindsFirst tree wildcard a.targets found) (fromFile : Path) :
    r.resolve tree fromFile specifier = .file found := by
  simp only [isBare, Bool.and_eq_true, Bool.not_eq_true'] at hbare
  have halias : r.byAlias tree (Alias.plain specifier) = some found := by
    rw [byAlias, hselect, Option.bind_some, findsFirst_iff.mp h]
  simp only [resolve, hnamed, hown, hbare, halias, Bool.false_eq_true, if_false]
  rfl

/-- Import patterns are honoured for every bare specifier that names something and does not start with a
number sign. -/
theorem honours_of_isBare (config : Config) (tree : FileTree) (fromFile : Path) {specifier : String}
    (hbare : isBare specifier = true) (hnamed : Alias.plain specifier ≠ "")
    (hown : Text.startsWith (Alias.plain specifier) "#" = false) :
    Honours config tree fromFile specifier := by
  intro paths hpaths hmatch
  obtain ⟨a, wildcard, hselect⟩ := Alias.exists_select hmatch
  have haliases : (ofConfig config).aliases = Alias.ofPaths paths := by
    simp only [ofConfig, hpaths, Option.map_some, Option.getD_some]
  refine ⟨a, wildcard, Alias.isBest_of_select hselect, fun target htarget found hfound => ?_⟩
  obtain ⟨first, hfirst⟩ := exists_findsFirst htarget hfound
  have hnonempty : (Alias.plain specifier).isEmpty = false := by
    rwa [Bool.eq_false_iff, ne_eq, String.isEmpty_iff]
  exact ⟨first, hfirst,
    resolve_of_findsFirst hbare hnonempty hown (haliases ▸ hselect) hfirst fromFile⟩

/-- A project in which a name stands for a file in several directories. -/
def aliasedProject : FileTree :=
  ⟨[("p".toList, .dir [FileTree.textEntry "a.ts" "",
    ("lib".toList, .dir [FileTree.textEntry "x.ts" ""]),
    ("node_modules".toList, .dir [FileTree.textEntry "x.ts" ""]),
    ("src".toList, .dir [FileTree.textEntry "x.ts" "", FileTree.textEntry "index.ts" ""])])]⟩

/-- A config of the project with import patterns. -/
def aliasConfig (paths : Entries (List String)) : Config :=
  { configPath := ⟨"/p/tsconfig.json"⟩, options := { paths := some paths } }

/-- Import patterns of which two match the same specifiers. -/
def nestedPaths : Entries (List String) :=
  [("*", ["./lib/*"]), ("@/*", ["./gone/*", "./node_modules/*", "./src/*"])]

/-- The longer one of two patterns decides. Its first target leads nowhere and its second one into an
installed package. -/
theorem honours_in_aliasedProject :
    isBare "@/x" = true ∧ Alias.plain "@/x" ≠ "" ∧
      Text.startsWith (Alias.plain "@/x") "#" = false ∧
      ∃ a, a.pattern = "@/*" ∧ Alias.IsBest nestedPaths (Alias.plain "@/x") a "x" ∧
        (ofConfig (aliasConfig nestedPaths)).FindsFirst aliasedProject "x" a.targets ⟨"/p/src/x.ts"⟩ ∧
        (ofConfig (aliasConfig nestedPaths)).resolve aliasedProject ⟨"/p/a.ts"⟩ "@/x" =
          .file ⟨"/p/src/x.ts"⟩ := by
  have hbare : isBare "@/x" = true := by decide +kernel
  have hnamed : Alias.plain "@/x" ≠ "" := by decide +kernel
  have hown : Text.startsWith (Alias.plain "@/x") "#" = false := by decide +kernel
  have hmatch : ∃ entry ∈ nestedPaths, entry.2 ≠ [] ∧
      ((Alias.ofEntry entry).match? (Alias.plain "@/x")).isSome = true := by decide +kernel
  obtain ⟨a, wildcard, hbest, hhonours⟩ := honours_of_isBare (aliasConfig nestedPaths) aliasedProject
    ⟨"/p/a.ts"⟩ hbare hnamed hown _ rfl hmatch
  -- the pattern of a single star comes behind the other one
  have hlonger : ∀ entry ∈ nestedPaths,
      (Alias.order (Alias.ofEntry entry) (Alias.ofEntry nestedPaths[1])).isLE = true →
      entry = nestedPaths[1] := by decide +kernel
  obtain ⟨entry, hentry, -, rfl⟩ := hbest.stands
  obtain rfl := hlonger entry hentry
    (hbest.first nestedPaths[1] (by decide +kernel) (by decide +kernel) (by decide +kernel))
  obtain rfl : "x" = wildcard := Option.some.inj (Eq.trans (by decide +kernel) hbest.fits)
  obtain ⟨first, hfirst, hresolve⟩ := hhonours "./src/*" (by decide +kernel) ⟨"/p/src/x.ts"⟩
    (finds_iff.mpr (by decide +kernel))
  have hsource : (ofConfig (aliasConfig nestedPaths)).FindsFirst aliasedProject "x"
      (Alias.ofEntry nestedPaths[1]).targets ⟨"/p/src/x.ts"⟩ := findsFirst_iff.mpr (by decide +kernel)
  obtain rfl := Option.some.inj ((findsFirst_iff.mp hfirst).symm.trans (findsFirst_iff.mp hsource))
  exact ⟨hbare, hnamed, hown, _, by decide +kernel, hbest, hsource, hresolve⟩

/-- A specifier that a single pattern matches stands for a file if patterns are honoured for it and the
target of this one leads to a file. -/
theorem Honours.exists_file {pattern target specifier : String} {tree : FileTree} {fromFile : Path}
    (wildcard : String) (found : Path) (h : Honours (aliasConfig [(pattern, [target])]) tree fromFile specifier)
    (hfits : (Alias.ofEntry (pattern, [target])).match? (Alias.plain specifier) = some wildcard)
    (hfound : ((ofConfig (aliasConfig [(pattern, [target])])).atPath tree
      ((ofConfig (aliasConfig [(pattern, [target])])).filled (Alias.plain target) wildcard)).file? =
        some found) :
    ∃ first,
      (ofConfig (aliasConfig [(pattern, [target])])).resolve tree fromFile specifier = .file first := by
  obtain ⟨a, wildcard', hbest, hhonours⟩ := h _ rfl ⟨_, List.mem_singleton_self _, by simp, by simp [hfits]⟩
  obtain ⟨entry, hentry, -, rfl⟩ := hbest.stands
  obtain rfl := List.mem_singleton.mp hentry
  obtain rfl := Option.some.inj (hfits.symm.trans hbest.fits)
  obtain ⟨first, -, hresolve⟩ :=
    hhonours (Alias.plain target) (by simp [Alias.ofEntry]) found (finds_iff.mpr hfound)
  exact ⟨first, hresolve⟩

/-- A specifier that starts with a number sign and the empty one match patterns whose targets lead to
files, and yet the first one is left to a package and the second one stands for nothing. -/
theorem marked_and_empty_specifiers_are_not_honoured :
    (isBare "#/x" = true ∧
      ¬Honours (aliasConfig [("#/*", ["./src/*"])]) aliasedProject ⟨"/p/a.ts"⟩ "#/x") ∧
      isBare "" = true ∧
      ¬Honours (aliasConfig [("*", ["./src/*"])]) aliasedProject ⟨"/p/a.ts"⟩ "" := by
  refine ⟨⟨by decide +kernel, fun h => ?_⟩, by decide +kernel, fun h => ?_⟩
  · have hpackage : (ofConfig (aliasConfig [("#/*", ["./src/*"])])).resolve aliasedProject ⟨"/p/a.ts"⟩
        "#/x" = .external := by decide +kernel
    obtain ⟨first, hfile⟩ :=
      Honours.exists_file "x" ⟨"/p/src/x.ts"⟩ h (by decide +kernel) (by decide +kernel)
    rw [hpackage] at hfile
    cases hfile
  · have hnothing : (ofConfig (aliasConfig [("*", ["./src/*"])])).resolve aliasedProject ⟨"/p/a.ts"⟩
        "" = .unresolved := by decide +kernel
    obtain ⟨first, hfile⟩ :=
      Honours.exists_file "" ⟨"/p/src/index.ts"⟩ h (by decide +kernel) (by decide +kernel)
    rw [hnothing] at hfile
    cases hfile

end Resolver

end ScopedCheck.Import
