import Mathlib.Data.List.Nodup
import Mathlib.Data.List.TakeWhile
import Mathlib.Data.String.Basic
import ScopedCheck.Proofs.Import.Aliases
/-! # Which import pattern is selected

The pattern that is selected fits the specifier, and no pattern that fits lays down more of it. Where
patterns are different as they count, the order of the entries does not matter. A pattern with a star whose
star stands for nothing lays down as much as the specifier itself as a pattern, and comes first. -/

namespace ScopedCheck.Import.Alias

/-! ## Fitting -/

/-- A pattern fits a specifier: a wildcard stands for its first star, or it has no star and is the
specifier. -/
inductive Fits (pattern : String) : (specifier wildcard : String) → Prop
  | star {before behind : String} (wildcard : String) (h : pattern = before ++ "*" ++ behind)
      (hfirst : '*' ∉ before.toList) : Fits pattern (before ++ wildcard ++ behind) wildcard
  | exact (h : '*' ∉ pattern.toList) : Fits pattern pattern ""

theorem aroundStar_append {before : List Char} (h : '*' ∉ before) (behind : List Char) :
    aroundStar (before ++ '*' :: behind) = (before, behind) := by
  have hbefore : ∀ c ∈ before, (c != '*') = true := fun c hc => by
    simpa using fun heq : c = '*' => h (heq ▸ hc)
  have hspan : (before ++ '*' :: behind).span (· != '*') = (before, '*' :: behind) := by
    rw [List.span_eq_takeWhile_dropWhile, List.takeWhile_append_of_pos hbefore,
      List.dropWhile_append_of_pos hbefore]
    simp
  simp only [aroundStar, hspan]

theorem aroundStar_of_notMem {pattern : List Char} (h : '*' ∉ pattern) :
    aroundStar pattern = (pattern, []) := by
  have hspan : pattern.span (· != '*') = (pattern, []) := by
    rw [List.span_eq_takeWhile_dropWhile]
    have hall : ∀ c ∈ pattern, (c != '*') = true := fun c hc => by
      simpa using fun heq : c = '*' => h (heq ▸ hc)
    rw [List.takeWhile_eq_self_iff.mpr hall, List.dropWhile_eq_nil_iff.mpr hall]
  simp only [aroundStar, hspan]

theorem pattern_ofEntry_eq (entry : String × List String) : (ofEntry entry).pattern = plain entry.1 := rfl

/-- A pattern is cut at its first star. -/
theorem around_ofEntry {entry : String × List String} {before behind : String}
    (h : plain entry.1 = before ++ "*" ++ behind) (hfirst : '*' ∉ before.toList) :
    (ofEntry entry).before = before ∧ (ofEntry entry).behind = behind := by
  have hchars : (plain entry.1).toList = before.toList ++ '*' :: behind.toList := by simp [h]
  simp [ofEntry, hchars, aroundStar_append hfirst]

/-- A pattern with a star is what stands around the star, with the star in between. -/
theorem pattern_ofEntry {entry : String × List String} (h : '*' ∈ (plain entry.1).toList) :
    plain entry.1 = (ofEntry entry).before ++ "*" ++ (ofEntry entry).behind ∧
      '*' ∉ (ofEntry entry).before.toList := by
  obtain ⟨before, behind, hchars, hfirst⟩ := List.eq_append_cons_of_mem h
  have hpattern : plain entry.1 = String.ofList before ++ "*" ++ String.ofList behind :=
    String.toList_inj.mp (by simpa using hchars)
  obtain ⟨hbefore, hbehind⟩ := around_ofEntry hpattern (by simpa using hfirst)
  rw [hbefore, hbehind]
  exact ⟨hpattern, by simpa using hfirst⟩

/-- A pattern without a star is laid down as a whole. -/
theorem before_ofEntry {entry : String × List String} (h : '*' ∉ (plain entry.1).toList) :
    (ofEntry entry).before = plain entry.1 ∧ (ofEntry entry).behind = "" := by
  simp [ofEntry, aroundStar_of_notMem h]

theorem hasStar_ofEntry (entry : String × List String) :
    (ofEntry entry).hasStar = true ↔ '*' ∈ (plain entry.1).toList := by
  simp [hasStar, ofEntry]

/-! ## Cutting by bytes -/

/-- Where what stands for the star starts, in bytes. -/
def start (a : Alias) : String.Pos.Raw := ⟨a.before.utf8ByteSize⟩

/-- Where what stands for the star stops in a specifier, in bytes. -/
def stop (a : Alias) (specifier : String) : String.Pos.Raw :=
  ⟨specifier.utf8ByteSize - a.behind.utf8ByteSize⟩

/-- Whether a specifier starts and ends as a pattern does, and neither reaches into the other. -/
def Surrounds (a : Alias) (specifier : String) : Prop :=
  Text.startsWith specifier a.before = true ∧ Text.endsWith specifier a.behind = true ∧
    a.start ≤ a.stop specifier

instance (a : Alias) (specifier : String) : Decidable (a.Surrounds specifier) :=
  inferInstanceAs (Decidable (_ ∧ _ ∧ _))

/-- What stands for the star, cut out of the specifier by bytes. -/
def cut? (a : Alias) (specifier : String) : Option String :=
  if a.Surrounds specifier then some (String.Pos.Raw.extract specifier a.start (a.stop specifier)) else none

/-- A specifier that a pattern surrounds is the start, something and the end. -/
theorem surrounds_iff {a : Alias} {specifier : String} :
    a.Surrounds specifier ↔ ∃ wildcard, specifier = a.before ++ wildcard ++ a.behind := by
  constructor
  · rintro ⟨hstart, hend, hle⟩
    have hbefore := List.isPrefixOf_iff_prefix.mp hstart
    obtain ⟨front, hfront⟩ := List.isSuffixOf_iff_suffix.mp hend
    have hsize : String.utf8Len a.before.toList ≤ String.utf8Len front := by
      have hall := congrArg String.utf8Len hfront
      rw [String.utf8Len_append, String.utf8Len_toList, String.utf8Len_toList] at hall
      rw [start, stop, String.Pos.Raw.le_iff] at hle
      rw [String.utf8Len_toList]
      simp only at hle
      omega
    -- what stands in front of the end is not shorter than the start, which it therefore goes on from
    obtain ⟨wildcard, hwildcard⟩ : a.before.toList <+: front := by
      rcases List.prefix_or_prefix_of_prefix hbefore ⟨_, hfront⟩ with h | ⟨extra, hextra⟩
      · exact h
      · have hnone : extra = [] := by
          rw [← hextra, String.utf8Len_append] at hsize
          exact String.utf8Len_eq_zero.mp (by omega)
        rw [← hextra, hnone, List.append_nil]
    refine ⟨String.ofList wildcard, String.toList_inj.mp ?_⟩
    rw [String.toList_append, String.toList_append, String.toList_ofList, hwildcard, hfront]
  · rintro ⟨wildcard, rfl⟩
    refine ⟨?_, ?_, ?_⟩
    · simp [Text.startsWith]
    · simp [Text.endsWith, -List.append_assoc]
    · simp only [start, stop, String.Pos.Raw.le_iff, String.utf8ByteSize_append]
      omega

/-- The cut lies between characters of the specifier. -/
theorem Surrounds.inRange {a : Alias} {specifier : String} (h : a.Surrounds specifier) :
    a.start.IsValid specifier ∧ (a.stop specifier).IsValid specifier ∧ a.start ≤ a.stop specifier := by
  refine ⟨?_, ?_, h.2.2⟩
  · obtain ⟨wildcard, rfl⟩ := surrounds_iff.mp h
    exact String.Pos.Raw.isValid_iff_exists_append.mpr
      ⟨a.before, wildcard ++ a.behind, String.append_assoc .., rfl⟩
  · obtain ⟨wildcard, rfl⟩ := surrounds_iff.mp h
    refine String.Pos.Raw.isValid_iff_exists_append.mpr ⟨a.before ++ wildcard, a.behind, rfl, ?_⟩
    ext
    simp [stop]

/-- What is cut out is what stands between the start and the end. -/
theorem cut?_append (a : Alias) (wildcard : String) :
    a.cut? (a.before ++ wildcard ++ a.behind) = some wildcard := by
  have hcut := String.extract_of_valid a.before.toList wildcard.toList a.behind.toList
  have hstop : a.stop (a.before ++ wildcard ++ a.behind) =
      ⟨a.before.utf8ByteSize + wildcard.utf8ByteSize⟩ := by
    simp only [stop, String.utf8ByteSize_append, Nat.add_sub_cancel]
  rw [cut?, if_pos (surrounds_iff.mpr ⟨wildcard, rfl⟩), hstop]
  simpa [start, ← String.append_assoc] using hcut

/-- The part between a start and an end is what makes the text together with them. -/
theorem between?_eq_some_iff {s start ending found : List Char} :
    Text.between? s start ending = some found ↔ s = start ++ (found ++ ending) := by
  have hmiddle : ∀ middle : List Char,
      (((start ++ (middle ++ ending)).drop start.length).take
        ((start ++ (middle ++ ending)).length - start.length - ending.length)) = middle := by
    intro middle
    rw [List.drop_left, List.length_append, Nat.add_sub_cancel_left, List.length_append,
      Nat.add_sub_cancel, List.take_left]
  unfold Text.between?
  constructor
  · intro h
    split at h
    · rename_i hfits
      simp only [Bool.and_eq_true, decide_eq_true_eq] at hfits
      obtain ⟨⟨hstart, hend⟩, hlength⟩ := hfits
      obtain ⟨front, hfront⟩ := List.isSuffixOf_iff_suffix.mp hend
      have hroom : start.length ≤ front.length := by
        rw [← hfront, List.length_append] at hlength
        omega
      obtain ⟨middle, rfl⟩ := List.prefix_of_prefix_length_le (List.isPrefixOf_iff_prefix.mp hstart)
        ⟨_, hfront⟩ hroom
      rw [List.append_assoc] at hfront
      subst hfront
      rw [hmiddle] at h
      rw [Option.some.inj h]
    · cases h
  · rintro rfl
    rw [hmiddle]
    refine if_pos ?_
    simp only [Bool.and_eq_true, decide_eq_true_eq, List.isPrefixOf_iff_prefix,
      List.isSuffixOf_iff_suffix, List.length_append]
    refine ⟨⟨List.prefix_append _ _, ?_⟩, by omega⟩
    rw [← List.append_assoc]
    exact List.suffix_append _ _

/-- What stands for the star is what stands between the start and the end. -/
theorem match?_eq_some_iff {a : Alias} (h : a.hasStar = true) {specifier wildcard : String} :
    a.match? specifier = some wildcard ↔ specifier = a.before ++ wildcard ++ a.behind := by
  rw [match?, if_pos h, Option.map_eq_some_iff]
  constructor
  · rintro ⟨found, hfound, rfl⟩
    rw [between?_eq_some_iff] at hfound
    exact String.toList_inj.mp (by simpa using hfound)
  · rintro rfl
    exact ⟨wildcard.toList, between?_eq_some_iff.mpr (by simp), String.ofList_toList⟩

-- start and end share a character, and nothing is left for the star
example : (ofEntry ("ab*ba", [])).match? "aba" = none ∧ (ofEntry ("ab*ba", [])).match? "abba" = some "" := by
  decide +kernel

/-- A pattern without a star matches itself. -/
theorem match?_eq_some_iff_of_exact {a : Alias} (h : a.hasStar = false) {specifier wildcard : String} :
    a.match? specifier = some wildcard ↔ a.pattern = specifier ∧ wildcard = "" := by
  rw [match?, h]
  simp only [Bool.false_eq_true, if_false]
  constructor
  · intro hmatch
    split at hmatch
    · rename_i hsame
      exact ⟨hsame, (Option.some.inj hmatch).symm⟩
    · cases hmatch
  · rintro ⟨hsame, rfl⟩
    exact if_pos hsame

/-- What stands for the star is what is cut out by bytes. -/
theorem match?_eq_cut? {a : Alias} (h : a.hasStar = true) (specifier : String) :
    a.match? specifier = a.cut? specifier := by
  cases hmatch : a.match? specifier with
  | some wildcard => rw [(match?_eq_some_iff h).mp hmatch, cut?_append]
  | none =>
      refine (if_neg fun hsurrounds => ?_).symm
      obtain ⟨wildcard, hwildcard⟩ := surrounds_iff.mp hsurrounds
      rw [(match?_eq_some_iff h).mpr hwildcard] at hmatch
      cases hmatch

/-! ## The selected pattern -/

/-- A pattern matches the specifiers that it fits. -/
theorem match?_ofEntry_iff {entry : String × List String} {specifier wildcard : String} :
    (ofEntry entry).match? specifier = some wildcard ↔ Fits (plain entry.1) specifier wildcard := by
  by_cases hstar : '*' ∈ (plain entry.1).toList
  · rw [match?_eq_some_iff ((hasStar_ofEntry entry).mpr hstar)]
    constructor
    · rintro rfl
      obtain ⟨hpattern, hfirst⟩ := pattern_ofEntry hstar
      exact .star wildcard hpattern hfirst
    · rintro (⟨_, hpattern, hfirst⟩ | hnone)
      · obtain ⟨hbefore, hbehind⟩ := around_ofEntry hpattern hfirst
        rw [hbefore, hbehind]
      · exact absurd hstar hnone
  · have hnone : (ofEntry entry).hasStar = false := by
      rw [Bool.eq_false_iff, ne_eq, hasStar_ofEntry]
      exact hstar
    rw [match?_eq_some_iff_of_exact hnone]
    constructor
    · rintro ⟨rfl, rfl⟩
      exact .exact hstar
    · rintro (⟨_, hpattern, -⟩ | -)
      · exact absurd (by simp [hpattern]) hstar
      · exact ⟨rfl, rfl⟩

theorem isSome_match?_ofEntry_iff {entry : String × List String} {specifier : String} :
    ((ofEntry entry).match? specifier).isSome = true ↔ ∃ wildcard, Fits (plain entry.1) specifier wildcard := by
  simp only [Option.isSome_iff_exists, match?_ofEntry_iff]

/-- A pattern that comes first is at least as specific. -/
theorem specificity_le_of_order {a b : Alias} (h : (order a b).isLE = true) :
    b.specificity ≤ a.specificity := by
  have hfirst := Ordering.isLE_left_of_isLE_then h
  exact Nat.isLE_compare.mp hfirst

/-- Patterns of which neither comes before the other are the same text. -/
theorem pattern_eq_of_order {a b : Alias} (hab : (order a b).isLE = true)
    (hba : (order b a).isLE = true) : a.pattern = b.pattern := by
  have heq : order a b = .eq := Std.OrientedCmp.isLE_antisymm hab hba
  simp only [order, Ordering.then_eq_eq] at heq
  exact Std.LawfulEqCmp.eq_of_compare heq.2.2

/-- A specifier is what the pattern lays down, and what stands for the star. -/
theorem size_of_match {a : Alias} (h : a.hasStar = true) {specifier wildcard : String}
    (hmatch : a.match? specifier = some wildcard) :
    specifier.utf8ByteSize = a.specificity + wildcard.utf8ByteSize := by
  rw [(match?_eq_some_iff h).mp hmatch, String.utf8ByteSize_append, String.utf8ByteSize_append, specificity]
  omega

/-- Patterns that are different as they count are tried in one order, whatever order their entries are
in. -/
theorem ofPaths_perm {paths other : Entries (List String)} (hperm : other.Perm paths)
    (hdistinct : (paths.map fun entry => plain entry.1).Nodup) : ofPaths other = ofPaths paths := by
  have hentries := (hperm.filter fun entry => !entry.2.isEmpty).map ofEntry
  have hsame : (ofPaths other).Perm (ofPaths paths) :=
    (List.mergeSort_perm _ _).trans (hentries.trans (List.mergeSort_perm _ _).symm)
  refine hsame.eq_of_pairwise (fun a b ha hb hab hba => ?_) (pairwise_ofPaths other) (pairwise_ofPaths paths)
  obtain ⟨entry, hentry, -, rfl⟩ := mem_ofPaths.mp (hsame.mem_iff.mp ha)
  obtain ⟨entry', hentry', -, rfl⟩ := mem_ofPaths.mp hb
  have hpattern : (ofEntry entry).pattern = (ofEntry entry').pattern := pattern_eq_of_order hab hba
  rw [List.inj_on_of_nodup_map hdistinct hentry hentry' hpattern]

/-- What is selected for a specifier among the patterns of a config. -/
structure SelectsBest (paths : Entries (List String)) (specifier : String) : Prop where
  /-- Something is selected if there is a pattern that fits and stands for something. -/
  isSome : (select (ofPaths paths) specifier).isSome = true ↔
    ∃ entry ∈ paths, entry.2 ≠ [] ∧ ∃ wildcard, Fits (plain entry.1) specifier wildcard
  stands : ∀ a wildcard, select (ofPaths paths) specifier = some (a, wildcard) →
    (∃ entry ∈ paths, entry.2 ≠ [] ∧ ofEntry entry = a) ∧ Fits a.pattern specifier wildcard
  /-- No pattern that fits lays down more of the specifier. -/
  most : ∀ a wildcard, select (ofPaths paths) specifier = some (a, wildcard) → ∀ entry ∈ paths,
    entry.2 ≠ [] → (∃ other, Fits (plain entry.1) specifier other) →
      (ofEntry entry).specificity ≤ a.specificity
  /-- What stands for the star makes the specifier again. -/
  restores : ∀ a wildcard, select (ofPaths paths) specifier = some (a, wildcard) →
    if a.hasStar then a.before ++ wildcard ++ a.behind = specifier
    else a.pattern = specifier ∧ wildcard = ""
  /-- What stands for the star may be cut out by bytes, and is cut between characters. -/
  inRange : ∀ entry ∈ paths, (ofEntry entry).hasStar = true →
    (ofEntry entry).match? specifier = (ofEntry entry).cut? specifier ∧
      ((ofEntry entry).Surrounds specifier →
        (ofEntry entry).start.IsValid specifier ∧ ((ofEntry entry).stop specifier).IsValid specifier ∧
          (ofEntry entry).start ≤ (ofEntry entry).stop specifier)
  anyOrder : (paths.map fun entry => plain entry.1).Nodup → ∀ other : Entries (List String),
    other.Perm paths → select (ofPaths other) specifier = select (ofPaths paths) specifier

theorem selectsBest (paths : Entries (List String)) (specifier : String) :
    SelectsBest paths specifier where
  isSome := by
    constructor
    · intro h
      obtain ⟨⟨a, wildcard⟩, hselect⟩ := Option.isSome_iff_exists.mp h
      have hbest := isBest_of_select hselect
      obtain ⟨entry, hentry, hsome, rfl⟩ := hbest.stands
      exact ⟨entry, hentry, hsome, wildcard, match?_ofEntry_iff.mp hbest.fits⟩
    · rintro ⟨entry, hentry, hsome, hfits⟩
      obtain ⟨a, wildcard, hselect⟩ :=
        exists_select ⟨entry, hentry, hsome, isSome_match?_ofEntry_iff.mpr hfits⟩
      rw [hselect]
      rfl
  stands := by
    intro a wildcard hselect
    have hbest := isBest_of_select hselect
    obtain ⟨entry, hentry, hsome, rfl⟩ := hbest.stands
    exact ⟨⟨entry, hentry, hsome, rfl⟩, match?_ofEntry_iff.mp hbest.fits⟩
  most := fun a wildcard hselect entry hentry hsome hfits =>
    specificity_le_of_order
      ((isBest_of_select hselect).first entry hentry hsome (isSome_match?_ofEntry_iff.mpr hfits))
  restores := by
    intro a wildcard hselect
    have hfits := (isBest_of_select hselect).fits
    split
    · rename_i hstar
      exact ((match?_eq_some_iff hstar).mp hfits).symm
    · rename_i hstar
      exact (match?_eq_some_iff_of_exact (Bool.eq_false_iff.mpr hstar)).mp hfits
  inRange := fun _ _ hstar => ⟨match?_eq_cut? hstar specifier, Surrounds.inRange⟩
  anyOrder := fun hdistinct other hperm => by rw [ofPaths_perm hperm hdistinct]

/-! ## Patterns without a star -/

/-- Only slashes are new in what counts of a pattern. -/
theorem mem_plain {c : Char} {text : String} (h : c ∈ (plain text).toList) : c ∈ text.toList ∨ c = '/' := by
  have hmem : ∀ d ∈ (Text.trimmed text).toList, d ∈ text.toList := fun d hd => by
    rw [Text.trimmed, String.toList_ofList, Text.trim, Text.trimEnd, Text.dropTail, List.mem_reverse] at hd
    exact (List.dropWhile_sublist _).mem (List.mem_reverse.mp ((List.dropWhile_sublist _).mem hd))
  rw [plain, Text.forwardSlashes, Text.replaceChar, String.toList_ofList, List.mem_map] at h
  obtain ⟨d, hd, rfl⟩ := h
  split
  · exact .inr rfl
  · exact .inl (hmem d hd)

/-- Patterns of the same text are not told apart. -/
theorem order_of_plain_eq {entry entry' : String × List String} (h : plain entry.1 = plain entry'.1) :
    order (ofEntry entry) (ofEntry entry') = .eq := by
  simp [order, specificity, ofEntry, h]

/-- Patterns of the same text are tried in the order that their entries are in. -/
theorem filter_ofPaths (paths : Entries (List String)) (pattern : String) :
    (ofPaths paths).filter (·.pattern = pattern) =
      ((paths.filter (!·.2.isEmpty)).map ofEntry).filter (·.pattern = pattern) := by
  set entries := (paths.filter (!·.2.isEmpty)).map ofEntry with hentries
  have hequal : (entries.filter (·.pattern = pattern)).Pairwise fun a b => (order a b).isLE = true := by
    refine List.pairwise_of_forall_mem_list fun a ha b hb => ?_
    simp only [hentries, List.mem_filter, List.mem_map, decide_eq_true_eq] at ha hb
    obtain ⟨⟨entry, -, rfl⟩, hpattern⟩ := ha
    obtain ⟨⟨entry', -, rfl⟩, hpattern'⟩ := hb
    rw [order_of_plain_eq (hpattern.trans hpattern'.symm)]
    rfl
  have hsub : (entries.filter (·.pattern = pattern)).Sublist (ofPaths paths) :=
    List.sublist_mergeSort (fun _ _ _ => Std.TransCmp.isLE_trans) order_total hequal List.filter_sublist
  have hkept : (entries.filter (·.pattern = pattern)).Sublist
      ((ofPaths paths).filter (·.pattern = pattern)) := by
    simpa only [List.filter_filter, Bool.and_self] using hsub.filter (·.pattern = pattern)
  exact (hkept.eq_of_length ((List.mergeSort_perm _ _).filter _).length_eq.symm).symm

/-- The first entry that reads as a pattern is the first one of that text that is tried. -/
theorem find?_ofPaths {front rest : Entries (List String)} {entry : String × List String}
    (hsome : entry.2 ≠ [])
    (hfront : ∀ other ∈ front, other.2 ≠ [] → plain other.1 ≠ plain entry.1) :
    (ofPaths (front ++ entry :: rest)).find? (·.pattern = plain entry.1) = some (ofEntry entry) := by
  rw [← List.head?_filter, filter_ofPaths, List.head?_filter, List.find?_map, List.find?_filter,
    List.find?_eq_some_iff_append.mpr ⟨?_, front, rest, rfl, fun other hother => ?_⟩]
  · rfl
  · simpa only [Function.comp_apply, pattern_ofEntry_eq, Bool.not_eq_true', List.isEmpty_eq_false_iff,
      decide_true, and_true, decide_eq_true_eq] using hsome
  · simp only [Function.comp_apply, Bool.not_eq_true', List.isEmpty_eq_false_iff,
      decide_eq_false_iff_not, not_and]
    exact fun htargets hsame => hfront other hother htargets (of_decide_eq_true hsame)

theorem specificity_ofEntry {entry : String × List String} (h : '*' ∉ (plain entry.1).toList) :
    (ofEntry entry).specificity = (plain entry.1).utf8ByteSize := by
  rw [specificity, (before_ofEntry h).1, (before_ofEntry h).2, String.utf8ByteSize_empty, Nat.add_zero]

/-- What is selected for the text of a pattern without a star is this pattern, or has a star that stands
for nothing. -/
theorem select_plain {front rest : Entries (List String)} {entry : String × List String}
    (hexact : '*' ∉ (plain entry.1).toList) (hsome : entry.2 ≠ [])
    (hfront : ∀ other ∈ front, other.2 ≠ [] → plain other.1 ≠ plain entry.1) :
    ∃ a, select (ofPaths (front ++ entry :: rest)) (plain entry.1) = some (a, "") ∧
      a.before ++ a.behind = plain entry.1 ∧ (a.hasStar = true ∨ a = ofEntry entry) := by
  have hmem : entry ∈ front ++ entry :: rest := by simp
  have hmatch : (ofEntry entry).match? (plain entry.1) = some "" := match?_ofEntry_iff.mpr (.exact hexact)
  have hsomething := Option.isSome_iff_exists.mpr ⟨_, hmatch⟩
  obtain ⟨a, wildcard, hselect⟩ := exists_select ⟨entry, hmem, hsome, hsomething⟩
  have hbest := isBest_of_select hselect
  cases hstar : a.hasStar with
  | true =>
      have hsize := size_of_match hstar hbest.fits
      have hmost := specificity_le_of_order (hbest.first entry hmem hsome hsomething)
      rw [specificity_ofEntry hexact] at hmost
      obtain rfl : wildcard = "" := String.utf8ByteSize_eq_zero_iff.mp (by omega)
      have hwhole := (match?_eq_some_iff hstar).mp hbest.fits
      rw [String.append_empty] at hwhole
      exact ⟨a, hselect, hwhole.symm, .inl hstar⟩
  | false =>
      obtain ⟨hpattern, rfl⟩ := (match?_eq_some_iff_of_exact hstar).mp hbest.fits
      obtain rfl : a = ofEntry entry := by
        obtain ⟨before, first, behind, hpaths, hfirst, hbefore⟩ := List.findSome?_eq_some_iff.mp hselect
        obtain ⟨_, -, heq⟩ := Option.map_eq_some_iff.mp hfirst
        obtain ⟨rfl, -⟩ := Prod.mk.inj heq
        -- a pattern of the same text in front of the selected one would have matched
        have hfind : (ofPaths (front ++ entry :: rest)).find? (·.pattern = plain entry.1) = some first := by
          refine List.find?_eq_some_iff_append.mpr ⟨by simpa using hpattern, before, behind, hpaths, ?_⟩
          intro b hb
          have hnone : b.match? (plain entry.1) = none := Option.map_eq_none_iff.mp (hbefore b hb)
          simp only [Bool.not_eq_true', decide_eq_false_iff_not]
          intro hsame
          rw [(match?_eq_some_iff_of_exact ?_).mpr ⟨hsame, rfl⟩] at hnone
          · cases hnone
          · simpa [hasStar, hsame] using hexact
        exact Option.some.inj (hfind.symm.trans (find?_ofPaths hsome hfront))
      refine ⟨_, hselect, ?_, .inr rfl⟩
      rw [(before_ofEntry hexact).1, (before_ofEntry hexact).2, String.append_empty]

/-- A pattern with a star that stands for nothing comes before the same text as a pattern. -/
theorem not_order_of_star {exact starred : Alias} (hspecificity : exact.specificity = starred.specificity)
    (hlonger : exact.pattern.utf8ByteSize < starred.pattern.utf8ByteSize) :
    (order exact starred).isLE = false := by
  have hgt : compare starred.pattern.utf8ByteSize exact.pattern.utf8ByteSize = .gt :=
    Nat.compare_eq_gt.mpr hlonger
  simp [order, hspecificity, hgt]

/-- A pattern without a star is what is selected for its own text, unless a pattern with a star fits it
with nothing in the place of the star. Such a pattern comes first though it is the less exact one of the
two. In both cases the star, if there is one, stands for nothing. -/
theorem select_exact_iff {front rest : Entries (List String)} {entry : String × List String}
    (hexact : '*' ∉ entry.1.toList) (hsome : entry.2 ≠ [])
    (hfront : ∀ other ∈ front, other.2 ≠ [] → plain other.1 ≠ plain entry.1) :
    (∃ a, select (ofPaths (front ++ entry :: rest)) (plain entry.1) = some (a, "") ∧
        a.before ++ a.behind = plain entry.1) ∧
      (select (ofPaths (front ++ entry :: rest)) (plain entry.1) = some (ofEntry entry, "") ↔
        ∀ other ∈ front ++ entry :: rest, other.2 ≠ [] → ∀ before behind,
          plain other.1 = before ++ "*" ++ behind → before ++ behind ≠ plain entry.1) := by
  have hplain : '*' ∉ (plain entry.1).toList := fun h => (mem_plain h).elim hexact (by decide)
  obtain ⟨a, hselect, haround, hcases⟩ := @select_plain front rest entry hplain hsome hfront
  refine ⟨⟨a, hselect, haround⟩, fun hown => ?_, fun hnone => ?_⟩
  · intro other hother htargets before behind hpattern hsame
    have hfirst : '*' ∉ before.toList := fun h => hplain (by rw [← hsame]; simp [h])
    have hfits : Fits (plain other.1) (plain entry.1) "" := by
      have h := Fits.star "" hpattern hfirst
      rwa [String.append_empty, hsame] at h
    have hle := (isBest_of_select hown).first other hother htargets
      (isSome_match?_ofEntry_iff.mpr ⟨"", hfits⟩)
    obtain ⟨hbefore, hbehind⟩ := around_ofEntry hpattern hfirst
    rw [not_order_of_star] at hle
    · cases hle
    · rw [specificity_ofEntry hplain, ← hsame, specificity, hbefore, hbehind, String.utf8ByteSize_append]
    · rw [pattern_ofEntry_eq, pattern_ofEntry_eq, hpattern, ← hsame]
      simp only [String.utf8ByteSize_append]
      have hone : "*".utf8ByteSize = 1 := by decide +kernel
      omega
  · rcases hcases with hstar | rfl
    · obtain ⟨other, hother, htargets, rfl⟩ := (isBest_of_select hselect).stands
      exact absurd haround
        (hnone other hother htargets _ _ (pattern_ofEntry ((hasStar_ofEntry other).mp hstar)).1)
    · exact hselect

/-- Patterns that are in order already are tried as they are. -/
theorem ofPaths_of_pairwise {paths : Entries (List String)} (hsome : ∀ entry ∈ paths, entry.2 ≠ [])
    (h : (paths.map ofEntry).Pairwise fun a b => (order a b).isLE = true) :
    ofPaths paths = paths.map ofEntry := by
  rw [ofPaths, List.filter_eq_self.mpr (by simpa using hsome), List.mergeSort_of_pairwise h]

/-- Import patterns of a name, of all names, and of everything below the name. -/
def configPaths : Entries (List String) :=
  [("*", ["./other/*"]), ("config", ["./exact.ts"]), ("config/*", ["./below/*"])]

/-- The pattern that is the name stands for the name, though a star would as well. -/
theorem select_config :
    '*' ∉ "config".toList ∧ (∃ wildcard, Fits (plain "*") (plain "config") wildcard) ∧
      select (ofPaths configPaths) (plain "config") = some (ofEntry ("config", ["./exact.ts"]), "") := by
  refine ⟨by decide, ⟨"config", ?_⟩, ?_⟩
  · exact (@match?_ofEntry_iff ("*", []) _ _).mp (by decide +kernel)
  · have hselect := @select_exact_iff [("*", ["./other/*"])] [("config/*", ["./below/*"])]
      ("config", ["./exact.ts"]) (by decide) (by decide) (by decide +kernel)
    refine hselect.2.mpr fun other hother _ before behind hpattern hsame => ?_
    have hsize := congrArg String.utf8ByteSize hpattern
    rw [String.utf8ByteSize_append, String.utf8ByteSize_append, Nat.add_right_comm,
      ← String.utf8ByteSize_append, hsame] at hsize
    -- no pattern is longer than the name by a star
    have hsizes : ∀ other ∈ configPaths,
        (plain other.1).utf8ByteSize ≠ (plain "config").utf8ByteSize + "*".utf8ByteSize := by decide +kernel
    exact hsizes other hother hsize

/-- A pattern that goes on with a star where the specifier ends is preferred to the specifier itself as a
pattern, and so is an earlier entry that reads the same. -/
theorem exact_pattern_is_not_preferred :
    (select (ofPaths [("config*", ["./wild.ts"]), ("config", ["./exact.ts"])]) "config" =
        some (ofEntry ("config*", ["./wild.ts"]), "")) ∧
      select (ofPaths [(" config", ["./padded.ts"]), ("config", ["./exact.ts"])]) "config" =
        some (ofEntry (" config", ["./padded.ts"]), "") ∧
      ofEntry ("config*", ["./wild.ts"]) ≠ ofEntry ("config", ["./exact.ts"]) ∧
      ofEntry (" config", ["./padded.ts"]) ≠ ofEntry ("config", ["./exact.ts"]) := by
  rw [ofPaths_of_pairwise (by decide) (by decide +kernel),
    ofPaths_of_pairwise (by decide) (by decide +kernel)]
  decide +kernel

end ScopedCheck.Import.Alias
