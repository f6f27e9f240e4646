import Mathlib.Data.List.Perm.Subperm
import ScopedCheck.Proofs.Closure.Breadth
/-! # How many files a discovery finds by following imports

A native discovery follows imports twice, from the same roots and within the same bounds: once those that a
compiler follows, and once all of them. Each walk has the whole room to itself. Where the walk over all
imports is not cut short for want of room it takes everything that the other one does, so that both
together stay within the room of one. Otherwise the one may go on where the other one had to stop. -/

namespace ScopedCheck

/-- Places that are all different and all listed are no more than those that are listed. -/
theorem Path.length_le_of_listed {paths others : List Path}
    (hdistinct : paths.Pairwise fun p q => p.parts ≠ q.parts)
    (h : ∀ p ∈ paths, p.listed others = true) : paths.length ≤ others.length := by
  have hnodup : (paths.map Path.parts).Nodup := List.pairwise_map.mpr hdistinct
  have hsubset : paths.map Path.parts ⊆ others.map Path.parts := by
    intro parts hparts
    obtain ⟨p, hp, rfl⟩ := List.mem_map.mp hparts
    obtain ⟨q, hq, hsame⟩ := Path.listed_iff.mp (h p hp)
    exact List.mem_map.mpr ⟨q, hq, hsame.symm⟩
  have hlength := (hnodup.subperm hsubset).length_le
  simpa using hlength

theorem Path.length_sortedUnique_le {paths others : List Path}
    (h : ∀ p ∈ paths, p.listed others = true) : (Path.sortedUnique paths).length ≤ others.length := by
  refine length_le_of_listed ((pairwise_sortedUnique paths).imp fun hlt heq => ?_)
    fun p hp => h p (mem_of_mem_sortedUnique hp)
  rw [Precedes, order_eq_iff.mpr heq] at hlt
  cases hlt

namespace ImportWalk

variable {tree : FileTree} {resolver : Import.Resolver} {follows more : Import.Kind → Bool}
  {roots : List Path} {limits : Limits} {walk other : ImportWalk}

/-- Where more imports are followed, more is found within the same number of steps. -/
theorem breadthFirst_subset (hmore : ∀ kind, follows kind = true → more kind = true) (n : Nat) :
    ∀ f ∈ breadthFirst tree resolver follows roots n, f ∈ breadthFirst tree resolver more roots n := by
  refine seen_subset_of_next_subset (fun f t ht => ?_) (fun f t ht => ?_) n
  · exact mem_importsOf_iff.mpr ((mem_importsOf_iff.mp ht).mono hmore)
  · obtain ⟨-, _, -, i, -, -, htarget⟩ := mem_importsOf_iff.mp ht
    exact Import.Resolver.normalize_of_resolve htarget

/-- Two walks from the same roots have these in common, and each has the whole room. -/
theorem length_both_le (h : ofRoots tree resolver roots limits follows = .ok walk)
    (hother : ofRoots tree resolver roots limits more = .ok other) :
    (Path.sortedUnique (walk.files ++ other.files)).length + (Path.distinct roots).length ≤
      2 * max limits.maxFiles (Path.distinct roots).length := by
  obtain ⟨rest, hrest⟩ := (isFront_of_ofRoots hother).start
  have hlisted : ∀ p ∈ walk.files ++ other.files, p.listed (walk.taken ++ rest) = true := by
    intro p hp
    refine Path.listed_of_mem ?_
    rcases List.mem_append.mp hp with hp | hp
    · exact List.mem_append_left _ (Path.mem_sorted.mp hp)
    · rw [files, Path.mem_sorted, ← hrest, List.mem_append] at hp
      exact List.mem_append.mpr (hp.imp_left ((isFront_of_ofRoots h).start.subset ·))
  have hcount := Path.length_sortedUnique_le hlisted
  have hwalk := (isFront_of_ofRoots h).few
  have hrests := (isFront_of_ofRoots hother).few
  rw [files, Path.length_sorted] at hwalk hrests
  rw [← hrest] at hrests
  simp only [List.length_append] at hcount hrests
  omega

/-- A walk that is not cut short for want of room takes what any other one over fewer imports takes. -/
theorem taken_subset_of_limit (hmore : ∀ kind, follows kind = true → more kind = true)
    (h : ofRoots tree resolver roots limits follows = .ok walk)
    (hother : ofRoots tree resolver roots limits more = .ok other)
    (hlimit : other.limit ≠ some (.files limits.maxFiles)) : ∀ f ∈ walk.taken, f ∈ other.taken := by
  intro f hf
  rw [(isSpent_of_ofRoots hother).whole hlimit]
  exact breadthFirst_subset hmore _ f (((isFront_of_ofRoots h).front _ (Nat.le_refl _)).subset hf)

end ImportWalk

namespace Closure

variable {tree : FileTree} {request : ClosureRequest} {program more : List Path}
  {limit : Option (LimitHit × Nat)}

/-- How many files a discovery finds by following imports, where a walk has room for some number of files:
each walk takes all roots and stays within the room, both together have the roots in common, and they stay
within the room of one unless the walk over all imports tells of the bound on files. If files are chosen,
only the program is found by following imports. -/
structure IsWithinRoom (request : ClosureRequest) (program more : List Path)
    (limit : Option (LimitHit × Nat)) (room : Nat) : Prop where
  roots : ∀ root ∈ Path.distinct request.roots,
    root ∈ program ∧ (request.includes = none → root ∈ more)
  baseline : program.length ≤ room
  chain : request.includes = none → more.length ≤ room
  both : request.includes = none →
    (Path.sortedUnique (program ++ more)).length + (Path.distinct request.roots).length ≤ 2 * room
  uncut : request.includes = none → limit.map (·.1) ≠ some (.files request.limits.maxFiles) →
    (Path.sortedUnique (program ++ more)).length ≤ room

/-- What a native discovery finds by following imports stays within the bound on files, or within twice
that bound if the walk over all imports is cut short. -/
theorem found_isWithinRoom
    (hprogram : ProgramHost.native tree request.config request.roots request.limits = .ok program)
    (hadded : added tree request (.ofConfig request.config) = .ok (more, limit)) :
    IsWithinRoom request program more limit
      (max request.limits.maxFiles (Path.distinct request.roots).length) := by
  obtain ⟨walk, hwalk, hfiles⟩ := Fallible.bind_eq_ok_iff.mp hprogram
  obtain rfl := Except.ok.inj hfiles
  have hfront := ImportWalk.isFront_of_ofRoots hwalk
  have hroots : ∀ {walk : ImportWalk}, Path.distinct request.roots <+: walk.taken →
      ∀ root ∈ Path.distinct request.roots, root ∈ walk.files :=
    fun hstart root hroot => Path.mem_sorted.mpr (hstart.subset hroot)
  unfold added at hadded
  split at hadded
  · rename_i includes hincludes
    have hchosen : request.includes ≠ none := by simp [hincludes]
    exact ⟨fun root hroot => ⟨hroots hfront.start root hroot, fun h => absurd h hchosen⟩, hfront.few,
      fun h => absurd h hchosen, fun h => absurd h hchosen, fun h => absurd h hchosen⟩
  · obtain ⟨other, hother, hmore⟩ := Fallible.bind_eq_ok_iff.mp hadded
    obtain ⟨rfl, rfl⟩ := Prod.mk.inj (Except.ok.inj hmore)
    have hfront' := ImportWalk.isFront_of_ofRoots hother
    refine ⟨fun root hroot => ⟨hroots hfront.start root hroot, fun _ => hroots hfront'.start root hroot⟩,
      hfront.few, fun _ => hfront'.few, fun _ => ImportWalk.length_both_le hwalk hother, fun _ hlimit => ?_⟩
    have hwhole : other.limit ≠ some (.files request.limits.maxFiles) := by
      rwa [Option.map_map, Function.comp_def, Option.map_id'] at hlimit
    have hsubset := ImportWalk.taken_subset_of_limit (fun _ _ => rfl) hwalk hother hwhole
    have hlisted : ∀ p ∈ walk.files ++ other.files, p.listed other.files = true := by
      intro p hp
      refine Path.listed_of_mem ?_
      rcases List.mem_append.mp hp with hp | hp
      · exact Path.mem_sorted.mpr (hsubset p (Path.mem_sorted.mp hp))
      · exact hp
    exact Nat.le_trans (Path.length_sortedUnique_le hlisted) hfront'.few

/-- A request for the file of the forked project that the others are imported from, with room for three
files. -/
def forkedRequest : ClosureRequest where
  config := { configPath := ⟨"/p/tsconfig.json"⟩, chain := [⟨"/p/tsconfig.json"⟩] }
  roots := [⟨"/p/a.ts"⟩]
  projectDir := ⟨"/p"⟩
  heuristics := ⟨[], [], [], []⟩
  limits := { maxFiles := 3 }

/-- The walk over what a compiler follows has room for the file that the walk over all imports leaves out. -/
theorem walks_in_forkedProject :
    ∃ program all, ImportWalk.ofRoots ImportWalk.forkedProject (.ofConfig forkedRequest.config)
        forkedRequest.roots forkedRequest.limits Import.Kind.followedByCompiler = .ok program ∧
      program.taken = [⟨"/p/a.ts"⟩, ⟨"/p/b.ts"⟩, ⟨"/p/d.ts"⟩] ∧
      ImportWalk.ofRoots ImportWalk.forkedProject (.ofConfig forkedRequest.config)
        forkedRequest.roots forkedRequest.limits (fun _ => true) = .ok all ∧
      all.taken = [⟨"/p/a.ts"⟩, ⟨"/p/b.ts"⟩, ⟨"/p/c.ts"⟩] ∧ all.limit = some (.files 3) := by
  obtain ⟨program, hprogram, htaken⟩ := Fallible.exists_of_toOption
    (show (ImportWalk.ofRoots ImportWalk.forkedProject (.ofConfig forkedRequest.config) forkedRequest.roots
      forkedRequest.limits Import.Kind.followedByCompiler).toOption.map (·.taken) =
        some [⟨"/p/a.ts"⟩, ⟨"/p/b.ts"⟩, ⟨"/p/d.ts"⟩] by decide +kernel)
  obtain ⟨all, hall, hfound⟩ := Fallible.exists_of_toOption
    (show (ImportWalk.ofRoots ImportWalk.forkedProject (.ofConfig forkedRequest.config) forkedRequest.roots
      forkedRequest.limits fun _ => true).toOption.map (fun walk => (walk.taken, walk.limit)) =
        some ([⟨"/p/a.ts"⟩, ⟨"/p/b.ts"⟩, ⟨"/p/c.ts"⟩], some (.files 3)) by decide +kernel)
  obtain ⟨htaken', hlimit⟩ := Prod.mk.inj hfound
  exact ⟨program, all, hprogram, htaken, hall, htaken', hlimit⟩

theorem found_isWithinRoom_in_forkedProject :
    ∃ program more, ProgramHost.native ImportWalk.forkedProject forkedRequest.config forkedRequest.roots
        forkedRequest.limits = .ok program ∧
      added ImportWalk.forkedProject forkedRequest (.ofConfig forkedRequest.config) =
        .ok (more, some (.files 3, 3)) ∧
      max forkedRequest.limits.maxFiles (Path.distinct forkedRequest.roots).length = 3 ∧
      IsWithinRoom forkedRequest program more (some (.files 3, 3)) 3 := by
  obtain ⟨program, all, hprogram, -, hall, htaken, hlimit⟩ := walks_in_forkedProject
  have hadded := added_of_ofRoots rfl hall
  rw [hlimit, htaken] at hadded
  have hroom : max forkedRequest.limits.maxFiles (Path.distinct forkedRequest.roots).length = 3 := by
    decide
  exact ⟨program.files, all.files, native_of_ofRoots hprogram, hadded, hroom,
    hroom ▸ found_isWithinRoom (native_of_ofRoots hprogram) hadded⟩

/-- With room for three files, a discovery finds four by following imports, and lists them all. -/
theorem two_walks_exceed_room :
    ∃ program more limit, ProgramHost.native ImportWalk.forkedProject forkedRequest.config
        forkedRequest.roots forkedRequest.limits = .ok program ∧
      added ImportWalk.forkedProject forkedRequest (.ofConfig forkedRequest.config) = .ok (more, limit) ∧
      max forkedRequest.limits.maxFiles (Path.distinct forkedRequest.roots).length <
        (Path.sortedUnique (program ++ more)).length ∧
      ∀ p ∈ program ++ more, p.listed (forkedRequest.fresh ImportWalk.forkedProject .native).files = true := by
  obtain ⟨program, all, hprogram, htaken, hall, htaken', -⟩ := walks_in_forkedProject
  obtain ⟨r, hscan, htest, hfresh⟩ := ClosureRequest.fresh_of_walks rfl (by decide +kernel)
    (show (ImportWalk.ofRoots ImportWalk.forkedProject (.ofConfig forkedRequest.config) forkedRequest.roots
      forkedRequest.limits Import.Kind.followedByCompiler).toOption.map (·.taken) = some program.taken by
        rw [hprogram]; rfl)
    (show (ImportWalk.ofRoots ImportWalk.forkedProject (.ofConfig forkedRequest.config) forkedRequest.roots
      forkedRequest.limits fun _ => true).toOption.map (·.taken) = some all.taken by rw [hall]; rfl)
  have hmem : ∀ p, p ∈ program.files ++ all.files ↔
      p ∈ [(⟨"/p/a.ts"⟩ : Path), ⟨"/p/b.ts"⟩, ⟨"/p/c.ts"⟩, ⟨"/p/d.ts"⟩] := by
    intro p
    simp only [ImportWalk.files, Path.mem_sorted, htaken, htaken', List.mem_append, List.mem_cons,
      List.not_mem_nil, or_false]
    tauto
  refine ⟨program.files, all.files, _, native_of_ofRoots hprogram, added_of_ofRoots rfl hall, ?_, ?_⟩
  · have hdistinct : [(⟨"/p/a.ts"⟩ : Path), ⟨"/p/b.ts"⟩, ⟨"/p/c.ts"⟩, ⟨"/p/d.ts"⟩].Pairwise
        fun p q => p.parts ≠ q.parts := by decide +kernel
    have hfour : 4 ≤ (Path.sortedUnique (program.files ++ all.files)).length :=
      Path.length_le_of_listed hdistinct fun p hp =>
        Path.listed_sortedUnique.mpr (Path.listed_of_mem ((hmem p).mpr hp))
    exact Nat.lt_of_lt_of_le (by decide) hfour
  · intro p hp
    have houtside : ∀ p ∈ [(⟨"/p/a.ts"⟩ : Path), ⟨"/p/b.ts"⟩, ⟨"/p/c.ts"⟩, ⟨"/p/d.ts"⟩],
        p.isInPackages = false := by decide +kernel
    rw [hfresh, assembled, Path.listed_filter_outside, Path.listed_sortedUnique, List.append_nil,
      List.append_nil, Path.listed_sortedUnique, List.append_assoc]
    exact ⟨houtside p ((hmem p).mp hp), Path.listed_append.mpr (Or.inr (Path.listed_of_mem hp))⟩

end Closure

end ScopedCheck
