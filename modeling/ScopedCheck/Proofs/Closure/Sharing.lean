import ScopedCheck.Proofs.Closure.Roots
import ScopedCheck.Proofs.Closure.Staleness
import ScopedCheck.Proofs.Path.Alike
/-! # Closures that requests share

A closure is kept under a key that forgets the order of the roots and the project directory, so that a
request may get the closure of another one. This is its own closure as long as what is forgotten has no
influence: the walks over imports hit no bound, and the requests are for one project. -/

namespace ScopedCheck

namespace Path

theorem normalize_eq_of_parts_eq {p q : Path} (h : p.parts = q.parts) : p.normalize = q.normalize := by
  obtain ⟨habs, hsteps⟩ := steps_of_parts_eq h
  rw [normalize_eq, normalize_eq, habs, hsteps]

example : (⟨"/p/./lib//a.ts"⟩ : Path).normalize = (⟨"/p/lib/a.ts/."⟩ : Path).normalize := by decide +kernel

end Path

namespace ClosureRequest

open Closure

variable {request other : ClosureRequest} {tree : FileTree} {host : ProgramHost}

/-! ## Requests with one key -/

/-- Requests with one key have the same roots, in some order, if these are normal forms. -/
theorem mem_roots_iff_of_key_eq (hkey : request.key = other.key)
    (hnormal : ∀ root ∈ request.roots ++ other.roots, root.normalize = root) (root : Path) :
    root ∈ other.roots ↔ root ∈ request.roots := by
  obtain ⟨hrequest, hother⟩ := List.forall_mem_append.mp hnormal
  constructor
  · intro hroot
    obtain ⟨same, hsame, hparts⟩ := exists_root_of_mem_key (hkey ▸ parts_mem_key hroot)
    rwa [← Path.eq_of_parts_eq (hrequest same hsame) (hother root hroot) hparts]
  · intro hroot
    obtain ⟨same, hsame, hparts⟩ := exists_root_of_mem_key (hkey ▸ parts_mem_key hroot)
    rwa [← Path.eq_of_parts_eq (hother same hsame) (hrequest root hroot) hparts]

/-- The order of the roots does not count in the key. -/
theorem key_with_roots {roots : List Path} (hnormal : ∀ root ∈ request.roots, root.normalize = root)
    (hsame : ∀ root, root ∈ roots ↔ root ∈ request.roots) :
    ({ request with roots } : ClosureRequest).key = request.key := by
  simp only [key, Path.sortedUnique_congr (Path.alike_of_normal hnormal hsame)]

/-- Requests with one key have chosen files at the same places. -/
theorem places_includes_of_key_eq (hkey : request.key = other.key) {includes : List Path}
    (hincludes : request.includes = some includes) :
    ∃ more, other.includes = some more ∧
      ∀ place, place ∈ more.map Path.parts ↔ place ∈ includes.map Path.parts := by
  have hsame := congrArg ClosureKey.includes hkey
  simp only [key, hincludes, Option.map_some] at hsame
  obtain ⟨more, hmore, hparts⟩ := Option.map_eq_some_iff.mp hsame.symm
  refine ⟨more, hmore, fun place => ?_⟩
  have hmem := congrArg (place ∈ ·) hparts
  simpa only [List.mem_map, Path.mem_sorted, eq_iff_iff] using hmem

/-- Requests with one key have chosen the same files, in some order and spelling. -/
theorem alike_includes_of_key_eq (hkey : request.key = other.key) {includes : List Path}
    (hincludes : request.includes = some includes) :
    ∃ more, other.includes = some more ∧
      Path.Alike (includes.map Path.normalize) (more.map Path.normalize) := by
  obtain ⟨more, hmore, hplaces⟩ := places_includes_of_key_eq hkey hincludes
  refine ⟨more, hmore, Path.alike_of_normal ?_ fun p => ?_⟩
  · intro p hp
    obtain ⟨q, -, rfl⟩ := List.mem_map.mp hp
    exact Path.normalize_normalize q
  · have hnormal : ∀ paths : List Path, p ∈ paths.map Path.normalize ↔
        ∃ place ∈ paths.map Path.parts, ∃ q : Path, q.parts = place ∧ q.normalize = p := by
      intro paths
      simp only [List.mem_map]
      constructor
      · rintro ⟨q, hq, rfl⟩
        exact ⟨q.parts, ⟨q, hq, rfl⟩, q, rfl, rfl⟩
      · rintro ⟨_, ⟨q, hq, rfl⟩, other, hparts, rfl⟩
        exact ⟨q, hq, Path.normalize_eq_of_parts_eq hparts.symm⟩
    rw [hnormal, hnormal]
    exact exists_congr fun place => and_congr_left' (hplaces place)

theorem includes_eq_none_of_key_eq (hkey : request.key = other.key) (h : request.includes = none) :
    other.includes = none := by
  have hsame := congrArg ClosureKey.includes hkey
  rw [key, key, h, Option.map_none] at hsame
  exact Option.map_eq_none_iff.mp hsame.symm

/-! ## Requests that are alike -/

/-- Whether the walk over all imports hits no bound. -/
def IsUncut (request : ClosureRequest) (tree : FileTree) : Prop :=
  ∀ walk, ImportWalk.ofRoots tree (.ofConfig request.config) request.roots request.limits
    (fun _ => true) = .ok walk → walk.limit = none

/-- Whether what a key forgets makes no difference between two requests: the config is the same, the
project directory is the same unless it is not asked for, the host comes to the same program, and the
roots are the same list, or else normal forms from which no walk hits a bound. -/
structure IsLike (request other : ClosureRequest) (tree : FileTree) (host : ProgramHost) : Prop where
  config : other.config = request.config
  projectDir : request.includes = none → other.projectDir = request.projectDir
  program : ∀ program, host tree request.config request.roots request.limits = .ok program →
    ∃ same, host tree other.config other.roots other.limits = .ok same ∧ Path.Alike program same
  roots : other.roots = request.roots ∨
    (∀ root ∈ request.roots ++ other.roots, root.normalize = root) ∧
      (request.includes = none → request.IsUncut tree ∧ other.IsUncut tree)

theorem IsLike.alike_roots (hkey : request.key = other.key) (h : request.IsLike other tree host) :
    Path.Alike request.roots.reverse other.roots.reverse := by
  rcases h.roots with hroots | ⟨hnormal, -⟩
  · rw [hroots]
    exact fun p => rfl
  · refine Path.alike_of_normal (fun root hroot => ?_) fun root => ?_
    · exact hnormal root (List.mem_append_left _ (List.mem_reverse.mp hroot))
    · rw [List.mem_reverse, List.mem_reverse, mem_roots_iff_of_key_eq hkey hnormal]

theorem IsLike.added (hkey : request.key = other.key) (h : request.IsLike other tree host)
    {more : List Path} {limit : Option (LimitHit × Nat)}
    (hadded : Closure.added tree request (.ofConfig request.config) = .ok (more, limit)) :
    ∃ rest hit, Closure.added tree other (.ofConfig other.config) = .ok (rest, hit) ∧
      Path.Alike more rest := by
  have hlimits : other.limits = request.limits := (congrArg ClosureKey.limits hkey).symm
  cases hincludes : request.includes with
  | some includes =>
      obtain ⟨others, hothers, halike⟩ := alike_includes_of_key_eq hkey hincludes
      simp only [Closure.added, hincludes, Except.ok.injEq, Prod.mk.injEq] at hadded
      obtain ⟨rfl, -⟩ := hadded
      exact ⟨others.map Path.normalize, none, by simp only [Closure.added, hothers], halike⟩
  | none =>
      have hnone := includes_eq_none_of_key_eq hkey hincludes
      simp only [Closure.added, hincludes] at hadded
      obtain ⟨walk, hwalk, hpure⟩ := Fallible.bind_eq_ok_iff.mp hadded
      obtain ⟨rfl, -⟩ := Prod.mk.inj (Except.ok.inj hpure)
      rcases h.roots with hroots | ⟨hnormal, huncut⟩
      · refine ⟨walk.files, walk.limit.map fun limit => (limit, walk.taken.length), ?_, fun p => rfl⟩
        simp only [Closure.added, hnone, h.config, hroots, hlimits, hwalk]
        rfl
      · obtain ⟨hlimit, hlimit'⟩ := huncut hincludes
        rw [IsUncut, h.config, hlimits] at hlimit'
        obtain ⟨hrequest, -⟩ := List.forall_mem_append.mp hnormal
        obtain ⟨walk', hwalk', hsame⟩ := ImportWalk.ofRoots_of_same_roots hrequest
          (mem_roots_iff_of_key_eq hkey hnormal) hwalk (hlimit walk hwalk)
        refine ⟨walk'.files, walk'.limit.map fun limit => (limit, walk'.taken.length), ?_, ?_⟩
        · simp only [Closure.added, hnone, h.config, hlimits, hwalk']
          rfl
        · refine Path.alike_of_normal (fun f hf => ?_) fun f => ?_
          · exact (ImportWalk.reaches_of_ofRoots hwalk f (Path.mem_sorted.mp hf)).normalize hrequest
          · rw [ImportWalk.files, ImportWalk.files, Path.mem_sorted, Path.mem_sorted,
              hsame (hlimit' walk' hwalk')]

theorem IsLike.setupFilesOf_eq (hkey : request.key = other.key) (h : request.IsLike other tree host)
    (r : Recognizer) : setupFilesOf tree other r = setupFilesOf tree request r := by
  unfold setupFilesOf
  cases hincludes : request.includes with
  | some includes =>
      obtain ⟨others, hothers, -⟩ := alike_includes_of_key_eq hkey hincludes
      rw [hothers]
      rfl
  | none =>
      have htests : other.roots.any (r.isTest request.projectDir) =
          request.roots.any (r.isTest request.projectDir) := by
        rcases h.roots with hroots | ⟨hnormal, -⟩
        · rw [hroots]
        · rw [Bool.eq_iff_iff, List.any_eq_true, List.any_eq_true]
          exact exists_congr fun root =>
            and_congr_left' (mem_roots_iff_of_key_eq hkey hnormal root)
      rw [includes_eq_none_of_key_eq hkey hincludes, h.config, h.projectDir hincludes, htests]

/-- What is computed for a request is computed for every request that is like it. -/
theorem IsLike.compute_eq_ok (hkey : request.key = other.key) (h : request.IsLike other tree host)
    {r : Recognizer} {scan : ProjectScan} {closure : Closure}
    (hcompute : (compute tree host request r scan).run.value = .ok closure) :
    (compute tree host other r scan).run.value = .ok closure := by
  obtain ⟨program, more, limit, generated, setupFiles, hprogram, hadded, hgenerated, hsetup, rfl⟩ :=
    value_compute_iff.mp hcompute
  obtain ⟨program', hprogram', hsame⟩ := h.program program hprogram
  obtain ⟨more', limit', hadded', hmore⟩ := h.added hkey hadded
  have hfiles : Path.sortedUnique (request.roots.reverse ++ program ++ more ++ scan.ambient) =
      Path.sortedUnique (other.roots.reverse ++ program' ++ more' ++ scan.ambient) :=
    Path.sortedUnique_congr ((((h.alike_roots hkey).append hsame).append hmore).append fun p => rfl)
  rw [hfiles] at hgenerated ⊢
  refine value_compute_iff.mpr ⟨program', more', limit', generated, setupFiles, hprogram', hadded', ?_,
    (h.setupFilesOf_eq hkey r).trans hsetup, ?_⟩
  · rw [h.config]
    exact hgenerated
  · simp only [assembled, h.config]

theorem IsLike.isScanned (hkey : request.key = other.key) (h : request.IsLike other tree host)
    {r : Recognizer} {scan : ProjectScan} (hscan : request.IsScanned tree r scan) :
    other.IsScanned tree r scan := by
  have hheuristics : other.heuristics = request.heuristics :=
    (congrArg ClosureKey.heuristics hkey).symm
  exact ⟨hheuristics ▸ hscan.recognizer, h.config ▸ hscan.scan⟩

/-- Under the native host only walks that are cut tell requests with one key apart. -/
theorem isLike_native (hkey : request.key = other.key) (hconfig : other.config = request.config)
    (hproject : other.projectDir = request.projectDir)
    (hnormal : ∀ root ∈ request.roots ++ other.roots, root.normalize = root)
    (huncut : ∀ of ∈ [request, other], ∀ follows ∈ [Import.Kind.followedByCompiler, fun _ => true],
      ∀ walk, ImportWalk.ofRoots tree (.ofConfig of.config) of.roots of.limits follows = .ok walk →
        walk.limit = none) : request.IsLike other tree .native := by
  have hlimits : other.limits = request.limits := (congrArg ClosureKey.limits hkey).symm
  obtain ⟨hrequest, -⟩ := List.forall_mem_append.mp hnormal
  refine ⟨hconfig, fun _ => hproject, fun program hprogram => ?_, Or.inr ⟨hnormal, fun _ => ?_⟩⟩
  · obtain ⟨walk, hwalk, hpure⟩ := Fallible.bind_eq_ok_iff.mp hprogram
    obtain rfl := Except.ok.inj hpure
    obtain ⟨walk', hwalk', hsame⟩ := ImportWalk.ofRoots_of_same_roots hrequest
      (mem_roots_iff_of_key_eq hkey hnormal) hwalk (huncut request (by simp) _ (by simp) walk hwalk)
    have hother : ImportWalk.ofRoots tree (.ofConfig other.config) other.roots other.limits
        Import.Kind.followedByCompiler = .ok walk' := by
      rw [hconfig, hlimits]
      exact hwalk'
    have hlimit' : walk'.limit = none := huncut other (by simp) _ (by simp) walk' hother
    refine ⟨walk'.files, Closure.native_of_ofRoots hother,
      Path.alike_of_normal (fun f hf => ?_) fun f => ?_⟩
    · exact (ImportWalk.reaches_of_ofRoots hwalk f (Path.mem_sorted.mp hf)).normalize hrequest
    · rw [ImportWalk.files, ImportWalk.files, Path.mem_sorted, Path.mem_sorted, hsame hlimit']
  · exact ⟨huncut request (by simp) _ (by simp), huncut other (by simp) _ (by simp)⟩

end ClosureRequest

/-! ## Requests one after the other -/

/-- Whether a kept closure was computed for a request. -/
def KeptClosure.IsOf (kept : KeptClosure) (request : ClosureRequest) (tree : FileTree)
    (host : ProgramHost) : Prop :=
  kept.key = request.key ∧ kept.stamp = .ofConfig tree request.config ∧
    ∃ r scan, request.IsScanned tree r scan ∧
      (Closure.compute tree host request r scan).run.value = .ok kept.closure

namespace ClosureCache

open Closure

variable {cache : ClosureCache} {tree : FileTree} {host : ProgramHost} {request : ClosureRequest}
  {requests : List ClosureRequest}

/-- The closures of requests that are made one after the other. -/
def discoverAll (cache : ClosureCache) (tree : FileTree) (host : ProgramHost) :
    List ClosureRequest → List Closure
  | [] => []
  | request :: rest =>
      (cache.discover tree host request).value.1 ::
        discoverAll (cache.discover tree host request).value.2 tree host rest

/-- Whether requests that may get the closure of each other are alike. -/
def AreLike (requests : List ClosureRequest) (tree : FileTree) (host : ProgramHost) : Prop :=
  ∀ request ∈ requests, ∀ other ∈ requests, request.key = other.key →
    ConfigStamp.ofConfig tree request.config = ConfigStamp.ofConfig tree other.config →
      request.IsLike other tree host

/-- A request gets what a fresh discovery gives, from whichever request the closure is. -/
theorem value_discover_of_areLike (hlike : AreLike requests tree host)
    (hkept : ∀ kept ∈ cache.kept, ∃ other ∈ requests, kept.IsOf other tree host)
    (hrequest : request ∈ requests) :
    (cache.discover tree host request).value.1 = request.fresh tree host := by
  by_cases hhit : ∃ r scan closure, request.IsScanned tree r scan ∧
      cache.answer tree request scan = .hit closure
  · obtain ⟨r, scan, closure, hscan, hhit⟩ := hhit
    rw [discover_of_hit hscan hhit]
    obtain ⟨kept, hget, rfl, hstamp, -⟩ := lookup_eq_hit_iff.mp hhit
    obtain ⟨hmem, hkey⟩ := mem_of_get? hget
    obtain ⟨other, hother, hsame, hstamped, r', scan', hscan', hcompute⟩ := hkept kept hmem
    have hkeys : other.key = request.key := hsame.symm.trans hkey
    have halike := hlike other hother request hrequest hkeys (hstamped.symm.trans hstamp)
    rw [ClosureRequest.fresh_of_isScanned (halike.isScanned hkeys hscan'),
      halike.compute_eq_ok hkeys hcompute]
    rfl
  · exact ClosureRequest.value_eq_fresh fun r scan closure hscan h => hhit ⟨r, scan, closure, hscan, h⟩

theorem isOf_discover (hkept : ∀ kept ∈ cache.kept, ∃ other ∈ requests, kept.IsOf other tree host)
    (hrequest : request ∈ requests) :
    ∀ kept ∈ (cache.discover tree host request).value.2.kept,
      ∃ other ∈ requests, kept.IsOf other tree host :=
  forall_kept_discover hkept fun r scan _ hscan hcompute =>
    ⟨request, hrequest, rfl, rfl, r, scan, hscan, hcompute⟩

theorem discoverAll_of_areLike (hlike : AreLike requests tree host) (rest : List ClosureRequest)
    (hrest : ∀ request ∈ rest, request ∈ requests) {cache : ClosureCache}
    (hkept : ∀ kept ∈ cache.kept, ∃ other ∈ requests, kept.IsOf other tree host) :
    cache.discoverAll tree host rest = rest.map (·.fresh tree host) := by
  induction rest generalizing cache with
  | nil => rfl
  | cons request rest ih =>
      obtain ⟨hrequest, hrest⟩ := List.forall_mem_cons.mp hrest
      rw [discoverAll, value_discover_of_areLike hlike hkept hrequest,
        ih hrest (isOf_discover hkept hrequest), List.map_cons]

/-- Requests that are made one after the other get what fresh discoveries give, if those with one key are
alike. -/
theorem discoverAll_eq_fresh (hlike : AreLike requests tree host) :
    ({} : ClosureCache).discoverAll tree host requests = requests.map (·.fresh tree host) :=
  discoverAll_of_areLike hlike requests (fun _ h => h) fun _ h => by cases h

/-- A second request with the key and the config of the first one gets its closure. -/
theorem discoverAll_pair {other : ClosureRequest} (hkey : other.key = request.key)
    (hconfig : other.config = request.config)
    (hdiscovered : (request.fresh tree host).discovered = true) :
    ({} : ClosureCache).discoverAll tree host [request, other] =
      [request.fresh tree host, request.fresh tree host] := by
  obtain ⟨r, scan, hscan, hcompute⟩ := ClosureRequest.discovered_fresh_iff.mp hdiscovered
  have hheuristics : other.heuristics = request.heuristics := congrArg ClosureKey.heuristics hkey
  have hother : other.IsScanned tree r scan :=
    ⟨hheuristics ▸ hscan.recognizer, hconfig ▸ hscan.scan⟩
  have hcount : (request.fresh tree host).ambientCount = scan.ambient.length := by
    obtain ⟨_, _, _, _, _, -, -, -, -, hassembled⟩ := value_compute_iff.mp hcompute
    rw [hassembled]
    rfl
  have hhit : (({} : ClosureCache).store tree request.key (.ofConfig tree request.config)
      (request.fresh tree host)).answer tree other scan = .hit (request.fresh tree host) := by
    rw [answer, lookup_eq_hit_iff, get?_store, if_pos hkey.symm, hconfig]
    exact ⟨_, rfl, rfl, rfl, hcount, rfl⟩
  rw [discoverAll, ClosureRequest.kept_of_discovered hdiscovered, discoverAll, discover_of_hit hother hhit,
    discoverAll]
  rfl

/-! ## Two roots in either order -/

/-- A project with two files that import another one each. -/
def pairedProject : FileTree :=
  ⟨[("p".toList, .dir [FileTree.textEntry "tsconfig.json" "\x7b\x7d",
    FileTree.textEntry "a.ts" "import './c';", FileTree.textEntry "b.ts" "import './d';",
    FileTree.textEntry "c.ts" "", FileTree.textEntry "d.ts" ""])]⟩

/-- A request for the two importing files, with a bound on the number of files. -/
def pairedRequest (maxFiles : Nat) : ClosureRequest where
  config := { configPath := ⟨"/p/tsconfig.json"⟩, chain := [⟨"/p/tsconfig.json"⟩] }
  roots := [⟨"/p/a.ts"⟩, ⟨"/p/b.ts"⟩]
  projectDir := ⟨"/p"⟩
  limits := { maxFiles }
  heuristics := ⟨[], [], [], []⟩

/-- The same request with its roots in the other order, one of them twice. -/
def turnedRequest (maxFiles : Nat) : ClosureRequest :=
  { pairedRequest maxFiles with roots := [⟨"/p/b.ts"⟩, ⟨"/p/a.ts"⟩, ⟨"/p/b.ts"⟩] }

theorem normalize_root_pairedRequest (maxFiles : Nat) :
    ∀ root ∈ (pairedRequest maxFiles).roots, root.normalize = root := by
  simp only [pairedRequest, List.forall_mem_cons]
  exact ⟨by decide +kernel, by decide +kernel, fun _ h => by cases h⟩

theorem mem_roots_turnedRequest (maxFiles : Nat) (root : Path) :
    root ∈ (turnedRequest maxFiles).roots ↔ root ∈ (pairedRequest maxFiles).roots := by
  simp only [turnedRequest, pairedRequest, List.mem_cons, List.not_mem_nil, or_false]
  tauto

theorem key_turnedRequest (maxFiles : Nat) :
    (turnedRequest maxFiles).key = (pairedRequest maxFiles).key :=
  ClosureRequest.key_with_roots (normalize_root_pairedRequest maxFiles) (mem_roots_turnedRequest maxFiles)

/-- Without a bound that is hit, either request gets its own closure. -/
theorem discoverAll_pairedRequest :
    AreLike [pairedRequest 5000, turnedRequest 5000] pairedProject .native ∧
      ({} : ClosureCache).discoverAll pairedProject .native [pairedRequest 5000, turnedRequest 5000] =
        [(pairedRequest 5000).fresh pairedProject .native,
          (turnedRequest 5000).fresh pairedProject .native] := by
  have huncut : ∀ request ∈ [pairedRequest 5000, turnedRequest 5000],
      ∀ follows ∈ [Import.Kind.followedByCompiler, fun _ => true], ∀ walk,
        ImportWalk.ofRoots pairedProject (.ofConfig request.config) request.roots request.limits
          follows = .ok walk → walk.limit = none := by
    have hall : ∀ request ∈ [pairedRequest 5000, turnedRequest 5000],
        ∀ follows ∈ [Import.Kind.followedByCompiler, fun _ => true],
          (ImportWalk.ofRoots pairedProject (.ofConfig request.config) request.roots request.limits
            follows).toOption.map (·.limit) = some none := by
      simp only [List.forall_mem_cons]
      exact ⟨⟨by decide +kernel, by decide +kernel, fun _ h => by cases h⟩,
        ⟨by decide +kernel, by decide +kernel, fun _ h => by cases h⟩, fun _ h => by cases h⟩
    intro request hrequest follows hfollows walk hwalk
    exact Fallible.of_toOption hwalk (hall request hrequest follows hfollows)
  have hlike : AreLike [pairedRequest 5000, turnedRequest 5000] pairedProject .native := by
    have hconfig : ∀ request ∈ [pairedRequest 5000, turnedRequest 5000],
        request.config = (pairedRequest 5000).config ∧ request.projectDir = ⟨"/p"⟩ ∧
          ∀ root ∈ request.roots, root.normalize = root := by
      refine List.forall_mem_cons.mpr ⟨⟨rfl, rfl, normalize_root_pairedRequest 5000⟩, ?_⟩
      refine List.forall_mem_cons.mpr ⟨⟨rfl, rfl, fun root hroot => ?_⟩, fun _ h => by cases h⟩
      exact normalize_root_pairedRequest 5000 root ((mem_roots_turnedRequest 5000 root).mp hroot)
    intro request hrequest other hother hkey _
    obtain ⟨hconfig₁, hproject₁, hnormal₁⟩ := hconfig request hrequest
    obtain ⟨hconfig₂, hproject₂, hnormal₂⟩ := hconfig other hother
    refine ClosureRequest.isLike_native hkey (hconfig₂.trans hconfig₁.symm)
      (hproject₂.trans hproject₁.symm) (List.forall_mem_append.mpr ⟨hnormal₁, hnormal₂⟩) fun of hof => ?_
    simp only [List.mem_cons, List.not_mem_nil, or_false] at hof
    rcases hof with rfl | rfl
    · exact huncut of hrequest
    · exact huncut of hother
  exact ⟨hlike, discoverAll_eq_fresh hlike⟩

/-- With room for one more file than the roots, the second request gets the file of the first one instead
of its own. -/
theorem turned_request_gets_other_file :
    Config.load pairedProject ⟨"/p/tsconfig.json"⟩ = .ok (pairedRequest 3).config ∧
      ∃ first second,
        ({} : ClosureCache).discoverAll pairedProject .native [pairedRequest 3, turnedRequest 3] =
          [first, second] ∧
        (⟨"/p/d.ts"⟩ : Path).listed second.files = false ∧
        (⟨"/p/d.ts"⟩ : Path).listed ((turnedRequest 3).fresh pairedProject .native).files = true := by
  obtain ⟨r, -, -, hfirst⟩ : ∃ r, (pairedRequest 3).IsScanned pairedProject r {} ∧
      (pairedRequest 3).roots.any (r.isTest (pairedRequest 3).projectDir) = false ∧
      (pairedRequest 3).fresh pairedProject .native = assembled (pairedRequest 3) {}
        (Path.sortedUnique ((pairedRequest 3).roots.reverse ++
          Path.sorted [⟨"/p/a.ts"⟩, ⟨"/p/b.ts"⟩, ⟨"/p/c.ts"⟩] ++
          Path.sorted [⟨"/p/a.ts"⟩, ⟨"/p/b.ts"⟩, ⟨"/p/c.ts"⟩])) [] [] :=
    ClosureRequest.fresh_of_walks rfl (by decide +kernel) (by decide +kernel) (by decide +kernel)
  obtain ⟨r', -, -, hsecond⟩ : ∃ r, (turnedRequest 3).IsScanned pairedProject r {} ∧
      (turnedRequest 3).roots.any (r.isTest (turnedRequest 3).projectDir) = false ∧
      (turnedRequest 3).fresh pairedProject .native = assembled (turnedRequest 3) {}
        (Path.sortedUnique ((turnedRequest 3).roots.reverse ++
          Path.sorted [⟨"/p/b.ts"⟩, ⟨"/p/a.ts"⟩, ⟨"/p/d.ts"⟩] ++
          Path.sorted [⟨"/p/b.ts"⟩, ⟨"/p/a.ts"⟩, ⟨"/p/d.ts"⟩])) [] [] :=
    ClosureRequest.fresh_of_walks rfl (by decide +kernel) (by decide +kernel) (by decide +kernel)
  refine ⟨by with_unfolding_all rfl, _, _,
    discoverAll_pair (key_turnedRequest 3) rfl (by rw [hfirst]; rfl), ?_, ?_⟩
  · rw [Bool.eq_false_iff, hfirst, assembled, ne_eq, Path.listed_filter_outside, List.append_nil,
      List.append_nil, Path.listed_sortedUnique, Path.listed_sortedUnique]
    rintro ⟨-, h⟩
    obtain ⟨q, hq, hparts⟩ := Path.listed_iff.mp h
    simp only [pairedRequest, List.mem_append, List.mem_reverse, Path.mem_sorted, List.mem_cons,
      List.not_mem_nil, or_false] at hq
    rcases hq with ((rfl | rfl) | (rfl | rfl | rfl)) | (rfl | rfl | rfl) <;>
      exact absurd hparts (by decide +kernel)
  · rw [hsecond, assembled, Path.listed_filter_outside, List.append_nil, List.append_nil,
      Path.listed_sortedUnique, Path.listed_sortedUnique]
    exact ⟨by decide +kernel, Path.listed_of_mem (by simp [Path.mem_sorted])⟩

end ClosureCache

end ScopedCheck
