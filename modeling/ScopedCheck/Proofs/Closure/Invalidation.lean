import Mathlib.Data.List.Induction
import ScopedCheck.Proofs.Closure.Sharing
/-! # Closures that are out of date

A closure is kept from the call that computed it until another one is computed for its key, or until
everything is forgotten. When it is asked for again it is compared by the documents of the config, the
number of declarations and its files as that call found them, whatever was asked in between. -/

namespace ScopedCheck

/-- A request that is made in a file tree. -/
structure ClosureCall where
  tree : FileTree
  request : ClosureRequest

variable {call : ClosureCall} {host : ProgramHost} {kept : KeptClosure} {request : ClosureRequest}

/-! ## What a kept closure is compared by -/

namespace KeptClosure

/-- Whether a closure was computed and kept by a call. -/
structure IsBy (kept : KeptClosure) (call : ClosureCall) (host : ProgramHost) : Prop where
  isOf : kept.IsOf call.request call.tree host
  times : kept.times = call.tree.times kept.closure.files

/-- What was kept is what a fresh discovery gave. -/
theorem IsBy.closure_eq_fresh (h : kept.IsBy call host) :
    kept.closure = call.request.fresh call.tree host := by
  obtain ⟨-, -, r, scan, hscan, hcompute⟩ := h.isOf
  rw [ClosureRequest.fresh_of_isScanned hscan, hcompute]
  rfl

theorem IsBy.ambientCount (h : kept.IsBy call host) {r : Recognizer} {scan : ProjectScan}
    (hscan : call.request.IsScanned call.tree r scan) :
    kept.closure.ambientCount = scan.ambient.length := by
  obtain ⟨-, -, s, other, hother, hcompute⟩ := h.isOf
  obtain ⟨-, rfl⟩ := hother.unique hscan
  obtain ⟨_, _, _, _, _, -, -, -, -, hassembled⟩ := Closure.value_compute_iff.mp hcompute
  rw [hassembled]
  rfl

end KeptClosure

/-- Whether something that a closure was made of has changed since a call: a document of the config or a
file of the closure was removed or has another time, or another number of declarations is found. -/
inductive ClosureCall.IsOutdated (call : ClosureCall) (closure : Closure) (request : ClosureRequest)
    (now : FileTree) : Prop
  | document {path : Path} (hchain : call.request.config.chain = request.config.chain)
      (h : path ∈ request.config.chain) (htime : now.modified? path ≠ call.tree.modified? path)
  | file {path : Path} (h : path ∈ closure.files)
      (htime : now.modified? path ≠ call.tree.modified? path)
  | declarations {r s : Recognizer} {before after : ProjectScan}
      (hbefore : call.request.IsScanned call.tree r before) (hafter : request.IsScanned now s after)
      (hcount : after.ambient.length ≠ before.ambient.length)

namespace ClosureCache

variable {cache : ClosureCache} {now : FileTree}

/-- What is out of date is not used again. -/
theorem answer_ne_hit_of_isOutdated (hget : cache.get? request.key = some kept)
    (hkept : kept.IsBy call host) (h : call.IsOutdated kept.closure request now) {r : Recognizer}
    {scan : ProjectScan} (hscan : request.IsScanned now r scan) (closure : Closure) :
    cache.answer now request scan ≠ .hit closure := by
  intro hhit
  obtain ⟨found, hfound, rfl, hstamp, hcount, htimes⟩ := lookup_eq_hit_iff.mp hhit
  obtain rfl := Option.some.inj (hget.symm.trans hfound)
  cases h with
  | document hchain hpath htime =>
      have hdocuments := congrArg ConfigStamp.documents (hkept.isOf.2.1.symm.trans hstamp)
      simp only [ConfigStamp.ofConfig, hchain] at hdocuments
      exact htime (FileTree.times_eq_iff.mp hdocuments _ hpath).symm
  | file hpath htime =>
      exact htime (FileTree.times_eq_iff.mp (hkept.times.symm.trans htimes) _ hpath).symm
  | declarations hbefore hafter hdiffer =>
      obtain ⟨-, rfl⟩ := hafter.unique hscan
      exact hdiffer (hcount.symm.trans (hkept.ambientCount hbefore))

/-- In the tree of the call nothing is out of date. -/
theorem exists_answer_eq_hit (hget : cache.get? request.key = some kept) (hkept : kept.IsBy call host)
    (hconfig : call.request.config = request.config) :
    ∃ r scan, request.IsScanned call.tree r scan ∧
      cache.answer call.tree request scan = .hit kept.closure := by
  obtain ⟨hkey, hstamp, r, scan, hscan, -⟩ := hkept.isOf
  have hheuristics : call.request.heuristics = request.heuristics :=
    congrArg ClosureKey.heuristics (hkey.symm.trans (mem_of_get? hget).2)
  refine ⟨r, scan, ⟨hheuristics ▸ hscan.recognizer, hconfig ▸ hscan.scan⟩, lookup_eq_hit_iff.mpr ?_⟩
  exact ⟨kept, hget, rfl, hconfig ▸ hstamp, hkept.ambientCount hscan, hkept.times⟩

/-! ## Histories -/

/-- What happens to kept closures. -/
inductive Event
  | discover (call : ClosureCall)
  | clear

/-- What is kept after an event. -/
def apply (host : ProgramHost) (cache : ClosureCache) : Event → ClosureCache
  | .discover call => (cache.discover call.tree host call.request).value.2
  | .clear => {}

/-- What is kept after a history. -/
def after (cache : ClosureCache) (host : ProgramHost) (events : List Event) : ClosureCache :=
  events.foldl (apply host) cache

theorem after_concat (cache : ClosureCache) (host : ProgramHost) (events : List Event) (event : Event) :
    cache.after host (events ++ [event]) = apply host (cache.after host events) event :=
  List.foldl_concat ..

/-- What is kept for a key after a discovery was kept for it before, or the discovery has kept it. -/
theorem get?_discover {key : ClosureKey}
    (h : (cache.discover call.tree host call.request).value.2.get? key = some kept) :
    cache.get? key = some kept ∨ kept.IsBy call host := by
  have hfound := cache.discovers call.tree host call.request
  generalize (cache.discover call.tree host call.request).value = found at h hfound
  cases hfound with
  | again => exact Or.inl h
  | unscanned => exact Or.inl h
  | lost => exact Or.inl h
  | anew hscan _ hcompute =>
      rw [get?_store] at h
      split at h
      · obtain rfl := Option.some.inj h
        exact Or.inr ⟨⟨rfl, rfl, _, _, hscan, hcompute⟩, rfl⟩
      · exact Or.inl h

/-- What is kept was kept by one of the calls, and it was kept all the time since. -/
theorem exists_call_of_get? {key : ClosureKey} (events : List Event)
    (h : (({} : ClosureCache).after host events).get? key = some kept) :
    ∃ front call rear, events = front ++ .discover call :: rear ∧ kept.IsBy call host ∧
      ∀ more, more <+: rear →
        (({} : ClosureCache).after host (front ++ .discover call :: more)).get? key = some kept := by
  induction events using List.reverseRecOn with
  | nil => cases h
  | append_singleton events event ih =>
      have hbefore : (({} : ClosureCache).after host events).get? key = some kept →
          ∃ front call rear, events ++ [event] = front ++ .discover call :: rear ∧
            kept.IsBy call host ∧ ∀ more, more <+: rear →
              (({} : ClosureCache).after host (front ++ .discover call :: more)).get? key =
                some kept := by
        intro hget
        obtain ⟨front, call, rear, rfl, hkept, hsince⟩ := ih hget
        refine ⟨front, call, rear ++ [event], by simp, hkept, fun more hmore => ?_⟩
        rcases List.prefix_concat_iff.mp hmore with rfl | hmore
        · simpa using h
        · exact hsince more hmore
      cases event with
      | clear =>
          rw [after_concat] at h
          cases h
      | discover call =>
          have hlast := h
          rw [after_concat] at hlast
          rcases get?_discover hlast with hget | hkept
          · exact hbefore hget
          · refine ⟨events, call, [], rfl, hkept, fun more hmore => ?_⟩
            obtain rfl := List.prefix_nil.mp hmore
            exact h

/-- Whatever was asked before, what is kept is what one of the calls found, and has been kept since. If
something that it was made of has changed since that call, the same request gives what a fresh discovery
gives now. If nothing has changed, it gives what is kept, which stays as it is. -/
theorem discover_after (events : List Event)
    (hkept : (({} : ClosureCache).after host events).get? request.key = some kept) :
    ∃ front call rear, events = front ++ .discover call :: rear ∧
      call.request.key = request.key ∧ kept.closure = call.request.fresh call.tree host ∧
      (∀ more, more <+: rear →
        (({} : ClosureCache).after host (front ++ .discover call :: more)).get? request.key = some kept) ∧
      (∀ now, call.IsOutdated kept.closure request now →
        ((({} : ClosureCache).after host events).discover now host request).value.1 =
          request.fresh now host) ∧
      (call.request.config = request.config →
        ((({} : ClosureCache).after host events).discover call.tree host request).value =
          (kept.closure, ({} : ClosureCache).after host events)) := by
  obtain ⟨front, call, rear, hevents, hby, hsince⟩ := exists_call_of_get? events hkept
  refine ⟨front, call, rear, hevents, ?_, hby.closure_eq_fresh, hsince, fun now houtdated => ?_, ?_⟩
  · exact hby.isOf.1.symm.trans (mem_of_get? hkept).2
  · exact ClosureRequest.value_eq_fresh fun r scan closure hscan =>
      answer_ne_hit_of_isOutdated hkept hby houtdated hscan closure
  · intro hconfig
    obtain ⟨r, scan, hscan, hhit⟩ := exists_answer_eq_hit hkept hby hconfig
    exact discover_of_hit hscan hhit

/-! ## A config that is written again -/

/-- The project with a missing import, whose config was written again. -/
def rewrittenProject : FileTree :=
  ⟨[("p".toList, .dir [("tsconfig.json".toList, .file { content := .text "\x7b\x7d", modified := 1 }),
    FileTree.textEntry "a.ts" "import './b';"])]⟩

/-- A closure is discovered in another project and forgotten, then in the project with a missing import. -/
def forgottenOnce : List Event :=
  [.discover ⟨ClosureRequest.besideProject, ClosureRequest.danglingRequest⟩, .clear,
    .discover ⟨ClosureRequest.danglingProject, ClosureRequest.danglingRequest⟩]

theorem get?_forgottenOnce :
    (({} : ClosureCache).after .native forgottenOnce).get? ClosureRequest.danglingRequest.key =
      some ⟨ClosureRequest.danglingRequest.key,
        .ofConfig ClosureRequest.danglingProject ClosureRequest.danglingRequest.config,
        ClosureRequest.danglingProject.times
          (ClosureRequest.danglingRequest.fresh ClosureRequest.danglingProject .native).files,
        ClosureRequest.danglingRequest.fresh ClosureRequest.danglingProject .native⟩ := by
  obtain ⟨r, -, -, hfresh⟩ := ClosureRequest.fresh_danglingProject
  have hdiscovered : (ClosureRequest.danglingRequest.fresh ClosureRequest.danglingProject
      .native).discovered = true := by
    rw [hfresh]
    rfl
  change (({} : ClosureCache).discover ClosureRequest.danglingProject .native
    ClosureRequest.danglingRequest).value.2.get? _ = _
  rw [ClosureRequest.kept_of_discovered hdiscovered, get?_store, if_pos rfl]

/-- The closure that was found last is used again in its project, but not after the config was written. -/
theorem discover_after_forgottenOnce :
    ∃ kept, (({} : ClosureCache).after .native forgottenOnce).get? ClosureRequest.danglingRequest.key =
        some kept ∧
      (⟨ClosureRequest.danglingProject, ClosureRequest.danglingRequest⟩ : ClosureCall).IsOutdated
        kept.closure ClosureRequest.danglingRequest rewrittenProject ∧
      ((({} : ClosureCache).after .native forgottenOnce).discover rewrittenProject .native
        ClosureRequest.danglingRequest).value.1 =
          ClosureRequest.danglingRequest.fresh rewrittenProject .native ∧
      ((({} : ClosureCache).after .native forgottenOnce).discover ClosureRequest.danglingProject .native
        ClosureRequest.danglingRequest).value =
          (kept.closure, ({} : ClosureCache).after .native forgottenOnce) := by
  have hkept := get?_forgottenOnce
  obtain ⟨front, call, rear, hevents, -, -, hsince, hnow, hagain⟩ :=
    discover_after forgottenOnce hkept
  have hcall : call = ⟨ClosureRequest.danglingProject, ClosureRequest.danglingRequest⟩ := by
    match front with
    | [] =>
        -- what was found first is forgotten
        obtain ⟨-, rfl⟩ := List.cons.inj hevents
        cases hsince [.clear] ⟨_, rfl⟩
    | [first] => cases hevents
    | [first, second] =>
        cases hevents
        rfl
    | first :: second :: third :: more => cases more <;> cases hevents
  subst hcall
  have houtdated : (⟨ClosureRequest.danglingProject, ClosureRequest.danglingRequest⟩ :
      ClosureCall).IsOutdated (ClosureRequest.danglingRequest.fresh ClosureRequest.danglingProject
        .native) ClosureRequest.danglingRequest rewrittenProject :=
    .document rfl (List.mem_singleton.mpr rfl) (show rewrittenProject.modified? ⟨"/p/tsconfig.json"⟩ ≠
      ClosureRequest.danglingProject.modified? ⟨"/p/tsconfig.json"⟩ by decide +kernel)
  exact ⟨_, hkept, houtdated, hnow rewrittenProject houtdated, hagain rfl⟩

end ClosureCache

end ScopedCheck
