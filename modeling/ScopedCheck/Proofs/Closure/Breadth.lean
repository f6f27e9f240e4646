import ScopedCheck.Proofs.Closure.Limits
/-! # A walk is the front of a search in breadth

Without bounds a search in breadth goes on layer by layer: behind everything that is found within some
number of steps comes what its last layer leads to and is not found yet. A walk with bounds takes the
front of that order. The bound on steps says how many layers there are, and the bound on files where the
list is cut; both are checked for each import, while the layers are still growing. -/

namespace ScopedCheck

namespace Path

/-! ## New places -/

/-- The places of a list that are not known yet, each once, in the spelling that comes first. -/
def newAmong (known : List Path) : List Path → List Path
  | [] => []
  | p :: rest => if p.listed known then newAmong known rest else p :: newAmong (known ++ [p]) rest

/-- The places of a list, each once, in the spelling that comes first. -/
def distinct (paths : List Path) : List Path := newAmong [] paths

variable {known paths others rest : List Path} {p : Path}

theorem newAmong_cons_of_listed (h : p.listed known = true) :
    newAmong known (p :: rest) = newAmong known rest :=
  if_pos h

theorem newAmong_cons_of_new (h : ¬p.listed known = true) :
    newAmong known (p :: rest) = p :: newAmong (known ++ [p]) rest :=
  if_neg h

theorem newAmong_append (known paths others : List Path) :
    newAmong known (paths ++ others) =
      newAmong known paths ++ newAmong (known ++ newAmong known paths) others := by
  induction paths generalizing known with
  | nil => simp [newAmong]
  | cons p rest ih =>
      simp only [List.cons_append, newAmong]
      split
      · exact ih known
      · simp [ih]

theorem mem_of_mem_newAmong (h : p ∈ newAmong known paths) : p ∈ paths := by
  induction paths generalizing known with
  | nil => exact h
  | cons q rest ih =>
      unfold newAmong at h
      split at h
      · exact List.mem_cons_of_mem _ (ih h)
      · exact List.mem_cons.mpr ((List.mem_cons.mp h).imp_right ih)

/-- What is new is not known. -/
theorem notListed_of_mem_newAmong (h : p ∈ newAmong known paths) : p.listed known = false := by
  induction paths generalizing known with
  | nil => cases h
  | cons q rest ih =>
      unfold newAmong at h
      split at h
      · exact ih h
      · rename_i hq
        rcases List.mem_cons.mp h with rfl | h
        · exact Bool.eq_false_iff.mpr hq
        · have hlonger := ih h
          rw [Bool.eq_false_iff, Ne, listed_append, not_or] at hlonger
          exact Bool.eq_false_iff.mpr hlonger.1

/-- Every place of a list is known or new. -/
theorem listed_newAmong (known : List Path) (h : p ∈ paths) :
    p.listed (known ++ newAmong known paths) = true := by
  induction paths generalizing known with
  | nil => cases h
  | cons q rest ih =>
      unfold newAmong
      split
      · rename_i hq
        rcases List.mem_cons.mp h with rfl | h
        · exact listed_append.mpr (Or.inl hq)
        · exact ih known h
      · rcases List.mem_cons.mp h with rfl | h
        · exact listed_of_mem (by simp)
        · simpa using ih (known ++ [q]) h

/-- Nothing is new in a list of what is known. -/
theorem newAmong_eq_nil (h : ∀ p ∈ paths, p.listed known = true) : newAmong known paths = [] :=
  List.eq_nil_iff_forall_not_mem.mpr fun p hp => by
    have hout := notListed_of_mem_newAmong hp
    rw [h p (mem_of_mem_newAmong hp)] at hout
    cases hout

-- two spellings of one place count once
example : distinct [⟨"/p/a.ts"⟩, ⟨"/p/b.ts"⟩, ⟨"/p//a.ts"⟩] = [⟨"/p/a.ts"⟩, ⟨"/p/b.ts"⟩] := by
  decide +kernel

end Path

namespace ImportWalk

/-! ## The search without bounds -/

/-- What a search in breadth has found: everything in order, and its last layer. -/
structure Horizon where
  seen : List Path
  edge : List Path

/-- What a search in breadth finds within some number of steps from roots. -/
def horizon (next : Path → List Path) (roots : List Path) : Nat → Horizon
  | 0 => ⟨Path.distinct roots, Path.distinct roots⟩
  | steps + 1 =>
      let before := horizon next roots steps
      let found := Path.newAmong before.seen (before.edge.flatMap next)
      ⟨before.seen ++ found, found⟩

section Search

variable {next more : Path → List Path} {roots : List Path} {f t : Path} {n m : Nat}

theorem edge_subset_seen : ∀ n, ∀ f ∈ (horizon next roots n).edge, f ∈ (horizon next roots n).seen
  | 0, _, hf => hf
  | _ + 1, _, hf => List.mem_append_right _ hf

/-- What is found within fewer steps stands in front. -/
theorem seen_front (h : n ≤ m) : (horizon next roots n).seen <+: (horizon next roots m).seen := by
  induction h with
  | refl => exact List.prefix_rfl
  | step _ ih => exact ih.trans (List.prefix_append ..)

/-- A search that finds nothing new is at its end. -/
theorem seen_of_edge_eq_nil (hedge : (horizon next roots (n + 1)).edge = []) (h : n ≤ m) :
    (horizon next roots m).seen = (horizon next roots n).seen := by
  suffices hboth : (horizon next roots m).seen = (horizon next roots n).seen ∧
      (horizon next roots (m + 1)).edge = [] from hboth.1
  induction h with
  | refl => exact ⟨rfl, hedge⟩
  | @step m _ ih =>
      obtain ⟨hseen, hempty⟩ := ih
      have hall : (horizon next roots (m + 1)).seen =
        (horizon next roots m).seen ++ (horizon next roots (m + 1)).edge := rfl
      refine ⟨by rw [hall, hempty, List.append_nil, hseen], ?_⟩
      rw [horizon, hempty, List.flatMap_nil, Path.newAmong]

/-- What is found is a root, or something that was found leads to it. -/
theorem root_or_next_of_mem_seen (h : f ∈ (horizon next roots n).seen) :
    f ∈ Path.distinct roots ∨ ∃ g ∈ (horizon next roots n).seen, f ∈ next g := by
  induction n with
  | zero => exact Or.inl h
  | succ n ih =>
      rcases List.mem_append.mp h with h | h
      · exact (ih h).imp_right fun ⟨g, hg, hf⟩ => ⟨g, List.mem_append_left _ hg, hf⟩
      · obtain ⟨g, hg, hf⟩ := List.mem_flatMap.mp (Path.mem_of_mem_newAmong h)
        exact Or.inr ⟨g, List.mem_append_left _ (edge_subset_seen n g hg), hf⟩

/-- What a file leads to is found within one step more than the file. -/
theorem listed_seen_of_next (hf : f ∈ (horizon next roots n).seen) (ht : t ∈ next f) :
    t.listed (horizon next roots (n + 1)).seen = true := by
  induction n with
  | zero => exact Path.listed_newAmong _ (List.mem_flatMap.mpr ⟨f, hf, ht⟩)
  | succ n ih =>
      rcases List.mem_append.mp hf with hf | hf
      · exact Path.listed_append.mpr (Or.inl (ih hf))
      · exact Path.listed_newAmong _ (List.mem_flatMap.mpr ⟨f, hf, ht⟩)

/-- Where more leads on, more is found, as long as everything that is led to has one spelling. -/
theorem seen_subset_of_next_subset (hmore : ∀ f, ∀ t ∈ next f, t ∈ more f)
    (hnormal : ∀ f, ∀ t ∈ more f, t.normalize = t) (n : Nat) :
    ∀ f ∈ (horizon next roots n).seen, f ∈ (horizon more roots n).seen := by
  induction n with
  | zero => exact fun _ hf => hf
  | succ n ih =>
      intro t ht
      rcases List.mem_append.mp ht with ht | ht
      · exact List.mem_append_left _ (ih t ht)
      · obtain ⟨f, hf, hnext⟩ := List.mem_flatMap.mp (Path.mem_of_mem_newAmong ht)
        have hseen := ih f (edge_subset_seen n f hf)
        obtain ⟨g, hg, hparts⟩ := Path.listed_iff.mp (listed_seen_of_next hseen (hmore f t hnext))
        rcases root_or_next_of_mem_seen hg with hroot | ⟨other, -, hother⟩
        · -- a root is found from the beginning, so that it would not be new
          have hold : t.listed (horizon next roots n).seen = true :=
            Path.listed_iff.mpr ⟨g, (seen_front (Nat.zero_le n)).subset hroot, hparts⟩
          rw [Path.notListed_of_mem_newAmong ht] at hold
          cases hold
        · rwa [Path.eq_of_parts_eq (hnormal f t (hmore f t hnext)) (hnormal other g hother) hparts]

end Search

/-! ## One step of a walk -/

section Step

variable {limits : Limits} {depth : Nat} {walk : ImportWalk} {target : Path} {found rest : List Path}

theorem followAll_cons_of_listed (h : target.listed walk.taken = true) :
    walk.followAll limits depth (target :: rest) = walk.followAll limits depth rest := by
  rw [followAll, if_pos h]

/-- With steps left a new file is taken if there is room for it. -/
theorem followAll_cons_of_room (hdepth : depth < limits.maxDepth) (hnew : ¬target.listed walk.taken = true)
    (hfew : walk.taken.length < limits.maxFiles) :
    walk.followAll limits depth (target :: rest) =
      ImportWalk.followAll limits depth { walk with
        taken := walk.taken ++ [target], queue := walk.queue ++ [(target, depth + 1)] } rest := by
  rw [followAll, if_neg hnew, if_neg (Nat.not_le.mpr hdepth), if_neg (Nat.not_le.mpr hfew)]

/-- With steps left but no room for a new file, the bound on files is hit. -/
theorem followAll_cons_of_full (hdepth : depth < limits.maxDepth) (hnew : ¬target.listed walk.taken = true)
    (hfull : limits.maxFiles ≤ walk.taken.length) :
    walk.followAll limits depth (target :: rest) = walk.hit (.files limits.maxFiles) := by
  rw [followAll, if_neg hnew, if_neg (Nat.not_le.mpr hdepth), if_pos hfull]

/-- With steps left and enough room, everything new that a file leads to is taken and queued. -/
theorem followAll_of_room (walk : ImportWalk) (hdepth : depth < limits.maxDepth)
    (hroom : walk.taken.length + (Path.newAmong walk.taken found).length ≤
      max walk.taken.length limits.maxFiles) :
    walk.followAll limits depth found =
      { walk with
        taken := walk.taken ++ Path.newAmong walk.taken found
        queue := walk.queue ++ (Path.newAmong walk.taken found).map (·, depth + 1) } := by
  induction found generalizing walk with
  | nil => simp [followAll, Path.newAmong]
  | cons target rest ih =>
      by_cases hlisted : target.listed walk.taken = true
      · rw [Path.newAmong_cons_of_listed hlisted] at hroom ⊢
        rw [followAll_cons_of_listed hlisted, ih walk hroom]
      · rw [Path.newAmong_cons_of_new hlisted] at hroom ⊢
        rw [List.length_cons] at hroom
        rw [followAll_cons_of_room hdepth hlisted (by omega), ih]
        · simp
        · simp only [List.length_append, List.length_singleton]
          omega

/-- With steps left but too little room, as much is taken as there is room for, and the bound on files is
hit. -/
theorem followAll_of_crowded (walk : ImportWalk) (hdepth : depth < limits.maxDepth)
    (hcrowded : max walk.taken.length limits.maxFiles <
      walk.taken.length + (Path.newAmong walk.taken found).length) :
    (walk.followAll limits depth found).taken =
        walk.taken ++ (Path.newAmong walk.taken found).take (limits.maxFiles - walk.taken.length) ∧
      (walk.followAll limits depth found).limit = (walk.limit <|> some (.files limits.maxFiles)) := by
  induction found generalizing walk with
  | nil =>
      rw [Path.newAmong, List.length_nil] at hcrowded
      omega
  | cons target rest ih =>
      by_cases hlisted : target.listed walk.taken = true
      · rw [Path.newAmong_cons_of_listed hlisted] at hcrowded ⊢
        rw [followAll_cons_of_listed hlisted]
        exact ih walk hcrowded
      · rw [Path.newAmong_cons_of_new hlisted] at hcrowded ⊢
        rw [List.length_cons] at hcrowded
        by_cases hfull : limits.maxFiles ≤ walk.taken.length
        · rw [followAll_cons_of_full hdepth hlisted hfull, Nat.sub_eq_zero_of_le hfull]
          simp [hit]
        · have hleft : limits.maxFiles - walk.taken.length =
              limits.maxFiles - (walk.taken ++ [target]).length + 1 := by
            rw [List.length_append, List.length_singleton]
            omega
          rw [followAll_cons_of_room hdepth hlisted (by omega), hleft, List.take_succ_cons]
          obtain ⟨htaken, hlimit⟩ := ih { walk with
              taken := walk.taken ++ [target], queue := walk.queue ++ [(target, depth + 1)] } (by
            simp only [List.length_append, List.length_singleton]
            omega)
          exact ⟨by rw [htaken, List.append_assoc, List.singleton_append], hlimit⟩

/-- A bound that was hit stays the one that is told. -/
theorem limit_followAll (h : walk.limit ≠ none) : (walk.followAll limits depth found).limit = walk.limit := by
  have hhit : ∀ limit, (walk.hit limit).limit = walk.limit := fun limit => by
    obtain ⟨first, hfirst⟩ := Option.ne_none_iff_exists'.mp h
    simp [hit, hfirst]
  induction found generalizing walk with
  | nil => rfl
  | cons target rest ih =>
      unfold followAll
      split
      · exact ih h hhit
      · split
        · exact hhit _
        · split
          · exact hhit _
          · exact ih h hhit

end Step

/-- The roots are taken and queued, each place once. -/
theorem foldl_start_eq (roots : List Path) (walk : ImportWalk) :
    roots.foldl start walk =
      { walk with
        taken := walk.taken ++ Path.newAmong walk.taken roots
        queue := walk.queue ++ (Path.newAmong walk.taken roots).map (·, 0) } := by
  induction roots generalizing walk with
  | nil => simp [Path.newAmong]
  | cons root rest ih =>
      rw [List.foldl_cons, ih]
      unfold start
      split
      · rename_i hlisted
        rw [Path.newAmong_cons_of_listed hlisted]
      · rename_i hnew
        rw [Path.newAmong_cons_of_new hnew]
        simp

/-! ## From layer to layer -/

/-- The most files that a walk from roots takes. -/
def room (limits : Limits) (roots : List Path) : Nat := max limits.maxFiles (Path.distinct roots).length

/-- A walk in the middle of a layer. What some files of the layer lead to is taken, and queued behind the
rest of the layer. -/
structure InLayer (next : Path → List Path) (roots : List Path) (limits : Limits) (walk : ImportWalk)
    (n : Nat) (done rest : List Path) : Prop where
  edge : (horizon next roots n).edge = done ++ rest
  taken : walk.taken = (horizon next roots n).seen ++
    Path.newAmong (horizon next roots n).seen (done.flatMap next)
  queue : walk.queue = rest.map (·, n) ++
    (Path.newAmong (horizon next roots n).seen (done.flatMap next)).map (·, n + 1)
  small : walk.taken.length ≤ room limits roots
  limit : walk.limit = none

/-- A walk that has taken all that it will take: the layers within the bound on steps, as far as there is
room. All of them are taken unless the bound on files is what was hit first. -/
structure IsSpent (next : Path → List Path) (roots : List Path) (limits : Limits) (walk : ImportWalk) :
    Prop where
  taken : walk.taken = (horizon next roots limits.maxDepth).seen.take (room limits roots)
  full : ∀ entry ∈ walk.queue, IsFull limits entry.2 walk.taken
  whole : walk.limit ≠ some (.files limits.maxFiles) →
    walk.taken = (horizon next roots limits.maxDepth).seen

/-- A walk is in a layer within the bound on steps, or takes nothing more. -/
inductive IsUnderWay (next : Path → List Path) (roots : List Path) (limits : Limits)
    (walk : ImportWalk) : Prop
  | inLayer {n : Nat} {done rest : List Path} (hn : n < limits.maxDepth)
      (h : InLayer next roots limits walk n done rest)
  | spent (h : IsSpent next roots limits walk)

section Layers

variable {targets : Path → Except Setback (List Path)} {next : Path → List Path} {roots : List Path}
  {limits : Limits} {walk more last : ImportWalk} {n : Nat} {file : Path} {done rest : List Path}

/-- What part of a layer leads to stands in front in the next one. -/
theorem seen_newAmong_prefix (h : (horizon next roots n).edge = done ++ rest) :
    (horizon next roots n).seen ++ Path.newAmong (horizon next roots n).seen (done.flatMap next) <+:
      (horizon next roots (n + 1)).seen := by
  rw [horizon, h, List.flatMap_append, Path.newAmong_append, ← List.append_assoc]
  exact List.prefix_append ..

/-- A walk that took all layers within the bound on steps is spent. -/
theorem isSpent_of_taken (htaken : walk.taken = (horizon next roots limits.maxDepth).seen)
    (hsmall : walk.taken.length ≤ room limits roots)
    (hqueue : ∀ entry ∈ walk.queue, limits.maxDepth ≤ entry.2) : IsSpent next roots limits walk where
  taken := by rw [← htaken, List.take_of_length_le hsmall]
  full entry hentry := Or.inl (hqueue entry hentry)
  whole _ := htaken

/-- When a layer is followed, the next one begins. -/
theorem InLayer.turn (h : InLayer next roots limits walk n done []) :
    InLayer next roots limits walk (n + 1) [] (horizon next roots (n + 1)).edge := by
  have hedge : (horizon next roots n).edge = done := by rw [h.edge, List.append_nil]
  refine ⟨rfl, ?_, ?_, h.small, h.limit⟩
  · rw [h.taken, List.flatMap_nil, Path.newAmong, List.append_nil, horizon, hedge]
  · rw [h.queue, List.flatMap_nil, Path.newAmong, List.map_nil, List.map_nil, List.append_nil,
      List.nil_append, horizon, hedge]

/-- There is no step left behind the last layer. -/
theorem InLayer.isSpent (h : InLayer next roots limits walk n [] rest) (hn : n = limits.maxDepth) :
    IsSpent next roots limits walk := by
  subst hn
  refine isSpent_of_taken ?_ h.small fun entry hentry => ?_
  · rw [h.taken, List.flatMap_nil, Path.newAmong, List.append_nil]
  · rw [h.queue, List.flatMap_nil, Path.newAmong, List.map_nil, List.append_nil] at hentry
    obtain ⟨_, -, rfl⟩ := List.mem_map.mp hentry
    exact Nat.le_refl _

/-- All roots are taken, so that there is room for as many files as the bound on files says, or for none. -/
theorem InLayer.max_eq (h : InLayer next roots limits walk n done rest) :
    max walk.taken.length limits.maxFiles = room limits roots := by
  have hroots : (Path.distinct roots).length ≤ walk.taken.length := by
    rw [h.taken, List.length_append]
    exact Nat.le_add_right_of_le (seen_front (Nat.zero_le n)).length_le
  have hsmall := h.small
  unfold room at hsmall ⊢
  omega

/-- One file more of a layer adds what it leads to and is not taken yet. -/
theorem InLayer.newAmong_concat (h : InLayer next roots limits walk n done rest) (file : Path) :
    Path.newAmong (horizon next roots n).seen ((done ++ [file]).flatMap next) =
      Path.newAmong (horizon next roots n).seen (done.flatMap next) ++
        Path.newAmong walk.taken (next file) := by
  rw [List.flatMap_append, Path.newAmong_append, ← h.taken, List.flatMap_singleton]

/-- When the room runs out in a layer, what is taken is the front of all layers. -/
theorem InLayer.isSpent_of_crowded (h : InLayer next roots limits walk n done (file :: rest))
    (hn : n < limits.maxDepth) (queue : List (Path × Nat))
    (hcrowded : room limits roots < walk.taken.length + (Path.newAmong walk.taken (next file)).length) :
    IsSpent next roots limits (({ walk with queue } : ImportWalk).followAll limits n (next file)) := by
  have hmax := h.max_eq
  obtain ⟨htaken, hlimit⟩ := followAll_of_crowded { walk with queue } hn (hmax ▸ hcrowded)
  have hfront : walk.taken ++ Path.newAmong walk.taken (next file) <+:
      (horizon next roots limits.maxDepth).seen := by
    have hlayer := seen_newAmong_prefix (h.edge.trans (List.append_cons ..))
    rw [h.newAmong_concat, ← List.append_assoc, ← h.taken] at hlayer
    exact hlayer.trans (seen_front hn)
  obtain ⟨behind, hbehind⟩ := hfront
  have hcut : ({ walk with queue }.followAll limits n (next file)).taken =
      (horizon next roots limits.maxDepth).seen.take (room limits roots) := by
    rw [← hbehind, List.take_append_of_le_length (by rw [List.length_append]; omega),
      List.take_append, List.take_of_length_le h.small, htaken]
    congr 2
    simp only
    omega
  refine ⟨hcut, fun entry _ => Or.inr ?_, fun hother => ?_⟩
  · rw [hcut, List.length_take, ← hbehind, List.length_append, List.length_append]
    omega
  · rw [hlimit, h.limit] at hother
    exact absurd rfl hother

/-- As long as there is room a walk stays in the layer. -/
theorem InLayer.follow (h : InLayer next roots limits walk n done (file :: rest)) (hn : n < limits.maxDepth)
    {queue : List (Path × Nat)} (hqueue : walk.queue = (file, n) :: queue)
    (hroom : walk.taken.length + (Path.newAmong walk.taken (next file)).length ≤ room limits roots) :
    InLayer next roots limits (({ walk with queue } : ImportWalk).followAll limits n (next file)) n
      (done ++ [file]) rest := by
  have hrest : queue = rest.map (·, n) ++
      (Path.newAmong (horizon next roots n).seen (done.flatMap next)).map (·, n + 1) := by
    have hboth := hqueue.symm.trans h.queue
    simpa using hboth
  rw [followAll_of_room { walk with queue } hn (h.max_eq ▸ hroom)]
  refine ⟨h.edge.trans (List.append_cons ..), ?_, ?_, ?_, h.limit⟩
  · rw [h.newAmong_concat, ← List.append_assoc, ← h.taken]
  · rw [h.newAmong_concat, hrest, List.map_append, List.append_assoc]
  · rwa [List.length_append]

/-- A walk in a layer follows one file more of it, or runs out of room. -/
theorem InLayer.step (h : InLayer next roots limits walk n done (file :: rest)) (hn : n < limits.maxDepth)
    {queue : List (Path × Nat)} (hqueue : walk.queue = (file, n) :: queue) :
    IsUnderWay next roots limits (({ walk with queue } : ImportWalk).followAll limits n (next file)) := by
  by_cases hroom :
      walk.taken.length + (Path.newAmong walk.taken (next file)).length ≤ room limits roots
  · exact .inLayer hn (h.follow hn hqueue hroom)
  · exact .spent (h.isSpent_of_crowded hn queue (Nat.not_le.mp hroom))

/-- A walk that takes nothing more goes on to take nothing. -/
theorem IsSpent.step (h : IsSpent next roots limits walk) (hnext : Advances targets limits walk more) :
    IsSpent next roots limits more := by
  cases hnext with
  | @step file depth queue found hqueue hfound =>
      obtain ⟨added, hfollows⟩ := followAll_spec limits depth { walk with queue } found
      obtain rfl := hfollows.room (h.full (file, depth) (by simp [hqueue]))
      have htaken := hfollows.taken
      have hqueued := hfollows.deeper
      simp only [List.append_nil, List.map_nil] at htaken hqueued
      refine ⟨htaken.trans h.taken, fun entry hentry => ?_, fun hlimit => htaken.trans (h.whole fun hfiles => ?_)⟩
      · rw [hqueued] at hentry
        rw [htaken]
        exact h.full entry (by simp [hqueue, hentry])
      · have hsame : ({ walk with queue } : ImportWalk).limit ≠ none := by simp [hfiles]
        rw [limit_followAll hsame] at hlimit
        exact hlimit hfiles

/-- The first file in the queue is the next one of a layer, unless nothing more is taken. -/
theorem IsUnderWay.front (h : IsUnderWay next roots limits walk) {depth : Nat} {queue : List (Path × Nat)}
    (hqueue : walk.queue = (file, depth) :: queue) :
    (depth < limits.maxDepth ∧ ∃ done rest, InLayer next roots limits walk depth done (file :: rest)) ∨
      IsSpent next roots limits walk := by
  cases h with
  | spent h => exact Or.inr h
  | @inLayer n done rest hn h =>
      have hfirst : ∀ {n done rest}, InLayer next roots limits walk n done rest → rest ≠ [] →
          depth = n ∧ ∃ others, rest = file :: others := by
        intro n done rest h hne
        obtain ⟨first, others, rfl⟩ := List.exists_cons_of_ne_nil hne
        have hboth := hqueue.symm.trans h.queue
        simp only [List.map_cons, List.cons_append, List.cons.injEq, Prod.mk.injEq] at hboth
        exact ⟨hboth.1.2, others, by rw [hboth.1.1]⟩
      by_cases hne : rest = []
      · subst hne
        have hturn := h.turn
        rcases Nat.eq_or_lt_of_le hn with heq | hlt
        · exact Or.inr (hturn.isSpent heq)
        · have hsome : (horizon next roots (n + 1)).edge ≠ [] := by
            intro hempty
            have hboth := hqueue.symm.trans hturn.queue
            simp [hempty, Path.newAmong] at hboth
          obtain ⟨rfl, others, hothers⟩ := hfirst hturn hsome
          exact Or.inl ⟨hlt, _, others, hothers ▸ hturn⟩
      · obtain ⟨rfl, others, rfl⟩ := hfirst h hne
        exact Or.inl ⟨hn, done, others, h⟩

/-- One step of a walk keeps what holds all along it. -/
theorem IsUnderWay.step (hnext : ∀ file found, targets file = .ok found → next file = found)
    (h : IsUnderWay next roots limits walk) (hstep : Advances targets limits walk more) :
    IsUnderWay next roots limits more := by
  cases hstep with
  | @step file depth queue found hqueue hfound =>
      rcases h.front hqueue with ⟨hdepth, done, rest, h⟩ | h
      · have := h.step hdepth hqueue
        rwa [hnext file found hfound] at this
      · exact .spent (h.step (.step hqueue hfound))

theorem IsUnderWay.of_advances (hnext : ∀ file found, targets file = .ok found → next file = found)
    (h : IsUnderWay next roots limits walk)
    (hlast : Relation.ReflTransGen (Advances targets limits) walk last) :
    IsUnderWay next roots limits last := by
  induction hlast with
  | refl => exact h
  | tail _ hstep ih => exact ih.step hnext hstep

/-- A walk begins in the layer of the roots. -/
theorem isUnderWay_start (next : Path → List Path) (roots : List Path) (limits : Limits) :
    IsUnderWay next roots limits (roots.foldl start {}) := by
  have hroots : InLayer next roots limits (roots.foldl start {}) 0 [] (Path.distinct roots) := by
    rw [foldl_start_eq]
    refine ⟨rfl, ?_, ?_, ?_, rfl⟩
    · simp [horizon, Path.newAmong, Path.distinct]
    · simp [Path.newAmong, Path.distinct]
    · exact Nat.le_max_right ..
  rcases Nat.eq_zero_or_pos limits.maxDepth with hzero | hpos
  · exact .spent (hroots.isSpent hzero.symm)
  · exact .inLayer hpos hroots

/-- When nothing is queued a walk has taken all that it will take. -/
theorem IsUnderWay.isSpent (h : IsUnderWay next roots limits walk) (hqueue : walk.queue = []) :
    IsSpent next roots limits walk := by
  cases h with
  | spent h => exact h
  | @inLayer n done rest hn h =>
      have hempty := h.queue.symm.trans hqueue
      simp only [List.append_eq_nil_iff, List.map_eq_nil_iff] at hempty
      obtain ⟨rfl, hnone⟩ := hempty
      have hedge : (horizon next roots (n + 1)).edge = [] := by
        rw [horizon, h.edge, List.append_nil, hnone]
      refine isSpent_of_taken ?_ h.small (by simp [hqueue])
      rw [seen_of_edge_eq_nil hedge (Nat.le_of_lt hn), h.taken, hnone, List.append_nil]

end Layers

/-! ## Walks over imports -/

/-- What the imports of a file lead to; nothing if the file cannot be read. -/
def importsOf (tree : FileTree) (resolver : Import.Resolver) (follows : Import.Kind → Bool)
    (file : Path) : List Path :=
  (targetsOf tree resolver follows file).toOption.getD []

/-- The order of a search in breadth over imports: what it finds within some number of steps. -/
def breadthFirst (tree : FileTree) (resolver : Import.Resolver) (follows : Import.Kind → Bool)
    (roots : List Path) (n : Nat) : List Path :=
  (horizon (importsOf tree resolver follows) roots n).seen

/-- A file is some number of imports away from a root. -/
inductive Hops (tree : FileTree) (resolver : Import.Resolver) (follows : Import.Kind → Bool)
    (roots : List Path) : Nat → Path → Prop
  | root {path : Path} (h : path ∈ roots) : Hops tree resolver follows roots 0 path
  | import {n : Nat} {file target : Path} (hfile : Hops tree resolver follows roots n file)
      (h : Imports tree resolver follows file target) : Hops tree resolver follows roots (n + 1) target

section Imports

variable {tree : FileTree} {resolver : Import.Resolver} {follows : Import.Kind → Bool}
  {roots : List Path} {limits : Limits} {walk : ImportWalk} {f t : Path} {n m : Nat}

theorem importsOf_eq {found : List Path} (h : targetsOf tree resolver follows f = .ok found) :
    importsOf tree resolver follows f = found := by
  rw [importsOf, h]
  rfl

theorem mem_importsOf_iff :
    t ∈ importsOf tree resolver follows f ↔ Imports tree resolver follows f t := by
  constructor
  · intro h
    cases hfound : targetsOf tree resolver follows f with
    | error setback =>
        rw [importsOf, hfound] at h
        cases h
    | ok found => exact imports_of_targetsOf hfound (importsOf_eq hfound ▸ h)
  · intro h
    have himport := h
    obtain ⟨hfile, text, htext, -⟩ := h
    obtain ⟨found, hfound⟩ : ∃ found, targetsOf tree resolver follows f = .ok found :=
      ⟨_, targetsOf_of_readText hfile htext⟩
    rw [importsOf_eq hfound]
    exact (mem_targetsOf_iff hfound).mpr himport

theorem breadthFirst_front (h : n ≤ m) :
    breadthFirst tree resolver follows roots n <+: breadthFirst tree resolver follows roots m :=
  seen_front h

theorem distinct_prefix_breadthFirst (n : Nat) :
    Path.distinct roots <+: breadthFirst tree resolver follows roots n :=
  seen_front (Nat.zero_le n)

theorem hops_of_mem_edge :
    ∀ n, ∀ f ∈ (horizon (importsOf tree resolver follows) roots n).edge, Hops tree resolver follows roots n f
  | 0, _, hf => .root (Path.mem_of_mem_newAmong hf)
  | n + 1, _, hf => by
      obtain ⟨g, hg, hf⟩ := List.mem_flatMap.mp (Path.mem_of_mem_newAmong hf)
      exact .import (hops_of_mem_edge n g hg) (mem_importsOf_iff.mp hf)

/-- What is found within some number of steps is no more imports away from a root. -/
theorem hops_of_mem_breadthFirst (h : f ∈ breadthFirst tree resolver follows roots n) :
    ∃ m ≤ n, Hops tree resolver follows roots m f := by
  induction n with
  | zero => exact ⟨0, Nat.le_refl 0, hops_of_mem_edge 0 f h⟩
  | succ n ih =>
      rcases List.mem_append.mp h with h | h
      · obtain ⟨m, hm, hhops⟩ := ih h
        exact ⟨m, Nat.le_succ_of_le hm, hhops⟩
      · exact ⟨n + 1, Nat.le_refl _, hops_of_mem_edge (n + 1) f h⟩

/-- A walk that comes to its end takes the front of the order of a search in breadth. -/
theorem isSpent_of_ofRoots (h : ofRoots tree resolver roots limits follows = .ok walk) :
    IsSpent (importsOf tree resolver follows) roots limits walk := by
  obtain ⟨_, hqueue, -, -⟩ := end_of_ofRoots h
  exact ((isUnderWay_start _ roots limits).of_advances (fun _ _ => importsOf_eq)
    (advances_of_run h)).isSpent hqueue

/-- A walk that hits no bound takes all that a search in breadth ever finds. -/
theorem taken_of_limit (h : ofRoots tree resolver roots limits follows = .ok walk)
    (hlimit : walk.limit = none) (hn : limits.maxDepth ≤ n) :
    walk.taken = breadthFirst tree resolver follows roots n := by
  have hwhole : walk.taken = breadthFirst tree resolver follows roots limits.maxDepth :=
    (isSpent_of_ofRoots h).whole (by simp [hlimit])
  have hedge : (horizon (importsOf tree resolver follows) roots (limits.maxDepth + 1)).edge = [] := by
    refine Path.newAmong_eq_nil fun t ht => ?_
    obtain ⟨f, hf, ht⟩ := List.mem_flatMap.mp ht
    have htaken : f ∈ walk.taken := hwhole ▸ edge_subset_seen _ f hf
    obtain ⟨found, hfound, hall⟩ := (going_of_ofRoots h).2 f htaken
    rw [importsOf_eq hfound] at ht
    have hlisted := hall hlimit t ht
    rwa [hwhole] at hlisted
  rw [hwhole, breadthFirst, breadthFirst, seen_of_edge_eq_nil hedge hn]

/-- What a walk within bounds takes: the roots and what follows them in the order of a search in breadth, up
to some place in that order. It goes no further than the bound on steps, takes no more than the bound on
files unless there are more roots, and ends before the search does only if it hits a bound. -/
structure IsFront (tree : FileTree) (resolver : Import.Resolver) (follows : Import.Kind → Bool)
    (roots : List Path) (limits : Limits) (walk : ImportWalk) : Prop where
  taken : walk.taken = (breadthFirst tree resolver follows roots limits.maxDepth).take
    (max limits.maxFiles (Path.distinct roots).length)
  start : Path.distinct roots <+: walk.taken
  front : ∀ n, limits.maxDepth ≤ n → walk.taken <+: breadthFirst tree resolver follows roots n
  near : ∀ f ∈ walk.files, ∃ n ≤ limits.maxDepth, Hops tree resolver follows roots n f
  few : walk.files.length ≤ max limits.maxFiles (Path.distinct roots).length
  whole : walk.limit = none →
    ∀ n, limits.maxDepth ≤ n → walk.taken = breadthFirst tree resolver follows roots n

theorem isFront_of_ofRoots (h : ofRoots tree resolver roots limits follows = .ok walk) :
    IsFront tree resolver follows roots limits walk := by
  have htaken : walk.taken = (breadthFirst tree resolver follows roots limits.maxDepth).take
      (max limits.maxFiles (Path.distinct roots).length) := (isSpent_of_ofRoots h).taken
  have hfront : walk.taken <+: breadthFirst tree resolver follows roots limits.maxDepth :=
    htaken ▸ List.take_prefix ..
  have hfew : walk.taken.length ≤ max limits.maxFiles (Path.distinct roots).length := by
    rw [htaken, List.length_take]
    exact Nat.min_le_left ..
  refine ⟨htaken, ?_, fun n hn => hfront.trans (breadthFirst_front hn), fun f hf => ?_, ?_,
    fun hlimit n hn => taken_of_limit h hlimit hn⟩
  · refine List.prefix_of_prefix_length_le (distinct_prefix_breadthFirst _) hfront ?_
    rw [htaken, List.length_take]
    exact Nat.le_min.mpr ⟨Nat.le_max_right .., (distinct_prefix_breadthFirst _).length_le⟩
  · exact hops_of_mem_breadthFirst (hfront.subset (Path.mem_sorted.mp hf))
  · rwa [files, Path.length_sorted]

/-- Wider bounds never leave out what narrower ones take. -/
theorem taken_prefix_of_le {more : Limits} {other : ImportWalk}
    (h : ofRoots tree resolver roots limits follows = .ok walk)
    (hmore : ofRoots tree resolver roots more follows = .ok other)
    (hdepth : limits.maxDepth ≤ more.maxDepth) (hfiles : limits.maxFiles ≤ more.maxFiles) :
    walk.taken <+: other.taken := by
  have hfront := (isFront_of_ofRoots h).front _ hdepth
  have hfew := (isFront_of_ofRoots h).few
  rw [files, Path.length_sorted] at hfew
  rw [(isFront_of_ofRoots hmore).taken]
  exact List.prefix_take_iff.mpr ⟨hfront, by omega⟩

/-- In a readable tree a walk within any bounds takes the front of the order of a search in breadth, and
with wider bounds it takes at least as much. -/
theorem walk_isFront (htree : tree.isReadable = true) (resolver : Import.Resolver) (roots : List Path)
    (limits : Limits) (follows : Import.Kind → Bool) :
    ∃ walk, ofRoots tree resolver roots limits follows = .ok walk ∧
      IsFront tree resolver follows roots limits walk ∧
      ∀ more : Limits, limits.maxDepth ≤ more.maxDepth → limits.maxFiles ≤ more.maxFiles →
        ∃ other, ofRoots tree resolver roots more follows = .ok other ∧
          walk.taken <+: other.taken ∧ ∀ f ∈ walk.files, f ∈ other.files := by
  have hends : ∀ limits, ∃ walk, ofRoots tree resolver roots limits follows = .ok walk :=
    fun limits => exists_ofRoots limits fun f _ =>
      (targetsOf_spec htree resolver follows f).imp fun _ hfound => hfound.1
  obtain ⟨walk, hwalk⟩ := hends limits
  refine ⟨walk, hwalk, isFront_of_ofRoots hwalk, fun more hdepth hfiles => ?_⟩
  obtain ⟨other, hother⟩ := hends more
  have hfront := taken_prefix_of_le hwalk hother hdepth hfiles
  exact ⟨other, hother, hfront, fun f hf =>
    Path.mem_sorted.mpr (hfront.subset (Path.mem_sorted.mp hf))⟩

end Imports

/-- A project with a file that imports one file and requires another one. The imported file imports one
more. -/
def forkedProject : FileTree :=
  ⟨[("p".toList, .dir [("tsconfig.json".toList, .file { content := .text "\x7b\x7d" }),
    ("a.ts".toList, .file { content := .text "import './b'; require('./c');" }),
    ("b.ts".toList, .file { content := .text "import './d';" }),
    ("c.ts".toList, .file { content := .text "" }),
    ("d.ts".toList, .file { content := .text "" })])]⟩

/-- With room for three files the last one is left out, which a walk without bounds takes last. -/
theorem walk_isFront_in_forkedProject :
    forkedProject.isReadable = true ∧
      ∃ walk other, ofRoots forkedProject (.ofConfig { configPath := ⟨"/p/tsconfig.json"⟩ })
          [⟨"/p/a.ts"⟩] { maxFiles := 3 } (fun _ => true) = .ok walk ∧
        IsFront forkedProject (.ofConfig { configPath := ⟨"/p/tsconfig.json"⟩ }) (fun _ => true)
          [⟨"/p/a.ts"⟩] { maxFiles := 3 } walk ∧
        ofRoots forkedProject (.ofConfig { configPath := ⟨"/p/tsconfig.json"⟩ })
          [⟨"/p/a.ts"⟩] {} (fun _ => true) = .ok other ∧
        walk.taken <+: other.taken ∧
        other.taken = [⟨"/p/a.ts"⟩, ⟨"/p/b.ts"⟩, ⟨"/p/c.ts"⟩, ⟨"/p/d.ts"⟩] ∧
        walk.limit = some (.files 3) := by
  have hreadable : forkedProject.isReadable = true := by decide +kernel
  obtain ⟨walk, hwalk, hfront, hmore⟩ := walk_isFront hreadable
    (.ofConfig { configPath := ⟨"/p/tsconfig.json"⟩ }) [⟨"/p/a.ts"⟩] { maxFiles := 3 } fun _ => true
  obtain ⟨other, hother, hprefix, -⟩ := hmore {} (by decide) (by decide)
  have hlimit := Fallible.of_toOption hwalk (f := (·.limit)) (b := some (.files 3)) (by decide +kernel)
  have htaken := Fallible.of_toOption hother (f := (·.taken))
    (b := [⟨"/p/a.ts"⟩, ⟨"/p/b.ts"⟩, ⟨"/p/c.ts"⟩, ⟨"/p/d.ts"⟩]) (by decide +kernel)
  exact ⟨hreadable, walk, other, hwalk, hfront, hother, hprefix, htaken, hlimit⟩

end ImportWalk

end ScopedCheck
