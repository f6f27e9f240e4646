import Mathlib.Data.List.Chain
import Mathlib.Data.List.TakeWhile
import ScopedCheck.Proofs.Config.Flattening
/-! # Documents that build on themselves

Documents are gone through depth first, from left to right. Loading fails with the first thing that is
wrong, and a document that builds on itself is one of these: the reported chain leads from a document
along what it builds on back to the document. Fuel has no say in it, since a way down through different
documents is never longer than there are files. -/

namespace ScopedCheck.Config

open Fallible (bind_eq_ok_iff)
open FileTree (IsFilePlace)

variable {tree : FileTree} {leaf here : Path} {trail : List Path} {document : Document}

/-! ## One document -/

/-- A document laid over what it builds on, and the documents that were read. -/
def layered (here : Path) (document : Document) (bases : List (Layer × List Path)) : Layer × List Path :=
  (mergeLayers ((bases.map (·.1)).foldl mergeLayers {}) (ownLayer document here.parent),
    here :: (bases.map (·.2)).flatten)

/-- Load what a specifier in a document stands for. -/
def loadBase (tree : FileTree) (fuel : Nat) (trail : List Path) (here : Path) (specifier : String) :
    Except Failure (Layer × List Path) := do
  let base ← baseOf tree here specifier
  loadLayer tree fuel (trail ++ [here]) base

theorem cycleFrom?_of_mem (hhere : here.normalize = here)
    (htrail : ∀ above ∈ trail, above.normalize = above) (h : here ∈ trail) :
    cycleFrom? here trail = some (trail.dropWhile (· ≠ here)) := by
  have hsame : ∀ above ∈ trail, (!here.same above) = decide (above ≠ here) := by
    intro above habove
    rw [Bool.eq_iff_iff, Bool.not_eq_true', Bool.eq_false_iff, ne_eq, Path.same_iff, decide_eq_true_iff,
      not_iff_not]
    constructor
    · intro hparts
      exact (Path.eq_of_parts_eq hhere (htrail above habove) hparts).symm
    · intro heq
      rw [heq]
  have hdropped : trail.dropWhile (!here.same ·) = trail.dropWhile (· ≠ here) := by
    clear h htrail
    induction trail with
    | nil => rfl
    | cons above rest ih =>
        rw [List.dropWhile_cons, List.dropWhile_cons, hsame above (List.mem_cons_self ..),
          ih fun other hother => hsame other (List.mem_cons_of_mem _ hother)]
  have hne : trail.dropWhile (· ≠ here) ≠ [] := by
    intro hnil
    simpa using List.dropWhile_eq_nil_iff.mp hnil here h
  rw [cycleFrom?, hdropped]
  split
  · contradiction
  · rfl

theorem cycleFrom?_of_notMem (hhere : here.normalize = here)
    (htrail : ∀ above ∈ trail, above.normalize = above) (h : here ∉ trail) :
    cycleFrom? here trail = none := by
  apply cycleFrom?_eq_none
  intro above habove
  rw [Bool.eq_false_iff, ne_eq, Path.same_iff]
  intro hparts
  rw [Path.eq_of_parts_eq hhere (htrail above habove) hparts] at h
  exact h habove

/-- Documents are known by their canonical paths. -/
theorem loadLayer_congr {path other : Path} (h : tree.canonical path = tree.canonical other) (fuel : Nat)
    (trail : List Path) : loadLayer tree fuel trail path = loadLayer tree fuel trail other := by
  cases fuel with
  | zero => rfl
  | succ fuel => simp only [loadLayer, h]

/-- A document that is met again below itself closes a cycle. -/
theorem loadLayer_of_mem (htrail : ∀ above ∈ trail, above.normalize = above) {path : Path}
    (h : tree.canonical path ∈ trail) (fuel : Nat) :
    loadLayer tree (fuel + 1) trail path = .error (.circularExtends
      (trail.dropWhile (· ≠ tree.canonical path) ++ [tree.canonical path])) := by
  rw [loadLayer, cycleFrom?_of_mem (FileTree.normalize_canonical tree path) htrail h]

/-- Any other document is read and then laid over what it builds on. -/
theorem loadLayer_of_notMem (htrail : ∀ above ∈ trail, above.normalize = above) {path : Path}
    (h : tree.canonical path ∉ trail) (fuel : Nat) :
    loadLayer tree (fuel + 1) trail path = do
      let document ← readDocument tree (tree.canonical path)
      let bases ← document.specifiers.mapM (loadBase tree fuel trail (tree.canonical path))
      return layered (tree.canonical path) document bases := by
  rw [loadLayer, cycleFrom?_of_notMem (FileTree.normalize_canonical tree path) htrail h]
  rfl

/-! ## The way down -/

/-- Whether specifiers in a document stand for documents that can be loaded. -/
def ArePassed (tree : FileTree) (here : Path) (specifiers : List String) : Prop :=
  ∀ specifier ∈ specifiers, ∃ base, baseOf tree here specifier = .ok base ∧
    IsGrounded tree (tree.canonical base)

/-- Whether the way through all documents comes to a document below certain others: everything to the
left of this way can be loaded. -/
inductive Reaches (tree : FileTree) (leaf : Path) : List Path → Path → Prop
  | start : Reaches tree leaf [] leaf
  | down {trail : List Path} {here base : Path} {document : Document} {front rear : List String}
      {specifier : String} (h : Reaches tree leaf trail here) (hnew : here ∉ trail)
      (hread : readDocument tree here = .ok document)
      (hspecifiers : document.specifiers = front ++ specifier :: rear)
      (hfront : ArePassed tree here front) (hbase : baseOf tree here specifier = .ok base) :
      Reaches tree leaf (trail ++ [here]) (tree.canonical base)

/-- What goes wrong first on the way through all documents, depth first and from left to right. -/
inductive FailsFirst (tree : FileTree) (leaf : Path) : Failure → Prop
  | circular {trail : List Path} {here : Path} (h : Reaches tree leaf trail here) (hmem : here ∈ trail) :
      FailsFirst tree leaf (.circularExtends (trail.dropWhile (· ≠ here) ++ [here]))
  | unreadable {trail : List Path} {here : Path} {failure : Failure} (h : Reaches tree leaf trail here)
      (hnew : here ∉ trail) (hread : readDocument tree here = .error failure) :
      FailsFirst tree leaf failure
  | missing {trail : List Path} {here : Path} {document : Document} {front rear : List String}
      {specifier : String} {failure : Failure} (h : Reaches tree leaf trail here) (hnew : here ∉ trail)
      (hread : readDocument tree here = .ok document)
      (hspecifiers : document.specifiers = front ++ specifier :: rear)
      (hfront : ArePassed tree here front) (hbase : baseOf tree here specifier = .error failure) :
      FailsFirst tree leaf failure

theorem isFilePlace_of_isFound (h : tree.IsFound here) (hread : readDocument tree here = .ok document) :
    tree.IsFilePlace here := by
  obtain ⟨found, hfound, rfl⟩ := h
  exact isFilePlace_of_readDocument hfound hread

theorem isFound_of_baseOf {base : Path} {specifier : String}
    (h : baseOf tree here specifier = .ok base) : tree.IsFound (tree.canonical base) :=
  ⟨base, isFile_or_normal_of_baseOf h, rfl⟩

/-- What is known of documents one above the other. -/
structure IsTrail (tree : FileTree) (trail : List Path) (here : Path) : Prop where
  nodup : trail.Nodup
  places : ∀ above ∈ trail, tree.IsFilePlace above
  above : ∀ above ∈ trail, Relation.TransGen (BuildsOn tree) above here
  linked : (trail ++ [here]).IsChain (BuildsOn tree)
  found : tree.IsFound here

theorem IsTrail.normal (h : IsTrail tree trail here) : ∀ above ∈ trail, above.normalize = above := by
  intro above habove
  obtain ⟨location, -, rfl, hnames, -⟩ := h.places above habove
  exact Path.normalize_pathOf hnames

theorem IsTrail.areAbove (h : IsTrail tree trail here) : AreAbove tree trail here :=
  ⟨h.nodup, h.places, h.above⟩

/-- A way down is no longer than there are files. -/
theorem IsTrail.length_le (h : IsTrail tree trail here) : trail.length ≤ tree.fileCount :=
  h.areAbove.length_le

/-- Nothing is above the first document. -/
theorem IsTrail.start (h : tree.IsFound leaf) : IsTrail tree [] leaf :=
  ⟨List.nodup_nil, by simp, by simp, .singleton _, h⟩

/-- One document further down. -/
theorem IsTrail.down (h : IsTrail tree trail here) (hnew : here ∉ trail)
    (hread : readDocument tree here = .ok document) {specifier : String}
    (hspecifier : specifier ∈ document.specifiers) {base : Path}
    (hbase : baseOf tree here specifier = .ok base) :
    IsTrail tree (trail ++ [here]) (tree.canonical base) := by
  have hbuilds : BuildsOn tree here (tree.canonical base) :=
    ⟨document, specifier, base, hread, hspecifier, hbase, rfl⟩
  have hbelow := h.areAbove.down (isFilePlace_of_isFound h.found hread) hnew hbuilds
  constructor
  case nodup => exact hbelow.nodup
  case places => exact hbelow.places
  case above => exact hbelow.leads
  case linked =>
    rw [List.append_assoc, List.singleton_append]
    apply List.isChain_split.mpr
    exact ⟨h.linked, .cons_cons hbuilds (.singleton _)⟩
  case found => exact isFound_of_baseOf hbase

theorem Reaches.isTrail (h : Reaches tree leaf trail here) (hleaf : tree.IsFound leaf) :
    IsTrail tree trail here := by
  induction h with
  | start => exact .start hleaf
  | down _ hnew hread hspecifiers _ hbase ih => exact ih.down hnew hread (by simp [hspecifiers]) hbase

/-- A document is grounded if it can be read and all that it builds on is. -/
theorem isGrounded_of_arePassed (hread : readDocument tree here = .ok document)
    (h : ArePassed tree here document.specifiers) : IsGrounded tree here := by
  have hbelow : ∀ base, BuildsOn tree here base → IsGrounded tree base := by
    rintro _ ⟨other, specifier, found, hread', hspecifier, hfound, rfl⟩
    obtain rfl := Except.ok.inj (hread.symm.trans hread')
    obtain ⟨base, hbase, hgrounded⟩ := h specifier hspecifier
    obtain rfl := Except.ok.inj (hfound.symm.trans hbase)
    exact hgrounded
  constructor
  · intro path hpath
    rcases Relation.ReflTransGen.cases_head hpath with rfl | ⟨base, hbase, hrest⟩
    · exact ⟨document, hread, fun specifier hspecifier => (h specifier hspecifier).imp fun _ => And.left⟩
    · exact (hbelow base hbase).complete path hrest
  · intro path hpath hcycle
    rcases Relation.ReflTransGen.cases_head hpath with rfl | ⟨base, hbase, hrest⟩
    · obtain ⟨base, hbase, hback⟩ := Relation.TransGen.head'_iff.mp hcycle
      exact (hbelow base hbase).acyclic here hback hcycle
    · exact (hbelow base hbase).acyclic path hrest hcycle

/-! ## Either everything is in order or something goes wrong first -/

/-- What one document builds on is in order, or something goes wrong first there. -/
theorem passed_or_failed {fuel : Nat} (hreaches : Reaches tree leaf trail here) (hnew : here ∉ trail)
    (hread : readDocument tree here = .ok document)
    (hbelow : ∀ base, Reaches tree leaf (trail ++ [here]) (tree.canonical base) →
      (IsGrounded tree (tree.canonical base) ∧
          ∃ found, loadLayer tree fuel (trail ++ [here]) base = .ok found) ∨
        ∃ failure, FailsFirst tree leaf failure ∧
          loadLayer tree fuel (trail ++ [here]) base = .error failure)
    {front rear : List String} (hspecifiers : document.specifiers = front ++ rear)
    (hfront : ArePassed tree here front) :
    (ArePassed tree here rear ∧ ∃ bases, rear.mapM (loadBase tree fuel trail here) = .ok bases) ∨
      ∃ failure, FailsFirst tree leaf failure ∧
        rear.mapM (loadBase tree fuel trail here) = .error failure := by
  induction rear generalizing front with
  | nil => exact Or.inl ⟨by simp [ArePassed], [], rfl⟩
  | cons specifier rear ih =>
      rw [List.mapM_cons]
      cases hbase : baseOf tree here specifier with
      | error failure =>
          refine Or.inr ⟨failure, .missing hreaches hnew hread hspecifiers hfront hbase, ?_⟩
          simp only [loadBase, hbase, bind, Except.bind]
      | ok base =>
          have hloadBase : loadBase tree fuel trail here specifier =
              loadLayer tree fuel (trail ++ [here]) base := by
            rw [loadBase, hbase]
            rfl
          rw [hloadBase]
          rcases hbelow base (.down hreaches hnew hread hspecifiers hfront hbase) with
            ⟨hgrounded, found, hfound⟩ | ⟨failure, hfails, hload⟩
          · have hlonger : ArePassed tree here (front ++ [specifier]) := by
              intro other hother
              rcases List.mem_append.mp hother with hother | hother
              · exact hfront other hother
              · obtain rfl := List.mem_singleton.mp hother
                exact ⟨base, hbase, hgrounded⟩
            rw [hfound]
            rcases ih (by rw [hspecifiers, List.append_assoc]; rfl) hlonger with
              ⟨hpassed, bases, hbases⟩ | ⟨failure, hfails, hrest⟩
            · refine Or.inl ⟨?_, found :: bases, by rw [hbases]; rfl⟩
              intro other hother
              rcases List.mem_cons.mp hother with rfl | hother
              · exact ⟨base, hbase, hgrounded⟩
              · exact hpassed other hother
            · exact Or.inr ⟨failure, hfails, by rw [hrest]; rfl⟩
          · exact Or.inr ⟨failure, hfails, by rw [hload]; rfl⟩

theorem grounded_or_failed (hleaf : tree.IsFound leaf) (fuel : Nat) {trail : List Path} {path : Path}
    (h : Reaches tree leaf trail (tree.canonical path)) (hfuel : tree.fileCount < fuel + trail.length) :
    (IsGrounded tree (tree.canonical path) ∧ ∃ found, loadLayer tree fuel trail path = .ok found) ∨
      ∃ failure, FailsFirst tree leaf failure ∧ loadLayer tree fuel trail path = .error failure := by
  induction fuel generalizing trail path with
  | zero =>
      have hshort := (h.isTrail hleaf).length_le
      omega
  | succ fuel ih =>
      have hnormal := (h.isTrail hleaf).normal
      by_cases hmem : tree.canonical path ∈ trail
      · exact Or.inr ⟨_, .circular h hmem, loadLayer_of_mem hnormal hmem fuel⟩
      · rw [loadLayer_of_notMem hnormal hmem]
        cases hread : readDocument tree (tree.canonical path) with
        | error failure => exact Or.inr ⟨failure, .unreadable h hmem hread, rfl⟩
        | ok document =>
            have hbelow := fun base hdown => @ih (trail ++ [tree.canonical path]) base hdown (by
              rw [List.length_append, List.length_singleton]
              omega)
            rcases passed_or_failed h hmem hread hbelow (List.nil_append _).symm (by simp [ArePassed])
              with ⟨hpassed, bases, hbases⟩ | ⟨failure, hfails, hbases⟩
            · refine Or.inl ⟨isGrounded_of_arePassed hread hpassed,
                layered (tree.canonical path) document bases, ?_⟩
              simp only [hbases, bind, Except.bind, pure, Except.pure]
            · refine Or.inr ⟨failure, hfails, ?_⟩
              simp only [hbases, bind, Except.bind]

/-! ## What goes wrong first is what is reported -/

/-- What is in order can be loaded below other documents. -/
theorem IsTrail.exists_layer {path : Path} (htrail : IsTrail tree trail (tree.canonical path))
    (hgrounded : IsGrounded tree (tree.canonical path)) {fuel : Nat}
    (hfuel : tree.fileCount < fuel + trail.length) :
    ∃ found, loadLayer tree fuel trail path = .ok found := by
  obtain ⟨document, hread, -⟩ := hgrounded.complete _ .refl
  have hplace := isFilePlace_of_isFound htrail.found hread
  obtain ⟨-, -, layer, chain, -, -, hload, -⟩ :=
    exists_loadLayer hgrounded fuel trail .refl hplace htrail.areAbove hfuel
  exact ⟨(layer, chain), hload⟩

/-- Where documents are passed they are loaded. -/
theorem exists_loadBase (htrail : IsTrail tree trail here) (hnew : here ∉ trail)
    (hread : readDocument tree here = .ok document) {front rear : List String}
    (hspecifiers : document.specifiers = front ++ rear) (hfront : ArePassed tree here front) {fuel : Nat}
    (hfuel : tree.fileCount < fuel + (trail.length + 1)) :
    ∀ specifier ∈ front, ∃ found, loadBase tree fuel trail here specifier = .ok found := by
  intro specifier hspecifier
  obtain ⟨base, hbase, hgrounded⟩ := hfront specifier hspecifier
  have hbelow := htrail.down hnew hread (by simp [hspecifiers, hspecifier]) hbase
  rw [loadBase, hbase]
  exact hbelow.exists_layer hgrounded (by rwa [List.length_append, List.length_singleton])

/-- Loading fails with the first specifier that cannot be loaded. -/
theorem IsTrail.loadLayer_eq_error {path : Path} (htrail : IsTrail tree trail (tree.canonical path))
    (hnew : tree.canonical path ∉ trail) (hread : readDocument tree (tree.canonical path) = .ok document)
    {front rear : List String} {specifier : String}
    (hspecifiers : document.specifiers = front ++ specifier :: rear)
    (hfront : ArePassed tree (tree.canonical path) front) {failure : Failure}
    (hfails : loadBase tree (tree.fileCount - trail.length) trail (tree.canonical path) specifier =
      .error failure) :
    loadLayer tree (tree.fileCount - trail.length + 1) trail path = .error failure := by
  have hpassed := exists_loadBase htrail hnew hread hspecifiers hfront
    (show tree.fileCount < tree.fileCount - trail.length + (trail.length + 1) by omega)
  rw [loadLayer_of_notMem htrail.normal hnew, hread]
  simp only [bind, Except.bind, hspecifiers, Fallible.mapM_eq_error hpassed hfails]

/-- A failure below is the failure of the whole, since everything to the left of it can be loaded. -/
theorem Reaches.loadLayer_eq_error (h : Reaches tree leaf trail here) {start : Path}
    (hstart : tree.canonical start = leaf) (hleaf : tree.IsFound leaf) {path : Path}
    (hpath : tree.canonical path = here) {failure : Failure}
    (hload : loadLayer tree (tree.fileCount - trail.length + 1) trail path = .error failure) :
    loadLayer tree (tree.fileCount + 1) [] start = .error failure := by
  induction h generalizing path with
  | start => rwa [loadLayer_congr (hstart.trans hpath.symm)]
  | @down trail here base document front rear specifier h hnew hread hspecifiers hfront hbase ih =>
      have htrail := h.isTrail hleaf
      have hshort := (htrail.down hnew hread (by simp [hspecifiers]) hbase).length_le
      rw [List.length_append, List.length_singleton] at hload hshort
      obtain ⟨found, -, rfl⟩ := htrail.found
      apply ih rfl
      apply htrail.loadLayer_eq_error hnew hread hspecifiers hfront
      have hroom : tree.fileCount - trail.length = tree.fileCount - (trail.length + 1) + 1 := by omega
      rw [loadBase, hbase, hroom, ← hload]
      exact loadLayer_congr hpath.symm _ _

theorem FailsFirst.loadLayer_eq_error {failure : Failure} (h : FailsFirst tree leaf failure) {start : Path}
    (hstart : tree.canonical start = leaf) (hleaf : tree.IsFound leaf) :
    loadLayer tree (tree.fileCount + 1) [] start = .error failure := by
  cases h with
  | circular h hmem =>
      have htrail := h.isTrail hleaf
      obtain ⟨found, -, rfl⟩ := htrail.found
      apply h.loadLayer_eq_error hstart hleaf rfl
      exact loadLayer_of_mem htrail.normal hmem _
  | unreadable h hnew hread =>
      have htrail := h.isTrail hleaf
      obtain ⟨found, -, rfl⟩ := htrail.found
      apply h.loadLayer_eq_error hstart hleaf rfl
      rw [loadLayer_of_notMem htrail.normal hnew, hread]
      rfl
  | missing h hnew hread hspecifiers hfront hbase =>
      have htrail := h.isTrail hleaf
      obtain ⟨found, -, rfl⟩ := htrail.found
      apply h.loadLayer_eq_error hstart hleaf rfl
      apply htrail.loadLayer_eq_error hnew hread hspecifiers hfront
      rw [loadBase, hbase]
      rfl

/-! ## Fuel -/

/-- With more fuel than there are other files no fuel is missed. -/
theorem loadLayer_add {fuel : Nat} {trail : List Path} {path : Path}
    (htrail : IsTrail tree trail (tree.canonical path)) (hfuel : tree.fileCount < fuel + trail.length)
    (more : Nat) : loadLayer tree (fuel + more) trail path = loadLayer tree fuel trail path := by
  induction fuel generalizing trail path with
  | zero =>
      have hshort := htrail.length_le
      omega
  | succ fuel ih =>
      rw [Nat.add_right_comm]
      by_cases hmem : tree.canonical path ∈ trail
      · rw [loadLayer_of_mem htrail.normal hmem, loadLayer_of_mem htrail.normal hmem]
      · rw [loadLayer_of_notMem htrail.normal hmem, loadLayer_of_notMem htrail.normal hmem]
        cases hread : readDocument tree (tree.canonical path) with
        | error failure => simp only [bind, Except.bind]
        | ok document =>
            have hsame : ∀ specifier ∈ document.specifiers,
                loadBase tree (fuel + more) trail (tree.canonical path) specifier =
                  loadBase tree fuel trail (tree.canonical path) specifier := by
              intro specifier hspecifier
              cases hbase : baseOf tree (tree.canonical path) specifier with
              | error failure => simp only [loadBase, hbase, bind, Except.bind]
              | ok base =>
                  simp only [loadBase, hbase, bind, Except.bind]
                  apply ih (htrail.down hmem hread hspecifier hbase)
                  rw [List.length_append, List.length_singleton]
                  omega
            simp only [bind, Except.bind, Fallible.mapM_congr hsame]

/-! ## Loading -/

/-- The way down to a document that is met again leads from this document back to itself. -/
theorem IsTrail.cycle (h : IsTrail tree trail here) (hmem : here ∈ trail) :
    2 ≤ (trail.dropWhile (· ≠ here) ++ [here]).length ∧
      (trail.dropWhile (· ≠ here) ++ [here]).head? = (trail.dropWhile (· ≠ here) ++ [here]).getLast? ∧
        (trail.dropWhile (· ≠ here) ++ [here]).dropLast.Nodup ∧
          (trail.dropWhile (· ≠ here) ++ [here]).IsChain (BuildsOn tree) := by
  have hsuffix : trail.dropWhile (· ≠ here) <:+ trail := List.dropWhile_suffix _
  have hfirst := List.head?_dropWhile_not (fun above => decide (above ≠ here)) trail
  cases hcycle : trail.dropWhile (· ≠ here) with
  | nil => simpa using List.dropWhile_eq_nil_iff.mp hcycle here hmem
  | cons first rest =>
      rw [hcycle] at hsuffix hfirst
      obtain rfl : first = here := by simpa using hfirst
      refine ⟨by simp, by rw [List.getLast?_concat]; rfl, ?_, ?_⟩
      · rw [List.dropLast_concat]
        exact h.nodup.sublist hsuffix.sublist
      · obtain ⟨above, habove⟩ := hsuffix
        apply h.linked.suffix
        exact ⟨above, by rw [← habove, List.append_assoc]⟩

theorem readDocument_ne_circular {chain : List Path} :
    readDocument tree here ≠ .error (.circularExtends chain) := by
  unfold readDocument
  split
  · simp [missing]
  · simp
  · split <;> simp

theorem baseOf_ne_circular {specifier : String} {chain : List Path} :
    baseOf tree here specifier ≠ .error (.circularExtends chain) := by
  unfold baseOf
  simp only
  split <;> split <;> simp [missing]

/-- Whether loading finds out exactly whether documents build on themselves. -/
structure LoadsExactly (tree : FileTree) (path leaf : Path) : Prop where
  /-- Loading comes to an end by itself: no document is too deep for the fuel. -/
  ends : ∀ more, loadLayer tree (tree.fileCount + 1 + more) [] (tree.canonical path) =
    loadLayer tree (tree.fileCount + 1) [] (tree.canonical path)
  bounded : ∀ trail here, Reaches tree leaf trail here → trail.length ≤ tree.fileCount
  succeeds : (∃ config, load tree path = .ok config) ↔ IsGrounded tree leaf
  fails : ∀ failure, load tree path = .error failure ↔ FailsFirst tree leaf failure
  circular : ∀ chain, load tree path = .error (.circularExtends chain) ↔
    ∃ trail here, Reaches tree leaf trail here ∧ here ∈ trail ∧
      chain = trail.dropWhile (· ≠ here) ++ [here]
  cycle : ∀ chain, load tree path = .error (.circularExtends chain) →
    2 ≤ chain.length ∧ chain.head? = chain.getLast? ∧ chain.dropLast.Nodup ∧
      chain.IsChain (BuildsOn tree)

theorem load_eq_error_iff {path : Path} {failure : Failure} :
    load tree path = .error failure ↔
      loadLayer tree (tree.fileCount + 1) [] (tree.canonical path) = .error failure := by
  rw [load]
  cases loadLayer tree (tree.fileCount + 1) [] (tree.canonical path) <;> simp [bind, Except.bind, pure,
    Except.pure]

theorem isFound_leaf (tree : FileTree) (path : Path) :
    tree.IsFound (tree.canonical (tree.canonical path)) :=
  ⟨tree.canonical path, .inr (FileTree.normalize_canonical tree path), rfl⟩

/-- Loading fails with what goes wrong first. -/
theorem load_fails_iff {path : Path} {failure : Failure} :
    load tree path = .error failure ↔
      FailsFirst tree (tree.canonical (tree.canonical path)) failure := by
  have hleaf := isFound_leaf tree path
  rw [load_eq_error_iff]
  constructor
  · intro hload
    rcases grounded_or_failed hleaf (tree.fileCount + 1) (.start) (by simp) with
      ⟨-, found, hfound⟩ | ⟨first, hfirst, hother⟩
    · rw [hload] at hfound
      cases hfound
    · obtain rfl := Except.error.inj (hload.symm.trans hother)
      exact hfirst
  · intro hfirst
    exact hfirst.loadLayer_eq_error rfl hleaf

/-- Loading succeeds where all documents are there and none builds on itself. -/
theorem exists_load_iff {path : Path} :
    (∃ config, load tree path = .ok config) ↔
      IsGrounded tree (tree.canonical (tree.canonical path)) := by
  have hleaf := isFound_leaf tree path
  constructor
  · rintro ⟨config, hload⟩
    rcases grounded_or_failed hleaf (tree.fileCount + 1) (.start) (by simp) with
      ⟨hgrounded, -⟩ | ⟨first, -, hother⟩
    · exact hgrounded
    · rw [load_eq_error_iff.mpr hother] at hload
      cases hload
  · intro hgrounded
    have hstart : IsTrail tree [] (tree.canonical (tree.canonical path)) := .start hleaf
    obtain ⟨found, hfound⟩ := hstart.exists_layer hgrounded
      (show tree.fileCount < tree.fileCount + 1 + ([] : List Path).length by simp)
    rw [load, hfound]
    exact ⟨_, rfl⟩

/-- A cycle is reported where a document that is met again is the first thing that is wrong. -/
theorem load_circular_iff {path : Path} {chain : List Path} :
    load tree path = .error (.circularExtends chain) ↔
      ∃ trail here, Reaches tree (tree.canonical (tree.canonical path)) trail here ∧ here ∈ trail ∧
        chain = trail.dropWhile (· ≠ here) ++ [here] := by
  rw [load_fails_iff]
  constructor
  · intro hfirst
    cases hfirst with
    | circular h hmem => exact ⟨_, _, h, hmem, rfl⟩
    | unreadable _ _ hread => exact absurd hread readDocument_ne_circular
    | missing _ _ _ _ _ hbase => exact absurd hbase baseOf_ne_circular
  · rintro ⟨trail, here, h, hmem, rfl⟩
    exact .circular h hmem

/-- Loading succeeds exactly when all documents are there and none builds on itself, and otherwise it
reports what goes wrong first. -/
theorem load_exact (tree : FileTree) (path : Path) :
    LoadsExactly tree path (tree.canonical (tree.canonical path)) := by
  have hleaf := isFound_leaf tree path
  constructor
  · exact loadLayer_add (.start hleaf) (by simp)
  · intro trail here h
    exact (h.isTrail hleaf).length_le
  · exact exists_load_iff
  · intro failure
    exact load_fails_iff
  · intro chain
    exact load_circular_iff
  · intro chain hload
    obtain ⟨trail, here, h, hmem, rfl⟩ := load_circular_iff.mp hload
    exact (h.isTrail hleaf).cycle hmem

end ScopedCheck.Config
