import ScopedCheck.Proofs.FileTree.Change
import ScopedCheck.TempConfig.Registry
/-! # The files of temporary configs

A temporary config is a new file under a name that has not been used before. To remove it touches no
other file, in whatever order files are removed and whether they are still there or not. -/

namespace ScopedCheck.TempConfig

open FileTree (Location Name KeepsBut)

variable {tree next : FileTree} {path : Path}

/-! ## Names -/

theorem toList_fileName (number : Nat) :
    (fileName number).toList = "tsconfig.".toList ++ (Nat.toDigits 10 number ++ ".json".toList) := by
  simp [fileName, Nat.toList_repr]

theorem fileName_injective {number other : Nat}
    (h : (fileName number).toList = (fileName other).toList) : number = other := by
  rw [toList_fileName, toList_fileName] at h
  have hdigits := List.append_cancel_right (List.append_cancel_left h)
  have hread := congrArg (Nat.ofDigitChars 10 · 0) hdigits
  simpa [Nat.ofDigitChars_toDigits] using hread

theorem isName_fileName (number : Nat) : FileTree.isName (fileName number).toList = true := by
  have hslash : '/' ∉ Nat.toDigits 10 number := by
    intro hmem
    have hdigit := Nat.isDigit_of_mem_toDigits (by decide) (by decide) hmem
    exact absurd hdigit (by decide)
  rw [toList_fileName, FileTree.isName_iff]
  simp [hslash]

theorem le_freeNumber (taken : List Name) (first : Nat) : first ≤ freeNumber taken first := by
  rw [freeNumber]
  cases hfound : ((List.range (taken.length + 1)).map (first + ·)).find? fun number =>
      !taken.contains (fileName number).toList with
  | none => exact Nat.le_refl first
  | some number =>
      obtain ⟨offset, -, rfl⟩ := List.mem_map.mp (List.mem_of_find?_eq_some hfound)
      exact Nat.le_add_right first offset

/-- The last name of a path under a directory is the name that was put behind it. -/
theorem name_of_holder_child {dir : Path} {name behind : Name} {location : Location}
    (hbehind : FileTree.isName behind = true)
    (h : tree.holder (dir.child (String.ofList behind)) = .ok (location, some name)) : name = behind := by
  obtain ⟨front, -, hpieces, -⟩ := FileTree.holder_spec h
  have hslash : '/' ∉ behind := (FileTree.isName_iff.mp hbehind).2.2.2
  obtain ⟨-, hsteps⟩ := Path.stepsOf_segments_child dir (Path.isAbsolute_of_notMem hslash)
  rw [← FileTree.segmentsOf_eq hpieces, Path.stepsOf_append, Text.splitOn_of_notMem hslash,
    Path.stepsOf_name hbehind, Path.stepsOf_name (FileTree.isName_of_holder h)] at hsteps
  have hlast := congrArg List.getLast? hsteps
  rw [List.getLast?_concat, List.getLast?_concat] at hlast
  cases hlast
  rfl

/-! ## One operation -/

theorem keepsBut_prepareDir {s : Surroundings} {projectDir dir : Path} {chosen : Option Path}
    (h : prepareDir tree s projectDir chosen = .ok (dir, next)) :
    KeepsBut (fun _ => False) tree next := by
  unfold prepareDir at h
  split at h
  · split at h
    · rename_i made hmade
      obtain ⟨-, rfl⟩ := Prod.mk.inj (Except.ok.inj h)
      exact FileTree.keepsBut_makeDirs hmade
    · cases h
  · split at h
    · rename_i made hmade
      obtain ⟨-, rfl⟩ := Prod.mk.inj (Except.ok.inj h)
      exact FileTree.keepsBut_makeDirs hmade
    · obtain ⟨-, rfl⟩ := Prod.mk.inj (Except.ok.inj h)
      exact .refl _ tree

/-- A file that is created under a number is at a new place with its name. -/
theorem placed_createFile {dir : Path} {number : Nat} {file : File}
    (h : tree.createFile (dir.child (fileName number)) file = .ok next) :
    ∃ place, KeepsBut (· = place) tree next ∧ next.Holds (dir.child (fileName number)) place ∧
      place.getLast? = some (fileName number).toList ∧
        next.isFile (dir.child (fileName number)) = true ∧ tree.nodeAt? place = none := by
  obtain ⟨location, name, hholder, hfree, rfl⟩ := FileTree.createFile_eq_ok_iff.mp h
  obtain ⟨-, -, -, -, -, ⟨entries, hdir⟩, -⟩ := FileTree.holder_spec hholder
  have hkeeps : KeepsBut (· = location ++ [name]) tree (tree.put (location ++ [name]) (.file file)) :=
    (FileTree.keepsBut_put hdir hfree (FileTree.isName_of_holder hholder) (.inr ⟨file, rfl⟩)).mono
      fun _ hplace => hplace.1
  have hfile := FileTree.nodeAt?_put_self hdir name (.file file)
  have hplain : ∀ target, (tree.put (location ++ [name]) (.file file)).nodeAt? (location ++ [name]) ≠
      some (.link target) := by
    intro target htarget
    rw [hfile] at htarget
    cases htarget
  have hholds : (tree.put (location ++ [name]) (.file file)).Holds (dir.child (fileName number))
      (location ++ [name]) := ⟨⟨location, name, rfl, hkeeps.holder hholder⟩, hplain⟩
  refine ⟨location ++ [name], hkeeps, hholds, ?_, ?_, hfree⟩
  · rw [List.getLast?_concat, Option.some.injEq]
    apply name_of_holder_child (isName_fileName number)
    rw [String.ofList_toList]
    exact hholder
  · exact FileTree.isFile_iff.mpr ⟨file, (hholds.node_iff file).mpr hfile⟩

/-- To create a temporary config is to put a file at a new place, under a name that has not been used
before. -/
theorem Registry.create_spec {registry later : Registry} {s : Surroundings} {config : Config}
    {selection : FileSelection} {setupFiles : List Path} {synthesis : Synthesis} {handle : Handle}
    (h : registry.create tree s config selection setupFiles synthesis = .ok (handle, later, next)) :
    ∃ number place, registry.nextNumber ≤ number ∧ handle.isHeld = true ∧
      later = ⟨handle.path :: registry.live, number + 1⟩ ∧ KeepsBut (· = place) tree next ∧
        next.Holds handle.path place ∧ place.getLast? = some (fileName number).toList ∧
          next.isFile handle.path = true ∧ ∀ file, tree.nodeAt? place ≠ some (.file file) := by
  obtain ⟨⟨named, mid⟩, hprepare, h⟩ := Fallible.bind_eq_ok_iff.mp h
  simp only at h
  split at h
  · rename_i grown hcreate
    obtain ⟨rfl, rfl, rfl⟩ := by simpa using Except.ok.inj h
    obtain ⟨place, hkeeps, hholds, hlast, hfile, hfree⟩ := placed_createFile hcreate
    have hmade := keepsBut_prepareDir hprepare
    refine ⟨_, place, le_freeNumber _ _, rfl, rfl, ?_, hholds, hlast, hfile, fun file hthere => ?_⟩
    · exact (hmade.mono fun _ h => h.elim).trans hkeeps
    · rw [hmade.files place id, hfree] at hthere
      cases hthere
  · cases h

/-- To remove a path takes its file away if there is one, and changes nothing else. -/
theorem removed_spec (htree : tree.isProper = true) {place : Location} (h : tree.Holds path place) :
    KeepsBut (· = place) tree (removed tree path).1 ∧ (removed tree path).2 = tree.isFile path ∧
      (removed tree path).1.isFile path = false ∧
        (removed tree path).1.fileCount + (tree.isFile path).toNat = tree.fileCount := by
  obtain ⟨dir, name, rfl, hheld⟩ := h.held
  rw [removed, FileTree.removeFile_of_holder hheld]
  have hisFile : ∀ file, tree.nodeAt? (dir ++ [name]) = some (.file file) → tree.isFile path = true :=
    fun file hfile => FileTree.isFile_iff.mpr ⟨file, (h.node_iff file).mpr hfile⟩
  have hnoFile : (∀ file, tree.nodeAt? (dir ++ [name]) ≠ some (.file file)) →
      tree.isFile path = false := by
    intro hnone
    rw [Bool.eq_false_iff, ne_eq, FileTree.isFile_iff]
    rintro ⟨file, hfile⟩
    exact hnone file ((h.node_iff file).mp hfile)
  cases hnode : tree.nodeAt? (dir ++ [name]) with
  | none =>
      have hgone := hnoFile (by simp [hnode])
      exact ⟨.refl _ tree, hgone.symm, hgone, by simp [hgone]⟩
  | some node =>
      cases node with
      | dir entries =>
          have hgone := hnoFile (by simp [hnode])
          exact ⟨.refl _ tree, hgone.symm, hgone, by simp [hgone]⟩
      | link target => exact absurd hnode (h.plain target)
      | file file =>
          have hkeeps := FileTree.keepsBut_without htree hnode
          obtain ⟨entries, hdir⟩ := FileTree.isDir_of_nodeAt?_concat hnode
          have hnothing := FileTree.nodeAt?_without_self htree hdir name
          refine ⟨hkeeps, (hisFile file hnode).symm, ?_, ?_⟩
          · rw [Bool.eq_false_iff, ne_eq, FileTree.isFile_iff]
            rintro ⟨other, hother⟩
            rw [(hkeeps.holds h).node_iff, hnothing] at hother
            cases hother
          · rw [hisFile file hnode]
            exact FileTree.fileCount_without hnode

/-- The last piece of a path. -/
def lastPiece (path : Path) : Option Name := path.segments.getLast?

theorem removeAll_cons (tree : FileTree) (first : Path) (rest : List Path) :
    removeAll tree (first :: rest) =
      ((removeAll (removed tree first).1 rest).1,
        if (removed tree first).2 then (removeAll (removed tree first).1 rest).2 + 1
        else (removeAll (removed tree first).1 rest).2) := rfl

/-- To remove paths takes away the files to which they lead, and changes nothing else. -/
theorem removeAll_spec {paths : List Path} (htree : tree.isProper = true)
    (hplaced : ∀ path ∈ paths, ∃ place, tree.Holds path place)
    (hdistinct : (paths.map lastPiece).Nodup) :
    KeepsBut (fun place => ∃ path ∈ paths, tree.Holds path place) tree (removeAll tree paths).1 ∧
      (∀ path ∈ paths, (removeAll tree paths).1.isFile path = false) ∧
        (removeAll tree paths).2 = (paths.filter tree.isFile).length ∧
          (removeAll tree paths).1.fileCount + (removeAll tree paths).2 = tree.fileCount := by
  induction paths generalizing tree with
  | nil => exact ⟨.refl _ tree, by simp, rfl, rfl⟩
  | cons first rest ih =>
      obtain ⟨hnew, hrest⟩ := List.nodup_cons.mp hdistinct
      obtain ⟨place, hplace⟩ := hplaced first (List.mem_cons_self ..)
      obtain ⟨hkeeps, hwas, hgone, hcount⟩ := removed_spec htree hplace
      have hother : ∀ path ∈ rest, ∀ other, tree.Holds path other → other ≠ place := by
        rintro path hpath other hholds rfl
        apply hnew
        rw [lastPiece, hplace.getLast?_segments, ← hholds.getLast?_segments]
        exact List.mem_map_of_mem hpath
      have hback : ∀ path ∈ rest, ∀ other, (removed tree first).1.Holds path other →
          tree.Holds path other := by
        intro path hpath other hholds
        obtain ⟨before, hbefore⟩ := hplaced path (List.mem_cons_of_mem _ hpath)
        rwa [hholds.eq (hkeeps.holds hbefore)]
      have hsame : ∀ path ∈ rest, (removed tree first).1.isFile path = tree.isFile path := by
        intro path hpath
        obtain ⟨before, hbefore⟩ := hplaced path (List.mem_cons_of_mem _ hpath)
        exact hkeeps.isFile_eq hbefore (hother path hpath before hbefore)
      obtain ⟨hmore, hnone, hlength, htotal⟩ := ih (hkeeps.proper htree)
        (fun path hpath => (hplaced path (List.mem_cons_of_mem _ hpath)).imp
          fun _ hbefore => hkeeps.holds hbefore) hrest
      have hall : KeepsBut (fun place => ∃ path ∈ first :: rest, tree.Holds path place) tree
          (removeAll (removed tree first).1 rest).1 := by
        apply KeepsBut.trans
        · apply hkeeps.mono
          rintro _ rfl
          exact ⟨first, List.mem_cons_self .., hplace⟩
        · apply hmore.mono
          rintro other ⟨path, hpath, hholds⟩
          exact ⟨path, List.mem_cons_of_mem _ hpath, hback path hpath other hholds⟩
      rw [removeAll_cons, hwas]
      refine ⟨hall, ?_, ?_, ?_⟩
      · intro path hpath
        rcases List.mem_cons.mp hpath with rfl | hpath
        · -- nothing that comes later has to do with the place of the first path
          rw [← hgone]
          apply hmore.isFile_eq (hkeeps.holds hplace)
          rintro ⟨later, hlater, hholds⟩
          exact hother later hlater place (hback later hlater place hholds) rfl
        · exact hnone path hpath
      · rw [List.filter_cons, hlength, List.filter_congr hsame]
        cases tree.isFile first <;> rfl
      · cases hfile : tree.isFile first with
        | false =>
            rw [hfile, Bool.toNat_false, Nat.add_zero] at hcount
            exact htotal.trans hcount
        | true =>
            rw [hfile, Bool.toNat_true] at hcount
            rw [if_pos rfl, ← Nat.add_assoc, htotal]
            exact hcount

end ScopedCheck.TempConfig
