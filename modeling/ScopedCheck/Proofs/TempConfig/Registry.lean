import ScopedCheck.Proofs.FileTree.Growth
import ScopedCheck.Proofs.TempConfig.Reloading
import ScopedCheck.TempConfig.Registry
/-! # What a temporary config says

A temporary config that was written is found at the path of its handle, and it reads as a config document
that lists the selected files. -/

namespace ScopedCheck.TempConfig

open Json

/-- The document of a temporary config lists the selected files. -/
theorem parse_content_files {config : Config} (h : config.options.IsSound Document.optionRoom)
    (selection : FileSelection) (s : Synthesis) (dir : Path) :
    ∃ document, Document.parse (content config selection s dir).pretty = .ok document ∧
      document.files = some (selection.files.map Path.slashed) :=
  ⟨_, parse_content h selection s dir, rfl⟩

/-- A temporary config that was written is found at the path of its handle. -/
theorem Registry.readText_of_create {registry next : Registry} {tree grown : FileTree}
    {s : Surroundings} {config : Config} {selection : FileSelection} {setupFiles : List Path}
    {synthesis : Synthesis} {handle : Handle}
    (h : registry.create tree s config selection setupFiles synthesis = .ok (handle, next, grown)) :
    grown.readText handle.path = .ok (content config selection synthesis config.dir).pretty := by
  obtain ⟨place, -, h⟩ := Fallible.bind_eq_ok_iff.mp h
  simp only at h
  split at h
  · rename_i grown' hcreate
    obtain ⟨rfl, -, rfl⟩ := by simpa using Except.ok.inj h
    obtain ⟨-, hnode⟩ := FileTree.createFile_spec hcreate
    rw [FileTree.readText, hnode]
    rfl
  · cases h

end ScopedCheck.TempConfig
