import PromptCode.Workspace

/-!
# Which files a candidate write can reach

`write_file` and `candidate_write_allowed` test the path as text and write the
file at the walked components.  The file is one the policy allows exactly when
the two readings of the path agree.
-/

namespace PromptCode

open Py FileTree

/-- The file at these components is neither blocked nor frozen. -/
structure FileAllowed (path : List Str) : Prop where
  not_blocked : ∀ part ∈ path, holdsBlockedFragment part = false
  not_frozen : isFrozenPath (join slash path) = false

instance (path : List Str) : Decidable (FileAllowed path) :=
  decidable_of_iff
    ((∀ part ∈ path, holdsBlockedFragment part = false) ∧
      isFrozenPath (join slash path) = false)
    ⟨fun h => ⟨h.1, h.2⟩, fun h => ⟨h.not_blocked, h.not_frozen⟩⟩

theorem fileAllowed_iff_of_contained {workspace : Tree} {relPath : Str}
    {path : List Str} (hblocked : isBlockedPath relPath = false)
    (hfrozen : isFrozenPath relPath = false)
    (h : containedFile workspace relPath = .ok path) :
    FileAllowed path ↔ PolicySeesFile relPath := by
  have hcont := containedFile_ok h
  have hne : walkedParts relPath ≠ [] := hcont.path_eq ▸ hcont.ne_nil
  rw [← walkedParts_allowed_iff hblocked hfrozen hcont.no_nul hne,
    ← hcont.path_eq]
  exact ⟨fun h => ⟨h.not_blocked, h.not_frozen⟩, fun h => ⟨h.1, h.2⟩⟩

theorem containedFile_of_writeAllowed {workspace : Tree} {relPath : Str}
    (h : candidateWriteAllowed workspace relPath = true) :
    isBlockedPath relPath = false ∧ isFrozenPath relPath = false ∧
      containedFile workspace relPath = .ok (walkedParts relPath) := by
  unfold candidateWriteAllowed at h
  split_ifs at h with hpolicy
  simp only [Bool.or_eq_true, not_or, Bool.not_eq_true] at hpolicy
  cases hcont : containedFile workspace relPath with
  | error e => simp [hcont, Except.isOk, Except.toBool] at h
  | ok path =>
      rw [(containedFile_ok hcont).path_eq]
      exact ⟨hpolicy.1, hpolicy.2, rfl⟩

/-- A write that is accepted goes to the walked components, and the file there
is one the policy allows exactly when the policy sees that file. -/
theorem accepted_write_fileAllowed_iff (relPath : Str) :
    (∀ workspace, candidateWriteAllowed workspace relPath = true →
      (FileAllowed (walkedParts relPath) ↔ PolicySeesFile relPath)) ∧
    (∀ cap disk content disk',
      writeFile cap disk relPath content = (.ok (), disk') →
        (∃ data, disk.workspace.write (walkedParts relPath) data =
          some disk'.workspace) ∧
        (FileAllowed (walkedParts relPath) ↔ PolicySeesFile relPath)) := by
  constructor
  · intro workspace h
    obtain ⟨hblocked, hfrozen, hcont⟩ := containedFile_of_writeAllowed h
    exact fileAllowed_iff_of_contained hblocked hfrozen hcont
  · intro cap disk content disk' h
    obtain ⟨path, data, hacc⟩ := writeFile_ok h
    obtain rfl := (containedFile_ok hacc.contained).path_eq
    exact ⟨⟨data, hacc.written⟩, fileAllowed_iff_of_contained hacc.not_blocked
      hacc.not_frozen hacc.contained⟩

theorem accepted_write_fileAllowed_iff_source_file :
    candidateWriteAllowed Dir.nil (lit "src/a.py") = true ∧
      (FileAllowed (walkedParts (lit "src/a.py")) ↔
        PolicySeesFile (lit "src/a.py")) := by
  have haccepted : candidateWriteAllowed Dir.nil (lit "src/a.py") = true := by
    decide
  exact ⟨haccepted,
    (accepted_write_fileAllowed_iff (lit "src/a.py")).1 Dir.nil haccepted⟩

/-- `conftest.py/` passes the policy, and the write replaces `conftest.py`. -/
theorem conftest_overwritten_through_trailing_slash :
    candidateWriteAllowed (singleFileDisk "conftest.py" "a").workspace
        (lit "conftest.py/") = true ∧
      (writeFile roomyCapacity (singleFileDisk "conftest.py" "a")
        (lit "conftest.py/") (lit "b")).1 = .ok () ∧
      (writeFile roomyCapacity (singleFileDisk "conftest.py" "a")
        (lit "conftest.py/") (lit "b")).2.workspace.fileAt
          [lit "conftest.py"] = some [98] ∧
      walkedParts (lit "conftest.py/") = [lit "conftest.py"] ∧
      ¬ FileAllowed (walkedParts (lit "conftest.py/")) := by
  refine ⟨by decide, ?_, ?_, by decide, by decide⟩
  · decide
  · decide

end PromptCode
