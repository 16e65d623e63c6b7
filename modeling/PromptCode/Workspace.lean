import PromptCode.PathPolicy
import PromptCode.WorkspaceQuota

/-!
# The editable workspace

`workspace.py`: which file a candidate path denotes, and how that file is read
and written.  A write holds the upload lock of its session from start to end, so
it is one function on what the session owns on the disk.
-/

namespace PromptCode

open Py FileTree

def maxFileBytes : ℕ := 1500000

def skipDirNames : List Str :=
  [lit "node_modules", lit ".venv", lit "venv", lit "__pycache__",
    lit ".pytest_cache", lit ".git", lit "dist", lit "build", lit ".turbo",
    lit "coverage"]

/-! ## The file a path denotes -/

/-- `contained_file`.  Resolving the path fails on a name that `os.fsencode`
rejects; with no link on the way it changes nothing else. -/
def containedFile (workspace : Tree) (relPath : Str) :
    Except PyErr (List Str) :=
  if relPath = [] ∨ (0 : CodePoint) ∈ relPath then
    .error (.permission "Path escape blocked")
  else
    let raw := replaceBackslash relPath
    if raw.head? = some slash ∨ raw.head? = some (ord '~') then
      .error (.permission "Path escape blocked")
    else
      let parts := walkedParts relPath
      if parts = [] ∨ lit ".." ∈ parts then
        .error (.permission "Path escape blocked")
      else if parts.inits.any workspace.isLinkAt then
        .error (.permission "Path escape blocked")
      else if relPath.any isUnencodable then
        .error (.permission "Path escape blocked")
      else .ok parts

def candidateWriteAllowed (workspace : Tree) (relPath : Str) : Bool :=
  if isBlockedPath relPath || isFrozenPath relPath then false
  else (containedFile workspace relPath).isOk

def readFile (workspace : Tree) (relPath : Str) : Except PyErr Str :=
  if isBlockedPath relPath then .error (.permission "File not available")
  else do
    let path ← containedFile workspace relPath
    match workspace.fileAt path with
    | none => .error .fileNotFound
    | some data =>
        if maxFileBytes < data.length then
          .error (.value "File too large for editor")
        else .ok (readText data)

/-! ## Writing -/

/-- What one session owns on a host: the working copy under the session's name,
the text of its `.submitted` marker, and the ledger of the storage root. -/
structure SessionDisk where
  sessionId : Str
  workspace : Tree
  submitted : Option Str
  ledger : Ledger

/-- `_write_file_locked`. -/
def writeFileLocked (cap : Capacity) (disk : SessionDisk)
    (relPath content : Str) : Except PyErr Unit × SessionDisk :=
  if 16 < (PurePath.parse relPath).parts.length then
    (.error (.value "File path too deep"), disk)
  else if isBlockedPath relPath || isFrozenPath relPath then
    (.error (.permission "File not available"), disk)
  else
    match utf8Encode content with
    | none => (.error .unicodeEncode, disk)
    | some encoded =>
        if maxFileBytes < encoded.length then
          (.error (.value "File too large for editor"), disk)
        else
          match containedFile disk.workspace relPath with
          | .error e => (.error e, disk)
          | .ok path =>
              match checkUpload disk.ledger disk.sessionId disk.workspace path
                  encoded.length with
              | (.error e, l) => (.error e, { disk with ledger := l })
              | (.ok (), l) =>
                  match reserveCapacity cap l encoded.length with
                  | .error e => (.error e, { disk with ledger := l })
                  | .ok l' =>
                      match disk.workspace.write path encoded with
                      | none =>
                          (.error .os, { disk with
                            ledger := l'.release reservationKey encoded.length })
                      | some workspace =>
                          let size := measureWorkspace workspace
                          (.ok (), { disk with
                            workspace := workspace
                            ledger := l'.write disk.sessionId size.1 size.2
                              encoded.length })

/-- `write_file`. -/
def writeFile (cap : Capacity) (disk : SessionDisk) (relPath content : Str) :
    Except PyErr Unit × SessionDisk :=
  if disk.submitted.isSome then
    (.error (.value "Submission is frozen; start a new attempt to edit"), disk)
  else writeFileLocked cap disk relPath content

/-! ## What an accepted path is -/

/-- What `contained_file` makes sure of. -/
structure Contained (workspace : Tree) (relPath : Str) (path : List Str) :
    Prop where
  path_eq : path = walkedParts relPath
  ne_nil : path ≠ []
  no_nul : (0 : CodePoint) ∉ relPath
  no_dotdot : lit ".." ∉ path
  no_link : ∀ q, q <+: path → workspace.isLinkAt q = false
  encodable : ∀ c ∈ relPath, isUnencodable c = false

theorem containedFile_ok {workspace : Tree} {relPath : Str} {path : List Str}
    (h : containedFile workspace relPath = .ok path) :
    Contained workspace relPath path := by
  unfold containedFile at h
  dsimp only at h
  split_ifs at h with hempty hroot hparts hlink henc
  obtain rfl := Except.ok.inj h
  push Not at hempty hparts
  refine ⟨rfl, hparts.1, hempty.2, hparts.2, ?_, ?_⟩
  · intro q hq
    simp only [List.any_eq_true, List.mem_inits, not_exists, not_and,
      Bool.not_eq_true] at hlink
    exact hlink q hq
  · simpa using henc

/-- Whether a path is contained depends on the workspace through its links. -/
theorem containedFile_congr {workspace workspace' : Tree} {relPath : Str}
    (h : ∀ q, q <+: walkedParts relPath →
      workspace.isLinkAt q = workspace'.isLinkAt q) :
    containedFile workspace relPath = containedFile workspace' relPath := by
  have hany : (walkedParts relPath).inits.any workspace.isLinkAt =
      (walkedParts relPath).inits.any workspace'.isLinkAt := by
    rw [Bool.eq_iff_iff]
    simp only [List.any_eq_true, List.mem_inits]
    refine exists_congr fun q => and_congr_right fun hq => ?_
    rw [h q hq]
  unfold containedFile
  simp only [hany]

theorem mem_replaceBackslash {s : Str} {c : CodePoint}
    (h : c ∈ replaceBackslash s) : c = slash ∨ c ∈ s := by
  obtain ⟨d, hd, rfl⟩ := List.mem_map.mp h
  split_ifs
  · exact Or.inl rfl
  · exact Or.inr hd

/-- The components of a contained path are names a directory can hold. -/
theorem Contained.isComponent {workspace : Tree} {relPath : Str}
    {path : List Str} (h : Contained workspace relPath path) :
    ∀ part ∈ path, IsComponent part := by
  intro part hpart
  have hwalk : part ∈ walkedParts relPath := h.path_eq ▸ hpart
  obtain ⟨hsplit, hkept⟩ := List.mem_filter.mp hwalk
  obtain ⟨hne, hdot⟩ := keptPart_eq_true_iff.mp hkept
  have hsub {c : CodePoint} (hc : c ∈ part) : c = slash ∨ c ∈ relPath :=
    mem_replaceBackslash ((isInfix_of_mem_split hsplit).subset hc)
  refine ⟨hne, hdot, ?_, notMem_of_mem_split hsplit, ?_, ?_⟩
  · rintro rfl
    exact h.no_dotdot hpart
  · intro hnul
    rcases hsub hnul with heq | hmem
    · exact absurd heq (by decide)
    · exact h.no_nul hmem
  · intro c hc
    rcases hsub hc with rfl | hmem
    · decide
    · exact h.encodable c hmem

/-! ## What an accepted write does -/

/-- Everything an accepted write has checked, and its effect: the file at the
walked components holds the encoded content, nothing else changed. -/
structure Accepted (cap : Capacity) (disk : SessionDisk) (relPath content : Str)
    (path : List Str) (encoded : Bytes) (disk' : SessionDisk) : Prop where
  unfrozen : disk.submitted = none
  depth : (PurePath.parse relPath).parts.length ≤ 16
  not_blocked : isBlockedPath relPath = false
  not_frozen : isFrozenPath relPath = false
  encode : utf8Encode content = some encoded
  size : encoded.length ≤ maxFileBytes
  contained : containedFile disk.workspace relPath = .ok path
  quota : (checkUpload disk.ledger disk.sessionId disk.workspace path
    encoded.length).1 = .ok ()
  written : disk.workspace.write path encoded = some disk'.workspace
  submitted : disk'.submitted = none
  sessionId : disk'.sessionId = disk.sessionId
  ledger : ∃ l : Ledger, reserveCapacity cap (checkUpload disk.ledger disk.sessionId
      disk.workspace path encoded.length).2 encoded.length = .ok l ∧
    disk'.ledger = l.write disk.sessionId (measureWorkspace disk'.workspace).1
      (measureWorkspace disk'.workspace).2 encoded.length

theorem writeFile_ok {cap : Capacity} {disk disk' : SessionDisk}
    {relPath content : Str}
    (h : writeFile cap disk relPath content = (.ok (), disk')) :
    ∃ path encoded, Accepted cap disk relPath content path encoded disk' := by
  unfold writeFile at h
  split_ifs at h with hsub
  · simp at h
  have hunfrozen : disk.submitted = none := Option.not_isSome_iff_eq_none.mp hsub
  unfold writeFileLocked at h
  split_ifs at h with hdepth hpolicy
  · simp at h
  · simp at h
  simp only [Bool.or_eq_true, not_or, Bool.not_eq_true] at hpolicy
  cases hencode : utf8Encode content with
  | none => simp [hencode] at h
  | some encoded =>
      simp only [hencode] at h
      split_ifs at h with hsize
      · simp at h
      cases hcont : containedFile disk.workspace relPath with
      | error e => simp [hcont] at h
      | ok path =>
          simp only [hcont] at h
          cases hcheck : checkUpload disk.ledger disk.sessionId disk.workspace
              path encoded.length with
          | mk result l =>
              cases result with
              | error e => simp [hcheck] at h
              | ok u =>
                  simp only [hcheck] at h
                  cases hres : reserveCapacity cap l encoded.length with
                  | error e => simp [hres] at h
                  | ok l' =>
                      simp only [hres] at h
                      cases hwrite : disk.workspace.write path encoded with
                      | none => simp [hwrite] at h
                      | some ws =>
                          simp only [hwrite, Prod.mk.injEq, true_and] at h
                          subst h
                          exact ⟨path, encoded, {
                            unfrozen := hunfrozen
                            depth := not_lt.mp hdepth
                            not_blocked := hpolicy.1
                            not_frozen := hpolicy.2
                            encode := hencode
                            size := not_lt.mp hsize
                            contained := hcont
                            quota := by rw [hcheck]
                            written := hwrite
                            submitted := hunfrozen
                            sessionId := rfl
                            ledger := ⟨l', by rw [hcheck]; exact hres, rfl⟩ }⟩

/-- A rejected write leaves the workspace and the marker as they were. -/
theorem writeFile_error {cap : Capacity} {disk disk' : SessionDisk}
    {relPath content : Str} {e : PyErr}
    (h : writeFile cap disk relPath content = (.error e, disk')) :
    disk'.workspace = disk.workspace ∧ disk'.submitted = disk.submitted ∧
      disk'.sessionId = disk.sessionId := by
  unfold writeFile at h
  split_ifs at h
  · obtain rfl := (Prod.mk.inj h).2
    exact ⟨rfl, rfl, rfl⟩
  unfold writeFileLocked at h
  repeat' split at h
  all_goals
    first
      | (obtain rfl := (Prod.mk.inj h).2; exact ⟨rfl, rfl, rfl⟩)
      | simp at h

/-- A write to a frozen session changes nothing. -/
theorem writeFile_of_submitted {disk : SessionDisk} {text : Str}
    (h : disk.submitted = some text) (cap : Capacity) (relPath content : Str) :
    writeFile cap disk relPath content =
      (.error (.value "Submission is frozen; start a new attempt to edit"), disk) := by
  simp [writeFile, h]

/-- A write, accepted or not, leaves the marker alone. -/
theorem writeFile_submitted (cap : Capacity) (disk : SessionDisk)
    (relPath content : Str) :
    (writeFile cap disk relPath content).2.submitted = disk.submitted := by
  cases hres : writeFile cap disk relPath content with
  | mk result disk' =>
      cases result with
      | error e => exact (writeFile_error hres).2.1
      | ok u =>
          obtain ⟨path, encoded, hacc⟩ := writeFile_ok hres
          exact hacc.submitted.trans hacc.unfrozen.symm

theorem writeFile_sessionId (cap : Capacity) (disk : SessionDisk)
    (relPath content : Str) :
    (writeFile cap disk relPath content).2.sessionId = disk.sessionId := by
  cases hres : writeFile cap disk relPath content with
  | mk result disk' =>
      cases result with
      | error e => exact (writeFile_error hres).2.2
      | ok u =>
          obtain ⟨path, encoded, hacc⟩ := writeFile_ok hres
          exact hacc.sessionId

theorem Accepted.isComponent {cap : Capacity} {disk disk' : SessionDisk}
    {relPath content : Str} {path : List Str} {encoded : Bytes}
    (h : Accepted cap disk relPath content path encoded disk') :
    ∀ n ∈ path, IsComponent n :=
  (containedFile_ok h.contained).isComponent

theorem writeFile_valid (cap : Capacity) {disk : SessionDisk}
    (hvalid : ValidTree disk.workspace) (relPath content : Str) :
    ValidTree (writeFile cap disk relPath content).2.workspace := by
  cases hres : writeFile cap disk relPath content with
  | mk result disk' =>
      cases result with
      | error e => exact (writeFile_error hres).1 ▸ hvalid
      | ok u =>
          obtain ⟨path, encoded, hacc⟩ := writeFile_ok hres
          exact hvalid.write hacc.isComponent hacc.written

/-! ## A small session -/

def roomyCapacity : Capacity where
  storageMaxBytes := 0
  storageMinFreeBytes := 0
  freeDiskBytes := 1000000

/-- A session with one file in its workspace. -/
def singleFileDisk (name data : String) : SessionDisk where
  sessionId := lit "s"
  workspace := Dir.nil.set (lit name) (.file ((utf8Encode (lit data)).getD []))
  submitted := none
  ledger := Ledger.empty

end PromptCode
