import PromptCode.ArtifactAccounting
import PromptCode.Lifecycle
import PromptCode.ProposalEditor
import PromptCode.RevisionHistory

/-!
# Saved files

The revisions of a session's files against its workspace.  The routes that read and write
files hold the lock of the session; each of them first rebuilds a workspace that this
container has not, from the challenge and the latest revisions.  A write reaches the
workspace before its revision is committed.
-/

namespace PromptCode

open Py FileTree Transition

/-! ## The rebuild -/

/-- `create_workspace` -/
def createWorkspace (cap : Capacity) (src : ChallengeDir) (disk : SessionDisk) :
    Except PyErr SessionDisk :=
  match reserveCapacity cap disk.ledger src.treeSourceBytes with
  | .error e => .error e
  | .ok l =>
      let usage := measureWorkspace src.copyCandidateTree
      let l' := l.write disk.sessionId (usage.1 + usage.1) (usage.2 + usage.2)
        src.treeSourceBytes
      .ok { disk with
        workspace := src.copyCandidateTree
        ledger := l'.write (disk.sessionId ++ lit ".starter") usage.1 usage.2 0 }

/-- `_overlay_revisions`; where it raises, the files before are there. -/
def overlayRevisions : Tree → List (Str × Str) → Except PyErr Unit × Tree
  | workspace, [] => (.ok (), workspace)
  | workspace, (relPath, content) :: rest =>
      if isBlockedPath relPath || !candidateWriteAllowed workspace relPath then
        overlayRevisions workspace rest
      else
        match containedFile workspace relPath with
        | .error e => (.error e, workspace)
        | .ok target =>
            match workspace.write target ((utf8Encode content).getD []) with
            | none => (.error .os, workspace)
            | some workspace' =>
                -- the file has been opened, and truncated, before the text is encoded
                if utf8Encode content = none then (.error .unicodeEncode, workspace')
                else overlayRevisions workspace' rest

/-- The revisions of a session, and what this container has of it. -/
structure SessionFiles where
  disk : SessionDisk
  files : History Str Str

/-- What a request finds outside of the session. -/
structure FilesEnv where
  cap : Capacity
  order : RowOrder (Str × Str)

/-- `_materialized`; a missing directory is an empty one here. -/
def SessionFiles.materialized (s : SessionFiles) : Bool := s.disk.workspace.names ≠ []

section

variable (src : ChallengeDir) (env : FilesEnv)

def ensureWorkspace (s : SessionFiles) : Except PyErr Unit × SessionFiles :=
  if s.materialized then (.ok (), s)
  else
    match createWorkspace env.cap src s.disk with
    | .error e => (.error e, s)
    | .ok disk =>
        let (result, workspace) :=
          overlayRevisions disk.workspace (env.order.sort s.files.latest)
        (result, { s with disk := { disk with workspace := workspace } })

/-! ## The routes -/

structure FileContent where
  path : Str
  content : Str
  revision : ℕ
  deriving DecidableEq

/-- The answer to an exception of a read or a write. -/
def fileError : PyErr → HttpException
  | .permission _ => ⟨404, "File not found"⟩
  | .value msg => ⟨400, msg⟩
  | .unicodeEncode => ⟨400, "surrogates not allowed"⟩
  | .http status detail => ⟨status, detail⟩
  | _ => ⟨500, "Internal Server Error"⟩

/-- An exception that a route does not catch. -/
def uncaught : PyErr → HttpException
  | .http status detail => ⟨status, detail⟩
  | _ => ⟨500, "Internal Server Error"⟩

/-- `get_session_file` -/
def getSessionFile (s : SessionFiles) (path : Str) :
    Except HttpException FileContent × SessionFiles :=
  if isBlockedPath path then (.error ⟨404, "File not found"⟩, s)
  else
    match ensureWorkspace src env s with
    | (.error e, s) => (.error (uncaught e), s)
    | (.ok (), s) =>
        match readFile s.disk.workspace path with
        | .error .fileNotFound => (.error ⟨404, "File not found"⟩, s)
        | .error e => (.error (fileError e), s)
        | .ok content => (.ok ⟨path, content, s.files.current path⟩, s)

/-- The write of a file and the commit of its revision, which may fail. -/
def writeRevision (s : SessionFiles) (path content : Str) (commits : Bool) :
    Except HttpException FileContent × SessionFiles :=
  match writeFile env.cap s.disk path content with
  | (.error e, disk) => (.error (fileError e), { s with disk := disk })
  | (.ok (), disk) =>
      let revision := s.files.current path + 1
      if commits then
        (.ok ⟨path, content, revision⟩,
          { disk := disk, files := s.files ++ [⟨path, content, revision⟩] })
      else (.error ⟨500, "Internal Server Error"⟩, { s with disk := disk })

/-- `save_session_file` -/
def saveSessionFile (s : SessionFiles) (path content : Str) (baseRevision : Option ℕ)
    (commits : Bool) : Except HttpException FileContent × SessionFiles :=
  if isBlockedPath path then (.error ⟨404, "File not found"⟩, s)
  else
    let currentRevision := s.files.current path
    match ensureWorkspace src env s with
    | (.error e, s) => (.error (uncaught e), s)
    | (.ok (), s) =>
        let prev : Except PyErr Str := match readFile s.disk.workspace path with
          | .error .fileNotFound => .ok []
          | result => result
        match prev with
        | .error e => (.error (fileError e), s)
        | .ok prev =>
            if baseRevision.any fun base => base ≠ currentRevision then
              -- the answer to an earlier save may have been lost
              if content = prev then
                if commits then (.ok ⟨path, prev, currentRevision⟩, s)
                else (.error ⟨500, "Internal Server Error"⟩, s)
              else (.error ⟨409,
                "This file changed in another tab or device. Reload before saving."⟩, s)
            else writeRevision env s path content commits

/-- `ai_apply_edit` -/
def aiApplyEdit (s : SessionFiles) (path content : Str) (disposition : ProposalEditor.Disposition)
    (baseRevision : Option ℤ) (commits : Bool) :
    Except HttpException FileContent × SessionFiles :=
  if isBlockedPath path then (.error ⟨404, "File not found"⟩, s)
  else
    match disposition, baseRevision with
    | .rejected, _ =>
        match ensureWorkspace src env s with
        | (.error e, s) => (.error (uncaught e), s)
        | (.ok (), s) =>
            match readFile s.disk.workspace path with
            | .error .fileNotFound => (.ok ⟨path, [], 0⟩, s)
            | .error e => (.error (uncaught e), s)
            | .ok content => (.ok ⟨path, content, 0⟩, s)
    | _, none =>
        (.error ⟨400, "This suggestion has no file revision. Ask again."⟩, s)
    | _, some base =>
        if base ≠ s.files.current path then
          (.error ⟨409, "The file changed since this suggestion. Re-ask or edit by hand."⟩, s)
        else
          match ensureWorkspace src env s with
          | (.error e, s) => (.error (fileError e), s)
          | (.ok (), s) => writeRevision env s path content commits

end

/-! ## Runs -/

inductive FilesAction where
  /-- The next request comes to another container. -/
  | lose (ledger : Ledger)
  | open (env : FilesEnv) (path : Str)
  | save (env : FilesEnv) (path content : Str) (baseRevision : Option ℕ) (commits : Bool)
  | apply (env : FilesEnv) (path content : Str) (disposition : ProposalEditor.Disposition)
      (baseRevision : Option ℤ) (commits : Bool)

/-- Nothing of the session is on the disk. -/
def SessionFiles.lose (s : SessionFiles) (ledger : Ledger) : SessionFiles :=
  { s with disk := { s.disk with
    workspace := .nil
    submitted := none
    ledger := ledger } }

def filesAct (src : ChallengeDir) (s : SessionFiles) : FilesAction → SessionFiles
  | .lose ledger => s.lose ledger
  | .open env path => (getSessionFile src env s path).2
  | .save env path content baseRevision commits =>
      (saveSessionFile src env s path content baseRevision commits).2
  | .apply env path content disposition baseRevision commits =>
      (aiApplyEdit src env s path content disposition baseRevision commits).2

/-- A session before its first request on a container. -/
def freshFiles (sessionId : Str) (ledger : Ledger) : SessionFiles :=
  ⟨⟨sessionId, .nil, none, ledger⟩, []⟩

/-! ## The revisions -/

/-- The file that a request names. -/
def FilesAction.path : FilesAction → Str
  | .lose _ => []
  | .open _ path | .save _ path _ _ _ | .apply _ path _ _ _ _ => path

/-- The revision that a write is based on. -/
def FilesAction.base : FilesAction → Option ℤ
  | .save _ _ _ baseRevision _ => baseRevision.map Nat.cast
  | .apply _ _ _ _ baseRevision _ => baseRevision
  | _ => none

/-- No row, or the next one of the path, which follows the revision it is based on. -/
def AddsRevision (s s' : SessionFiles) (path : Str) (base : Option ℤ) : Prop :=
  s'.files = s.files ∨ ∃ content, s'.files =
    s.files ++ [⟨path, content, s.files.current path + 1⟩] ∧ ∀ b ∈ base, b = s.files.current path

section

variable {src : ChallengeDir} {env : FilesEnv} {s s' : SessionFiles} {path content : Str}
  {commits : Bool} {base : Option ℤ}

@[simp] theorem ensureWorkspace_files : (ensureWorkspace src env s).2.files = s.files := by
  rw [ensureWorkspace]
  split_ifs
  · rfl
  · split <;> rfl

theorem ensureWorkspace_eq_files {result : Except PyErr Unit}
    (h : ensureWorkspace src env s = (result, s')) : s'.files = s.files := by
  have hfiles : (ensureWorkspace src env s).2.files = s.files := ensureWorkspace_files
  rwa [h] at hfiles

theorem writeRevision_adds (hfiles : s'.files = s.files)
    (hbase : ∀ b ∈ base, b = s.files.current path) :
    AddsRevision s (writeRevision env s' path content commits).2 path base := by
  rw [writeRevision]
  split
  · exact Or.inl hfiles
  · dsimp only
    split_ifs
    · refine Or.inr ⟨content, ?_, hbase⟩
      rw [hfiles]
    · exact Or.inl hfiles

theorem getSessionFile_files : (getSessionFile src env s path).2.files = s.files := by
  rw [getSessionFile]
  split_ifs
  · rfl
  · split
    · rename_i h
      exact ensureWorkspace_eq_files h
    · rename_i h
      split <;> exact ensureWorkspace_eq_files h

theorem saveSessionFile_adds (baseRevision : Option ℕ) :
    AddsRevision s (saveSessionFile src env s path content baseRevision commits).2 path
      (baseRevision.map Nat.cast) := by
  rw [saveSessionFile]
  split
  · exact Or.inl rfl
  · dsimp only
    split
    · rename_i h
      exact Or.inl (ensureWorkspace_eq_files h)
    · rename_i t h
      have hfiles := ensureWorkspace_eq_files h
      split
      · exact Or.inl hfiles
      · split
        · split_ifs <;> exact Or.inl hfiles
        · rename_i hstale
          apply writeRevision_adds hfiles
          intro b hb
          obtain ⟨base, rfl, rfl⟩ := Option.map_eq_some_iff.mp hb
          simpa using hstale

theorem aiApplyEdit_adds (disposition : ProposalEditor.Disposition)
    (baseRevision : Option ℤ) :
    AddsRevision s (aiApplyEdit src env s path content disposition baseRevision commits).2 path
      baseRevision := by
  unfold aiApplyEdit
  split
  · exact Or.inl rfl
  · split
    · split
      · rename_i h
        exact Or.inl (ensureWorkspace_eq_files h)
      · rename_i h
        split <;> exact Or.inl (ensureWorkspace_eq_files h)
    · exact Or.inl rfl
    · split
      · exact Or.inl rfl
      · rename_i hstale
        split
        · rename_i h
          exact Or.inl (ensureWorkspace_eq_files h)
        · rename_i h
          apply writeRevision_adds (ensureWorkspace_eq_files h)
          rintro b ⟨⟩
          exact not_not.mp hstale

theorem filesAct_adds (s : SessionFiles) (a : FilesAction) :
    AddsRevision s (filesAct src s a) a.path a.base := by
  cases a with
  | lose ledger => exact Or.inl rfl
  | «open» env path => exact Or.inl getSessionFile_files
  | save env path content baseRevision commits => exact saveSessionFile_adds baseRevision
  | apply env path content disposition baseRevision commits =>
      exact aiApplyEdit_adds disposition baseRevision

theorem AddsRevision.numbered (h : AddsRevision s s' path base) (hs : s.files.Numbered) :
    s'.files.Numbered := by
  rcases h with hsame | ⟨content, hr, -⟩
  · rwa [hsame]
  · rw [hr]
    exact hs.append rfl

end

/-- In every run the revisions of each path are 2, 3, 4 and so on in the order of their
commits, and a write that names the revision it is based on adds the next one to it. -/
theorem revisions_numbered (src : ChallengeDir) (sessionId : Str) (ledger : Ledger)
    (actions : List FilesAction) :
    (∀ path, (run (filesAct src) (freshFiles sessionId ledger) actions).files.revisionsOf path =
        List.range' 2 ((run (filesAct src) (freshFiles sessionId ledger)
          actions).files.revisionsOf path).length) ∧
      Throughout (filesAct src) (fun s a => AddsRevision s (filesAct src s a) a.path a.base)
        (freshFiles sessionId ledger) actions :=
  ⟨invariant_run_of_step (fun s => s.files.Numbered)
      (fun s a hs => (filesAct_adds s a).numbered hs) History.numbered_nil,
    throughout_of_step (fun _ => True) (fun _ _ _ => trivial) (fun s a _ => filesAct_adds s a)
      trivial⟩

/-! ## Trees that are written into -/

section

variable {d t t' : Tree} {p : List Str} {b : Bytes}

/-- What fits into a tree fits into it after a write. -/
theorem fitsIn_write (h : d.FitsIn t) (hwrite : t.write p b = some t') : d.FitsIn t' := by
  intro q x hx
  by_cases hqp : q = p
  · subst hqp
    rw [Dir.get_write_self hwrite]
    rcases h q x hx with ⟨c, c', rfl, -⟩ | ⟨e, e', -, he'⟩
    · exact Or.inl ⟨c, b, rfl, rfl⟩
    · rcases (Dir.writable_of_write hwrite).place with hnone | ⟨c, hfile⟩
      · rw [hnone] at he'
        cases he'
      · rw [hfile] at he'
        cases he'
  · by_cases hbelow : q <+: p
    · obtain ⟨e, he⟩ := Dir.exists_dir_of_prefix hbelow hqp (Dir.get_write_self hwrite)
      rcases h q x hx with ⟨c, c', rfl, hfile⟩ | ⟨e₁, e₂, rfl, -⟩
      · rcases (Dir.writable_of_write hwrite).above q hbelow hqp with hnone | ⟨e', hdir⟩
        · rw [hnone] at hfile
          cases hfile
        · rw [hdir] at hfile
          cases hfile
      · exact Or.inr ⟨e₁, e, rfl, he⟩
    · rw [Dir.get_write_of_not_below hwrite hbelow]
      exact h q x hx

theorem plain_nil : (Dir.nil : Tree).Plain := by
  intro q x hx
  cases q with
  | nil => exact Or.inr ⟨_, (Option.some.inj hx).symm⟩
  | cons n ns =>
      rw [Dir.get_nil_cons] at hx
      cases hx

theorem plain_writeAll {fs : List (List Str × Bytes)} (hd : d.Plain)
    (h : d.writeAll fs = some t) : t.Plain := by
  induction fs generalizing d with
  | nil =>
      obtain rfl : d = t := by simpa [Dir.writeAll] using h
      exact hd
  | cons w fs ih =>
      obtain ⟨d₁, hw, hrest⟩ : ∃ d₁, d.write w.1 w.2 = some d₁ ∧ d₁.writeAll fs = some t := by
        simpa [Dir.writeAll, Option.bind_eq_some_iff] using h
      exact ih (hd.write hw) hrest

theorem copyCandidateTree_plain (src : ChallengeDir) : src.copyCandidateTree.Plain := by
  rw [ChallengeDir.copyCandidateTree]
  rcases h : (Dir.nil : Tree).writeAll src.candidateFiles with _ | t
  · exact plain_nil
  · exact plain_writeAll plain_nil h

theorem isLinkAt_of_plain (h : t.Plain) (q : List Str) : t.isLinkAt q = false := by
  rw [Dir.isLinkAt]
  rcases hget : t.get q with _ | x
  · rfl
  · rcases h q x hget with ⟨c, rfl⟩ | ⟨e, rfl⟩ <;> rfl

end

/-! ## The workspace and the revisions -/

/-- `content.encode("utf-8")` of a text that has an encoding. -/
def encodeText (content : Str) : Bytes := (utf8Encode content).getD []

/-- What a save has accepted. -/
structure RowOk (r : Revision Str Str) : Prop where
  not_blocked : isBlockedPath r.path = false
  not_frozen : isFrozenPath r.path = false
  encoded : utf8Encode r.content ≠ none
  contained : ∀ t : Tree, t.Plain → containedFile t r.path = .ok (walkedParts r.path)
  ne_nil : walkedParts r.path ≠ []

/-- The tree is the challenge with all revisions written into it. -/
structure Mirrors (src : ChallengeDir) (files : History Str Str) (t : Tree) : Prop where
  plain : t.Plain
  fits : src.copyCandidateTree.FitsIn t
  fileAt_eq : t.fileAt =
    Dir.updateAll src.copyCandidateTree.fileAt (files.writes walkedParts encodeText)

structure FilesInv (src : ChallengeDir) (s : SessionFiles) : Prop where
  numbered : s.files.Numbered
  rows : ∀ r ∈ s.files, RowOk r
  apart : ∀ r ∈ s.files, History.Apart walkedParts s.files r.path
  mirror : ∃ t, Mirrors src s.files t ∧ (s.materialized = true → s.disk.workspace = t)

/-- The writes are committed, and no other saved path has named their file. -/
def SavesApart (s : SessionFiles) : FilesAction → Prop
  | .save _ path _ _ commits | .apply _ path _ _ _ commits =>
      commits = true ∧ History.Apart walkedParts s.files path
  | _ => True

section

variable {src : ChallengeDir} {env : FilesEnv} {s s' : SessionFiles} {path content : Str}
  {files : History Str Str} {t : Tree}

theorem Mirrors.fileAt_saved (h : Mirrors src files t)
    (happart : History.Apart walkedParts files path) {c : Str}
    (hc : files.lastContent path = some c) : t.fileAt (walkedParts path) = some (encodeText c) := by
  rw [h.fileAt_eq, History.updateAll_writes happart, hc]
  rfl

theorem Mirrors.fileAt_other (h : Mirrors src files t) {q : List Str}
    (hq : ∀ r ∈ files, walkedParts r.path ≠ q) :
    t.fileAt q = src.copyCandidateTree.fileAt q := by
  rw [h.fileAt_eq, Dir.updateAll_of_notMem]
  intro hmem
  obtain ⟨w, hw, rfl⟩ := List.mem_map.mp hmem
  obtain ⟨r, hr, rfl⟩ := List.mem_map.mp hw
  exact hq r hr rfl

/-- The overlay goes through where each file has its place in a tree. -/
theorem overlayRevisions_eq {d : Tree} (hplain : d.Plain) (hfits : d.FitsIn t)
    {l : List (Str × Str)}
    (hl : ∀ w ∈ l, RowOk ⟨w.1, w.2, 0⟩ ∧ ∃ b, t.get (walkedParts w.1) = some (.file b)) :
    ∃ d', overlayRevisions d l = (.ok (), d') ∧
      d.writeAll (l.map fun w => (walkedParts w.1, encodeText w.2)) = some d' ∧ d'.Plain ∧
      ∀ e : Tree, e.FitsIn d → e.FitsIn d' := by
  induction l generalizing d with
  | nil => exact ⟨d, rfl, rfl, hplain, fun _ => id⟩
  | cons w l ih =>
      obtain ⟨hok, b, hb⟩ := hl w List.mem_cons_self
      obtain ⟨d₁, hwrite, hfits₁⟩ := hfits.exists_write hb hok.ne_nil (encodeText w.2)
      obtain ⟨d', hrest, hall, hplain', hkeep⟩ := ih (hplain.write hwrite) hfits₁
        fun v hv => hl v (List.mem_cons_of_mem w hv)
      have hcontained := hok.contained d hplain
      have hallowed : candidateWriteAllowed d w.1 = true := by
        rw [candidateWriteAllowed, hok.not_blocked, hok.not_frozen, hcontained]
        rfl
      refine ⟨d', ?_, ?_, hplain', fun e he => hkeep e (fitsIn_write he hwrite)⟩
      · rw [overlayRevisions, hok.not_blocked, hallowed]
        simp only [Bool.not_true, Bool.or_self, Bool.false_eq_true, if_false, hcontained]
        have hwrite' : d.write (walkedParts w.1) ((utf8Encode w.2).getD []) = some d₁ := hwrite
        rw [hwrite']
        simp only [hok.encoded, if_false]
        exact hrest
      · simpa [Dir.writeAll, Option.bind_eq_some_iff] using ⟨d₁, hwrite, hall⟩

/-- A rebuild from the latest revisions mirrors all of them. -/
theorem FilesInv.overlay (h : FilesInv src s) (order : RowOrder (Str × Str)) :
    ∃ d, overlayRevisions src.copyCandidateTree (order.sort s.files.latest) = (.ok (), d) ∧
      Mirrors src s.files d := by
  obtain ⟨t, ht, -⟩ := h.mirror
  have hperm := order.perm s.files.latest
  have hl : ∀ w ∈ order.sort s.files.latest, RowOk ⟨w.1, w.2, 0⟩ ∧
      ∃ b, t.get (walkedParts w.1) = some (.file b) := by
    intro w hw
    have hlast := h.numbered.mem_latest.mp (hperm.mem_iff.mp hw)
    obtain ⟨r, hr, hcontent⟩ := Option.map_eq_some_iff.mp hlast
    obtain ⟨hmem, hpath⟩ := List.mem_filter.mp (List.mem_of_getLast? hr)
    have hpath : r.path = w.1 := by simpa using hpath
    have hok := h.rows r hmem
    refine ⟨⟨hpath ▸ hok.not_blocked, hpath ▸ hok.not_frozen, hcontent ▸ hok.encoded,
      hpath ▸ hok.contained, hpath ▸ hok.ne_nil⟩, encodeText w.2, ?_⟩
    exact Dir.fileAt_eq_some_iff.mp (ht.fileAt_saved (hpath ▸ h.apart r hmem) hlast)
  obtain ⟨d, hoverlay, hall, hplain, hkeep⟩ :=
    overlayRevisions_eq (copyCandidateTree_plain src) ht.fits hl
  refine ⟨d, hoverlay, hplain, hkeep _ (copyCandidateTree_plain src).fitsIn_self, ?_⟩
  rw [Dir.fileAt_writeAll hall]
  exact h.numbered.updateAll_latest h.apart hperm

theorem createWorkspace_workspace {cap : Capacity} {disk disk' : SessionDisk}
    (h : createWorkspace cap src disk = .ok disk') :
    disk'.workspace = src.copyCandidateTree := by
  rw [createWorkspace] at h
  split at h
  · cases h
  · rw [← Except.ok.inj h]

/-- After `ensure_workspace` the workspace is there. -/
theorem FilesInv.ensure (h : FilesInv src s) {result : Except PyErr Unit}
    (hens : ensureWorkspace src env s = (result, s')) :
    FilesInv src s' ∧ (result = .ok () → Mirrors src s'.files s'.disk.workspace) := by
  rw [ensureWorkspace] at hens
  split_ifs at hens with hthere
  · obtain ⟨rfl, rfl⟩ := Prod.mk.inj hens
    obtain ⟨t, ht, hsame⟩ := h.mirror
    exact ⟨h, fun _ => by rw [hsame hthere]; exact ht⟩
  · split at hens
    · obtain ⟨rfl, rfl⟩ := Prod.mk.inj hens
      refine ⟨h, fun hok => ?_⟩
      cases hok
    · rename_i disk hcreate
      obtain ⟨d, hoverlay, hd⟩ := h.overlay env.order
      rw [createWorkspace_workspace hcreate, hoverlay] at hens
      obtain ⟨rfl, rfl⟩ := Prod.mk.inj hens
      exact ⟨⟨h.numbered, h.rows, h.apart, d, hd, fun _ => rfl⟩, fun _ => hd⟩

/-- An accepted write is one that a rebuild would accept. -/
theorem rowOk_of_accepted {cap : Capacity} {disk disk' : SessionDisk} {walked : List Str}
    {encoded : Bytes} (hacc : Accepted cap disk path content walked encoded disk')
    (hplain : disk.workspace.Plain) (revision : ℕ) : RowOk ⟨path, content, revision⟩ where
  not_blocked := hacc.not_blocked
  not_frozen := hacc.not_frozen
  encoded := by simp [hacc.encode]
  contained t ht := by
    have hcontained := containedFile_ok hacc.contained
    rw [← hcontained.path_eq, ← hacc.contained]
    exact containedFile_congr fun q _ => by
      rw [isLinkAt_of_plain ht, isLinkAt_of_plain hplain]
  ne_nil := by
    have hcontained := containedFile_ok hacc.contained
    rw [← hcontained.path_eq]
    exact hcontained.ne_nil

theorem Mirrors.append (h : Mirrors src files t) {t' : Tree} {r : Revision Str Str}
    (hwrite : t.write (walkedParts r.path) (encodeText r.content) = some t') :
    Mirrors src (files ++ [r]) t' where
  plain := h.plain.write hwrite
  fits := fitsIn_write h.fits hwrite
  fileAt_eq := by
    have hwrites : History.writes (files ++ [r]) walkedParts encodeText =
        files.writes walkedParts encodeText ++ [(walkedParts r.path, encodeText r.content)] :=
      List.map_append
    rw [Dir.fileAt_write hwrite, h.fileAt_eq, hwrites, History.updateAll_append]

theorem FilesInv.writeRevision (h : FilesInv src s)
    (hready : Mirrors src s.files s.disk.workspace)
    (happart : History.Apart walkedParts s.files path) :
    FilesInv src (writeRevision env s path content true).2 := by
  rw [PromptCode.writeRevision]
  rcases hwrite : writeFile env.cap s.disk path content with ⟨_ | ⟨⟨⟩⟩, disk⟩
  · obtain ⟨hsame, -, -⟩ := writeFile_error hwrite
    exact ⟨h.numbered, h.rows, h.apart, _, hready, fun _ => hsame⟩
  · obtain ⟨walked, encoded, hacc⟩ := writeFile_ok hwrite
    have hcontained := containedFile_ok hacc.contained
    have hwritten : s.disk.workspace.write (walkedParts path) (encodeText content) =
        some disk.workspace := by
      rw [← hcontained.path_eq, encodeText, hacc.encode]
      exact hacc.written
    dsimp only
    refine ⟨h.numbered.append rfl, ?_, ?_, disk.workspace, hready.append hwritten, fun _ => rfl⟩
    · intro r hr
      rcases List.mem_append.mp hr with hr | hr
      · exact h.rows r hr
      · rw [List.mem_singleton.mp hr]
        exact rowOk_of_accepted hacc hready.plain _
    · intro r hr r' hr' hsame
      rcases List.mem_append.mp hr with hr | hr <;> rcases List.mem_append.mp hr' with hr' | hr'
      · exact h.apart r hr r' hr' hsame
      · rw [List.mem_singleton.mp hr'] at hsame ⊢
        exact (happart r hr hsame.symm).symm
      · rw [List.mem_singleton.mp hr] at hsame ⊢
        exact happart r' hr' hsame
      · rw [List.mem_singleton.mp hr, List.mem_singleton.mp hr']

theorem FilesInv.save (h : FilesInv src s) {baseRevision : Option ℕ}
    (happart : History.Apart walkedParts s.files path) :
    FilesInv src (saveSessionFile src env s path content baseRevision true).2 := by
  rw [saveSessionFile]
  split
  · exact h
  · dsimp only
    split
    · rename_i hens
      exact (h.ensure hens).1
    · rename_i hens
      obtain ⟨h', hready⟩ := h.ensure hens
      have hfiles := ensureWorkspace_eq_files hens
      split
      · exact h'
      · split
        · split_ifs <;> exact h'
        · exact h'.writeRevision (hready rfl) (hfiles ▸ happart)

theorem FilesInv.apply (h : FilesInv src s) {disposition : ProposalEditor.Disposition}
    {baseRevision : Option ℤ} (happart : History.Apart walkedParts s.files path) :
    FilesInv src (aiApplyEdit src env s path content disposition baseRevision true).2 := by
  unfold aiApplyEdit
  split
  · exact h
  · split
    · split
      · rename_i hens
        exact (h.ensure hens).1
      · rename_i hens
        split <;> exact (h.ensure hens).1
    · exact h
    · split
      · exact h
      · split
        · rename_i hens
          exact (h.ensure hens).1
        · rename_i hens
          obtain ⟨h', hready⟩ := h.ensure hens
          have hfiles := ensureWorkspace_eq_files hens
          exact h'.writeRevision (hready rfl) (hfiles ▸ happart)

theorem FilesInv.openFile (h : FilesInv src s) :
    FilesInv src (getSessionFile src env s path).2 := by
  rw [getSessionFile]
  split
  · exact h
  · split
    · rename_i hens
      exact (h.ensure hens).1
    · rename_i hens
      split <;> exact (h.ensure hens).1

theorem FilesInv.lose (h : FilesInv src s) (ledger : Ledger) : FilesInv src (s.lose ledger) := by
  obtain ⟨t, ht, -⟩ := h.mirror
  refine ⟨h.numbered, h.rows, h.apart, t, ht, fun hthere => ?_⟩
  simp [SessionFiles.materialized, SessionFiles.lose, Dir.names] at hthere

theorem filesAct_inv (h : FilesInv src s) {a : FilesAction} (ha : SavesApart s a) :
    FilesInv src (filesAct src s a) := by
  cases a with
  | lose ledger => exact h.lose ledger
  | «open» env path => exact h.openFile
  | save env path content baseRevision commits =>
      obtain ⟨rfl, happart⟩ := ha
      exact h.save happart
  | apply env path content disposition baseRevision commits =>
      obtain ⟨rfl, happart⟩ := ha
      exact h.apply happart

theorem freshFiles_inv (src : ChallengeDir) (sessionId : Str) (ledger : Ledger) :
    FilesInv src (freshFiles sessionId ledger) where
  numbered := History.numbered_nil
  rows r hr := by cases hr
  apart r hr := by cases hr
  mirror := ⟨src.copyCandidateTree, ⟨copyCandidateTree_plain src,
    (copyCandidateTree_plain src).fitsIn_self, rfl⟩, fun hthere => by
      simp [SessionFiles.materialized, freshFiles, Dir.names] at hthere⟩

end

/-- In every run whose writes are committed and name no file by two paths, a workspace that is
there holds the last revision of each saved path and the challenge's files elsewhere, and a
container that has lost it rebuilds the same files. -/
theorem workspace_holds_revisions (src : ChallengeDir) (sessionId : Str) (ledger : Ledger)
    {actions : List FilesAction}
    (h : Throughout (filesAct src) SavesApart (freshFiles sessionId ledger) actions) :
    let s := run (filesAct src) (freshFiles sessionId ledger) actions
    s.materialized = true →
      (∀ r ∈ s.files, s.disk.workspace.fileAt (walkedParts r.path) =
        (s.files.lastContent r.path).bind utf8Encode) ∧
      (∀ q, (∀ r ∈ s.files, walkedParts r.path ≠ q) →
        s.disk.workspace.fileAt q = src.copyCandidateTree.fileAt q) ∧
      ∀ env lost disk, createWorkspace env.cap src (s.lose lost).disk = .ok disk →
        ∃ s', ensureWorkspace src env (s.lose lost) = (.ok (), s') ∧
          s'.disk.workspace.fileAt = s.disk.workspace.fileAt := by
  intro s hthere
  have hinv : FilesInv src s :=
    invariant_run (FilesInv src) (fun _ _ hi ha => filesAct_inv hi ha)
      (freshFiles_inv src sessionId ledger) h
  obtain ⟨t, ht, hsame⟩ := hinv.mirror
  obtain rfl := hsame hthere
  refine ⟨?_, fun q hq => ht.fileAt_other hq, ?_⟩
  · intro r hr
    obtain ⟨c, hc⟩ : ∃ c, s.files.lastContent r.path = some c := by
      have hne : (s.files.filter fun r' => r'.path = r.path) ≠ [] :=
        List.ne_nil_of_mem (List.mem_filter.mpr ⟨hr, by simp⟩)
      rw [History.lastContent, List.getLast?_eq_some_getLast hne]
      exact ⟨_, rfl⟩
    obtain ⟨r', hr', hcontent⟩ := Option.map_eq_some_iff.mp hc
    have hencoded := (hinv.rows r' (List.mem_filter.mp (List.mem_of_getLast? hr')).1).encoded
    rw [hcontent] at hencoded
    obtain ⟨data, hdata⟩ := Option.ne_none_iff_exists'.mp hencoded
    rw [ht.fileAt_saved (hinv.apart r hr) hc, hc, Option.bind_some, encodeText, hdata]
    rfl
  · intro env lost disk hcreate
    have hlost := hinv.lose lost
    rcases hens : ensureWorkspace src env (s.lose lost) with ⟨result, s'⟩
    have hresult : result = .ok () := by
      obtain ⟨d, hoverlay, -⟩ := hlost.overlay env.order
      have hgone : (s.lose lost).materialized = false := by
        simp [SessionFiles.materialized, SessionFiles.lose, Dir.names]
      rw [ensureWorkspace, hgone, hcreate] at hens
      simp only [Bool.false_eq_true, if_false, createWorkspace_workspace hcreate,
        hoverlay] at hens
      exact (Prod.mk.inj hens).1.symm
    subst hresult
    have hready := (hlost.ensure hens).2 rfl
    rw [ensureWorkspace_eq_files hens] at hready
    exact ⟨s', rfl, hready.fileAt_eq.trans ht.fileAt_eq.symm⟩

/-- A request on a disk with room, to which the rows come in the order of the table. -/
def roomyEnv : FilesEnv where
  cap := roomyCapacity
  order := ⟨id, fun _ => .refl _⟩

/-- Two saves of a file, the second on another container. -/
def savedTwice : List FilesAction :=
  [.save roomyEnv (lit "a.py") (lit "x") none true, .lose Ledger.empty,
    .save roomyEnv (lit "a.py") (lit "y") (some 2) true]

theorem workspace_holds_revisions_twice :
    let s := run (filesAct smallChallenge) (freshFiles (lit "s") Ledger.empty) savedTwice
    s.disk.workspace.fileAt [lit "a.py"] = utf8Encode (lit "y") := by
  have hone : (run (filesAct smallChallenge) (freshFiles (lit "s") Ledger.empty)
      (savedTwice.take 2)).files = [⟨lit "a.py", lit "x", 2⟩] := by
    decide +kernel
  have htwo : (run (filesAct smallChallenge) (freshFiles (lit "s") Ledger.empty)
      savedTwice).files = [⟨lit "a.py", lit "x", 2⟩, ⟨lit "a.py", lit "y", 3⟩] := by
    decide +kernel
  have hthere : (run (filesAct smallChallenge) (freshFiles (lit "s") Ledger.empty)
      savedTwice).materialized = true := by
    decide +kernel
  have hkept : Throughout (filesAct smallChallenge) SavesApart
      (freshFiles (lit "s") Ledger.empty) savedTwice := by
    refine ⟨⟨rfl, fun r hr => ?_⟩, trivial, ⟨rfl, fun r hr _ => ?_⟩, trivial⟩
    · cases hr
    · have hmem : r ∈ (run (filesAct smallChallenge) (freshFiles (lit "s") Ledger.empty)
          (savedTwice.take 2)).files := hr
      rw [hone, List.mem_singleton] at hmem
      rw [hmem]
  have hfile := (workspace_holds_revisions smallChallenge (lit "s") Ledger.empty hkept hthere).1
    ⟨lit "a.py", lit "y", 3⟩ (by rw [htwo]; simp)
  rw [htwo] at hfile
  exact hfile

end PromptCode
