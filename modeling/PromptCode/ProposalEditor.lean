import PromptCode.Registry

/-!
# Proposals in the editor

`interview-session.js`: what the editor keeps of its files, of the edits that the
assistant proposes and of their previews, and what each action of the candidate does to
it and sends to the server.  A request may fail, also after the server has done it.  An
action runs to its end before the next one starts.
-/

namespace PromptCode.ProposalEditor

open Py

/-! ## Which proposals can be used -/

/-- The white space of `String.prototype.trim`. -/
def isTrimmed (c : CodePoint) : Bool :=
  decide (c.val ∈ [9, 10, 11, 12, 13, 0x20, 0xa0, 0x1680, 0x2028, 0x2029, 0x202f, 0x205f,
    0x3000, 0xfeff] ∨ 0x2000 ≤ c.val ∧ c.val ≤ 0x200a)

def trim (s : Str) : Str := rstrip isTrimmed (lstrip isTrimmed s)

/-- `BLOCKED`. -/
def blockedFragments : List Str :=
  [lit "solution.md", lit "_audit_", lit "audit.md", lit "interviewer", lit ".reference"]

/-- `FROZEN`. -/
def frozenFiles : List Str :=
  [lit "package.json", lit "package-lock.json", lit "yarn.lock", lit "pnpm-lock.yaml",
    lit "npm-shrinkwrap.json", lit "pyproject.toml", lit "pytest.ini", lit "setup.cfg",
    lit "setup.py", lit "conftest.py", lit "tox.ini", lit "requirements.txt",
    lit "dockerfile", lit "makefile"]

/-- The path with slashes, without a leading `./`, in lower case. -/
def normalPath (path : Str) : Str :=
  let raw := path.map fun c => if c = backslash then slash else c
  lower (if (lit "./").isPrefixOf raw then raw.drop 2 else raw)

def pathUnsafe (path : Str) : Bool :=
  let norm := normalPath path
  let base := (split slash norm).getLastD []
  decide (path = []) || decide ((0 : CodePoint) ∈ path) || contains (lit "..") path ||
    decide (path.head? = some slash) || decide (path.head? = some (ord '~')) ||
    decide (norm = []) || blockedFragments.any (fun frag => contains frag norm) ||
    decide (base ∈ frozenFiles) || (lit ".env").isPrefixOf base || (lit ".sh").isSuffixOf base

structure Edit where
  path : Str
  content : Str
  baseRevision : Option ℕ
deriving DecidableEq

def plannedEdit (e : Edit) : Option Edit :=
  if pathUnsafe (trim e.path) then none else some { e with path := trim e.path }

/-- `proposalPlan(edits).usable`. -/
def proposalPlan (edits : List Edit) : List Edit := edits.filterMap plannedEdit

/-! ## Requests -/

inductive Disposition where
  | accepted
  | modified
  | rejected
deriving DecidableEq

/-- The requests that can change a file. -/
inductive Request where
  | saveFile (path content : Str) (baseRevision : Option ℕ)
  | applyAiEdit (path content : Str) (disposition : Disposition) (proposedContent : Str)
      (baseRevision : Option ℕ)
deriving DecidableEq

/-- How a request ends: with the revision of the file, or with an error, before or after
the server has done what was asked. -/
inductive Reply where
  | ok (revision : ℕ)
  | failed (landed : Bool)
deriving DecidableEq

def Reply.isOk : Reply → Bool
  | .ok _ => true
  | .failed _ => false

/-- The replies to the requests of one round: the text before an acceptance, the write,
and the file when it has to be opened, with the local draft that opening it restores. -/
structure Replies where
  read : Reply
  write : Reply
  opening : Reply
  draft : Option Str

/-! ## The editor -/

/-- One entry of `models`. -/
structure Item where
  value : Str
  saved : Str
  revision : Option ℕ

structure UndoItem where
  path : Str
  before : Str
deriving DecidableEq

/-- What has happened to the proposals; no code reads it.  A previewed file that is not
decided yet has the text and the stored file from before its preview, and a file that an
acceptance wrote the text it had before. -/
structure History where
  before : Str → Option (Str × Option Str)
  written : Str → Option Str

/-- The state of the page, and the files on the server. -/
structure Editor where
  models : Str → Option Item
  modelKeys : List Str
  openTabs : List Str
  currentPath : Option Str
  previewBackup : Str → Option Str
  pendingEdits : List Edit
  undoAi : List UndoItem
  stored : Str → Option Str
  history : History

namespace Editor

variable (s : Editor)

def setItem (path : Str) (item : Item) : Editor :=
  { s with models := Function.update s.models path (some item) }

/-- The server stores a file. -/
def land (path content : Str) : Editor :=
  { s with stored := Function.update s.stored path (some content) }

def setCurrent (path : Str) : Editor :=
  { s with
    openTabs := if path ∈ s.openTabs then s.openTabs else s.openTabs ++ [path]
    currentPath := some path }

/-- `openFile`, unless it raises. -/
def openFile (r : Replies) (path : Str) : Option Editor :=
  match s.models path with
  | some _ => some (s.setCurrent path)
  | none =>
      match r.opening, s.stored path with
      | .ok revision, some content =>
          some (({ s with modelKeys := s.modelKeys ++ [path] }.setItem path
            ⟨r.draft.getD content, content, some revision⟩).setCurrent path)
      | _, _ => none

/-- `if (!models[path]) await openFile(path)`. -/
def openIfClosed (r : Replies) (path : Str) : Option Editor :=
  match s.models path with
  | some _ => some s
  | none => s.openFile r path

/-- `closeTab`. -/
def closeTab (r : Replies) (path : Str) : Editor :=
  match s.openTabs.idxOf? path with
  | none => s
  | some idx =>
      let t := { s with openTabs := s.openTabs.eraseIdx idx }
      if s.currentPath ≠ some path then t
      else
        match t.openTabs[min idx (t.openTabs.length - 1)]? with
        | some next => (t.openFile r next).getD t
        | none => { t with currentPath := none }

/-- The candidate changes the text of the current file. -/
def typeText (text : Str) : Editor :=
  match s.currentPath with
  | none => s
  | some path =>
      match s.models path with
      | none => s
      | some item => s.setItem path { item with value := text }

/-! ## Saves -/

/-- `enqueueSave`: what it sends, and whether it succeeds. -/
def enqueueSave (r : Replies) (path : Str) : Editor × List Request × Bool :=
  match s.models path with
  | none => (s, [], true)
  | some item =>
      if item.value = item.saved then (s, [], true)
      else
        let request := Request.saveFile path item.value item.revision
        match r.write with
        | .ok revision =>
            ((s.land path item.value).setItem path ⟨item.value, item.value, some revision⟩,
              [request], true)
        | .failed landed => (if landed then s.land path item.value else s, [request], false)

/-- `dirtyPaths(modelEntries())`. -/
def dirtyPaths : List Str :=
  s.modelKeys.filter fun path =>
    match s.models path with
    | none => false
    | some item => decide (item.value ≠ item.saved) && !pathUnsafe path

def saveLoop (net : ℕ → Replies) : ℕ → List Str → Editor → Editor × List Request
  | _, [], s => (s, [])
  | i, path :: rest, s =>
      match s.enqueueSave (net i) path with
      | (s', requests, false) => (s', requests)
      | (s', requests, true) =>
          let r := saveLoop net (i + 1) rest s'
          (r.1, requests ++ r.2)

/-- `saveDirtyModels`, with which `runCommand` starts. -/
def saveDirtyModels (net : ℕ → Replies) : Editor × List Request :=
  saveLoop net 0 s.dirtyPaths s

/-- `save`. -/
def save (r : Replies) : Editor × List Request :=
  match s.currentPath with
  | none => (s, [])
  | some path =>
      if pathUnsafe path then (s, [])
      else
        let result := s.enqueueSave r path
        (result.1, result.2.1)

/-- The timer that saves dirty files while no proposal is pending. -/
def autosave (net : ℕ → Replies) : Editor × List Request :=
  if s.pendingEdits = [] then s.saveDirtyModels net else (s, [])

/-! ## Proposals -/

/-- The answer of the assistant brings new proposals. -/
def receive (edits : List Edit) : Editor :=
  { s with
    pendingEdits := edits
    previewBackup := fun _ => none
    history := ⟨fun _ => none, fun _ => none⟩ }

/-- `previewProposal`. -/
def previewProposal (r : Replies) (path : Str) : Editor :=
  match (proposalPlan s.pendingEdits).find? fun e => decide (e.path = path) with
  | none => s
  | some edit =>
      match s.openFile r path with
      | none => s
      | some t =>
          match t.models path with
          | none => t
          | some item =>
              { t.setItem path { item with value := edit.content } with
                previewBackup :=
                  if (t.previewBackup path).isSome then t.previewBackup
                  else Function.update t.previewBackup path (some item.value)
                history := { t.history with
                  before :=
                    if (t.history.before path).isSome then t.history.before
                    else Function.update t.history.before path
                      (some (item.value, t.stored path)) } }

/-- The text an undo will restore. -/
def beforeText (r : Replies) (path : Str) : Str :=
  match s.previewBackup path, s.models path with
  | some text, _ => text
  | none, some item => item.saved
  | none, none =>
      match r.read, s.stored path with
      | .ok _, some content => content
      | _, _ => []

/-- What an acceptance sends for an edit, by the text of the open file. -/
def acceptRequest (e : Edit) : Str × Disposition :=
  match s.models e.path with
  | none => (e.content, .accepted)
  | some item =>
      if item.value ≠ e.content then (item.value, .modified) else (e.content, .accepted)

/-- The text a file has before an acceptance writes it. -/
def priorText (path : Str) : Str :=
  match s.history.before path with
  | some (text, _) => text
  | none => (s.stored path).getD []

/-- The server has stored an accepted edit. -/
def landAccepted (e : Edit) (content : Str) : Editor :=
  { s.land e.path content with
    history :=
      { before := Function.update s.history.before e.path none
        written := Function.update s.history.written e.path (some (s.priorText e.path)) } }

/-- The loop of `applyDisposition("accepted")`. -/
def acceptLoop (net : ℕ → Replies) :
    ℕ → List Edit → Editor → List UndoItem → Editor × List Request
  | _, [], s, applied =>
      ({ s with undoAi := applied, previewBackup := fun _ => none, pendingEdits := [] }, [])
  | i, e :: rest, s, applied =>
      let before := s.beforeText (net i) e.path
      let content := (s.acceptRequest e).1
      let request := Request.applyAiEdit e.path content (s.acceptRequest e).2 e.content
        e.baseRevision
      match (net i).write with
      | .failed landed =>
          ({ (if landed then s.landAccepted e content else s) with
              pendingEdits := e :: rest
              undoAi := applied }, [request])
      | .ok revision =>
          let t := s.landAccepted e content
          match t.openIfClosed (net i) e.path with
          | none => (t, [request])
          | some t =>
              let r := acceptLoop net (i + 1) rest
                (t.setItem e.path ⟨content, content, some revision⟩)
                (applied ++ [⟨e.path, before⟩])
              (r.1, request :: r.2)

/-- `applyDisposition("accepted")`. -/
def accept (net : ℕ → Replies) : Editor × List Request :=
  if proposalPlan s.pendingEdits = [] then (s, [])
  else acceptLoop net 0 (proposalPlan s.pendingEdits) s []

/-- One round of a rejection.  Its reply changes nothing. -/
def rejectEdit (s : Editor) (e : Edit) : Editor × Request :=
  let t :=
    match s.models e.path, s.previewBackup e.path with
    | some item, some text => s.setItem e.path { item with value := text }
    | _, _ => s
  (t, .applyAiEdit e.path (((t.models e.path).map Item.saved).getD []) .rejected e.content
    e.baseRevision)

def rejectLoop : List Edit → Editor → Editor × List Request
  | [], s => (s, [])
  | e :: rest, s =>
      let r := rejectLoop rest (s.rejectEdit e).1
      (r.1, (s.rejectEdit e).2 :: r.2)

/-- `applyDisposition("rejected")`. -/
def reject : Editor × List Request :=
  if proposalPlan s.pendingEdits = [] then (s, [])
  else
    let r := rejectLoop (proposalPlan s.pendingEdits) s
    ({ r.1 with
        previewBackup := fun _ => none
        pendingEdits := []
        history := { r.1.history with before := fun _ => none } }, r.2)

/-- The loop of `undoAccepted`. -/
def undoLoop (net : ℕ → Replies) : ℕ → List UndoItem → Editor → Editor × List Request
  | _, [], s => (s, [])
  | i, item :: rest, s =>
      if pathUnsafe item.path then undoLoop net (i + 1) rest s
      else
        let request := Request.saveFile item.path item.before
          ((s.models item.path).bind Item.revision)
        match (net i).write with
        | .failed landed => (if landed then s.land item.path item.before else s, [request])
        | .ok revision =>
            let t := s.land item.path item.before
            match t.openIfClosed (net i) item.path with
            | none => (t, [request])
            | some t =>
                let r := undoLoop net (i + 1) rest
                  (t.setItem item.path ⟨item.before, item.before, some revision⟩)
                (r.1, request :: r.2)

/-- `undoAccepted`. -/
def undoAccepted (net : ℕ → Replies) : Editor × List Request :=
  undoLoop net 0 s.undoAi
    { s with undoAi := [], history := { s.history with written := fun _ => none } }

end Editor

/-! ## Actions -/

inductive Action where
  | openFile (path : Str) (r : Replies)
  | closeTab (path : Str) (r : Replies)
  | typeText (text : Str)
  | preview (path : Str) (r : Replies)
  | save (r : Replies)
  | runTests (net : ℕ → Replies)
  | autosave (net : ℕ → Replies)
  | accept (net : ℕ → Replies)
  | reject
  | undo (net : ℕ → Replies)

/-- What an action makes of the editor, and the requests it sends. -/
def perform (s : Editor) : Action → Editor × List Request
  | .openFile path r => ((s.openFile r path).getD s, [])
  | .closeTab path r => (s.closeTab r path, [])
  | .typeText text => (s.typeText text, [])
  | .preview path r => (s.previewProposal r path, [])
  | .save r => s.save r
  | .runTests net => s.saveDirtyModels net
  | .autosave net => s.autosave net
  | .accept net => s.accept net
  | .reject => s.reject
  | .undo net => s.undoAccepted net

end PromptCode.ProposalEditor
