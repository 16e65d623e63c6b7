import PromptCode.SubmissionStore
import PromptCode.Transition

/-!
# Freezing a submission

`freeze_submission` of `snapshot.py`, cut at every point where an exception or a
crash can stop it.  One session on one host is a machine: it takes candidate
writes, the single steps of a freeze, and the stops.  A freeze holds the upload
lock, so no write comes between its steps.
-/

namespace PromptCode

open Py FileTree Transition

/-- A directory `.submitted/<session>/<digest>`. -/
structure Snapshot where
  source : Tree
  manifestText : Bytes

/-- `FrozenSnapshot`; the session and the digest determine `source_path`. -/
structure FrozenSnapshot where
  sourceDigest : Str
  manifest : Manifest
  objectKey : Str
deriving DecidableEq

/-- `_frozen`. -/
def frozen (sessionId digest : Str) (m : Manifest) :
    Except PyErr FrozenSnapshot :=
  (submissionPrefix sessionId digest).map fun key => ⟨digest, m, key⟩

/-- The bytes a freeze reserves before it copies. -/
def requiredBytes (m : Manifest) : ℕ :=
  (m.map fun r => r.size).sum + (manifestJson m).length + 64

/-- A snapshot directory as `measure_workspace` walks it. -/
def Snapshot.tree (snap : Snapshot) : Tree :=
  (Dir.nil.set (lit "source") (.dir snap.source)).set manifestName
    (.file snap.manifestText)

/-- The handler of `_persist_managed_submission`. -/
def persistError : PyErr → PyErr
  | .objectNotFound | .objectTooLarge =>
      .value "Submitted source could not be persisted to durable storage"
  | e => e

/-! ## The machine -/

/-- How far a freeze has come, with what it has computed.  The reservation is
absent on the path of a session that is already frozen. -/
inductive FreezePhase where
  | idle
  | begun
  | measured (m : Manifest)
  | reserved (m : Manifest) (reservation : ℕ)
  | copied (m : Manifest) (reservation : ℕ) (temporary : Snapshot)
  | published (m : Manifest) (reservation : ℕ)
  | marking (m : Manifest) (reservation : ℕ)
  | persisting (digest : Str) (m : Manifest) (reservation : Option ℕ)
  | uploading (digest : Str) (m rows : Manifest) (reservation : Option ℕ)
  | persisted (digest : Str) (m : Manifest) (reservation : Option ℕ)
  | finished (result : Except PyErr FrozenSnapshot)

namespace FreezePhase

def inProgress : FreezePhase → Bool
  | idle | finished _ => false
  | _ => true

/-- The marker file is there and its content is not. -/
def isMarking : FreezePhase → Bool
  | marking _ _ => true
  | _ => false

/-- What `storage_capacity` still holds reserved. -/
def reservation : FreezePhase → Option ℕ
  | reserved _ n | copied _ n _ | published _ n | marking _ n => some n
  | persisting _ _ n | uploading _ _ _ n | persisted _ _ n => n
  | idle | begun | measured _ | finished _ => none

end FreezePhase

/-- A session on its host: the disk, the snapshots below `.submitted/<session>`
by digest, the object store, and the freeze in progress.  A temporary directory
that a crash leaves behind has a name no digest has, and nothing reads it. -/
structure FreezeHost where
  disk : SessionDisk
  snapshots : Str → Option Snapshot
  store : ObjectStore
  phase : FreezePhase

/-- `durable_submission_required`, and how a foreign marker reads. -/
structure FreezeEnv where
  durable : Bool
  foreign : ForeignMarker

namespace FreezeHost

def setPhase (h : FreezeHost) (phase : FreezePhase) : FreezeHost :=
  { h with phase := phase }

def setLedger (h : FreezeHost) (l : Ledger) : FreezeHost :=
  { h with disk := { h.disk with ledger := l } }

def setSubmitted (h : FreezeHost) (text : Str) : FreezeHost :=
  { h with disk := { h.disk with submitted := some text } }

def setStore (h : FreezeHost) (store : ObjectStore) : FreezeHost :=
  { h with store := store }

/-- `temporary.rename(destination)`. -/
def addSnapshot (h : FreezeHost) (digest : Str) (snap : Snapshot) : FreezeHost :=
  { h with snapshots := Function.update h.snapshots digest (some snap) }

/-- An exception leaves the freeze: the temporary directory is removed and the
reservation released. -/
def raise (h : FreezeHost) (e : PyErr) : FreezeHost :=
  let ledger := match h.phase.reservation with
    | some n => h.disk.ledger.release reservationKey n
    | none => h.disk.ledger
  (h.setLedger ledger).setPhase (.finished (.error e))

/-- The return of the frozen snapshot. -/
def finish (h : FreezeHost) (digest : Str) (m : Manifest) : FreezeHost :=
  h.setPhase (.finished (frozen h.disk.sessionId digest m))

end FreezeHost

/-- The next step of the freeze in progress. -/
def freezeStep (env : FreezeEnv) (cap : Capacity) (h : FreezeHost) : FreezeHost :=
  match h.phase with
  | .idle | .finished _ => h
  | .begun =>
      match h.disk.submitted with
      | some text =>
          let digest := strip text
          match verifySnapshot digest (lit "source")
              ((h.snapshots digest).map fun snap => snap.source) digest with
          | .error e => h.raise e
          | .ok m => h.setPhase (.persisting digest m none)
      | none =>
          match manifest h.disk.workspace with
          | .error e => h.raise e
          | .ok m =>
              if m = [] then h.raise (.value "Submission is empty")
              else h.setPhase (.measured m)
  | .measured m =>
      match reserveCapacity cap h.disk.ledger (requiredBytes m) with
      | .error e => h.raise e
      | .ok l => (h.setLedger l).setPhase (.reserved m (requiredBytes m))
  | .reserved m n =>
      match manifestInto h.disk.workspace with
      | .error e => h.raise e
      | .ok (copied, source) =>
          if copied ≠ m then h.raise (.value "Submission changed while freezing")
          else h.setPhase (.copied m n ⟨source, manifestJson m⟩)
  | .copied m n temporary =>
      match h.snapshots (manifestDigest m) with
      | some snap =>
          match verifySnapshot (manifestDigest m) (lit "source") (some snap.source)
              (manifestDigest m) with
          | .error e => h.raise e
          | .ok _ => h.setPhase (.published m n)
      | none => (h.addSnapshot (manifestDigest m) temporary).setPhase (.published m n)
  -- `marker.write_text` opens the file before it writes the digest
  | .published m n => (h.setSubmitted []).setPhase (.marking m n)
  | .marking m n =>
      (h.setSubmitted (manifestDigest m)).setPhase
        (.persisting (manifestDigest m) m (some n))
  | .persisting digest m n =>
      if !env.durable then h.setPhase (.persisted digest m n)
      else if m = [] then h.raise (.value "Submission manifest is empty")
      else if manifestDigest (sortedManifest m) ≠ digest then
        h.raise (.value "Submission digest does not match its manifest")
      else
        match alreadyPersisted env.foreign h.store h.disk.sessionId digest
            (sortedManifest m) with
        | .error e => h.raise (persistError e)
        | .ok true => h.setPhase (.persisted digest m n)
        | .ok false => h.setPhase (.uploading digest m (sortedManifest m) n)
  | .uploading digest m [] n =>
      match putManifest h.store h.disk.sessionId digest (sortedManifest m) with
      | .error e => h.raise (persistError e)
      | .ok store => (h.setStore store).setPhase (.persisted digest m n)
  | .uploading digest m (item :: rows) n =>
      match uploadRow h.store h.disk.sessionId digest
          (((h.snapshots digest).map fun snap => snap.source).getD .nil) item with
      | .error e => h.raise (persistError e)
      | .ok store => (h.setStore store).setPhase (.uploading digest m rows n)
  | .persisted digest m none => h.finish digest m
  | .persisted digest m (some n) =>
      let size := measureWorkspace
        (((h.snapshots digest).map Snapshot.tree).getD .nil)
      (h.setLedger (h.disk.ledger.write digest size.1 size.2 n)).finish digest m

/-- What can happen to the session. -/
inductive FreezeAction where
  | write (cap : Capacity) (relPath content : Str)
  | freeze
  | step (cap : Capacity)
  | fail (e : PyErr)
  | crash

/-- One action.  A write and a new freeze wait while a freeze is in progress; an
exception leaves it, a crash drops it where it stands. -/
def freezeAct (env : FreezeEnv) (h : FreezeHost) : FreezeAction → FreezeHost
  | .write cap relPath content =>
      if h.phase.inProgress then h
      else { h with disk := (writeFile cap h.disk relPath content).2 }
  | .freeze => if h.phase.inProgress then h else h.setPhase .begun
  | .step cap => freezeStep env cap h
  | .fail e => if h.phase.inProgress then h.raise e else h
  | .crash => if h.phase.inProgress then h.setPhase .idle else h

/-! ## Small facts -/

namespace FreezeHost

section

variable (h : FreezeHost) (phase : FreezePhase) (e : PyErr) (l : Ledger)
  (text digest : Str) (m : Manifest)

@[simp] theorem setPhase_disk : (h.setPhase phase).disk = h.disk := rfl
@[simp] theorem setPhase_snapshots :
    (h.setPhase phase).snapshots = h.snapshots := rfl
@[simp] theorem setPhase_store : (h.setPhase phase).store = h.store := rfl
@[simp] theorem setPhase_phase : (h.setPhase phase).phase = phase := rfl

@[simp] theorem setLedger_workspace :
    (h.setLedger l).disk.workspace = h.disk.workspace := rfl
@[simp] theorem setLedger_submitted :
    (h.setLedger l).disk.submitted = h.disk.submitted := rfl
@[simp] theorem setLedger_sessionId :
    (h.setLedger l).disk.sessionId = h.disk.sessionId := rfl
@[simp] theorem setLedger_ledger : (h.setLedger l).disk.ledger = l := rfl
@[simp] theorem setLedger_snapshots :
    (h.setLedger l).snapshots = h.snapshots := rfl
@[simp] theorem setLedger_store : (h.setLedger l).store = h.store := rfl

@[simp] theorem setSubmitted_workspace :
    (h.setSubmitted text).disk.workspace = h.disk.workspace := rfl
@[simp] theorem setSubmitted_submitted :
    (h.setSubmitted text).disk.submitted = some text := rfl
@[simp] theorem setSubmitted_sessionId :
    (h.setSubmitted text).disk.sessionId = h.disk.sessionId := rfl
@[simp] theorem setSubmitted_ledger :
    (h.setSubmitted text).disk.ledger = h.disk.ledger := rfl
@[simp] theorem setSubmitted_snapshots :
    (h.setSubmitted text).snapshots = h.snapshots := rfl
@[simp] theorem setSubmitted_store : (h.setSubmitted text).store = h.store := rfl

@[simp] theorem setStore_disk (store : ObjectStore) :
    (h.setStore store).disk = h.disk := rfl
@[simp] theorem setStore_snapshots (store : ObjectStore) :
    (h.setStore store).snapshots = h.snapshots := rfl
@[simp] theorem setStore_store (store : ObjectStore) :
    (h.setStore store).store = store := rfl

@[simp] theorem addSnapshot_disk (snap : Snapshot) :
    (h.addSnapshot digest snap).disk = h.disk := rfl
@[simp] theorem addSnapshot_store (snap : Snapshot) :
    (h.addSnapshot digest snap).store = h.store := rfl
theorem addSnapshot_self (snap : Snapshot) :
    (h.addSnapshot digest snap).snapshots digest = some snap :=
  Function.update_self ..
theorem addSnapshot_of_ne (snap : Snapshot) {d : Str} (hd : d ≠ digest) :
    (h.addSnapshot digest snap).snapshots d = h.snapshots d :=
  Function.update_of_ne hd ..

@[simp] theorem raise_workspace : (h.raise e).disk.workspace = h.disk.workspace := rfl
@[simp] theorem raise_submitted : (h.raise e).disk.submitted = h.disk.submitted := rfl
@[simp] theorem raise_sessionId : (h.raise e).disk.sessionId = h.disk.sessionId := rfl
@[simp] theorem raise_snapshots : (h.raise e).snapshots = h.snapshots := rfl
@[simp] theorem raise_store : (h.raise e).store = h.store := rfl
@[simp] theorem raise_phase : (h.raise e).phase = .finished (.error e) := rfl

@[simp] theorem finish_disk : (h.finish digest m).disk = h.disk := rfl
@[simp] theorem finish_snapshots : (h.finish digest m).snapshots = h.snapshots := rfl
@[simp] theorem finish_store : (h.finish digest m).store = h.store := rfl
@[simp] theorem finish_phase : (h.finish digest m).phase =
    .finished (frozen h.disk.sessionId digest m) := rfl

end

end FreezeHost

/-! ## What one step can do -/

/-- The moves of a freeze, each with what it has checked. -/
inductive FreezeMove (env : FreezeEnv) (cap : Capacity) (h : FreezeHost) :
    FreezeHost → Prop where
  | rest (hp : h.phase.inProgress = false) : FreezeMove env cap h h
  | raise (hp : h.phase.inProgress = true) (hmarking : h.phase.isMarking = false)
      (e : PyErr) : FreezeMove env cap h (h.raise e)
  | retry {text : Str} {m : Manifest} (hp : h.phase = .begun)
      (hmarker : h.disk.submitted = some text)
      (hverify : verifySnapshot (strip text) (lit "source")
        ((h.snapshots (strip text)).map fun snap => snap.source) (strip text) = .ok m) :
      FreezeMove env cap h (h.setPhase (.persisting (strip text) m none))
  | measure {m : Manifest} (hp : h.phase = .begun)
      (hmarker : h.disk.submitted = none) (hm : manifest h.disk.workspace = .ok m)
      (hne : m ≠ []) : FreezeMove env cap h (h.setPhase (.measured m))
  | reserve {m : Manifest} {l : Ledger} (hp : h.phase = .measured m)
      (hl : reserveCapacity cap h.disk.ledger (requiredBytes m) = .ok l) :
      FreezeMove env cap h
        ((h.setLedger l).setPhase (.reserved m (requiredBytes m)))
  | copy {m : Manifest} {n : ℕ} {source : Tree} (hp : h.phase = .reserved m n)
      (hinto : manifestInto h.disk.workspace = .ok (m, source)) :
      FreezeMove env cap h (h.setPhase (.copied m n ⟨source, manifestJson m⟩))
  | reuse {m m' : Manifest} {n : ℕ} {temporary snap : Snapshot}
      (hp : h.phase = .copied m n temporary)
      (hsnap : h.snapshots (manifestDigest m) = some snap)
      (hverify : verifySnapshot (manifestDigest m) (lit "source") (some snap.source)
        (manifestDigest m) = .ok m') :
      FreezeMove env cap h (h.setPhase (.published m n))
  | publish {m : Manifest} {n : ℕ} {temporary : Snapshot}
      (hp : h.phase = .copied m n temporary)
      (hsnap : h.snapshots (manifestDigest m) = none) :
      FreezeMove env cap h
        ((h.addSnapshot (manifestDigest m) temporary).setPhase (.published m n))
  | createMarker {m : Manifest} {n : ℕ} (hp : h.phase = .published m n) :
      FreezeMove env cap h ((h.setSubmitted []).setPhase (.marking m n))
  | writeMarker {m : Manifest} {n : ℕ} (hp : h.phase = .marking m n) :
      FreezeMove env cap h ((h.setSubmitted (manifestDigest m)).setPhase
        (.persisting (manifestDigest m) m (some n)))
  | skipPersist {digest : Str} {m : Manifest} {n : Option ℕ}
      (hp : h.phase = .persisting digest m n) :
      FreezeMove env cap h (h.setPhase (.persisted digest m n))
  | beginUpload {digest : Str} {m : Manifest} {n : Option ℕ}
      (hp : h.phase = .persisting digest m n) :
      FreezeMove env cap h (h.setPhase (.uploading digest m (sortedManifest m) n))
  | upload {digest : Str} {m rows : Manifest} {item : ManifestRow} {n : Option ℕ}
      {store : ObjectStore} (hp : h.phase = .uploading digest m (item :: rows) n)
      (hstore : uploadRow h.store h.disk.sessionId digest
        (((h.snapshots digest).map fun snap => snap.source).getD .nil) item =
          .ok store) :
      FreezeMove env cap h ((h.setStore store).setPhase (.uploading digest m rows n))
  | commit {digest : Str} {m : Manifest} {n : Option ℕ} {store : ObjectStore}
      (hp : h.phase = .uploading digest m [] n)
      (hstore : putManifest h.store h.disk.sessionId digest (sortedManifest m) =
        .ok store) :
      FreezeMove env cap h ((h.setStore store).setPhase (.persisted digest m n))
  | answer {digest : Str} {m : Manifest} (hp : h.phase = .persisted digest m none) :
      FreezeMove env cap h (h.finish digest m)
  | record {digest : Str} {m : Manifest} {n bytes files : ℕ}
      (hp : h.phase = .persisted digest m (some n)) :
      FreezeMove env cap h
        ((h.setLedger (h.disk.ledger.write digest bytes files n)).finish digest m)

theorem freezeStep_move (env : FreezeEnv) (cap : Capacity) (h : FreezeHost) :
    FreezeMove env cap h (freezeStep env cap h) := by
  have hraise (hp : h.phase.inProgress = true) (hmarking : h.phase.isMarking = false)
      (e : PyErr) : FreezeMove env cap h (h.raise e) := .raise hp hmarking e
  unfold freezeStep
  cases hp : h.phase with
  | idle | finished _ => exact .rest (by rw [hp]; rfl)
  | begun =>
      rw [hp] at hraise
      dsimp only
      cases hmarker : h.disk.submitted with
      | some text =>
          dsimp only
          split
          · exact hraise rfl rfl _
          · rename_i m hverify
            exact .retry hp hmarker hverify
      | none =>
          dsimp only
          split
          · exact hraise rfl rfl _
          · rename_i m hm
            split_ifs with hne
            · exact hraise rfl rfl _
            · exact .measure hp hmarker hm hne
  | measured m =>
      rw [hp] at hraise
      dsimp only
      split
      · exact hraise rfl rfl _
      · rename_i l hl
        exact .reserve hp hl
  | reserved m n =>
      rw [hp] at hraise
      dsimp only
      split
      · exact hraise rfl rfl _
      · rename_i copied source hinto
        split_ifs with hne
        · exact hraise rfl rfl _
        · obtain rfl := not_not.mp hne
          exact .copy hp hinto
  | copied m n temporary =>
      rw [hp] at hraise
      dsimp only
      split
      · rename_i snap hsnap
        split
        · exact hraise rfl rfl _
        · rename_i m' hverify
          exact .reuse hp hsnap hverify
      · rename_i hsnap
        exact .publish hp hsnap
  | published m n => exact .createMarker hp
  | marking m n => exact .writeMarker hp
  | persisting digest m n =>
      rw [hp] at hraise
      dsimp only
      split_ifs
      · exact .skipPersist hp
      · exact hraise rfl rfl _
      · exact hraise rfl rfl _
      · split
        · exact hraise rfl rfl _
        · exact .skipPersist hp
        · exact .beginUpload hp
  | uploading digest m rows n =>
      rw [hp] at hraise
      cases rows with
      | nil =>
          dsimp only
          split
          · exact hraise rfl rfl _
          · rename_i store hstore
            exact .commit hp hstore
      | cons item rows =>
          dsimp only
          split
          · exact hraise rfl rfl _
          · rename_i store hstore
            exact .upload hp hstore
  | persisted digest m n =>
      cases n with
      | none => exact .answer hp
      | some n => exact .record hp

end PromptCode
