import PromptCode.ManifestReader
import PromptCode.ObjectStore

/-!
# Durable submissions

`persist_submission` and `fetch_submission` of `workspace_store.py`: the files
of a frozen source tree go to the object store one by one, the manifest last,
and come back verified against it.
-/

namespace PromptCode

open Py FileTree

/-- How a stored marker reads when `json.dumps` did not write it. -/
abbrev ForeignMarker := Bytes → Except PyErr (Option (Manifest × Str))

/-! ## What is already stored -/

/-- `_verified`. -/
def verifiedObjects (store : ObjectStore) (sessionId sourceDigest : Str) :
    Manifest → Except PyErr Bool
  | [] => .ok true
  | item :: rest =>
      match submissionKey sessionId sourceDigest item.path with
      | .error e => .error e
      | .ok key =>
          match store.get key with
          | .error .objectNotFound => .ok false
          | .error e => .error e
          | .ok data =>
              if data.length ≠ item.size ∨ sha256Hex data ≠ item.sha256 then .ok false
              else verifiedObjects store sessionId sourceDigest rest

/-- `_committed_manifest`. -/
def committedManifest (foreign : ForeignMarker) (store : ObjectStore)
    (sessionId sourceDigest : Str) : Except PyErr (Option Manifest) :=
  match manifestKey sessionId sourceDigest with
  | .error e => .error e
  | .ok key =>
      match store.get key with
      | .error .objectNotFound => .ok none
      | .error e => .error e
      | .ok raw =>
          match readMarker foreign raw with
          | .error e => .error e
          | .ok none => .ok none
          | .ok (some (rows, digest)) =>
              if digest = sourceDigest then .ok (some rows) else .ok none

/-- The submission is committed and every stored object still verifies. -/
def alreadyPersisted (foreign : ForeignMarker) (store : ObjectStore)
    (sessionId sourceDigest : Str) (rows : Manifest) : Except PyErr Bool :=
  match committedManifest foreign store sessionId sourceDigest with
  | .error e => .error e
  | .ok none => .ok false
  | .ok (some _) => verifiedObjects store sessionId sourceDigest rows

/-! ## Persisting -/

/-- `(source / rel).read_bytes()`. -/
def readBytes (source : Tree) (rel : Str) : Except PyErr Bytes :=
  match source.get (relParts rel) with
  | some (.file data) => .ok data
  | some _ => .error .os
  | none => .error .fileNotFound

/-- The upload of one row. -/
def uploadRow (store : ObjectStore) (sessionId sourceDigest : Str)
    (source : Tree) (item : ManifestRow) : Except PyErr ObjectStore :=
  match normalizeRelPath item.path with
  | .error e => .error e
  | .ok rel =>
      match readBytes source rel with
      | .error e => .error e
      | .ok data =>
          if data.length ≠ item.size ∨ sha256Hex data ≠ item.sha256 then
            .error (.value "Submission changed while persisting")
          else
            match submissionKey sessionId sourceDigest rel with
            | .error e => .error e
            | .ok key =>
                match store.get key with
                | .error .objectNotFound => store.put key data
                | .error e => .error e
                | .ok stored =>
                    if stored = data then .ok store else store.put key data

/-- The upload loop.  The store keeps what was uploaded before an error. -/
def uploadRows (store : ObjectStore) (sessionId sourceDigest : Str)
    (source : Tree) : Manifest → Except PyErr Unit × ObjectStore
  | [] => (.ok (), store)
  | item :: rest =>
      match uploadRow store sessionId sourceDigest source item with
      | .error e => (.error e, store)
      | .ok store' => uploadRows store' sessionId sourceDigest source rest

/-- The manifest object, written last. -/
def putManifest (store : ObjectStore) (sessionId sourceDigest : Str)
    (rows : Manifest) : Except PyErr ObjectStore :=
  match manifestKey sessionId sourceDigest with
  | .error e => .error e
  | .ok key => store.put key (manifestJson rows)

/-- `persist_submission`. -/
def persistSubmission (foreign : ForeignMarker) (store : ObjectStore)
    (sessionId sourceDigest : Str) (m : Manifest) (source : Tree) :
    Except PyErr Str × ObjectStore :=
  if m = [] then (.error (.value "Submission manifest is empty"), store)
  else
    let rows := sortedManifest m
    if manifestDigest rows ≠ sourceDigest then
      (.error (.value "Submission digest does not match its manifest"), store)
    else
      match alreadyPersisted foreign store sessionId sourceDigest rows with
      | .error e => (.error e, store)
      | .ok true => (submissionPrefix sessionId sourceDigest, store)
      | .ok false =>
          match uploadRows store sessionId sourceDigest source rows with
          | (.error e, store') => (.error e, store')
          | (.ok (), store') =>
              match putManifest store' sessionId sourceDigest rows with
              | .error e => (.error e, store')
              | .ok store'' => (submissionPrefix sessionId sourceDigest, store'')

/-! ## Fetching -/

/-- The download of one row. -/
def fetchRow (store : ObjectStore) (sessionId sourceDigest : Str)
    (item : ManifestRow) : Except PyErr (Str × Bytes) :=
  match normalizeRelPath item.path with
  | .error e => .error e
  | .ok rel =>
      match submissionKey sessionId sourceDigest rel with
      | .error e => .error e
      | .ok key =>
          match store.get key with
          | .error .objectNotFound =>
              .error (.value "Submitted source integrity check failed")
          | .error e => .error e
          | .ok data =>
              if data.length ≠ item.size ∨ sha256Hex data ≠ item.sha256 then
                .error (.value "Submitted source integrity check failed")
              else .ok (rel, data)

/-- `_contained`, with no link below the root. -/
def containedObject (rel : Str) : Except PyErr (List Str) :=
  match normalizeRelPath rel with
  | .error e => .error e
  | .ok rel =>
      if isBlockedPath rel then .error (.value "Invalid object path")
      else .ok (relParts rel)

/-- The files written below a fresh directory. -/
def writeContents : Tree → List (Str × Bytes) → Except PyErr Tree
  | t, [] => .ok t
  | t, (rel, data) :: rest =>
      match containedObject rel with
      | .error e => .error e
      | .ok path =>
          match t.write path data with
          | none => .error .os
          | some t' => writeContents t' rest

/-- `fetch_submission` into an empty directory: the tree at
`<digest>/source`. -/
def fetchSubmission (foreign : ForeignMarker) (store : ObjectStore)
    (sessionId sourceDigest : Str) (m : Manifest) : Except PyErr Tree :=
  let rows := if m ≠ [] then .ok (some (sortedManifest m))
    else committedManifest foreign store sessionId sourceDigest
  match rows with
  | .error e => .error e
  | .ok none => .error (.value "Submission is not committed")
  | .ok (some rows) =>
      if manifestDigest rows ≠ sourceDigest then
        .error (.value "Submitted source integrity check failed")
      else
        match rows.mapM (fetchRow store sessionId sourceDigest) with
        | .error e => .error e
        | .ok contents =>
            match writeContents .nil contents with
            | .error e => .error e
            | .ok source =>
                match verifySnapshot sourceDigest (lit "source") (some source)
                    sourceDigest with
                | .error e => .error e
                | .ok _ => .ok source

end PromptCode
