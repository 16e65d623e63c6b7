import PromptCode.DurableSubmission
import PromptCode.Transition

/-!
# Uploads and downloads of one submission

`persist_submission` and `fetch_submission` cut at every call of the object store.  Any
number of them run on one store; a put is atomic, and an upload may stop before any of its
calls.
-/

namespace PromptCode

open Py FileTree Transition

/-- A session and a digest that name a submission; for others every call raises. -/
structure SubmissionId where
  session : Str
  digest : Str
  pre : Str
  pre_eq : submissionPrefix session digest = .ok pre

/-- The bytes are those that the row describes. -/
def ManifestRow.Verifies (r : ManifestRow) (data : Bytes) : Prop :=
  data.length = r.size ∧ sha256Hex data = r.sha256

/-! ## The calls -/

/-- The upload of one row up to its put; nothing when the object is there already. -/
def rowPut (store : ObjectStore) (sessionId sourceDigest : Str) (source : Tree)
    (item : ManifestRow) : Except PyErr (Option (Str × Bytes)) :=
  match normalizeRelPath item.path with
  | .error e => .error e
  | .ok rel =>
      match readBytes source rel with
      | .error e => .error e
      | .ok data =>
          if data.length ≠ item.size ∨ sha256Hex data ≠ item.sha256 then
            .error (.value "Submission changed while persisting")
          else
            match submissionKey sessionId sourceDigest rel with
            | .error e => .error e
            | .ok key =>
                match store.get key with
                | .error .objectNotFound => .ok (some (key, data))
                | .error e => .error e
                | .ok stored => if stored = data then .ok none else .ok (some (key, data))

theorem uploadRow_eq (store : ObjectStore) (sessionId sourceDigest : Str) (source : Tree)
    (item : ManifestRow) : uploadRow store sessionId sourceDigest source item =
      match rowPut store sessionId sourceDigest source item with
      | .error e => .error e
      | .ok none => .ok store
      | .ok (some (key, data)) => store.put key data := by
  rw [uploadRow, rowPut]
  rcases normalizeRelPath item.path with e | rel
  · rfl
  dsimp only
  rcases readBytes source rel with e | data
  · rfl
  dsimp only
  split_ifs
  · rfl
  rcases submissionKey sessionId sourceDigest rel with e | key
  · rfl
  dsimp only
  rcases store.get key with e | stored
  · rcases e <;> rfl
  · dsimp only
    split_ifs <;> rfl

/-- How far an upload has come. -/
inductive PersistPhase where
  | begun
  | verifying (rest : Manifest)
  | uploading (rest : Manifest)
  | putting (key : Str) (data : Bytes) (rest : Manifest)
  | ended

/-- A run of `persist_submission` with its sorted rows. -/
structure PersistRun where
  rows : Manifest
  source : Tree
  phase : PersistPhase

inductive FetchPhase where
  | begun
  | reading (rest : Manifest) (contents : List (Str × Bytes))
  | ended (result : Except PyErr Tree)

/-- A run of `fetch_submission`; without a manifest it reads the marker. -/
structure FetchRun where
  manifest : Manifest
  phase : FetchPhase

structure CommitState where
  store : ObjectStore
  uploads : ℕ → Option PersistRun
  readers : ℕ → Option FetchRun

inductive CommitAction where
  | persist (t : ℕ) (m : Manifest) (source : Tree)
  | advance (t : ℕ)
  /-- A crash or an exception stops the upload. -/
  | stop (t : ℕ)
  | fetch (u : ℕ) (m : Manifest)
  | read (u : ℕ)

/-- The next call of an upload. -/
def persistStep (foreign : ForeignMarker) (id : SubmissionId) (store : ObjectStore)
    (r : PersistRun) : ObjectStore × PersistPhase :=
  match r.phase with
  | .begun =>
      match committedManifest foreign store id.session id.digest with
      | .error _ => (store, .ended)
      | .ok none => (store, .uploading r.rows)
      | .ok (some _) => (store, .verifying r.rows)
  | .verifying [] => (store, .ended)
  | .verifying (item :: rest) =>
      match verifiedObjects store id.session id.digest [item] with
      | .error _ => (store, .ended)
      | .ok false => (store, .uploading r.rows)
      | .ok true => (store, .verifying rest)
  | .uploading [] =>
      match putManifest store id.session id.digest r.rows with
      | .error _ => (store, .ended)
      | .ok store' => (store', .ended)
  | .uploading (item :: rest) =>
      match rowPut store id.session id.digest r.source item with
      | .error _ => (store, .ended)
      | .ok none => (store, .uploading rest)
      | .ok (some (key, data)) => (store, .putting key data rest)
  | .putting key data rest =>
      match store.put key data with
      | .error _ => (store, .ended)
      | .ok store' => (store', .uploading rest)
  | .ended => (store, .ended)

/-- What `fetch_submission` does with the downloaded files. -/
def materialize (id : SubmissionId) (contents : List (Str × Bytes)) : Except PyErr Tree :=
  match writeContents .nil contents with
  | .error e => .error e
  | .ok source =>
      match verifySnapshot id.digest (lit "source") (some source) id.digest with
      | .error e => .error e
      | .ok _ => .ok source

/-- The next call of a download. -/
def fetchStep (foreign : ForeignMarker) (id : SubmissionId) (store : ObjectStore)
    (r : FetchRun) : FetchPhase :=
  match r.phase with
  | .begun =>
      let rows := if r.manifest ≠ [] then .ok (some (sortedManifest r.manifest))
        else committedManifest foreign store id.session id.digest
      match rows with
      | .error e => .ended (.error e)
      | .ok none => .ended (.error (.value "Submission is not committed"))
      | .ok (some rows) =>
          if manifestDigest rows ≠ id.digest then
            .ended (.error (.value "Submitted source integrity check failed"))
          else .reading rows []
  | .reading [] contents => .ended (materialize id contents)
  | .reading (item :: rest) contents =>
      match fetchRow store id.session id.digest item with
      | .error e => .ended (.error e)
      | .ok c => .reading rest (contents ++ [c])
  | .ended result => .ended result

namespace CommitState

variable (st : CommitState)

def setUpload (t : ℕ) (r : PersistRun) : CommitState :=
  { st with uploads := Function.update st.uploads t (some r) }

def setReader (u : ℕ) (r : FetchRun) : CommitState :=
  { st with readers := Function.update st.readers u (some r) }

end CommitState

/-- The rows of a submission are not named like the marker. -/
def NamesFiles (m : Manifest) : Prop := ∀ r ∈ m, replaceBackslash r.path ≠ manifestName

instance : DecidablePred NamesFiles := fun m =>
  inferInstanceAs (Decidable (∀ r ∈ m, replaceBackslash r.path ≠ manifestName))

/-- One action; an upload whose manifest is empty or has another digest raises at once. -/
def commitAct (foreign : ForeignMarker) (id : SubmissionId) (st : CommitState) :
    CommitAction → CommitState
  | .persist t m source =>
      if (st.uploads t).isNone ∧ m ≠ [] ∧ NamesFiles m ∧
          manifestDigest (sortedManifest m) = id.digest then
        st.setUpload t ⟨sortedManifest m, source, .begun⟩
      else st
  | .advance t =>
      match st.uploads t with
      | none => st
      | some r =>
          let (store, phase) := persistStep foreign id st.store r
          { st with store := store }.setUpload t { r with phase := phase }
  | .stop t =>
      match st.uploads t with
      | none => st
      | some r => st.setUpload t { r with phase := .ended }
  | .fetch u m => if (st.readers u).isNone then st.setReader u ⟨m, .begun⟩ else st
  | .read u =>
      match st.readers u with
      | none => st
      | some r => st.setReader u { r with phase := fetchStep foreign id st.store r }

/-! ## Runs of one call -/

section

variable {foreign : ForeignMarker} {id : SubmissionId} {st : CommitState} {u t : ℕ}

theorem CommitState.setReader_self (r : FetchRun) :
    (st.setReader u r).readers u = some r := Function.update_self ..

theorem commitAct_read {r : FetchRun} (h : st.readers u = some r) :
    commitAct foreign id st (.read u) =
      st.setReader u { r with phase := fetchStep foreign id st.store r } := by
  rw [commitAct, h]

theorem run_read_ended (n : ℕ) {m : Manifest} {result : Except PyErr Tree}
    (h : st.readers u = some ⟨m, .ended result⟩) :
    (run (commitAct foreign id) st (List.replicate n (.read u))).readers u =
      some ⟨m, .ended result⟩ := by
  induction n generalizing st with
  | zero => exact h
  | succ n ih =>
      rw [List.replicate_succ, run_cons, commitAct_read h]
      exact ih (CommitState.setReader_self _)

theorem run_read_rows {m rest : Manifest} {contents : List (Str × Bytes)}
    (h : st.readers u = some ⟨m, .reading rest contents⟩) :
    (run (commitAct foreign id) st (List.replicate (rest.length + 1) (.read u))).readers u =
      some ⟨m, .ended (match rest.mapM (fetchRow st.store id.session id.digest) with
        | .error e => .error e
        | .ok more => materialize id (contents ++ more))⟩ := by
  induction rest generalizing st contents with
  | nil =>
      rw [List.length_nil, List.replicate_one, run_cons, run_nil, commitAct_read h,
        CommitState.setReader_self, fetchStep]
      change _ = some (FetchRun.mk m (.ended (materialize id (contents ++ []))))
      rw [List.append_nil]
  | cons r rest ih =>
      rw [List.length_cons, List.replicate_succ, run_cons, commitAct_read h, fetchStep]
      dsimp only
      rcases hrow : fetchRow st.store id.session id.digest r with e | c
      · dsimp only
        rw [run_read_ended _ (CommitState.setReader_self _), List.mapM_cons, hrow]
        rfl
      · dsimp only
        rw [ih (CommitState.setReader_self _), List.mapM_cons, hrow]
        change some (FetchRun.mk m (.ended
          (match rest.mapM (fetchRow st.store id.session id.digest) with
            | .error e => .error e
            | .ok more => materialize id (contents ++ [c] ++ more)))) = _
        rcases rest.mapM (fetchRow st.store id.session id.digest) with e | more
        · rfl
        · change some (FetchRun.mk m (.ended (materialize id (contents ++ [c] ++ more)))) =
            some (FetchRun.mk m (.ended (materialize id (contents ++ c :: more))))
          rw [List.append_assoc]
          rfl

/-- A download that nothing comes between is `fetch_submission`. -/
theorem run_fetch_eq_fetchSubmission (h : st.readers u = none) (m : Manifest) :
    ∃ n, (run (commitAct foreign id) st (.fetch u m :: List.replicate n (.read u))).readers u =
      some ⟨m, .ended (fetchSubmission foreign st.store id.session id.digest m)⟩ := by
  have hbegun : commitAct foreign id st (.fetch u m) = st.setReader u ⟨m, .begun⟩ := by
    rw [commitAct, h]
    rfl
  have hread : commitAct foreign id (st.setReader u ⟨m, .begun⟩) (.read u) =
      (st.setReader u ⟨m, .begun⟩).setReader u
        ⟨m, fetchStep foreign id st.store ⟨m, .begun⟩⟩ :=
    commitAct_read (CommitState.setReader_self _)
  have hone : ∀ result, fetchStep foreign id st.store ⟨m, .begun⟩ = .ended result →
      ∃ n, (run (commitAct foreign id) st
        (.fetch u m :: List.replicate n (.read u))).readers u = some ⟨m, .ended result⟩ := by
    intro result hstep
    refine ⟨1, ?_⟩
    rw [run_cons, hbegun, List.replicate_one, run_cons, run_nil, hread,
      CommitState.setReader_self]
    exact congrArg (fun phase => some (FetchRun.mk m phase)) hstep
  rcases hrows : (if m ≠ [] then .ok (some (sortedManifest m))
    else committedManifest foreign st.store id.session id.digest) with e | _ | rows
  · have hresult : fetchSubmission foreign st.store id.session id.digest m = .error e := by
      rw [fetchSubmission]
      simp only [hrows]
    rw [hresult]
    exact hone _ (by rw [fetchStep]; simp only [hrows])
  · have hresult : fetchSubmission foreign st.store id.session id.digest m =
        .error (.value "Submission is not committed") := by
      rw [fetchSubmission]
      simp only [hrows]
    rw [hresult]
    exact hone _ (by rw [fetchStep]; simp only [hrows])
  by_cases hdigest : manifestDigest rows ≠ id.digest
  · have hresult : fetchSubmission foreign st.store id.session id.digest m =
        .error (.value "Submitted source integrity check failed") := by
      rw [fetchSubmission]
      simp only [hrows, if_pos hdigest]
    rw [hresult]
    exact hone _ (by rw [fetchStep]; simp only [hrows, if_pos hdigest])
  · have hstep : fetchStep foreign id st.store ⟨m, .begun⟩ = .reading rows [] := by
      rw [fetchStep]
      simp only [hrows, if_neg hdigest]
    have hresult : fetchSubmission foreign st.store id.session id.digest m =
        match rows.mapM (fetchRow st.store id.session id.digest) with
        | .error e => .error e
        | .ok more => materialize id more := by
      rw [fetchSubmission]
      simp only [hrows, if_neg hdigest]
      rfl
    refine ⟨rows.length + 1 + 1, ?_⟩
    rw [run_cons, hbegun, List.replicate_succ, run_cons, hread, hresult, hstep,
      run_read_rows (CommitState.setReader_self _)]
    rfl

theorem CommitState.setReader_of_ne {r : FetchRun} {v : ℕ} (h : v ≠ u) :
    (st.setReader u r).readers v = st.readers v := Function.update_of_ne h ..

/-- Some steps of the upload lead from one state to another. -/
def Uploads (foreign : ForeignMarker) (id : SubmissionId) (t : ℕ) (st st' : CommitState) :
    Prop :=
  ∃ n, run (commitAct foreign id) st (List.replicate n (.advance t)) = st'

theorem Uploads.trans {st' st'' : CommitState} (h : Uploads foreign id t st st')
    (h' : Uploads foreign id t st' st'') : Uploads foreign id t st st'' := by
  obtain ⟨n, rfl⟩ := h
  obtain ⟨n', rfl⟩ := h'
  exact ⟨n + n', by rw [List.replicate_add, run_append]⟩

/-- One step of an upload in a known phase. -/
theorem uploads_step {rows : Manifest} {source : Tree} {phase phase' : PersistPhase}
    {store' : ObjectStore} (h : st.uploads t = some ⟨rows, source, phase⟩)
    (hstep : persistStep foreign id st.store ⟨rows, source, phase⟩ = (store', phase')) :
    Uploads foreign id t st
      ({ st with store := store' }.setUpload t ⟨rows, source, phase'⟩) := by
  refine ⟨1, ?_⟩
  rw [List.replicate_one, run_cons, run_nil, commitAct, h]
  dsimp only
  rw [hstep]

theorem CommitState.setUpload_self (r : PersistRun) :
    (st.setUpload t r).uploads t = some r := Function.update_self ..

theorem CommitState.setUpload_of_ne {r : PersistRun} {t' : ℕ} (h : t' ≠ t) :
    (st.setUpload t r).uploads t' = st.uploads t' := Function.update_of_ne h ..

/-- The upload has come to a phase, with this in the store. -/
def UploadAt (foreign : ForeignMarker) (id : SubmissionId) (t : ℕ) (st : CommitState)
    (store : ObjectStore) (r : PersistRun) : Prop :=
  ∃ st', Uploads foreign id t st st' ∧ st'.store = store ∧ st'.uploads t = some r

theorem uploadAt_step {rows : Manifest} {source : Tree} {phase phase' : PersistPhase}
    {store' : ObjectStore} (h : st.uploads t = some ⟨rows, source, phase⟩)
    (hstep : persistStep foreign id st.store ⟨rows, source, phase⟩ = (store', phase')) :
    UploadAt foreign id t st store' ⟨rows, source, phase'⟩ :=
  ⟨_, uploads_step h hstep, rfl, CommitState.setUpload_self _⟩

theorem UploadAt.trans {store : ObjectStore} {r : PersistRun}
    (h : UploadAt foreign id t st store r) {store' : ObjectStore} {r' : PersistRun}
    (h' : ∀ st : CommitState, st.store = store → st.uploads t = some r →
      UploadAt foreign id t st store' r') : UploadAt foreign id t st store' r' := by
  obtain ⟨st₁, hsteps, hstore, hphase⟩ := h
  obtain ⟨st₂, hmore, hend⟩ := h' st₁ hstore hphase
  exact ⟨st₂, hsteps.trans hmore, hend⟩

theorem uploadAt_verify (foreign : ForeignMarker) (id : SubmissionId)
    {rows rest : Manifest} {source : Tree}
    (h : st.uploads t = some ⟨rows, source, .verifying rest⟩) :
    UploadAt foreign id t st st.store ⟨rows, source,
      match verifiedObjects st.store id.session id.digest rest with
      | .ok false => .uploading rows
      | _ => .ended⟩ := by
  induction rest generalizing st with
  | nil => exact uploadAt_step h rfl
  | cons r rest ih =>
      have hsplit : verifiedObjects st.store id.session id.digest (r :: rest) =
          match verifiedObjects st.store id.session id.digest [r] with
          | .error e => .error e
          | .ok false => .ok false
          | .ok true => verifiedObjects st.store id.session id.digest rest := by
        simp only [verifiedObjects]
        rcases submissionKey id.session id.digest r.path with e | key
        · rfl
        dsimp only
        rcases st.store.get key with e | data
        · rcases e <;> rfl
        · dsimp only
          split_ifs <;> rfl
      have hstep : persistStep foreign id st.store ⟨rows, source, .verifying (r :: rest)⟩ =
          match verifiedObjects st.store id.session id.digest [r] with
          | .error _ => (st.store, .ended)
          | .ok false => (st.store, .uploading rows)
          | .ok true => (st.store, .verifying rest) := rfl
      rw [hsplit]
      rcases hrow : verifiedObjects st.store id.session id.digest [r] with e | _ | _
      · rw [hrow] at hstep
        exact uploadAt_step h hstep
      · rw [hrow] at hstep
        exact uploadAt_step h hstep
      · rw [hrow] at hstep
        refine (uploadAt_step h hstep).trans fun st' hstore hphase => ?_
        have hrest := ih hphase
        rw [hstore] at hrest
        exact hrest

/-- The rest of the upload loop and the marker. -/
def uploadRest (id : SubmissionId) (store : ObjectStore) (rows : Manifest) (source : Tree)
    (rest : Manifest) : ObjectStore :=
  match uploadRows store id.session id.digest source rest with
  | (.error _, store') => store'
  | (.ok (), store') =>
      match putManifest store' id.session id.digest rows with
      | .error _ => store'
      | .ok store'' => store''

/-- What `persist_submission` leaves in the store. -/
theorem persistSubmission_snd {store : ObjectStore} {m : Manifest} {source : Tree}
    (hm : m ≠ []) (hdigest : manifestDigest (sortedManifest m) = id.digest) :
    (persistSubmission foreign store id.session id.digest m source).2 =
      match alreadyPersisted foreign store id.session id.digest (sortedManifest m) with
      | .ok false => uploadRest id store (sortedManifest m) source (sortedManifest m)
      | _ => store := by
  rw [persistSubmission, if_neg hm]
  dsimp only
  rw [if_neg (not_not.mpr hdigest)]
  rcases alreadyPersisted foreign store id.session id.digest (sortedManifest m) with
    e | _ | _
  · rfl
  · rw [uploadRest]
    dsimp only
    rcases uploadRows store id.session id.digest source (sortedManifest m) with
      ⟨e | u, store'⟩
    · rfl
    · dsimp only
      rcases putManifest store' id.session id.digest (sortedManifest m) with e | store'' <;>
        rfl
  · rfl

theorem uploadAt_rows (foreign : ForeignMarker) (id : SubmissionId)
    {rows rest : Manifest} {source : Tree}
    (h : st.uploads t = some ⟨rows, source, .uploading rest⟩) :
    UploadAt foreign id t st (uploadRest id st.store rows source rest)
      ⟨rows, source, .ended⟩ := by
  induction rest generalizing st with
  | nil =>
      have hstep : persistStep foreign id st.store ⟨rows, source, .uploading []⟩ =
          match putManifest st.store id.session id.digest rows with
          | .error _ => (st.store, .ended)
          | .ok store' => (store', .ended) := rfl
      rw [uploadRest, uploadRows]
      dsimp only
      rcases hput : putManifest st.store id.session id.digest rows with e | store'
      · rw [hput] at hstep
        exact uploadAt_step h hstep
      · rw [hput] at hstep
        exact uploadAt_step h hstep
  | cons r rest ih =>
      have hstep : persistStep foreign id st.store ⟨rows, source, .uploading (r :: rest)⟩ =
          match rowPut st.store id.session id.digest source r with
          | .error _ => (st.store, .ended)
          | .ok none => (st.store, .uploading rest)
          | .ok (some (key, data)) => (st.store, .putting key data rest) := rfl
      rw [uploadRest, uploadRows, uploadRow_eq]
      rcases hrow : rowPut st.store id.session id.digest source r with e | _ | ⟨key, data⟩
      · rw [hrow] at hstep
        exact uploadAt_step h hstep
      · rw [hrow] at hstep
        refine (uploadAt_step h hstep).trans fun st' hstore hphase => ?_
        have hrest := ih hphase
        rw [hstore] at hrest
        exact hrest
      · rw [hrow] at hstep
        refine (uploadAt_step h hstep).trans fun st' hstore hphase => ?_
        have hput : persistStep foreign id st'.store
            ⟨rows, source, .putting key data rest⟩ =
            match st'.store.put key data with
            | .error _ => (st'.store, .ended)
            | .ok store' => (store', .uploading rest) := rfl
        rw [hstore] at hput
        dsimp only
        rcases hstored : st.store.put key data with e | store'
        · rw [hstored, ← hstore] at hput
          exact hstore ▸ uploadAt_step hphase hput
        · rw [hstored, ← hstore] at hput
          refine (uploadAt_step hphase hput).trans fun st'' hstore' hphase' => ?_
          have hrest := ih hphase'
          rw [hstore'] at hrest
          exact hrest

/-- An upload that nothing comes between leaves what `persist_submission` leaves. -/
theorem run_persist_eq_persistSubmission (h : st.uploads t = none) {m : Manifest}
    (hnames : NamesFiles m) (source : Tree) :
    ∃ n, (run (commitAct foreign id) st
        (.persist t m source :: List.replicate n (.advance t))).store =
      (persistSubmission foreign st.store id.session id.digest m source).2 := by
  by_cases hm : m = []
  · refine ⟨0, ?_⟩
    rw [List.replicate_zero, run_cons, run_nil, commitAct, if_neg (by simp [hm]),
      persistSubmission, if_pos hm]
  by_cases hdigest : manifestDigest (sortedManifest m) = id.digest
  · have hbegun : commitAct foreign id st (.persist t m source) =
        st.setUpload t ⟨sortedManifest m, source, .begun⟩ := by
      rw [commitAct, if_pos ⟨by rw [h]; rfl, hm, hnames, hdigest⟩]
    have hend : UploadAt foreign id t (st.setUpload t ⟨sortedManifest m, source, .begun⟩)
        (persistSubmission foreign st.store id.session id.digest m source).2
        ⟨sortedManifest m, source, .ended⟩ := by
      have hstep : persistStep foreign id st.store ⟨sortedManifest m, source, .begun⟩ =
          match committedManifest foreign st.store id.session id.digest with
          | .error _ => (st.store, .ended)
          | .ok none => (st.store, .uploading (sortedManifest m))
          | .ok (some _) => (st.store, .verifying (sortedManifest m)) := rfl
      have hupload : ∀ st' : CommitState, st'.store = st.store → st'.uploads t =
          some ⟨sortedManifest m, source, .uploading (sortedManifest m)⟩ →
          UploadAt foreign id t st' (uploadRest id st.store (sortedManifest m) source
            (sortedManifest m)) ⟨sortedManifest m, source, .ended⟩ := by
        intro st' hstore hphase
        have hrest := uploadAt_rows foreign id hphase
        rw [hstore] at hrest
        exact hrest
      have hself : (st.setUpload t ⟨sortedManifest m, source, .begun⟩).uploads t =
          some ⟨sortedManifest m, source, .begun⟩ := CommitState.setUpload_self _
      rw [persistSubmission_snd hm hdigest, alreadyPersisted]
      rcases hcommitted : committedManifest foreign st.store id.session id.digest with
        e | _ | rows
      · rw [hcommitted] at hstep
        exact uploadAt_step hself hstep
      · rw [hcommitted] at hstep
        exact (uploadAt_step hself hstep).trans hupload
      · rw [hcommitted] at hstep
        refine (uploadAt_step hself hstep).trans fun st' hstore hphase => ?_
        have hverify := uploadAt_verify foreign id hphase
        rw [hstore] at hverify
        dsimp only
        rcases hverified : verifiedObjects st.store id.session id.digest (sortedManifest m)
          with e | _ | _
        · rw [hverified] at hverify
          exact hverify
        · rw [hverified] at hverify
          exact hverify.trans hupload
        · rw [hverified] at hverify
          exact hverify
    obtain ⟨st', ⟨n, hn⟩, hstore, -⟩ := hend
    exact ⟨n, by rw [run_cons, hbegun, hn, hstore]⟩
  · refine ⟨0, ?_⟩
    rw [List.replicate_zero, run_cons, run_nil, commitAct, if_neg (by simp [hdigest]),
      persistSubmission, if_neg hm]
    dsimp only
    rw [if_pos hdigest]

end

end PromptCode
