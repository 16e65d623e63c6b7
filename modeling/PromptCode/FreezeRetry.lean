import PromptCode.FreezeImmutable
import PromptCode.Submittable

/-!
# Freezing again

`freeze_submission` without an interruption, as one computation, and the steps of the machine
against it.  After any run of stopped attempts the next one ends, and it succeeds unless a stop
between the creation of the marker and its writing has left an empty one.
-/

namespace PromptCode

open Py FileTree Transition

/-! ## One attempt -/

/-- `_persist_managed_submission` -/
def persistManaged (env : FreezeEnv) (store : ObjectStore) (sessionId digest : Str)
    (m : Manifest) (source : Tree) : Except PyErr Unit :=
  if !env.durable then .ok ()
  else
    match (persistSubmission env.foreign store sessionId digest m source).1 with
    | .error e => .error (persistError e)
    | .ok _ => .ok ()

namespace FreezeHost

variable (env : FreezeEnv) (cap : Capacity) (h : FreezeHost)

/-- `destination_root / digest / "source"` -/
def sourceAt (digest : Str) : Tree := ((h.snapshots digest).map Snapshot.source).getD .nil

/-- The end of both paths: the snapshot is persisted and returned. -/
def settle (digest : Str) (m : Manifest) : Except PyErr FrozenSnapshot := do
  persistManaged env h.store h.disk.sessionId digest m (h.sourceAt digest)
  frozen h.disk.sessionId digest m

/-- The snapshot that is there is verified, otherwise the copy is moved to its place. -/
def publish (m : Manifest) (temporary : Snapshot) : Except PyErr FrozenSnapshot :=
  match h.snapshots (manifestDigest m) with
  | some snap => do
      let _ ← verifySnapshot (manifestDigest m) (lit "source") (some snap.source)
        (manifestDigest m)
      h.settle env (manifestDigest m) m
  | none => (h.addSnapshot (manifestDigest m) temporary).settle env (manifestDigest m) m

/-- `freeze_submission` -/
def freezeSubmission : Except PyErr FrozenSnapshot :=
  match h.disk.submitted with
  | some text => do
      let m ← verifySnapshot (strip text) (lit "source")
        ((h.snapshots (strip text)).map Snapshot.source) (strip text)
      h.settle env (strip text) m
  | none => do
      let m ← manifest h.disk.workspace
      if m = [] then .error (.value "Submission is empty")
      else
        let _ ← reserveCapacity cap h.disk.ledger (requiredBytes m)
        let (copied, source) ← manifestInto h.disk.workspace
        if copied ≠ m then .error (.value "Submission changed while freezing")
        else h.publish env m ⟨source, manifestJson m⟩

end FreezeHost

/-! ## The machine against it -/

/-- Step after step, the freeze in progress ends with the result. -/
inductive Ends (env : FreezeEnv) (cap : Capacity) :
    FreezeHost → Except PyErr FrozenSnapshot → Prop where
  | finished {h : FreezeHost} {r : Except PyErr FrozenSnapshot}
      (hp : h.phase = .finished r) : Ends env cap h r
  | step {h : FreezeHost} {r : Except PyErr FrozenSnapshot}
      (hnext : Ends env cap (freezeStep env cap h) r) : Ends env cap h r

section Ends

variable {env : FreezeEnv} {cap : Capacity} {h : FreezeHost} {digest : Str}
  {m rows : Manifest} {n : Option ℕ} {e : PyErr} {r : Except PyErr FrozenSnapshot}

theorem Ends.raise : Ends env cap (h.raise e) (.error e) := .finished rfl

theorem ends_persisted (hp : h.phase = .persisted digest m n) :
    Ends env cap h (frozen h.disk.sessionId digest m) := by
  apply Ends.step
  rw [freezeStep, hp]
  cases n with
  | none => exact .finished rfl
  | some n => exact .finished rfl

/-- The upload loop of the machine is `uploadRows`, and the manifest comes last. -/
theorem ends_uploading (hp : h.phase = .uploading digest m rows n) :
    Ends env cap h
      (match uploadRows h.store h.disk.sessionId digest (h.sourceAt digest) rows with
      | (.error e, _) => .error (persistError e)
      | (.ok (), store) =>
          match putManifest store h.disk.sessionId digest (sortedManifest m) with
          | .error e => .error (persistError e)
          | .ok _ => frozen h.disk.sessionId digest m) := by
  induction rows generalizing h with
  | nil =>
      apply Ends.step
      rw [freezeStep, hp]
      dsimp only [uploadRows]
      cases putManifest h.store h.disk.sessionId digest (sortedManifest m) with
      | error e => exact .raise
      | ok store => exact ends_persisted rfl
  | cons item rows ih =>
      apply Ends.step
      rw [freezeStep, hp]
      dsimp only [uploadRows]
      change Ends env cap (match uploadRow h.store h.disk.sessionId digest (h.sourceAt digest) item
        with
        | .error e => h.raise (persistError e)
        | .ok store => (h.setStore store).setPhase (.uploading digest m rows n)) _
      cases uploadRow h.store h.disk.sessionId digest (h.sourceAt digest) item with
      | error e => exact .raise
      | ok store => exact ih rfl

theorem ends_persisting (hid : IsSessionId h.disk.sessionId) (hd : IsDigest digest)
    (hp : h.phase = .persisting digest m n) : Ends env cap h (h.settle env digest m) := by
  have hpre := submissionPrefix_eq hid hd
  apply Ends.step
  rw [freezeStep, hp, FreezeHost.settle, persistManaged]
  dsimp only
  by_cases hdurable : (!env.durable) = true
  · rw [if_pos hdurable, if_pos hdurable]
    exact ends_persisted rfl
  rw [if_neg hdurable, if_neg hdurable, persistSubmission]
  by_cases hne : m = []
  · rw [if_pos hne, if_pos hne]
    exact .raise
  rw [if_neg hne, if_neg hne]
  dsimp only
  by_cases hdigest : manifestDigest (sortedManifest m) ≠ digest
  · rw [if_pos hdigest, if_pos hdigest]
    exact .raise
  rw [if_neg hdigest, if_neg hdigest]
  rcases alreadyPersisted env.foreign h.store h.disk.sessionId digest (sortedManifest m) with
    error | _ | _
  · exact .raise
  · have hup : Ends env cap (h.setPhase (.uploading digest m (sortedManifest m) n)) _ :=
      ends_uploading rfl
    rw [FreezeHost.sourceAt] at hup ⊢
    dsimp only [FreezeHost.setPhase_disk, FreezeHost.setPhase_snapshots,
      FreezeHost.setPhase_store] at hup ⊢
    rcases hupload : uploadRows h.store h.disk.sessionId digest
      (((h.snapshots digest).map Snapshot.source).getD .nil) (sortedManifest m) with
      ⟨error | _, store⟩ <;> rw [hupload] at hup
    · exact hup
    · dsimp only at hup ⊢
      cases hput : putManifest store h.disk.sessionId digest (sortedManifest m) with
      | error e =>
          rw [hput] at hup
          exact hup
      | ok store' =>
          rw [hput] at hup
          dsimp only
          rw [hpre]
          exact hup
  · dsimp only
    rw [hpre]
    exact ends_persisted rfl

theorem ends_copied (hid : IsSessionId h.disk.sessionId) {k : ℕ} {temporary : Snapshot}
    (hp : h.phase = .copied m k temporary) :
    Ends env cap h (h.publish env m temporary) := by
  have hmark {h : FreezeHost} (hid : IsSessionId h.disk.sessionId)
      (hp : h.phase = .published m k) : Ends env cap h (h.settle env (manifestDigest m) m) := by
    apply Ends.step
    rw [freezeStep, hp]
    apply Ends.step
    exact ends_persisting (h := ((h.setSubmitted []).setPhase (.marking m k)).setSubmitted
      (manifestDigest m) |>.setPhase (.persisting (manifestDigest m) m (some k))) hid
      (isDigest_manifestDigest m) rfl
  apply Ends.step
  rw [freezeStep, hp, FreezeHost.publish]
  dsimp only
  cases h.snapshots (manifestDigest m) with
  | none => exact hmark hid rfl
  | some snap =>
      dsimp only
      cases verifySnapshot (manifestDigest m) (lit "source") (some snap.source)
          (manifestDigest m) with
      | error e => exact .raise
      | ok m' => exact hmark hid rfl

theorem ends_begun (hid : IsSessionId h.disk.sessionId) (hp : h.phase = .begun) :
    Ends env cap h (h.freezeSubmission env cap) := by
  apply Ends.step
  rw [freezeStep, hp, FreezeHost.freezeSubmission]
  cases h.disk.submitted with
  | some text =>
      dsimp only
      cases hverify : verifySnapshot (strip text) (lit "source")
          ((h.snapshots (strip text)).map Snapshot.source) (strip text) with
      | error e => exact .raise
      | ok m =>
          obtain ⟨-, -, -, -, hd⟩ := verifySnapshot_ok hverify
          exact ends_persisting hid (hd ▸ isDigest_manifestDigest m) rfl
  | none =>
      dsimp only
      cases hm : manifest h.disk.workspace with
      | error e => exact .raise
      | ok m =>
          change Ends env cap (if m = [] then _ else _) (if m = [] then _ else _)
          by_cases hne : m = []
          · rw [if_pos hne, if_pos hne]
            exact .raise
          rw [if_neg hne, if_neg hne]
          apply Ends.step
          rw [freezeStep]
          dsimp only [FreezeHost.setPhase_phase, FreezeHost.setPhase_disk]
          cases hl : reserveCapacity cap h.disk.ledger (requiredBytes m) with
          | error e => exact .raise
          | ok l =>
              apply Ends.step
              rw [freezeStep]
              dsimp only [FreezeHost.setPhase_phase, FreezeHost.setPhase_disk,
                FreezeHost.setLedger_workspace]
              cases manifestInto h.disk.workspace with
              | error e => exact .raise
              | ok copy =>
                  obtain ⟨copied, source⟩ := copy
                  change Ends env cap (if copied ≠ m then _ else _) (if copied ≠ m then _ else _)
                  by_cases hchanged : copied ≠ m
                  · rw [if_pos hchanged, if_pos hchanged]
                    exact .raise
                  rw [if_neg hchanged, if_neg hchanged]
                  exact ends_copied (h := FreezeHost.setPhase
                    (((h.setPhase (.measured m)).setLedger l).setPhase
                      (.reserved m (requiredBytes m)))
                    (.copied m (requiredBytes m) ⟨source, manifestJson m⟩)) hid rfl

end Ends

/-! ## What an attempt needs -/

/-- The attempt has what it needs: an unmarked session a nonempty workspace within the quotas and
the capacity, a marked one a marker that is written, and both a store that takes the objects. -/
def Freezable (env : FreezeEnv) (cap : Capacity) (h : FreezeHost) : Prop :=
  match h.disk.submitted with
  | some text => text ≠ [] ∧ ∃ m, h.Holds text m ∧
      persistManaged env h.store h.disk.sessionId text m (h.sourceAt text) = .ok ()
  | none => ∃ m source, manifestInto h.disk.workspace = .ok (m, source) ∧ m ≠ [] ∧
      (∃ l, reserveCapacity cap h.disk.ledger (requiredBytes m) = .ok l) ∧
      persistManaged env h.store h.disk.sessionId (manifestDigest m) m
        (((h.snapshots (manifestDigest m)).map Snapshot.source).getD source) = .ok ()

/-- The bytes that a snapshot is frozen from. -/
def FrozenFrom (h : FreezeHost) (snap : FrozenSnapshot) : Prop :=
  match h.disk.submitted with
  | some text => h.Holds text snap.manifest
  | none => manifest h.disk.workspace = .ok snap.manifest

section

variable {env : FreezeEnv} {cap : Capacity} {h : FreezeHost} {digest : Str} {m : Manifest}
  {snap : FrozenSnapshot}

theorem settle_eq_ok (hid : IsSessionId h.disk.sessionId) (hd : IsDigest digest) :
    h.settle env digest m = .ok snap ↔
      persistManaged env h.store h.disk.sessionId digest m (h.sourceAt digest) = .ok () ∧
        snap = ⟨digest, m, prefixOf h.disk.sessionId digest⟩ := by
  have hfrozen : frozen h.disk.sessionId digest m =
      .ok ⟨digest, m, prefixOf h.disk.sessionId digest⟩ := by
    rw [frozen, submissionPrefix_eq hid hd]
    rfl
  rw [FreezeHost.settle, hfrozen]
  cases persistManaged env h.store h.disk.sessionId digest m (h.sourceAt digest) with
  | error e =>
      refine iff_of_false ?_ ?_
      · intro hok
        cases hok
      · rintro ⟨hok, -⟩
        cases hok
  | ok u =>
      constructor
      · intro hok
        exact ⟨rfl, (Except.ok.inj hok).symm⟩
      · rintro ⟨-, rfl⟩
        rfl

theorem publish_eq_ok (hi : FreezeInv h) (hid : IsSessionId h.disk.sessionId)
    {temporary : Snapshot} : h.publish env m temporary = .ok snap ↔
      persistManaged env h.store h.disk.sessionId (manifestDigest m) m
        (((h.snapshots (manifestDigest m)).map Snapshot.source).getD temporary.source) = .ok () ∧
        snap = ⟨manifestDigest m, m, prefixOf h.disk.sessionId (manifestDigest m)⟩ := by
  rw [FreezeHost.publish]
  cases hsnap : h.snapshots (manifestDigest m) with
  | none =>
      dsimp only
      rw [settle_eq_ok (h := h.addSnapshot (manifestDigest m) temporary) hid
        (isDigest_manifestDigest m), FreezeHost.sourceAt, FreezeHost.addSnapshot_self]
      rfl
  | some there =>
      -- the directory that is there verifies, whatever it holds
      obtain ⟨m', hholds⟩ := hi.snapshots _ _ hsnap
      have hverify := hholds.verifySnapshot
      rw [hsnap] at hverify
      dsimp only [Option.map_some] at hverify ⊢
      rw [hverify]
      change h.settle env (manifestDigest m) m = .ok snap ↔ _
      rw [settle_eq_ok hid (isDigest_manifestDigest m), FreezeHost.sourceAt, hsnap]
      rfl

theorem manifest_eq_of_manifestInto {t source : Tree} (h : manifestInto t = .ok (m, source)) :
    manifest t = .ok m := by
  cases hfiles : sourceContents t with
  | error e => simp [manifestInto, hfiles] at h
  | ok files =>
      rw [manifestInto, hfiles] at h
      dsimp only at h
      split at h
      · obtain ⟨rfl, -⟩ := Prod.mk.inj (Except.ok.inj h)
        rw [manifest, hfiles]
        rfl
      · cases h

/-- An attempt on a marked session. -/
theorem freezeSubmission_of_marker (env : FreezeEnv) (cap : Capacity) (hi : FreezeInv h)
    (hid : IsSessionId h.disk.sessionId) (hmark : h.phase.isMarking = false) {text : Str}
    (hsub : h.disk.submitted = some text) :
    ∃ m, h.Holds text m ∧ text ≠ [] ∧ ∀ snap, h.freezeSubmission env cap = .ok snap ↔
      persistManaged env h.store h.disk.sessionId text m (h.sourceAt text) = .ok () ∧
        snap = ⟨text, m, prefixOf h.disk.sessionId text⟩ := by
  obtain ⟨m, hholds⟩ := hi.marker hmark text hsub
  obtain rfl := hholds.digest
  have hd := isDigest_manifestDigest m
  have hne : manifestDigest m ≠ [] := by
    intro hnil
    have hlength := manifestDigest_length m
    simp [hnil] at hlength
  refine ⟨m, hholds, hne, fun snap => ?_⟩
  rw [FreezeHost.freezeSubmission, hsub]
  dsimp only
  rw [strip_manifestDigest, hholds.verifySnapshot]
  exact settle_eq_ok hid hd

/-- An attempt on a session without a marker. -/
theorem freezeSubmission_of_unmarked (hi : FreezeInv h) (hid : IsSessionId h.disk.sessionId)
    (hsub : h.disk.submitted = none) : h.freezeSubmission env cap = .ok snap ↔
      ∃ m source, manifestInto h.disk.workspace = .ok (m, source) ∧ m ≠ [] ∧
        (∃ l, reserveCapacity cap h.disk.ledger (requiredBytes m) = .ok l) ∧
        persistManaged env h.store h.disk.sessionId (manifestDigest m) m
          (((h.snapshots (manifestDigest m)).map Snapshot.source).getD source) = .ok () ∧
        snap = ⟨manifestDigest m, m, prefixOf h.disk.sessionId (manifestDigest m)⟩ := by
  rw [FreezeHost.freezeSubmission, hsub]
  dsimp only
  constructor
  · intro hok
    obtain ⟨m, hm, hok⟩ := bind_eq_ok.mp hok
    split_ifs at hok with hne
    obtain ⟨l, hl, hok⟩ := bind_eq_ok.mp hok
    obtain ⟨⟨copied, source⟩, hinto, hok⟩ := bind_eq_ok.mp hok
    dsimp only at hok
    split_ifs at hok with hcopied
    obtain rfl := not_not.mp hcopied
    exact ⟨copied, source, hinto, hne, ⟨l, hl⟩, (publish_eq_ok hi hid).mp hok⟩
  · rintro ⟨m, source, hinto, hne, ⟨l, hl⟩, hpublish⟩
    refine bind_eq_ok.mpr ⟨m, manifest_eq_of_manifestInto hinto, ?_⟩
    rw [if_neg hne]
    refine bind_eq_ok.mpr ⟨l, hl, bind_eq_ok.mpr ⟨(m, source), hinto, ?_⟩⟩
    dsimp only
    rw [if_neg (not_not.mpr rfl)]
    exact (publish_eq_ok hi hid).mpr hpublish

/-- When an attempt succeeds. -/
theorem exists_freezeSubmission_ok_iff (hi : FreezeInv h) (hid : IsSessionId h.disk.sessionId)
    (hmark : h.phase.isMarking = false) :
    (∃ snap, h.freezeSubmission env cap = .ok snap) ↔ Freezable env cap h := by
  rw [Freezable]
  cases hsub : h.disk.submitted with
  | none =>
      simp only [freezeSubmission_of_unmarked hi hid hsub]
      constructor
      · rintro ⟨snap, m, source, hinto, hne, hl, hpersist, -⟩
        exact ⟨m, source, hinto, hne, hl, hpersist⟩
      · rintro ⟨m, source, hinto, hne, hl, hpersist⟩
        exact ⟨_, m, source, hinto, hne, hl, hpersist, rfl⟩
  | some text =>
      obtain ⟨m, hholds, hne, hok⟩ :=
        freezeSubmission_of_marker env cap hi hid hmark hsub
      simp only [hok]
      constructor
      · rintro ⟨snap, hpersist, -⟩
        exact ⟨hne, m, hholds, hpersist⟩
      · rintro ⟨-, m', hholds', hpersist⟩
        obtain rfl := hholds.unique hholds'
        exact ⟨_, hpersist, rfl⟩

/-- What a successful attempt returns. -/
theorem frozenFrom_of_freezeSubmission (hi : FreezeInv h) (hid : IsSessionId h.disk.sessionId)
    (hmark : h.phase.isMarking = false) (hok : h.freezeSubmission env cap = .ok snap) :
    snap.sourceDigest = manifestDigest snap.manifest ∧ FrozenFrom h snap := by
  rw [FrozenFrom]
  cases hsub : h.disk.submitted with
  | none =>
      obtain ⟨m, source, hinto, -, -, -, rfl⟩ :=
        (freezeSubmission_of_unmarked hi hid hsub).mp hok
      exact ⟨rfl, manifest_eq_of_manifestInto hinto⟩
  | some text =>
      obtain ⟨m, hholds, -, hiff⟩ :=
        freezeSubmission_of_marker env cap hi hid hmark hsub
      obtain ⟨-, rfl⟩ := (hiff snap).mp hok
      exact ⟨hholds.digest.symm, hholds⟩

end

/-! ## Runs -/

/-- The session is marked and no freeze has a result for it. -/
structure HalfMarked (h : FreezeHost) : Prop where
  submitted : h.disk.submitted = some []
  phase : h.phase = .idle ∨ h.phase = .begun ∨ ∃ e, h.phase = .finished (.error e)

/-- The marker names a snapshot, or it is on its way to, or it is empty for good. -/
def RetryInv (h : FreezeHost) : Prop :=
  (FreezeInv h ∧ (h.phase.isMarking = true → h.disk.submitted = some [])) ∨ HalfMarked h

section

variable {env : FreezeEnv} {cap : Capacity} {h h' : FreezeHost}

theorem FreezeMove.sessionId (hmove : FreezeMove env cap h h') :
    h'.disk.sessionId = h.disk.sessionId := by
  cases hmove <;> rfl

theorem freezeAct_sessionId (a : FreezeAction) :
    (freezeAct env h a).disk.sessionId = h.disk.sessionId := by
  cases a with
  | write cap relPath content =>
      rw [freezeAct]
      split_ifs
      · rfl
      · exact writeFile_sessionId ..
  | freeze | fail e | crash =>
      rw [freezeAct]
      split_ifs <;> rfl
  | step cap => exact (freezeStep_move env cap h).sessionId

theorem run_freezeAct_sessionId {actions : List FreezeAction} :
    (run (freezeAct env) h actions).disk.sessionId = h.disk.sessionId := by
  induction actions generalizing h with
  | nil => rfl
  | cons a actions ih => rw [run_cons, ih, freezeAct_sessionId]

theorem freezeSubmission_of_empty (hsub : h.disk.submitted = some []) :
    h.freezeSubmission env cap = .error (.value "Invalid snapshot identity") := by
  rw [FreezeHost.freezeSubmission, hsub]
  rfl

/-- No action ends a half-marked session. -/
theorem HalfMarked.freezeAct (hi : HalfMarked h) (a : FreezeAction) :
    HalfMarked (freezeAct env h a) := by
  obtain ⟨hsub, hphase⟩ := hi
  cases a with
  | write cap relPath content =>
      rw [PromptCode.freezeAct, writeFile_of_submitted hsub]
      split_ifs <;> exact ⟨hsub, hphase⟩
  | freeze =>
      rw [PromptCode.freezeAct]
      split_ifs
      · exact ⟨hsub, hphase⟩
      · exact ⟨hsub, .inr (.inl rfl)⟩
  | step cap =>
      rw [PromptCode.freezeAct, freezeStep]
      rcases hphase with hp | hp | ⟨e, hp⟩ <;> rw [hp]
      · exact ⟨hsub, .inl hp⟩
      · dsimp only
        rw [hsub]
        exact ⟨hsub, .inr (.inr ⟨_, rfl⟩)⟩
      · exact ⟨hsub, .inr (.inr ⟨e, hp⟩)⟩
  | fail e =>
      rw [PromptCode.freezeAct]
      split_ifs
      · exact ⟨hsub, .inr (.inr ⟨e, rfl⟩)⟩
      · exact ⟨hsub, hphase⟩
  | crash =>
      rw [PromptCode.freezeAct]
      split_ifs
      · exact ⟨hsub, .inl rfl⟩
      · exact ⟨hsub, hphase⟩

theorem HalfMarked.run {actions : List FreezeAction} (hi : HalfMarked h) :
    HalfMarked (run (PromptCode.freezeAct env) h actions) :=
  invariant_run_of_step HalfMarked (fun _ a hi => hi.freezeAct a) hi

/-- A step reaches the empty marker only by creating it. -/
theorem FreezeMove.submitted_of_marking (hmove : FreezeMove env cap h h')
    (hmarking : h.phase.isMarking = false) (hmarking' : h'.phase.isMarking = true) :
    h'.disk.submitted = some [] := by
  cases hmove with
  | createMarker hp => rfl
  | rest hp => simp [hmarking] at hmarking'
  | _ => simp [FreezePhase.isMarking, FreezeHost.setPhase, FreezeHost.raise, FreezeHost.finish]
      at hmarking'

/-- Every action keeps the invariant, whichever step it stops a freeze at. -/
theorem RetryInv.freezeAct (hi : RetryInv h) (hcoll : NoCollision h) (a : FreezeAction) :
    RetryInv (freezeAct env h a) := by
  rcases hi with ⟨hi, hempty⟩ | hi
  swap
  · exact .inr (hi.freezeAct a)
  cases hmarking : h.phase.isMarking with
  | false =>
      have hcond : FreezeCond h a := ⟨fun hm => by simp [hmarking] at hm, hcoll⟩
      refine .inl ⟨freezeAct_inv hi hcond, fun hmarking' => ?_⟩
      cases a with
      | step cap => exact (freezeStep_move env cap h).submitted_of_marking hmarking hmarking'
      | write cap relPath content | freeze | fail e | crash =>
          rw [PromptCode.freezeAct] at hmarking'
          split_ifs at hmarking' <;>
            first
            | exact absurd (hmarking.symm.trans hmarking') Bool.false_ne_true
            | simp [FreezePhase.isMarking] at hmarking'
  | true =>
      obtain ⟨m, n, hphase⟩ : ∃ m n, h.phase = .marking m n := by
        cases hphase : h.phase with
        | marking m n => exact ⟨m, n, rfl⟩
        | _ => simp [hphase, FreezePhase.isMarking] at hmarking
      have hp : h.phase.inProgress = true := by rw [hphase]; rfl
      have hsub := hempty hmarking
      cases a with
      | step cap =>
          have hcond : FreezeCond h (.step cap) :=
            ⟨fun _ => ⟨fun e => by simp, by simp⟩, hcoll⟩
          refine .inl ⟨freezeAct_inv hi hcond, fun hmarking' => ?_⟩
          rw [PromptCode.freezeAct, freezeStep, hphase] at hmarking'
          simp [FreezePhase.isMarking] at hmarking'
      | write cap relPath content | freeze =>
          rw [PromptCode.freezeAct, if_pos hp]
          exact .inl ⟨hi, hempty⟩
      -- the marker stays empty
      | fail e =>
          rw [PromptCode.freezeAct, if_pos hp]
          exact .inr ⟨hsub, .inr (.inr ⟨e, rfl⟩)⟩
      | crash =>
          rw [PromptCode.freezeAct, if_pos hp]
          exact .inr ⟨hsub, .inl rfl⟩

theorem Unfrozen.retryInv (hstart : Unfrozen h) : RetryInv h := by
  refine .inl ⟨hstart.inv, fun hmarking => ?_⟩
  simp [hstart.phase, FreezePhase.isMarking] at hmarking

theorem run_replicate_step (k : ℕ) :
    run (PromptCode.freezeAct env) h (List.replicate k (.step cap)) =
      (freezeStep env cap)^[k] h := by
  induction k generalizing h with
  | zero => rfl
  | succ k ih => exact ih

/-- From some number of steps on, the freeze has its result. -/
theorem Ends.run {r : Except PyErr FrozenSnapshot} (hends : Ends env cap h r) :
    ∃ n, ∀ k, n ≤ k → (Transition.run (PromptCode.freezeAct env) h
      (List.replicate k (.step cap))).phase = .finished r := by
  induction hends with
  | @finished h r hp =>
      refine ⟨0, fun k _ => ?_⟩
      have hstep : freezeStep env cap h = h := by
        rw [freezeStep, hp]
      rw [run_replicate_step, Function.iterate_fixed hstep, hp]
  | step hnext ih =>
      obtain ⟨n, hn⟩ := ih
      refine ⟨n + 1, fun k hk => ?_⟩
      obtain ⟨k, rfl⟩ := Nat.exists_eq_add_of_le' hk
      rw [← Nat.add_assoc, List.replicate_succ]
      exact hn _ (Nat.le_add_left n k)

end

/-- After every run of attempts that are stopped anywhere, with writes in between, an undisturbed
attempt ends.  It succeeds exactly when it has what it needs, and then it returns the digest of
the bytes that it froze.  A stop between the creation and the writing of the marker ends the
session: it is never frozen, whatever happens. -/
theorem freeze_retries_iff {env : FreezeEnv} {h : FreezeHost} {actions : List FreezeAction}
    (cap : Capacity) (hstart : Unfrozen h) (hid : IsSessionId h.disk.sessionId)
    (hcond : Throughout (freezeAct env) (fun h _ => NoCollision h) h actions)
    (hrest : (run (freezeAct env) h actions).phase.inProgress = false) :
    (∃ result n,
      (∀ k, n ≤ k → (run (freezeAct env) h
        (actions ++ .freeze :: List.replicate k (.step cap))).phase = .finished result) ∧
      ((∃ snap, result = .ok snap) ↔ Freezable env cap (run (freezeAct env) h actions)) ∧
      ∀ snap, result = .ok snap → snap.sourceDigest = manifestDigest snap.manifest ∧
        FrozenFrom (run (freezeAct env) h actions) snap) ∧
    ((run (freezeAct env) h actions).disk.submitted = some [] → ∀ more,
      (run (freezeAct env) h (actions ++ more)).disk.submitted = some [] ∧
      ∀ snap, (run (freezeAct env) h (actions ++ more)).phase ≠ .finished (.ok snap)) := by
  have hinv : RetryInv (run (freezeAct env) h actions) :=
    invariant_run RetryInv (fun _ a hi hcoll => hi.freezeAct hcoll a) hstart.retryInv hcond
  have hid' : IsSessionId (run (freezeAct env) h actions).disk.sessionId := by
    rw [run_freezeAct_sessionId]
    exact hid
  generalize hstop : run (freezeAct env) h actions = stop at hinv hid' hrest
  have hmark := not_isMarking_of_not_inProgress hrest
  refine ⟨?_, fun hempty more => ?_⟩
  · have hbegun : Ends env cap (stop.setPhase .begun) (stop.freezeSubmission env cap) :=
      ends_begun hid' rfl
    obtain ⟨n, hends⟩ := hbegun.run
    refine ⟨stop.freezeSubmission env cap, n, fun k hk => ?_, ?_⟩
    · rw [run_append, hstop, run_cons, freezeAct, if_neg (by simp [hrest])]
      exact hends k hk
    · rcases hinv with ⟨hi, -⟩ | hhalf
      · exact ⟨exists_freezeSubmission_ok_iff hi hid' hmark,
          fun snap hok => frozenFrom_of_freezeSubmission hi hid' hmark hok⟩
      · rw [freezeSubmission_of_empty hhalf.submitted, Freezable, hhalf.submitted]
        refine ⟨iff_of_false ?_ ?_, ?_⟩
        · rintro ⟨snap, hok⟩
          cases hok
        · rintro ⟨hne, -⟩
          exact hne rfl
        · intro snap hok
          cases hok
  · have hhalf : HalfMarked stop := by
      rcases hinv with ⟨hi, -⟩ | hhalf
      · obtain ⟨m, hholds⟩ := hi.marker hmark [] hempty
        have hlength := manifestDigest_length m
        simp [hholds.digest] at hlength
      · exact hhalf
    rw [run_append, hstop]
    have hrun : HalfMarked (run (freezeAct env) stop more) := hhalf.run
    refine ⟨hrun.submitted, fun snap hsnap => ?_⟩
    rcases hrun.phase with hp | hp | ⟨e, hp⟩ <;> rw [hp] at hsnap <;> cases hsnap

theorem freeze_retries_iff_crashed :
    (∃ result n,
      (∀ k, n ≤ k → (run (freezeAct localEnv) (freshHost someDisk)
        ([.freeze, .crash] ++ .freeze :: List.replicate k (.step roomyCapacity))).phase =
          .finished result) ∧
      ((∃ snap, result = .ok snap) ↔ Freezable localEnv roomyCapacity
        (run (freezeAct localEnv) (freshHost someDisk) [.freeze, .crash])) ∧
      ∀ snap, result = .ok snap → snap.sourceDigest = manifestDigest snap.manifest ∧
        FrozenFrom (run (freezeAct localEnv) (freshHost someDisk) [.freeze, .crash]) snap) ∧
    ((run (freezeAct localEnv) (freshHost someDisk) [.freeze, .crash]).disk.submitted = some [] →
      ∀ more,
      (run (freezeAct localEnv) (freshHost someDisk)
        ([.freeze, .crash] ++ more)).disk.submitted = some [] ∧
      ∀ snap, (run (freezeAct localEnv) (freshHost someDisk)
        ([.freeze, .crash] ++ more)).phase ≠ .finished (.ok snap)) := by
  have hstart : Unfrozen (freshHost someDisk) := ⟨by decide, rfl, fun _ => rfl, rfl⟩
  have hcond : Throughout (freezeAct localEnv) (fun h _ => NoCollision h) (freshHost someDisk)
      [.freeze, .crash] :=
    ⟨fun m n t snap m' hp => by simp [freshHost] at hp,
      fun m n t snap m' hp => by simp [freezeAct, freshHost, FreezePhase.inProgress] at hp,
      trivial⟩
  exact freeze_retries_iff roomyCapacity hstart (by decide) hcond rfl

end PromptCode
