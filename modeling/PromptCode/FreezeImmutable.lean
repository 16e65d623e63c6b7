import PromptCode.SnapshotFreeze

/-!
# A frozen submission stays what it is

The marker of a session, the snapshot directory it names and the manifest of
that snapshot belong together after every step of every freeze.
-/

namespace PromptCode

open Py FileTree Transition

/-! ## The invariant -/

/-- The directory of `d` holds a source whose manifest `m` has the digest `d`. -/
def FreezeHost.Holds (h : FreezeHost) (d : Str) (m : Manifest) : Prop :=
  ∃ snap, h.snapshots d = some snap ∧ manifest snap.source = .ok m ∧ m ≠ [] ∧
    manifestDigest m = d

/-- What each phase of a freeze has made sure of. -/
def FreezeHost.PhaseSound (h : FreezeHost) : FreezePhase → Prop
  | .idle | .begun | .finished (.error _) => True
  | .measured m | .reserved m _ => h.disk.submitted = none ∧ m ≠ []
  | .copied m _ temporary =>
      h.disk.submitted = none ∧ m ≠ [] ∧ manifest temporary.source = .ok m
  | .published m _ =>
      h.disk.submitted = none ∧ h.Holds (manifestDigest m) m
  | .marking m _ => h.Holds (manifestDigest m) m
  | .persisting d m _ | .uploading d m _ _ | .persisted d m _ =>
      h.disk.submitted = some d ∧ h.Holds d m
  | .finished (.ok snap) =>
      h.disk.submitted = some snap.sourceDigest ∧
        h.Holds snap.sourceDigest snap.manifest

/-- Every snapshot directory is named by the digest of its source, and the
marker names one of them. -/
structure FreezeInv (h : FreezeHost) : Prop where
  valid : ValidTree h.disk.workspace
  snapshots : ∀ d snap, h.snapshots d = some snap → ∃ m, h.Holds d m
  marker : h.phase.isMarking = false → ∀ d, h.disk.submitted = some d →
    ∃ m, h.Holds d m
  phase : h.PhaseSound h.phase

/-- No snapshot directory met by a freeze has the digest of the manifest that
the freeze measured and another manifest. -/
def NoCollision (h : FreezeHost) : Prop :=
  ∀ m n temporary snap m', h.phase = .copied m n temporary →
    h.snapshots (manifestDigest m) = some snap → manifest snap.source = .ok m' →
    manifestDigest m' = manifestDigest m → m' = m

/-- The marker is created and written without a stop in between. -/
def MarkerAtomic (h : FreezeHost) (a : FreezeAction) : Prop :=
  h.phase.isMarking = true → (∀ e, a ≠ .fail e) ∧ a ≠ .crash

/-- A session before its first freeze. -/
structure Unfrozen (h : FreezeHost) : Prop where
  valid : ValidTree h.disk.workspace
  submitted : h.disk.submitted = none
  snapshots : ∀ d, h.snapshots d = none
  phase : h.phase = .idle

section Invariant

variable {env : FreezeEnv} {cap : Capacity} {h h' : FreezeHost} {d : Str}
  {m m' : Manifest}

theorem Unfrozen.inv (hstart : Unfrozen h) : FreezeInv h where
  valid := hstart.valid
  snapshots d snap hsnap := by
    rw [hstart.snapshots d] at hsnap
    simp at hsnap
  marker _ d hd := by
    rw [hstart.submitted] at hd
    simp at hd
  phase := by
    rw [hstart.phase]
    trivial

theorem FreezeHost.Holds.unique (hm : h.Holds d m) (hm' : h.Holds d m') : m = m' := by
  obtain ⟨snap, hsnap, hman, -⟩ := hm
  obtain ⟨snap', hsnap', hman', -⟩ := hm'
  obtain rfl := Option.some.inj (hsnap.symm.trans hsnap')
  exact Except.ok.inj (hman.symm.trans hman')

theorem FreezeHost.Holds.digest (hm : h.Holds d m) : manifestDigest m = d := by
  obtain ⟨snap, -, -, -, hd⟩ := hm
  exact hd

theorem FreezeHost.Holds.mono (hm : h.Holds d m)
    (hsnap : ∀ d snap, h.snapshots d = some snap → h'.snapshots d = some snap) :
    h'.Holds d m := by
  obtain ⟨snap, hget, hrest⟩ := hm
  exact ⟨snap, hsnap _ _ hget, hrest⟩

/-- The manifest that a stored snapshot holds verifies. -/
theorem FreezeHost.Holds.verifySnapshot (hm : h.Holds d m) :
    PromptCode.verifySnapshot d (lit "source")
      ((h.snapshots d).map fun snap => snap.source) d = .ok m := by
  obtain ⟨snap, hget, hman, hne, rfl⟩ := hm
  rw [hget]
  exact verifySnapshot_of_manifest hman hne

theorem holds_of_verifySnapshot (hv : verifySnapshot d (lit "source")
    ((h.snapshots d).map fun snap => snap.source) d = .ok m) : h.Holds d m := by
  obtain ⟨root, hroot, hman, hne, hd⟩ := verifySnapshot_ok hv
  obtain ⟨snap, hsnap, rfl⟩ := Option.map_eq_some_iff.mp hroot
  exact ⟨snap, hsnap, hman, hne, hd⟩

theorem strip_manifestDigest (m : Manifest) :
    strip (manifestDigest m) = manifestDigest m :=
  strip_eq_self fun _ hc => ((isDigest_manifestDigest m).plain hc).1

theorem manifest_of_manifestInto {t source : Tree} (ht : ValidTree t)
    (hinto : manifestInto t = .ok (m, source)) : manifest source = .ok m := by
  cases hfiles : sourceContents t with
  | error e => simp [manifestInto, hfiles] at hinto
  | ok files =>
      obtain ⟨t', ht', hcopy⟩ := manifestInto_of_ok ht hfiles
      obtain ⟨rfl, rfl⟩ := Prod.mk.inj (Except.ok.inj (ht'.symm.trans hinto))
      exact hcopy.manifest (sourceOf_of_ok ht hfiles).list

/-- The invariant looks at the workspace, the snapshots and the marker. -/
theorem FreezeInv.setPhase (hi : FreezeInv h) (phase : FreezePhase)
    (hmarking : h.phase.isMarking = false) (hphase : h.PhaseSound phase)
    (hw : h'.disk.workspace = h.disk.workspace)
    (hm : h'.disk.submitted = h.disk.submitted) (hs : h'.snapshots = h.snapshots)
    (hp : h'.phase = phase) : FreezeInv h' := by
  have hholds : ∀ d m, h'.Holds d m ↔ h.Holds d m := fun d m => by
    unfold FreezeHost.Holds
    rw [hs]
  refine ⟨hw ▸ hi.valid, ?_, ?_, ?_⟩
  · intro d snap hsnap
    obtain ⟨m, hm'⟩ := hi.snapshots d snap (hs ▸ hsnap)
    exact ⟨m, (hholds d m).mpr hm'⟩
  · intro _ d hd
    obtain ⟨m, hm'⟩ := hi.marker hmarking d (hm ▸ hd)
    exact ⟨m, (hholds d m).mpr hm'⟩
  · rw [hp]
    have heq : ∀ ph, h'.PhaseSound ph ↔ h.PhaseSound ph := by
      intro ph
      cases ph with
      | finished r => cases r <;> simp only [FreezeHost.PhaseSound, hm, hholds]
      | _ => simp only [FreezeHost.PhaseSound, hm, hholds]
    exact (heq phase).mpr hphase

/-- Every step of a freeze keeps the invariant. -/
theorem FreezeMove.inv (hmove : FreezeMove env cap h h') (hi : FreezeInv h)
    (hcoll : NoCollision h) : FreezeInv h' := by
  have hphase := hi.phase
  cases hmove with
  | rest => exact hi
  | raise hp hmarking e =>
      exact hi.setPhase (.finished (.error e)) hmarking trivial rfl rfl rfl rfl
  | @retry text m hp hmarker hverify =>
      have hmark : h.phase.isMarking = false := by rw [hp]; rfl
      have hholds := holds_of_verifySnapshot hverify
      -- the marker's text is the digest of some snapshot, which has no blanks
      obtain ⟨m', hm'⟩ := hi.marker hmark _ hmarker
      have htext : strip text = text := by
        rw [← hm'.digest]
        exact strip_manifestDigest m'
      rw [htext] at hholds ⊢
      exact hi.setPhase (.persisting text m none) hmark ⟨hmarker, hholds⟩
        rfl rfl rfl rfl
  | measure hp hmarker hm hne =>
      exact hi.setPhase (.measured _) (by rw [hp]; rfl) ⟨hmarker, hne⟩
        rfl rfl rfl rfl
  | reserve hp hl =>
      rw [hp] at hphase
      exact hi.setPhase (.reserved _ _) (by rw [hp]; rfl) hphase
        rfl rfl rfl rfl
  | copy hp hinto =>
      rw [hp] at hphase
      exact hi.setPhase (.copied _ _ ⟨_, _⟩) (by rw [hp]; rfl)
        ⟨hphase.1, hphase.2, manifest_of_manifestInto hi.valid hinto⟩ rfl rfl rfl rfl
  | @reuse m m' n temporary snap hp hsnap hverify =>
      rw [hp] at hphase
      obtain ⟨root, hroot, hman, hne, hd⟩ := verifySnapshot_ok hverify
      obtain rfl := Option.some.inj hroot
      obtain rfl := hcoll m n temporary snap m' hp hsnap hman hd
      exact hi.setPhase (.published _ _) (by rw [hp]; rfl)
        ⟨hphase.1, snap, hsnap, hman, hne, rfl⟩ rfl rfl rfl rfl
  | @publish m n temporary hp hsnap =>
      rw [hp] at hphase
      obtain ⟨hnone, hne, hman⟩ := hphase
      have hnew : (h.addSnapshot (manifestDigest m) temporary).Holds
          (manifestDigest m) m :=
        ⟨temporary, h.addSnapshot_self _ _, hman, hne, rfl⟩
      refine ⟨hi.valid, ?_, ?_, hnone, hnew⟩
      · intro d snap hget
        by_cases hd : d = manifestDigest m
        · subst hd
          exact ⟨m, hnew⟩
        · rw [FreezeHost.setPhase_snapshots, h.addSnapshot_of_ne _ _ hd] at hget
          obtain ⟨m', snap', hget', hrest⟩ := hi.snapshots d snap hget
          exact ⟨m', snap', (h.addSnapshot_of_ne _ _ hd).trans hget', hrest⟩
      · intro _ d hd
        rw [FreezeHost.setPhase_disk, FreezeHost.addSnapshot_disk, hnone] at hd
        simp at hd
  | createMarker hp =>
      rw [hp] at hphase
      refine ⟨hi.valid, hi.snapshots, ?_, hphase.2⟩
      intro hmark
      simp [FreezePhase.isMarking] at hmark
  | writeMarker hp =>
      rw [hp] at hphase
      refine ⟨hi.valid, hi.snapshots, ?_, rfl, hphase⟩
      intro _ d hd
      obtain rfl := Option.some.inj hd
      exact ⟨_, hphase⟩
  | skipPersist hp | beginUpload hp =>
      rw [hp] at hphase
      exact hi.setPhase _ (by rw [hp]; rfl) (by exact hphase) rfl rfl rfl rfl
  | upload hp hstore | commit hp hstore =>
      rw [hp] at hphase
      exact hi.setPhase _ (by rw [hp]; rfl) (by exact hphase) rfl rfl rfl rfl
  | @answer digest m hp | @record digest m n bytes files hp =>
      rw [hp] at hphase
      refine hi.setPhase (.finished (frozen h.disk.sessionId digest m))
        (by rw [hp]; rfl) ?_ rfl rfl rfl rfl
      unfold frozen
      cases submissionPrefix h.disk.sessionId digest with
      | error e => trivial
      | ok key => exact hphase

/-- What the claimed guarantees ask of a single action. -/
structure FreezeCond (h : FreezeHost) (a : FreezeAction) : Prop where
  atomic : MarkerAtomic h a
  no_collision : NoCollision h

theorem not_isMarking_of_not_inProgress (hp : h.phase.inProgress = false) :
    h.phase.isMarking = false := by
  cases hphase : h.phase with
  | marking m n => simp [hphase, FreezePhase.inProgress] at hp
  | _ => rfl

/-- An exception or a crash outside the marker step keeps the invariant. -/
theorem FreezeInv.stop (hi : FreezeInv h) (hmarking : h.phase.isMarking = false) :
    (∀ e, FreezeInv (h.raise e)) ∧ FreezeInv (h.setPhase .idle) :=
  ⟨fun e => hi.setPhase (.finished (.error e)) hmarking trivial
    rfl rfl rfl rfl,
    hi.setPhase .idle hmarking trivial rfl rfl rfl rfl⟩

/-- Every action keeps the invariant. -/
theorem freezeAct_inv {a : FreezeAction} (hi : FreezeInv h)
    (hcond : FreezeCond h a) : FreezeInv (freezeAct env h a) := by
  cases a with
  | write cap relPath content =>
      unfold freezeAct
      split_ifs with hp
      · exact hi
      · have hmark := not_isMarking_of_not_inProgress (by simpa using hp)
        have hsub := writeFile_submitted cap h.disk relPath content
        refine ⟨writeFile_valid cap hi.valid relPath content, hi.snapshots, ?_, ?_⟩
        · intro _ d hd
          exact hi.marker hmark d (hsub ▸ hd)
        · have hphase := hi.phase
          dsimp only
          cases hph : h.phase with
          | idle | begun => trivial
          | finished r =>
              rw [hph] at hphase
              cases r with
              | error e => trivial
              | ok snap => exact ⟨hsub.trans hphase.1, hphase.2⟩
          | _ => simp [hph, FreezePhase.inProgress] at hp
  | freeze =>
      unfold freezeAct
      split_ifs with hp
      · exact hi
      · exact hi.setPhase .begun
          (not_isMarking_of_not_inProgress (by simpa using hp)) trivial rfl rfl rfl rfl
  | step cap => exact (freezeStep_move env cap h).inv hi hcond.no_collision
  | fail e =>
      unfold freezeAct
      split_ifs with hp
      · cases hmark : h.phase.isMarking with
        | true => exact absurd rfl ((hcond.atomic hmark).1 e)
        | false => exact (hi.stop hmark).1 e
      · exact hi
  | crash =>
      unfold freezeAct
      split_ifs with hp
      · cases hmark : h.phase.isMarking with
        | true => exact absurd rfl (hcond.atomic hmark).2
        | false => exact (hi.stop hmark).2
      · exact hi

/-! ## Once the marker is there -/

/-- The session is frozen as `d`, whose snapshot has the manifest `m`. -/
structure FrozenInv (d : Str) (m : Manifest) (h : FreezeHost) : Prop where
  inv : FreezeInv h
  not_marking : h.phase.isMarking = false
  submitted : h.disk.submitted = some d
  holds : h.Holds d m

theorem FreezeMove.frozenInv (hmove : FreezeMove env cap h h')
    (hi : FrozenInv d m h) (hcoll : NoCollision h) : FrozenInv d m h' := by
  have hinv := hmove.inv hi.inv hcoll
  have hphase := hi.inv.phase
  have hsub := hi.submitted
  have hmark := hi.not_marking
  -- before the marker is written there is none
  have hnone (hn : h.disk.submitted = none) : False := by
    rw [hn] at hsub
    simp at hsub
  cases hmove with
  | rest => exact hi
  | raise hp hmarking e => exact ⟨hinv, rfl, hsub, hi.holds⟩
  | retry hp hmarker hverify => exact ⟨hinv, rfl, hsub, hi.holds⟩
  | measure hp hmarker hm hne => exact (hnone hmarker).elim
  | reserve hp hl | copy hp hinto | reuse hp hsnap hverify | publish hp hsnap
  | createMarker hp =>
      rw [hp] at hphase
      exact (hnone hphase.1).elim
  | writeMarker hp => simp [hp, FreezePhase.isMarking] at hmark
  | skipPersist hp | beginUpload hp => exact ⟨hinv, rfl, hsub, hi.holds⟩
  | upload hp hstore | commit hp hstore => exact ⟨hinv, rfl, hsub, hi.holds⟩
  | answer hp | record hp => exact ⟨hinv, rfl, hsub, hi.holds⟩

theorem freezeAct_frozenInv {a : FreezeAction} (hi : FrozenInv d m h)
    (hcond : FreezeCond h a) : FrozenInv d m (freezeAct env h a) := by
  have hinv : FreezeInv (freezeAct env h a) := freezeAct_inv hi.inv hcond
  cases a with
  | write cap relPath content =>
      have hsame : freezeAct env h (.write cap relPath content) = h := by
        simp only [freezeAct, writeFile_of_submitted hi.submitted]
        split_ifs <;> rfl
      rw [hsame]
      exact hi
  | freeze =>
      by_cases hp : h.phase.inProgress = true
      · simpa [freezeAct, hp] using hi
      · simp only [freezeAct, hp] at hinv ⊢
        exact ⟨hinv, rfl, hi.submitted, hi.holds⟩
  | step cap => exact (freezeStep_move env cap h).frozenInv hi hcond.no_collision
  | fail e =>
      by_cases hp : h.phase.inProgress = true
      · simp only [freezeAct, hp] at hinv ⊢
        exact ⟨hinv, rfl, hi.submitted, hi.holds⟩
      · simpa [freezeAct, hp] using hi
  | crash =>
      by_cases hp : h.phase.inProgress = true
      · simp only [freezeAct, hp] at hinv ⊢
        exact ⟨hinv, rfl, hi.submitted, hi.holds⟩
      · simpa [freezeAct, hp] using hi

/-- What a session frozen as `d` guarantees: the marker stays, the snapshot
verifies with the manifest `m`, a freeze returns no other digest or manifest, and
nothing can be written. -/
structure FrozenAs (h : FreezeHost) (d : Str) (m : Manifest) : Prop where
  submitted : h.disk.submitted = some d
  verified : verifySnapshot d (lit "source")
    ((h.snapshots d).map fun snap => snap.source) d = .ok m
  returned : ∀ snap, h.phase = .finished (.ok snap) →
    snap.sourceDigest = d ∧ snap.manifest = m
  unwritable : ∀ cap relPath content, writeFile cap h.disk relPath content =
    (.error (.value "Submission is frozen; start a new attempt to edit"), h.disk)

theorem FrozenInv.frozenAs (hi : FrozenInv d m h) : FrozenAs h d m where
  submitted := hi.submitted
  verified := hi.holds.verifySnapshot
  returned snap hsnap := by
    have hphase := hi.inv.phase
    rw [hsnap] at hphase
    obtain rfl := Option.some.inj (hphase.1.symm.trans hi.submitted)
    exact ⟨rfl, hphase.2.unique hi.holds⟩
  unwritable := writeFile_of_submitted hi.submitted

/-! ## Before the marker is there -/

def FreezeAction.isWrite : FreezeAction → Bool
  | .write _ _ _ => true
  | _ => false

theorem FreezeMove.workspace (hmove : FreezeMove env cap h h') :
    h'.disk.workspace = h.disk.workspace := by
  cases hmove <;> rfl

/-- No step and no stop of a freeze changes the workspace. -/
theorem freezeAct_workspace {a : FreezeAction} (ha : a.isWrite = false) :
    (freezeAct env h a).disk.workspace = h.disk.workspace := by
  cases a with
  | write cap relPath content => simp [FreezeAction.isWrite] at ha
  | freeze | fail e | crash =>
      unfold freezeAct
      split_ifs <;> rfl
  | step cap =>
      exact (freezeStep_move env cap h).workspace

theorem run_freezeAct_workspace {actions : List FreezeAction}
    (hno : ∀ a ∈ actions, a.isWrite = false) :
    (run (freezeAct env) h actions).disk.workspace = h.disk.workspace := by
  induction actions generalizing h with
  | nil => rfl
  | cons a actions ih =>
      rw [run_cons, ih fun b hb => hno b (by simp [hb]),
        freezeAct_workspace (hno a (by simp))]

end Invariant

/-- A session before its first freeze on an otherwise empty host. -/
def freshHost (disk : SessionDisk) : FreezeHost where
  disk := disk
  snapshots := fun _ => none
  store := ⟨fun _ => none, 0⟩
  phase := .idle

def localEnv : FreezeEnv where
  durable := false
  foreign := fun _ => .ok none

end PromptCode
