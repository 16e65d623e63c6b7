import PromptCode.Transition
import PromptCode.Workspace

/-!
# Saves between ledger refreshes

A save asks the ledger how full the workspace is, and a refresh may store an
older answer at any moment between the ledger transactions of a save.  The steps
of both are cut there.  As long as no refresh stores less than the workspace
holds, the measured workspace stays within the source quota.
-/

namespace PromptCode

open Py FileTree Transition

/-! ## The machine -/

/-- `_write_file_locked` up to the end of `check_upload`. -/
def admitWrite (disk : SessionDisk) (relPath content : Str) :
    Except PyErr (List Str × Bytes) × SessionDisk :=
  if 16 < (PurePath.parse relPath).parts.length then
    (.error (.value "File path too deep"), disk)
  else if isBlockedPath relPath || isFrozenPath relPath then
    (.error (.permission "File not available"), disk)
  else
    match utf8Encode content with
    | none => (.error .unicodeEncode, disk)
    | some encoded =>
        if maxFileBytes < encoded.length then
          (.error (.value "File too large for editor"), disk)
        else
          match containedFile disk.workspace relPath with
          | .error e => (.error e, disk)
          | .ok path =>
              match checkUpload disk.ledger disk.sessionId disk.workspace path
                  encoded.length with
              | (.error e, l) => (.error e, { disk with ledger := l })
              | (.ok (), l) => (.ok (path, encoded), { disk with ledger := l })

/-- How far the save that holds the upload lock has come. -/
inductive SavePhase where
  | idle
  | admitted (path : List Str) (encoded : Bytes)
  | reserved (path : List Str) (encoded : Bytes)
  | saved (reservation : ℕ)

structure SaveHost where
  disk : SessionDisk
  phase : SavePhase

def SaveHost.setLedger (h : SaveHost) (l : Ledger) : SaveHost :=
  { h with disk := { h.disk with ledger := l } }

/-- The steps of a save, and the second half of `refresh_ledger`.  What a refresh
stores is what its walk has found at some earlier time. -/
inductive SaveAction where
  | save (relPath content : Str)
  | reserve (cap : Capacity)
  | write
  | record
  | store (measured : List (Str × ℕ × ℕ))

def saveAct (h : SaveHost) : SaveAction → SaveHost
  | .save relPath content =>
      match h.phase with
      | .idle =>
          if h.disk.submitted.isSome then h
          else
            match admitWrite h.disk relPath content with
            | (.error _, disk) => { h with disk := disk }
            | (.ok (path, encoded), disk) =>
                { disk := disk, phase := .admitted path encoded }
      | _ => h
  | .reserve cap =>
      match h.phase with
      | .admitted path encoded =>
          match reserveCapacity cap h.disk.ledger encoded.length with
          | .error _ => { h with phase := .idle }
          | .ok l => { h.setLedger l with phase := .reserved path encoded }
      | _ => h
  | .write =>
      match h.phase with
      | .reserved path encoded =>
          match h.disk.workspace.write path encoded with
          | none =>
              { h.setLedger (h.disk.ledger.release reservationKey encoded.length) with
                phase := .idle }
          | some workspace =>
              { disk := { h.disk with workspace := workspace }
                phase := .saved encoded.length }
      | _ => h
  | .record =>
      match h.phase with
      | .saved n =>
          let size := measureWorkspace h.disk.workspace
          { h.setLedger (h.disk.ledger.write h.disk.sessionId size.1 size.2 n) with
            phase := .idle }
      | _ => h
  | .store measured => h.setLedger (h.disk.ledger.reconcile measured)

/-- A save that nothing comes between is `write_file`. -/
theorem run_save_eq_writeFile (cap : Capacity) (disk : SessionDisk)
    (relPath content : Str) :
    run saveAct ⟨disk, .idle⟩ [.save relPath content, .reserve cap, .write, .record] =
      ⟨(writeFile cap disk relPath content).2, .idle⟩ := by
  simp only [run_cons, run_nil, saveAct, writeFile, writeFileLocked, admitWrite]
  by_cases hsub : disk.submitted.isSome = true
  · simp [hsub]
  by_cases hdepth : 16 < (PurePath.parse relPath).parts.length
  · simp [hsub, hdepth]
  by_cases hpolicy : (isBlockedPath relPath || isFrozenPath relPath) = true
  · simp [hsub, hdepth, hpolicy]
  cases hencode : utf8Encode content with
  | none => simp [hsub, hdepth, hpolicy]
  | some encoded =>
      by_cases hsize : maxFileBytes < encoded.length
      · simp [hsub, hdepth, hpolicy, hsize]
      cases hcont : containedFile disk.workspace relPath with
      | error e => simp [hsub, hdepth, hpolicy, hsize]
      | ok path =>
          cases hcheck : checkUpload disk.ledger disk.sessionId disk.workspace
              path encoded.length with
          | mk result l =>
              cases result with
              | error e => simp [hsub, hdepth, hpolicy, hsize, hcheck]
              | ok u =>
                  simp only [hsub, hdepth, hpolicy, hsize, if_false, hcheck,
                    Bool.false_eq_true]
                  cases hres : reserveCapacity cap l encoded.length with
                  | error e => simp
                  | ok l' =>
                      simp only [SaveHost.setLedger]
                      cases hwrite : disk.workspace.write path encoded with
                      | none => simp only
                      | some ws => simp only

/-! ## What one step can do -/

/-- What an admitted write has checked. -/
structure Admitted (disk : SessionDisk) (relPath : Str) (path : List Str)
    (encoded : Bytes) : Prop where
  contained : Contained disk.workspace relPath path
  quota : (checkUpload disk.ledger disk.sessionId disk.workspace path
    encoded.length).1 = .ok ()

theorem admitWrite_cases {disk disk' : SessionDisk} {relPath content : Str}
    {result : Except PyErr (List Str × Bytes)}
    (h : admitWrite disk relPath content = (result, disk')) :
    (disk' = disk ∧ ∃ e, result = .error e) ∨
      ∃ path n, disk' = { disk with ledger :=
          (checkUpload disk.ledger disk.sessionId disk.workspace path n).2 } ∧
        ((∃ e, result = .error e) ∨ ∃ encoded, result = .ok (path, encoded) ∧
          encoded.length = n ∧ Admitted disk relPath path encoded) := by
  unfold admitWrite at h
  split_ifs at h
  · obtain ⟨rfl, rfl⟩ := Prod.mk.inj h
    exact Or.inl ⟨rfl, _, rfl⟩
  · obtain ⟨rfl, rfl⟩ := Prod.mk.inj h
    exact Or.inl ⟨rfl, _, rfl⟩
  cases hencode : utf8Encode content with
  | none =>
      rw [hencode] at h
      obtain ⟨rfl, rfl⟩ := Prod.mk.inj h
      exact Or.inl ⟨rfl, _, rfl⟩
  | some encoded =>
      rw [hencode] at h
      dsimp only at h
      split_ifs at h
      · obtain ⟨rfl, rfl⟩ := Prod.mk.inj h
        exact Or.inl ⟨rfl, _, rfl⟩
      cases hcont : containedFile disk.workspace relPath with
      | error e =>
          rw [hcont] at h
          obtain ⟨rfl, rfl⟩ := Prod.mk.inj h
          exact Or.inl ⟨rfl, _, rfl⟩
      | ok path =>
          rw [hcont] at h
          dsimp only at h
          refine Or.inr ⟨path, encoded.length, ?_⟩
          cases hcheck : checkUpload disk.ledger disk.sessionId disk.workspace
              path encoded.length with
          | mk answer l =>
              rw [hcheck] at h
              cases answer with
              | error e =>
                  obtain ⟨rfl, rfl⟩ := Prod.mk.inj h
                  exact ⟨rfl, Or.inl ⟨_, rfl⟩⟩
              | ok u =>
                  obtain ⟨rfl, rfl⟩ := Prod.mk.inj h
                  exact ⟨rfl, Or.inr ⟨encoded, rfl, rfl, containedFile_ok hcont, by
                    rw [hcheck]⟩⟩

/-- The moves of the machine, each with what it has checked. -/
inductive SaveMove (h : SaveHost) : SaveAction → SaveHost → Prop where
  | wait {a : SaveAction} : SaveMove h a h
  | refuse {relPath content : Str} (path : List Str) (n : ℕ)
      (hp : h.phase = .idle) : SaveMove h (.save relPath content)
        { h.setLedger (checkUpload h.disk.ledger h.disk.sessionId h.disk.workspace
            path n).2 with phase := .idle }
  | allow {relPath content : Str} {path : List Str} {encoded : Bytes}
      (hp : h.phase = .idle) (hadmitted : Admitted h.disk relPath path encoded) :
      SaveMove h (.save relPath content)
        { h.setLedger (checkUpload h.disk.ledger h.disk.sessionId h.disk.workspace
            path encoded.length).2 with phase := .admitted path encoded }
  | noRoom {cap : Capacity} {path : List Str} {encoded : Bytes}
      (hp : h.phase = .admitted path encoded) :
      SaveMove h (.reserve cap) { h with phase := .idle }
  | reserve {cap : Capacity} {path : List Str} {encoded : Bytes} {l : Ledger}
      (hp : h.phase = .admitted path encoded)
      (hl : reserveCapacity cap h.disk.ledger encoded.length = .ok l) :
      SaveMove h (.reserve cap) { h.setLedger l with phase := .reserved path encoded }
  | writeFails {path : List Str} {encoded : Bytes}
      (hp : h.phase = .reserved path encoded) : SaveMove h .write
        { h.setLedger (h.disk.ledger.release reservationKey encoded.length) with
          phase := .idle }
  | write {path : List Str} {encoded : Bytes} {workspace : Tree}
      (hp : h.phase = .reserved path encoded)
      (hwrite : h.disk.workspace.write path encoded = some workspace) :
      SaveMove h .write { disk := { h.disk with workspace := workspace }
                          phase := .saved encoded.length }
  | record {n : ℕ} (hp : h.phase = .saved n) : SaveMove h .record
      { h.setLedger (h.disk.ledger.write h.disk.sessionId
          (measureWorkspace h.disk.workspace).1 (measureWorkspace h.disk.workspace).2
          n) with phase := .idle }
  | store (measured : List (Str × ℕ × ℕ)) : SaveMove h (.store measured)
      (h.setLedger (h.disk.ledger.reconcile measured))

theorem saveAct_move (h : SaveHost) (a : SaveAction) : SaveMove h a (saveAct h a) := by
  cases a with
  | save relPath content =>
      simp only [saveAct]
      cases hp : h.phase with
      | idle =>
          dsimp only
          split_ifs
          · exact .wait
          cases hadmit : admitWrite h.disk relPath content with
          | mk result disk' =>
              have hsame : (⟨h.disk, .idle⟩ : SaveHost) = h := by rw [← hp]
              rcases admitWrite_cases hadmit with
                ⟨rfl, e, rfl⟩ | ⟨path, n, rfl, ⟨e, rfl⟩ | ⟨encoded, rfl, rfl, hadm⟩⟩
              · dsimp only
                rw [hsame]
                exact .wait
              · exact .refuse path n hp
              · exact .allow hp hadm
      | admitted | reserved | saved => exact .wait
  | reserve cap =>
      simp only [saveAct]
      cases hp : h.phase with
      | admitted path encoded =>
          dsimp only
          split
          · exact .noRoom hp
          · rename_i l hl
            exact .reserve hp hl
      | idle | reserved | saved => exact .wait
  | write =>
      simp only [saveAct]
      cases hp : h.phase with
      | reserved path encoded =>
          dsimp only
          split
          · exact .writeFails hp
          · rename_i ws hwrite
            exact .write hp hwrite
      | idle | admitted | saved => exact .wait
  | record =>
      simp only [saveAct]
      cases hp : h.phase with
      | saved n => exact .record hp
      | idle | admitted | reserved => exact .wait
  | store measured => exact .store measured

/-! ## Paths -/

def SavePhase.isSaved : SavePhase → Bool
  | .saved _ => true
  | _ => false

/-- The file a save is about to write. -/
def SavePhase.pending : SavePhase → Option (List Str × Bytes)
  | .admitted path encoded | .reserved path encoded => some (path, encoded)
  | .idle | .saved _ => none

/-- What holds whatever is saved and stored: a valid workspace, and names without
a backslash on the way to it. -/
structure PathInv (h : SaveHost) : Prop where
  valid : ValidTree h.disk.workspace
  pending : ∀ path encoded, h.phase.pending = some (path, encoded) →
    ∀ n ∈ path, IsComponent n ∧ backslash ∉ n

theorem Contained.backslash_notMem {workspace : Tree} {relPath : Str}
    {path : List Str} (h : Contained workspace relPath path) :
    ∀ n ∈ path, backslash ∉ n := by
  intro n hn hmem
  have hwalk : n ∈ walkedParts relPath := h.path_eq ▸ hn
  have hsplit := (List.mem_filter.mp hwalk).1
  exact backslash_notMem_replaceBackslash relPath
    ((isInfix_of_mem_split hsplit).subset hmem)

section Steps

variable {h h' : SaveHost} {a : SaveAction}

theorem SaveMove.pathInv (hmove : SaveMove h a h') (hi : PathInv h) : PathInv h' := by
  have hnone : ∀ path encoded, (none : Option (List Str × Bytes)) =
      some (path, encoded) → ∀ n ∈ path, IsComponent n ∧ backslash ∉ n := by
    intro path encoded heq
    simp at heq
  cases hmove with
  | wait => exact hi
  | refuse | noRoom | writeFails | record => exact ⟨hi.valid, hnone⟩
  | allow hp hadm =>
      refine ⟨hi.valid, fun p b heq n hn => ?_⟩
      obtain ⟨rfl, rfl⟩ := Prod.mk.inj (Option.some.inj heq)
      exact ⟨hadm.contained.isComponent n hn, hadm.contained.backslash_notMem n hn⟩
  | reserve hp hl =>
      refine ⟨hi.valid, fun p b heq => hi.pending p b ?_⟩
      rw [hp]
      exact heq
  | write hp hwrite =>
      exact ⟨hi.valid.write (fun n hn => (hi.pending _ _ (by rw [hp]; rfl) n hn).1)
        hwrite, hnone⟩
  | store measured => exact ⟨hi.valid, hi.pending⟩

/-- The condition that a save writes only paths of a kind. -/
def WritesAt (P : List Str → Bytes → Prop) (h : SaveHost) : SaveAction → Prop
  | .write => ∀ path encoded t, h.phase = .reserved path encoded →
      h.disk.workspace.write path encoded = some t → P path encoded
  | _ => True

theorem SaveMove.filesAt {P : List Str → Bytes → Prop} (hmove : SaveMove h a h')
    (hi : h.disk.workspace.FilesAt P) (hcond : WritesAt P h a) :
    h'.disk.workspace.FilesAt P := by
  cases hmove with
  | write hp hwrite => exact hi.write hwrite (hcond _ _ _ hp hwrite)
  | wait | refuse | allow | noRoom | reserve | writeFails | record | store => exact hi

/-! ## The quota -/

/-- A session whose workspace is within the source quota and whose ledger entry,
between a write and its record apart, does not fall below it. -/
structure QuotaInv (h : SaveHost) : Prop where
  paths : PathInv h
  key : h.disk.sessionId ≠ reservationKey
  no_ledger_file : h.disk.workspace.FilesAt fun p _ => p ≠ [ledgerName]
  within : WithinQuota h.disk.workspace
  unreserved : h.disk.ledger.Unreserved h.disk.sessionId
  covered : h.phase.isSaved = false →
    Covers h.disk.ledger h.disk.sessionId h.disk.workspace
  room : ∀ path encoded, h.phase.pending = some (path, encoded) →
    (measureWorkspace h.disk.workspace).1 + encoded.length ≤
        sourceBytes + ((h.disk.workspace.fileAt path).getD []).length ∧
      (measureWorkspace h.disk.workspace).2 +
        (if (h.disk.workspace.fileAt path).isSome then 0 else 1) ≤ sourceFileLimit

/-- No save writes a file in the place of the ledger database at the root, and no
refresh stores less than the workspace holds, unless a save is about to record
it. -/
def QuotaCond (h : SaveHost) : SaveAction → Prop
  | .store measured => h.phase.isSaved = false →
      ∀ b f, measured.lookup h.disk.sessionId = some (b, f) →
        (measureWorkspace h.disk.workspace).1 ≤ b ∧
          (measureWorkspace h.disk.workspace).2 ≤ f
  | a => WritesAt (fun p _ => p ≠ [ledgerName]) h a

theorem reserveCapacity_ok {cap : Capacity} {l l' : Ledger} {n : ℕ}
    (h : reserveCapacity cap l n = .ok l') {key : Str} (hkey : key ≠ reservationKey) :
    l'.row key = l.row key ∧ (l.Unreserved key → l'.Unreserved key) := by
  unfold reserveCapacity at h
  split at h
  · rename_i l₁ hres
    obtain rfl := Except.ok.inj h
    exact ⟨Ledger.row_reserve hres hkey, fun hl => hl.reserve hres hkey⟩
  · simp at h

theorem QuotaCond.writesAt (hcond : QuotaCond h a) :
    WritesAt (fun p _ => p ≠ [ledgerName]) h a := by
  cases a with
  | store measured => trivial
  | save | reserve | write | record => exact hcond

/-- Every step keeps the workspace within the quota. -/
theorem SaveMove.quotaInv (hmove : SaveMove h a h') (hi : QuotaInv h)
    (hcond : QuotaCond h a) : QuotaInv h' := by
  have hpaths := hmove.pathInv hi.paths
  have hfiles := hmove.filesAt hi.no_ledger_file hcond.writesAt
  cases hmove with
  | wait => exact hi
  | refuse path n hp =>
      have hcov := hi.covered (by rw [hp]; rfl)
      exact ⟨hpaths, hi.key, hfiles, hi.within, unreserved_checkUpload hi.unreserved _ _,
        fun _ => hcov.checkUpload path n, fun p b heq => by simp [SavePhase.pending] at heq⟩
  | allow hp hadm =>
      have hcov := hi.covered (by rw [hp]; rfl)
      refine ⟨hpaths, hi.key, hfiles, hi.within, unreserved_checkUpload hi.unreserved _ _,
        fun _ => hcov.checkUpload _ _, fun p b heq => ?_⟩
      obtain ⟨rfl, rfl⟩ := Prod.mk.inj (Option.some.inj heq)
      exact checkUpload_ok hcov hadm.quota
  | noRoom hp =>
      exact ⟨hpaths, hi.key, hfiles, hi.within, hi.unreserved,
        fun _ => hi.covered (by rw [hp]; rfl),
        fun p b heq => by simp [SavePhase.pending] at heq⟩
  | reserve hp hl =>
      obtain ⟨hrow, hunres⟩ := reserveCapacity_ok hl hi.key
      refine ⟨hpaths, hi.key, hfiles, hi.within, hunres hi.unreserved,
        fun _ => (hi.covered (by rw [hp]; rfl)).of_row_eq hrow,
        fun p b heq => hi.room p b ?_⟩
      rw [hp]
      exact heq
  | writeFails hp =>
      exact ⟨hpaths, hi.key, hfiles, hi.within, hi.unreserved.release _ hi.key,
        fun _ => (hi.covered (by rw [hp]; rfl)).of_row_eq
          (Ledger.row_release _ _ hi.key),
        fun p b heq => by simp [SavePhase.pending] at heq⟩
  | write hp hwrite =>
      exact ⟨hpaths, hi.key, hfiles, hi.within.write hi.paths.valid.sorted hwrite
          (hcond _ _ _ hp hwrite) (hi.room _ _ (by rw [hp]; rfl)), hi.unreserved,
        fun hsaved => by simp [SavePhase.isSaved] at hsaved,
        fun p b heq => by simp [SavePhase.pending] at heq⟩
  | record hp =>
      exact ⟨hpaths, hi.key, hfiles, hi.within, hi.unreserved.write _ _ _ _,
        fun _ => covers_write _ _ _ _,
        fun p b heq => by simp [SavePhase.pending] at heq⟩
  | store measured =>
      exact ⟨hpaths, hi.key, hfiles, hi.within, hi.unreserved.reconcile measured,
        fun hsaved => Covers.reconcile hi.unreserved (hcond hsaved), hi.room⟩

end Steps

end PromptCode
