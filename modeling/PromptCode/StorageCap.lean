import PromptCode.ArtifactAccounting
import PromptCode.SaveRefresh
import PromptCode.StorageReservations

/-!
# The global storage cap

Bodies of `storage_capacity` in flight on one storage root: each reserves what its caller
expects to add, and records what it measures later.  One step is one ledger call with the
disk changes that lead to it; a session has one body at a time, by its upload lock, or
because nobody knows it before it is created.
-/

namespace PromptCode

open Py FileTree Transition

/-- The settings that `storage_capacity` reads. -/
structure StorageSettings where
  maxBytes : ℕ
  minFreeBytes : ℕ
  maxBytes_pos : 0 < maxBytes

def StorageSettings.capacity (env : StorageSettings) (freeDiskBytes : ℕ) : Capacity :=
  ⟨env.maxBytes, env.minFreeBytes, freeDiskBytes⟩

/-- How far a body has come.  A write is checked before it reserves; a creation has
settled before it records the starter baseline. -/
inductive StoragePhase where
  | creating (src : ChallengeDir)
  | starting (src : ChallengeDir)
  | checked (path : List Str) (encoded : Bytes)
  | saving (path : List Str) (encoded : Bytes)
  | freezing (m : Manifest)
  | published (m : Manifest) (reused : Bool)
  | marked (m : Manifest) (reused : Bool)

namespace StoragePhase

/-- What the body has reserved and not settled. -/
def reservation : StoragePhase → ℕ
  | creating src => src.treeSourceBytes
  | starting _ | checked _ _ => 0
  | saving _ encoded => encoded.length
  | freezing m | published m _ | marked m _ => requiredBytes m

/-- What the next step of the body settles. -/
def settled : StoragePhase → ℕ
  | creating src => src.treeSourceBytes
  | saving _ encoded => encoded.length
  | marked m _ => requiredBytes m
  | _ => 0

end StoragePhase

structure StorageBodies where
  root : ArtifactRoot
  bodies : List (Str × StoragePhase)

inductive CapAction where
  | create (free : ℕ) (id : SessionName) (src : ChallengeDir)
  | write (id : SessionName) (relPath content : Str)
  | freeze (free : ℕ) (id : SessionName)
  /-- The body of the session takes its next step. -/
  | advance (free : ℕ) (id : SessionName)
  | throw (id : SessionName)
  /-- A refresh stores what its walk has found. -/
  | refresh (measured : List (Str × ℕ × ℕ))

namespace StorageBodies

def start : StorageBodies := ⟨.start, []⟩

variable (h : StorageBodies)

def phase (id : SessionName) : Option StoragePhase := h.bodies.lookup id.text

/-- The directory of a session; a missing one is made by the first write. -/
def workspace (id : SessionName) : Tree := (h.root.trees.lookup id.text).getD .nil

def setLedger (l : Ledger) : StorageBodies := { h with root := { h.root with ledger := l } }

def setPhase (id : SessionName) (p : StoragePhase) : StorageBodies :=
  { h with bodies := (id.text, p) :: h.bodies.filter fun e => e.1 ≠ id.text }

def endBody (id : SessionName) : StorageBodies :=
  { h with bodies := h.bodies.filter fun e => e.1 ≠ id.text }

/-- The reservation of a body, or HTTP 507. -/
def enter (cap : Capacity) (id : SessionName) (p : StoragePhase) : StorageBodies :=
  match reserveCapacity cap h.root.ledger p.reservation with
  | .error _ => h.endBody id
  | .ok l => (h.setLedger l).setPhase id p

/-- An exception leaves the body; a creation removes its directories. -/
def throw (id : SessionName) (p : StoragePhase) : StorageBodies :=
  let root := match p with
    | .creating _ => (h.root.rmtree id.text).rmtree id.starter
    | _ => h.root
  ({ h with root := root }.setLedger
    (h.root.ledger.release reservationKey p.reservation)).endBody id

def recordCreated (id : SessionName) (src : ChallengeDir) : StorageBodies :=
  let copy := src.copyCandidateTree
  let usage := measureWorkspace copy
  ({ h with root := (h.root.put id.text copy).put id.starter copy }.setLedger
    (h.root.ledger.write id.text (usage.1 + usage.1) (usage.2 + usage.2)
      src.treeSourceBytes)).setPhase id (.starting src)

def recordStarter (id : SessionName) (src : ChallengeDir) : StorageBodies :=
  let usage := measureWorkspace src.copyCandidateTree
  (h.setLedger (h.root.ledger.write id.starter usage.1 usage.2 0)).endBody id

def recordSaved (id : SessionName) (path : List Str) (encoded : Bytes) : StorageBodies :=
  match (h.workspace id).write path encoded with
  | none => h.throw id (.saving path encoded)
  | some workspace =>
      let usage := measureWorkspace workspace
      ({ h with root := h.root.put id.text workspace }.setLedger
        (h.root.ledger.write id.text usage.1 usage.2 encoded.length)).endBody id

def publishCopy (id : SessionName) (m : Manifest) : StorageBodies :=
  match manifestInto (h.workspace id) with
  | .error _ => h.throw id (.freezing m)
  | .ok (copied, source) =>
      if copied ≠ m then h.throw id (.freezing m)
      else
        match h.root.publish id (manifestDigest m) ⟨source, manifestJson m⟩ with
        | none => h.throw id (.freezing m)
        | some root =>
            { h with root := root }.setPhase id
              (.published m (h.root.snapshots.lookup (id.text, manifestDigest m)).isSome)

def mark (id : SessionName) (m : Manifest) (reused : Bool) : StorageBodies :=
  { h with root := { h.root with
    marker := Function.update h.root.marker id.text (some (manifestDigest m)) } }.setPhase id
      (.marked m reused)

/-- The snapshot directory of a session and a digest. -/
def snapshotTree (id : SessionName) (digest : Str) : Tree :=
  ((h.root.snapshots.lookup (id.text, digest)).map Snapshot.tree).getD .nil

def recordFrozen (id : SessionName) (m : Manifest) : StorageBodies :=
  let usage := measureWorkspace (h.snapshotTree id (manifestDigest m))
  (h.setLedger (h.root.ledger.write (manifestDigest m) usage.1 usage.2
    (requiredBytes m))).endBody id

end StorageBodies

/-- One step; a session waits for the body that it has in flight. -/
def capAct (env : StorageSettings) (h : StorageBodies) : CapAction → StorageBodies
  | .create free id src =>
      if (h.phase id).isSome then h else h.enter (env.capacity free) id (.creating src)
  | .write id relPath content =>
      if (h.phase id).isSome ∨ (h.root.marker id.text).isSome then h
      else
        match admitWrite ⟨id.text, h.workspace id, none, h.root.ledger⟩ relPath content with
        | (.error _, disk) => h.setLedger disk.ledger
        | (.ok (path, encoded), disk) =>
            (h.setLedger disk.ledger).setPhase id (.checked path encoded)
  | .freeze free id =>
      if (h.phase id).isSome ∨ (h.root.marker id.text).isSome then h
      else
        match h.root.trees.lookup id.text with
        | none => h
        | some workspace =>
            match manifest workspace with
            | .error _ => h
            | .ok m =>
                if m = [] then h else h.enter (env.capacity free) id (.freezing m)
  | .advance free id =>
      match h.phase id with
      | none => h
      | some (.creating src) => h.recordCreated id src
      | some (.starting src) => h.recordStarter id src
      | some (.checked path encoded) =>
          h.enter (env.capacity free) id (.saving path encoded)
      | some (.saving path encoded) => h.recordSaved id path encoded
      | some (.freezing m) => h.publishCopy id m
      | some (.published m reused) => h.mark id m reused
      | some (.marked m _) => h.recordFrozen id m
  | .throw id =>
      match h.phase id with
      | none => h
      | some p => h.throw id p
  | .refresh measured =>
      if (measured.map Prod.fst).Nodup then h.setLedger (h.root.ledger.reconcile measured)
      else h

def Ledger.load (l : Ledger) : ℕ := l.totalBytes + l.reservedBytes

def Capped (env : StorageSettings) (h : StorageBodies) : Prop :=
  h.root.ledger.load ≤ env.maxBytes

/-- What the step settles. -/
def settledBy (h : StorageBodies) : CapAction → ℕ
  | .advance _ id => ((h.phase id).map StoragePhase.settled).getD 0
  | _ => 0

/-- The step records no more than it settles and than was recorded. -/
def WithinReservation (env : StorageSettings) (h : StorageBodies) (a : CapAction) : Prop :=
  (∀ measured, a ≠ .refresh measured) → ∀ k,
    (capAct env h a).root.ledger.recorded k ≤ h.root.ledger.recorded k + settledBy h a

/-- The checks of `_write_file_locked` before `check_upload`. -/
def writeTarget (workspace : Tree) (relPath content : Str) :
    Except PyErr (List Str × Bytes) :=
  if 16 < (PurePath.parse relPath).parts.length then .error (.value "File path too deep")
  else if isBlockedPath relPath || isFrozenPath relPath then
    .error (.permission "File not available")
  else
    match utf8Encode content with
    | none => .error .unicodeEncode
    | some encoded =>
        if maxFileBytes < encoded.length then
          .error (.value "File too large for editor")
        else (containedFile workspace relPath).map fun path => (path, encoded)

/-- A save that goes through finds its workspace recorded, up to the bytes of the file that
it replaces; where nothing is counted, up to its own. -/
def SaveCovered (h : StorageBodies) (id : SessionName) (path : List Str) (encoded : Bytes) :
    Prop :=
  ((h.workspace id).write path encoded).isSome →
    (measureWorkspace (h.workspace id)).1 ≤ h.root.ledger.recorded id.text +
      if isCounted path then (((h.workspace id).fileAt path).getD []).length
      else encoded.length

/-- A creation finds both of its entries recorded with what it copies, a write finds its
workspace recorded, a snapshot that is met again is no larger than what was reserved, and
what a refresh has found leaves room for the reservations that the rows hold. -/
def EstimateDominates (env : StorageSettings) (h : StorageBodies) : CapAction → Prop
  | .create _ _ _ | .freeze _ _ | .throw _ => True
  | .write id relPath content =>
      h.phase id = none → h.root.marker id.text = none →
      (writeTarget (h.workspace id) relPath content).isOk →
      (h.root.ledger.row id.text).isSome ∨ (measureWorkspace (h.workspace id)).1 = 0
  | .advance _ id =>
      match h.phase id with
      | some (.creating src) => src.treeSourceBytes ≤ h.root.ledger.recorded id.text
      | some (.starting src) => src.treeSourceBytes ≤ h.root.ledger.recorded id.starter
      | some (.saving path encoded) => SaveCovered h id path encoded
      | some (.marked m reused) => reused = true →
          (measureWorkspace (h.snapshotTree id (manifestDigest m))).1 ≤
            h.root.ledger.recorded (manifestDigest m) + requiredBytes m
      | _ => True
  | .refresh measured =>
      (measured.map Prod.fst).Nodup →
      (measured.map fun m => m.2.1).sum + h.root.ledger.rowSum UsageRow.reservedBytes ≤
        env.maxBytes

/-! ## The ledger -/

namespace Ledger

/-- The ledger holds at least some outstanding reservations, in the global row and in the
row of the reservations. -/
structure Holds (l : Ledger) (n : ℕ) : Prop where
  totalled : l.Totalled
  unreserved : ∀ k ≠ reservationKey, l.Unreserved k
  reserved : n ≤ l.reservedBytes
  rows : n ≤ l.rowSum UsageRow.reservedBytes

variable {l l' : Ledger} {n wanted : ℕ}

theorem holds_empty : empty.Holds 0 :=
  ⟨totalled_empty, fun _ _ _ he => (nomatch he), le_rfl, le_rfl⟩

theorem Holds.reserve {cap : Capacity} (h : l.Holds n)
    (hreserve : reserveCapacity cap l wanted = .ok l') :
    l'.Holds (wanted + n) ∧ (cap.storageMaxBytes ≠ 0 → l'.load ≤ cap.storageMaxBytes) ∧
      ∀ k, l'.recorded k = l.recorded k := by
  rw [reserveCapacity] at hreserve
  split at hreserve
  · rename_i l'' hsome
    obtain rfl := Except.ok.inj hreserve
    have hreserved := reserve_eq_some hsome
    refine ⟨⟨h.totalled.reserve hsome, fun k hk => (h.unreserved k hk).reserve hsome hk,
      ?_, ?_⟩, fun hmax => ?_, fun k => recorded_reserve hsome k⟩
    · rw [hreserved.reservedBytes, Nat.add_comm]
      exact Nat.add_le_add_right h.reserved wanted
    · rw [hreserved.rowReserved h.totalled.keys, Nat.add_comm]
      exact Nat.add_le_add_right h.rows wanted
    · have hwithin := hreserved.within hmax
      rw [load, hreserved.totalBytes, hreserved.reservedBytes, ← Nat.add_assoc]
      exact hwithin
  · cases hreserve

/-- A write settles its reservation: the load grows by what it measures beyond that and
what was recorded. -/
theorem Holds.write {settle : ℕ} (h : l.Holds (settle + n)) (entry : Str)
    (measured files : ℕ) :
    (l.write entry measured files settle).Holds n ∧
      (l.write entry measured files settle).load + (l.recorded entry + settle) =
        l.load + measured := by
  obtain ⟨htotalled, htotal⟩ := h.totalled.write entry measured files settle
  obtain ⟨-, hreserved⟩ := write_totals l entry measured files settle
  have hbefore := h.reserved
  refine ⟨⟨htotalled, fun k hk => (h.unreserved k hk).write entry measured files settle, ?_, ?_⟩,
    ?_⟩
  · omega
  · rw [rowSum_reserved_write h.totalled.keys]
    exact (Nat.le_add_left n settle).trans h.rows
  · rw [load, load]
    omega

theorem Holds.release (h : l.Holds (wanted + n)) :
    (l.release reservationKey wanted).Holds n ∧
      (l.release reservationKey wanted).load ≤ l.load := by
  obtain ⟨htotal, hreserved⟩ := release_totals l reservationKey wanted
  have hrow := h.totalled.keys.reserved_row h.unreserved
  have hrows := h.rows
  have hbefore := h.reserved
  have hsum := rowSum_reserved_release (k := reservationKey) h.totalled.keys wanted
    (by omega)
  refine ⟨⟨h.totalled.release .., fun k hk => (h.unreserved k hk).release _ hk, ?_, ?_⟩, ?_⟩
  · omega
  · omega
  · rw [load, load]
    omega

theorem Holds.reconcile (h : l.Holds n) {measured : List (Str × ℕ × ℕ)}
    (hm : (measured.map Prod.fst).Nodup) : (l.reconcile measured).Holds n ∧
      (l.reconcile measured).load =
        (measured.map fun m => m.2.1).sum + l.rowSum UsageRow.reservedBytes := by
  have hrows := rowSum_reserved_reconcile h.totalled.keys hm
  have hglobal : (l.reconcile measured).reservedBytes =
      (l.reconcile measured).rowSum UsageRow.reservedBytes := rfl
  refine ⟨⟨h.totalled.reconcile hm, fun k hk => (h.unreserved k hk).reconcile measured, ?_,
    ?_⟩, ?_⟩
  · rw [hglobal, hrows]
    exact h.rows
  · rw [hrows]
    exact h.rows
  · rw [load, hglobal, hrows]
    rfl

theorem recorded_write_le_iff (l : Ledger) (entry : Str) (measured files settle : ℕ) :
    (∀ k, (l.write entry measured files settle).recorded k ≤ l.recorded k + settle) ↔
      measured ≤ l.recorded entry + settle := by
  refine ⟨fun h => ?_, fun h k => ?_⟩
  · have hentry := h entry
    rwa [recorded_write, if_pos rfl] at hentry
  · rw [recorded_write]
    split_ifs with hk
    · rw [hk]
      exact h
    · exact Nat.le_add_right ..

end Ledger

/-! ## The invariant -/

/-- What a phase knows about the disk. -/
def StoragePhase.Ok (root : ArtifactRoot) (id : Str) : StoragePhase → Prop
  | checked path _ | saving path _ => ∀ n ∈ path, IsComponent n
  | published m false | marked m false =>
      ∃ snap, root.snapshots.lookup (id, manifestDigest m) = some snap ∧
        (measureWorkspace snap.tree).1 ≤ requiredBytes m
  | _ => True

def reservedBy (bodies : List (Str × StoragePhase)) : ℕ :=
  (bodies.map fun e => e.2.reservation).sum

structure CapOk (env : StorageSettings) (h : StorageBodies) : Prop where
  holds : h.root.ledger.Holds (reservedBy h.bodies)
  keys : (h.bodies.map Prod.fst).Nodup
  valid : ∀ e ∈ h.root.trees, ValidTree e.2
  phases : ∀ e ∈ h.bodies, e.2.Ok h.root e.1
  capped : Capped env h

/-- All snapshots of the one root are in the other. -/
def KeepsSnapshots (root root' : ArtifactRoot) : Prop :=
  ∀ key snap, root.snapshots.lookup key = some snap → root'.snapshots.lookup key = some snap

section

variable {env : StorageSettings} {h : StorageBodies} {id : SessionName} {p : StoragePhase}
  {root : ArtifactRoot}

theorem capOk_start (env : StorageSettings) : CapOk env .start where
  holds := Ledger.holds_empty
  keys := List.nodup_nil
  valid := nofun
  phases := nofun
  capped := Nat.zero_le _

theorem StoragePhase.Ok.mono {key : Str} (hp : p.Ok root key) {root' : ArtifactRoot}
    (hkeep : KeepsSnapshots root root') : p.Ok root' key := by
  rcases p with src | src | ⟨path, encoded⟩ | ⟨path, encoded⟩ | m | ⟨m, _ | _⟩ | ⟨m, _ | _⟩
  case published.false | marked.false =>
    obtain ⟨snap, hlookup, hsize⟩ := hp
    exact ⟨snap, hkeep _ _ hlookup, hsize⟩
  all_goals exact hp

/-- The bodies of the other sessions. -/
def StorageBodies.others (h : StorageBodies) (id : SessionName) : ℕ :=
  reservedBy (h.bodies.filter fun e => e.1 ≠ id.text)

theorem CapOk.reservedBy_eq (hok : CapOk env h) (id : SessionName) :
    reservedBy h.bodies = ((h.phase id).map StoragePhase.reservation).getD 0 + h.others id := by
  have hsplit := sum_filter_ne (k := id.text) hok.keys StoragePhase.reservation
  rw [Nat.add_comm]
  exact hsplit.symm

theorem CapOk.holds_phase (hok : CapOk env h) (hphase : h.phase id = some p) :
    h.root.ledger.Holds (p.reservation + h.others id) := by
  have hholds := hok.holds
  rw [hok.reservedBy_eq id, hphase] at hholds
  exact hholds

theorem CapOk.holds_idle (hok : CapOk env h) (hphase : h.phase id = none) :
    h.root.ledger.Holds (h.others id) := by
  have hholds := hok.holds
  rw [hok.reservedBy_eq id, hphase, Option.map_none, Option.getD_none, Nat.zero_add] at hholds
  exact hholds

theorem CapOk.phase_ok (hok : CapOk env h) (hphase : h.phase id = some p) :
    p.Ok h.root id.text := by
  obtain ⟨l₁, l₂, hsplit, -⟩ := List.lookup_eq_some_iff.mp hphase
  exact hok.phases (id.text, p) (by simp [hsplit])

/-- A step ends the body of its session. -/
theorem CapOk.endBody (hok : CapOk env h) (root : ArtifactRoot)
    (hholds : root.ledger.Holds (h.others id)) (hload : root.ledger.load ≤ env.maxBytes) (hvalid : ∀ e ∈ root.trees, ValidTree e.2)
    (hkeep : KeepsSnapshots h.root root) :
    CapOk env ({ h with root := root }.endBody id) where
  holds := hholds
  keys := hok.keys.sublist (List.filter_sublist.map _)
  valid := hvalid
  phases := fun e he => (hok.phases e (List.mem_of_mem_filter he)).mono hkeep
  capped := hload

/-- A step takes the body of its session to another phase. -/
theorem CapOk.setPhase (hok : CapOk env h) (root : ArtifactRoot)
    (hholds : root.ledger.Holds (p.reservation + h.others id))
    (hload : root.ledger.load ≤ env.maxBytes) (hvalid : ∀ e ∈ root.trees, ValidTree e.2)
    (hkeep : KeepsSnapshots h.root root) (hp : p.Ok root id.text) :
    CapOk env ({ h with root := root }.setPhase id p) where
  holds := hholds
  keys := by
    refine List.nodup_cons.mpr ⟨?_, hok.keys.sublist (List.filter_sublist.map _)⟩
    intro hmem
    obtain ⟨e, he, heq⟩ := List.mem_map.mp hmem
    simp [heq] at he
  valid := hvalid
  phases := by
    intro e he
    rcases List.mem_cons.mp he with rfl | he
    · exact hp
    · exact (hok.phases e (List.mem_of_mem_filter he)).mono hkeep
  capped := hload

theorem keepsSnapshots_self (root : ArtifactRoot) : KeepsSnapshots root root :=
  fun _ _ hlookup => hlookup

theorem CapOk.valid_workspace (hok : CapOk env h) (id : SessionName) :
    ValidTree (h.workspace id) := by
  rw [StorageBodies.workspace]
  rcases hlookup : h.root.trees.lookup id.text with _ | t
  · exact validTree_nil
  · exact hok.valid _ (mem_trees_of_lookup hlookup)

theorem valid_put {name : Str} {t : Tree} (hvalid : ∀ e ∈ root.trees, ValidTree e.2)
    (ht : ValidTree t) : ∀ e ∈ (root.put name t).trees, ValidTree e.2 := by
  intro e he
  rcases List.mem_cons.mp he with rfl | he
  · exact ht
  · exact hvalid e (List.mem_of_mem_filter he)

/-! ## The steps -/

theorem CapOk.enter (hok : CapOk env h) (free : ℕ)
    (hzero : ((h.phase id).map StoragePhase.reservation).getD 0 = 0)
    (hp : p.Ok h.root id.text) :
    CapOk env (h.enter (env.capacity free) id p) ∧
      ∀ k, (h.enter (env.capacity free) id p).root.ledger.recorded k =
        h.root.ledger.recorded k := by
  have hholds := hok.holds
  rw [hok.reservedBy_eq id, hzero, Nat.zero_add] at hholds
  rw [StorageBodies.enter]
  split
  · exact ⟨hok.endBody _ hholds hok.capped hok.valid (keepsSnapshots_self _), fun _ => rfl⟩
  · rename_i l hreserve
    obtain ⟨hreserved, hload, hrecorded⟩ := hholds.reserve hreserve
    exact ⟨hok.setPhase { h.root with ledger := l } hreserved
      (hload (Nat.ne_of_gt env.maxBytes_pos)) hok.valid (keepsSnapshots_self _)
      (hp.mono (keepsSnapshots_self _)), hrecorded⟩

theorem CapOk.throw (hok : CapOk env h) (hphase : h.phase id = some p) :
    CapOk env (h.throw id p) ∧
      ∀ k, (h.throw id p).root.ledger.recorded k = h.root.ledger.recorded k := by
  obtain ⟨hholds, hload⟩ := (hok.holds_phase hphase).release
  refine ⟨?_, fun k => Ledger.recorded_release _ _ _ k⟩
  have hend : ∀ root : ArtifactRoot, (∀ e ∈ root.trees, ValidTree e.2) →
      KeepsSnapshots h.root root →
      CapOk env (({ h with root := root }.setLedger
        (h.root.ledger.release reservationKey p.reservation)).endBody id) := by
    intro root hvalid hkeep
    exact hok.endBody
      { root with ledger := h.root.ledger.release reservationKey p.reservation } hholds
      (hload.trans hok.capped) hvalid hkeep
  rcases p with src | src | ⟨path, encoded⟩ | ⟨path, encoded⟩ | m | ⟨m, reused⟩ | ⟨m, reused⟩
  case creating =>
    refine hend _ (fun e he => ?_) (keepsSnapshots_self _)
    exact hok.valid e (List.mem_of_mem_filter (List.mem_of_mem_filter he))
  all_goals exact hend _ hok.valid (keepsSnapshots_self _)

/-- A write to the ledger that is covered keeps the cap. -/
theorem CapOk.write_covered (hok : CapOk env h) {settle n : ℕ}
    (hholds : h.root.ledger.Holds (settle + n)) {entry : Str} {measured : ℕ}
    (hcovered : measured ≤ h.root.ledger.recorded entry + settle) (files : ℕ) :
    (h.root.ledger.write entry measured files settle).Holds n ∧
      (h.root.ledger.write entry measured files settle).load ≤ env.maxBytes := by
  obtain ⟨hafter, hload⟩ := hholds.write entry measured files
  have hcapped : h.root.ledger.load ≤ env.maxBytes := hok.capped
  exact ⟨hafter, by omega⟩

theorem CapOk.recordCreated (hok : CapOk env h) {src : ChallengeDir}
    (hphase : h.phase id = some (.creating src)) :
    (src.treeSourceBytes ≤ h.root.ledger.recorded id.text →
      CapOk env (h.recordCreated id src)) ∧
    ((∀ k, (h.recordCreated id src).root.ledger.recorded k ≤
        h.root.ledger.recorded k + src.treeSourceBytes) ↔
      src.treeSourceBytes ≤ h.root.ledger.recorded id.text) := by
  have hvalid := src.copyCandidateTree_spec.1
  refine ⟨fun hcovered => ?_, ?_⟩
  · obtain ⟨hholds, hload⟩ := hok.write_covered (hok.holds_phase hphase)
      (Nat.add_le_add_right hcovered src.treeSourceBytes)
      ((measureWorkspace src.copyCandidateTree).2 +
        (measureWorkspace src.copyCandidateTree).2)
    rw [StorageBodies.recordCreated, src.measureWorkspace_copy]
    refine hok.setPhase { (h.root.put id.text src.copyCandidateTree).put id.starter
      src.copyCandidateTree with ledger := _ } ?_ hload
      (valid_put (valid_put hok.valid hvalid) hvalid) (keepsSnapshots_self _) trivial
    rw [StoragePhase.reservation, Nat.zero_add]
    exact hholds
  · rw [StorageBodies.recordCreated]
    refine (Ledger.recorded_write_le_iff ..).trans ?_
    rw [src.measureWorkspace_copy]
    omega

theorem CapOk.recordStarter (hok : CapOk env h) {src : ChallengeDir}
    (hphase : h.phase id = some (.starting src)) :
    (src.treeSourceBytes ≤ h.root.ledger.recorded id.starter →
      CapOk env (h.recordStarter id src)) ∧
    ((∀ k, (h.recordStarter id src).root.ledger.recorded k ≤
        h.root.ledger.recorded k + 0) ↔
      src.treeSourceBytes ≤ h.root.ledger.recorded id.starter) := by
  refine ⟨fun hcovered => ?_, ?_⟩
  · obtain ⟨hholds, hload⟩ := hok.write_covered (hok.holds_phase hphase)
      (hcovered.trans (Nat.le_add_right _ 0)) (measureWorkspace src.copyCandidateTree).2
    rw [StorageBodies.recordStarter, src.measureWorkspace_copy]
    exact hok.endBody { h.root with ledger := _ } hholds hload hok.valid
      (keepsSnapshots_self _)
  · rw [StorageBodies.recordStarter]
    refine (Ledger.recorded_write_le_iff ..).trans ?_
    rw [src.measureWorkspace_copy, Nat.add_zero]

theorem CapOk.recordSaved (hok : CapOk env h) {path : List Str} {encoded : Bytes}
    (hphase : h.phase id = some (.saving path encoded)) :
    (SaveCovered h id path encoded → CapOk env (h.recordSaved id path encoded)) ∧
    ((∀ k, (h.recordSaved id path encoded).root.ledger.recorded k ≤
        h.root.ledger.recorded k + encoded.length) ↔ SaveCovered h id path encoded) := by
  have hvalid := hok.valid_workspace id
  rw [StorageBodies.recordSaved, SaveCovered]
  rcases hwrite : (h.workspace id).write path encoded with _ | t
  · obtain ⟨hthrow, hrecorded⟩ := hok.throw hphase
    refine ⟨fun _ => hthrow, iff_of_true (fun k => ?_) nofun⟩
    rw [hrecorded k]
    exact Nat.le_add_right ..
  · have hmeasure := measureWorkspace_write_add hvalid.sorted hwrite
    have hiff : (measureWorkspace t).1 ≤ h.root.ledger.recorded id.text + encoded.length ↔
        (measureWorkspace (h.workspace id)).1 ≤ h.root.ledger.recorded id.text +
          if isCounted path then (((h.workspace id).fileAt path).getD []).length
          else encoded.length := by
      split_ifs at hmeasure ⊢ <;> omega
    refine ⟨fun hcovered => ?_, ?_⟩
    · obtain ⟨hholds, hload⟩ := hok.write_covered (hok.holds_phase hphase)
        (hiff.mpr (hcovered rfl)) (measureWorkspace t).2
      exact hok.endBody { h.root.put id.text t with ledger := _ } hholds hload
        (valid_put hok.valid (hvalid.write (hok.phase_ok hphase) hwrite))
        (keepsSnapshots_self _)
    · refine (Ledger.recorded_write_le_iff ..).trans (hiff.trans ?_)
      exact ⟨fun hcovered _ => hcovered, fun hcovered => hcovered rfl⟩

/-- The copy is published, or the body ends. -/
theorem CapOk.publishCopy (hok : CapOk env h) {m : Manifest}
    (hphase : h.phase id = some (.freezing m)) :
    CapOk env (h.publishCopy id m) ∧
      ∀ k, (h.publishCopy id m).root.ledger.recorded k = h.root.ledger.recorded k := by
  have hthrow := hok.throw hphase
  rw [StorageBodies.publishCopy]
  split
  · exact hthrow
  · rename_i copied source hinto
    split_ifs with hcopied
    · exact hthrow
    obtain rfl := not_not.mp hcopied
    have hholds := hok.holds_phase hphase
    obtain ⟨hsorted, hsize, -⟩ := measure_frozen (hok.valid_workspace id) hinto
    have hcounted := measureWorkspace_add_uncounted hsorted
    split
    · exact hthrow
    · rename_i root hpublish
      rw [ArtifactRoot.publish] at hpublish
      rcases hlookup : h.root.snapshots.lookup (id.text, manifestDigest copied) with _ | snap
      · rw [hlookup] at hpublish
        obtain rfl := Option.some.inj hpublish
        refine ⟨hok.setPhase _ hholds hok.capped hok.valid ?_ ?_,
          fun _ => rfl⟩
        · intro key snap hkey
          have hne : key ≠ (id.text, manifestDigest copied) := by
            rintro rfl
            cases hlookup.symm.trans hkey
          rw [List.lookup_cons, beq_eq_false_iff_ne.mpr hne]
          exact hkey
        · exact ⟨_, List.lookup_cons_self, by omega⟩
      · rw [hlookup] at hpublish
        dsimp only at hpublish
        split at hpublish
        · cases hpublish
        · obtain rfl := Option.some.inj hpublish
          exact ⟨hok.setPhase _ hholds hok.capped hok.valid (keepsSnapshots_self _) trivial,
            fun _ => rfl⟩

theorem CapOk.mark (hok : CapOk env h) {m : Manifest} {reused : Bool}
    (hphase : h.phase id = some (.published m reused)) : CapOk env (h.mark id m reused) := by
  have hholds := hok.holds_phase hphase
  refine hok.setPhase { h.root with marker := _ } hholds hok.capped hok.valid
    (keepsSnapshots_self _) ?_
  have hp := hok.phase_ok hphase
  rcases reused
  · exact hp
  · trivial

/-- A fresh snapshot fits into what its freeze has reserved. -/
theorem CapOk.recordFrozen (hok : CapOk env h) {m : Manifest} {reused : Bool}
    (hphase : h.phase id = some (.marked m reused)) :
    ((reused = true → (measureWorkspace (h.snapshotTree id (manifestDigest m))).1 ≤
        h.root.ledger.recorded (manifestDigest m) + requiredBytes m) →
      CapOk env (h.recordFrozen id m)) ∧
    ((∀ k, (h.recordFrozen id m).root.ledger.recorded k ≤
        h.root.ledger.recorded k + requiredBytes m) ↔
      (reused = true → (measureWorkspace (h.snapshotTree id (manifestDigest m))).1 ≤
        h.root.ledger.recorded (manifestDigest m) + requiredBytes m)) := by
  have hfresh : reused = false →
      (measureWorkspace (h.snapshotTree id (manifestDigest m))).1 ≤
        h.root.ledger.recorded (manifestDigest m) + requiredBytes m := by
    rintro rfl
    obtain ⟨snap, hlookup, hsize⟩ := hok.phase_ok hphase
    rw [StorageBodies.snapshotTree, hlookup]
    exact hsize.trans (Nat.le_add_left ..)
  have hiff : (reused = true →
      (measureWorkspace (h.snapshotTree id (manifestDigest m))).1 ≤
        h.root.ledger.recorded (manifestDigest m) + requiredBytes m) ↔
      (measureWorkspace (h.snapshotTree id (manifestDigest m))).1 ≤
        h.root.ledger.recorded (manifestDigest m) + requiredBytes m := by
    rcases reused
    · exact iff_of_true (by simp) (hfresh rfl)
    · exact ⟨fun himp => himp rfl, fun hle _ => hle⟩
  rw [hiff]
  refine ⟨fun hcovered => ?_, Ledger.recorded_write_le_iff ..⟩
  obtain ⟨hholds, hload⟩ := hok.write_covered (hok.holds_phase hphase) hcovered
    (measureWorkspace (h.snapshotTree id (manifestDigest m))).2
  exact hok.endBody { h.root with ledger := _ } hholds hload hok.valid
    (keepsSnapshots_self _)

theorem admitWrite_eq (disk : SessionDisk) (relPath content : Str) :
    admitWrite disk relPath content =
      match writeTarget disk.workspace relPath content with
      | .error e => (.error e, disk)
      | .ok (path, encoded) =>
          match checkUpload disk.ledger disk.sessionId disk.workspace path
              encoded.length with
          | (.error e, l) => (.error e, { disk with ledger := l })
          | (.ok (), l) => (.ok (path, encoded), { disk with ledger := l }) := by
  rw [admitWrite, writeTarget]
  split_ifs
  · rfl
  · rfl
  rcases utf8Encode content with _ | encoded
  · rfl
  dsimp only
  split_ifs
  · rfl
  rcases containedFile disk.workspace relPath with e | path <;> rfl

theorem writeTarget_components {workspace : Tree} {relPath content : Str}
    {path : List Str} {encoded : Bytes}
    (htarget : writeTarget workspace relPath content = .ok (path, encoded)) :
    ∀ n ∈ path, IsComponent n := by
  rw [writeTarget] at htarget
  split_ifs at htarget
  split at htarget
  · exact nomatch htarget
  split_ifs at htarget
  rcases hcontained : containedFile workspace relPath with e | path'
  · rw [hcontained] at htarget
    exact nomatch htarget
  · rw [hcontained] at htarget
    obtain ⟨rfl, -⟩ := Prod.mk.inj (Except.ok.inj htarget)
    exact (containedFile_ok hcontained).isComponent

theorem CapOk.setLedger (hok : CapOk env h) {l : Ledger}
    (hholds : l.Holds (reservedBy h.bodies)) (hload : l.load ≤ env.maxBytes) :
    CapOk env (h.setLedger l) :=
  ⟨hholds, hok.keys, hok.valid, fun e he => (hok.phases e he).mono (keepsSnapshots_self _),
    hload⟩

/-- `check_upload` records a workspace that the ledger does not know, and reserves nothing
for it. -/
theorem CapOk.checkUpload (hok : CapOk env h) (id : SessionName) (path : List Str) (n : ℕ) :
    ((h.root.ledger.row id.text).isSome ∨ (measureWorkspace (h.workspace id)).1 = 0 →
      (PromptCode.checkUpload h.root.ledger id.text (h.workspace id) path n).2.Holds
          (reservedBy h.bodies) ∧
        (PromptCode.checkUpload h.root.ledger id.text (h.workspace id) path n).2.load ≤
          env.maxBytes) ∧
    ((∀ k, (PromptCode.checkUpload h.root.ledger id.text (h.workspace id) path n).2.recorded
        k ≤ h.root.ledger.recorded k + 0) ↔
      (h.root.ledger.row id.text).isSome ∨ (measureWorkspace (h.workspace id)).1 = 0) := by
  rw [checkUpload_ledger, Ledger.workspaceUsage, Option.isSome_map]
  split_ifs with hknown
  · exact ⟨fun _ => ⟨hok.holds, hok.capped⟩, iff_of_true (fun _ => le_rfl) (.inl hknown)⟩
  · have hzero : h.root.ledger.recorded id.text = 0 := by
      rw [Ledger.recorded, Option.not_isSome_iff_eq_none.mp hknown]
      rfl
    refine ⟨fun hempty => ?_, ?_⟩
    · have hmeasure := hempty.resolve_left hknown
      have hholds := hok.holds
      rw [← Nat.zero_add (reservedBy h.bodies)] at hholds
      exact hok.write_covered hholds (by rw [hmeasure]; exact Nat.zero_le _) _
    · refine (Ledger.recorded_write_le_iff ..).trans ?_
      rw [hzero, Nat.add_zero, Nat.le_zero]
      exact ⟨.inr, fun hempty => hempty.resolve_left hknown⟩

theorem CapOk.write (hok : CapOk env h) (id : SessionName) (relPath content : Str) :
    (EstimateDominates env h (.write id relPath content) →
      CapOk env (capAct env h (.write id relPath content))) ∧
    ((∀ k, (capAct env h (.write id relPath content)).root.ledger.recorded k ≤
        h.root.ledger.recorded k + 0) ↔
      EstimateDominates env h (.write id relPath content)) := by
  rw [capAct, EstimateDominates]
  split_ifs with hbusy
  · refine ⟨fun _ => hok, iff_of_true (fun _ => le_rfl) fun hphase hmarker _ => ?_⟩
    rw [hphase, hmarker] at hbusy
    rcases hbusy with hsome | hsome <;> exact nomatch hsome
  · obtain ⟨hphase, hmarker⟩ := not_or.mp hbusy
    rw [Option.not_isSome_iff_eq_none] at hphase hmarker
    simp only [hphase, hmarker, forall_const]
    rw [admitWrite_eq]
    rcases htarget : writeTarget (h.workspace id) relPath content with e | ⟨path, encoded⟩
    · exact ⟨fun _ => hok, iff_of_true (fun _ => le_rfl) nofun⟩
    · obtain ⟨hcovered, hwithin⟩ := hok.checkUpload id path encoded.length
      dsimp only
      rcases hcheck : PromptCode.checkUpload h.root.ledger id.text (h.workspace id) path
        encoded.length with ⟨e | u, l⟩
      · rw [hcheck] at hcovered hwithin
        refine ⟨fun hempty => ?_, hwithin.trans ⟨fun himp _ => himp, fun himp => himp rfl⟩⟩
        obtain ⟨hholds, hload⟩ := hcovered (hempty rfl)
        exact hok.setLedger hholds hload
      · rw [hcheck] at hcovered hwithin
        refine ⟨fun hempty => ?_, hwithin.trans ⟨fun himp _ => himp, fun himp => himp rfl⟩⟩
        obtain ⟨hholds, hload⟩ := hcovered (hempty rfl)
        have hset := hok.setLedger hholds hload
        have hidle : l.Holds (0 + h.others id) := by
          rw [Nat.zero_add]
          exact hset.holds_idle hphase
        exact hset.setPhase { h.root with ledger := l } hidle hload hok.valid
          (keepsSnapshots_self _) (writeTarget_components htarget)

/-- A step of a body: its estimate dominates exactly when it records within it. -/
theorem CapOk.advance (hok : CapOk env h) (free : ℕ) (id : SessionName) :
    (EstimateDominates env h (.advance free id) →
      CapOk env (capAct env h (.advance free id))) ∧
    ((∀ k, (capAct env h (.advance free id)).root.ledger.recorded k ≤
        h.root.ledger.recorded k + settledBy h (.advance free id)) ↔
      EstimateDominates env h (.advance free id)) := by
  -- a step that records nothing
  have hsame : ∀ {h' : StorageBodies} {n : ℕ}, CapOk env h' →
      (∀ k, h'.root.ledger.recorded k = h.root.ledger.recorded k) →
      (True → CapOk env h') ∧
        ((∀ k, h'.root.ledger.recorded k ≤ h.root.ledger.recorded k + n) ↔ True) := by
    intro h' n hok' hrecorded
    refine ⟨fun _ => hok', iff_of_true (fun k => ?_) trivial⟩
    rw [hrecorded k]
    exact Nat.le_add_right ..
  rw [capAct, EstimateDominates, settledBy]
  rcases hphase : h.phase id with _ | (src | src | ⟨path, encoded⟩ | ⟨path, encoded⟩ | m |
    ⟨m, reused⟩ | ⟨m, reused⟩)
  case none => exact hsame hok fun _ => rfl
  case some.creating => exact hok.recordCreated hphase
  case some.starting => exact hok.recordStarter hphase
  case some.checked =>
    have hpath := hok.phase_ok hphase
    obtain ⟨henter, hrecorded⟩ := hok.enter (p := .saving path encoded) free
      (by rw [hphase]; rfl) hpath
    exact hsame henter hrecorded
  case some.saving => exact hok.recordSaved hphase
  case some.freezing =>
    obtain ⟨hpublish, hrecorded⟩ := hok.publishCopy hphase
    exact hsame hpublish hrecorded
  case some.published => exact hsame (hok.mark hphase) fun _ => rfl
  case some.marked => exact hok.recordFrozen hphase

theorem CapOk.create (hok : CapOk env h) (free : ℕ) (id : SessionName) (src : ChallengeDir) :
    CapOk env (capAct env h (.create free id src)) ∧
      ∀ k, (capAct env h (.create free id src)).root.ledger.recorded k =
        h.root.ledger.recorded k := by
  rw [capAct]
  split_ifs with hbusy
  · exact ⟨hok, fun _ => rfl⟩
  · rw [Option.not_isSome_iff_eq_none] at hbusy
    exact hok.enter free (by rw [hbusy]; rfl) trivial

theorem CapOk.freeze (hok : CapOk env h) (free : ℕ) (id : SessionName) :
    CapOk env (capAct env h (.freeze free id)) ∧
      ∀ k, (capAct env h (.freeze free id)).root.ledger.recorded k =
        h.root.ledger.recorded k := by
  rw [capAct]
  split_ifs with hbusy
  · exact ⟨hok, fun _ => rfl⟩
  · rw [not_or, Option.not_isSome_iff_eq_none] at hbusy
    rcases h.root.trees.lookup id.text with _ | workspace
    · exact ⟨hok, fun _ => rfl⟩
    dsimp only
    rcases manifest workspace with e | m
    · exact ⟨hok, fun _ => rfl⟩
    dsimp only
    split_ifs
    · exact ⟨hok, fun _ => rfl⟩
    · exact hok.enter free (by rw [hbusy.1]; rfl) trivial

theorem CapOk.throw_act (hok : CapOk env h) (id : SessionName) :
    CapOk env (capAct env h (.throw id)) ∧
      ∀ k, (capAct env h (.throw id)).root.ledger.recorded k =
        h.root.ledger.recorded k := by
  rw [capAct]
  rcases hphase : h.phase id with _ | p
  · exact ⟨hok, fun _ => rfl⟩
  · exact hok.throw hphase

theorem CapOk.refresh (hok : CapOk env h) (measured : List (Str × ℕ × ℕ)) :
    (EstimateDominates env h (.refresh measured) →
      CapOk env (capAct env h (.refresh measured))) ∧
    (Capped env (capAct env h (.refresh measured)) ↔
      EstimateDominates env h (.refresh measured)) := by
  rw [capAct, EstimateDominates]
  split_ifs with hm
  · obtain ⟨hholds, hload⟩ := hok.holds.reconcile hm
    refine ⟨fun hroom => hok.setLedger hholds (hload.trans_le (hroom hm)), ?_⟩
    rw [← hload]
    exact ⟨fun hcapped _ => hcapped, fun himp => himp hm⟩
  · exact ⟨fun _ => hok, iff_of_true hok.capped fun hm' => absurd hm' hm⟩

/-- A step keeps the invariant when its estimate dominates, and the cap and its
reservation exactly then. -/
theorem CapOk.act (hok : CapOk env h) (a : CapAction) :
    (EstimateDominates env h a → CapOk env (capAct env h a)) ∧
      (EstimateDominates env h a ↔
        WithinReservation env h a ∧ Capped env (capAct env h a)) := by
  -- a step other than a refresh, by what it records
  have hcall : ∀ {a : CapAction}, (∀ measured, a ≠ .refresh measured) →
      (EstimateDominates env h a → CapOk env (capAct env h a)) →
      ((∀ k, (capAct env h a).root.ledger.recorded k ≤
        h.root.ledger.recorded k + settledBy h a) ↔ EstimateDominates env h a) →
      (EstimateDominates env h a → CapOk env (capAct env h a)) ∧
        (EstimateDominates env h a ↔
          WithinReservation env h a ∧ Capped env (capAct env h a)) := by
    intro a hcalled hnext hwithin
    refine ⟨hnext, fun hdominates => ⟨fun _ => hwithin.mpr hdominates,
      (hnext hdominates).capped⟩, fun hboth => hwithin.mp (hboth.1 hcalled)⟩
  -- a step that records nothing
  have hquiet : ∀ {a : CapAction},
      (∀ k, (capAct env h a).root.ledger.recorded k = h.root.ledger.recorded k) →
      ((∀ k, (capAct env h a).root.ledger.recorded k ≤
        h.root.ledger.recorded k + settledBy h a) ↔ True) := by
    intro a hrecorded
    refine iff_of_true (fun k => ?_) trivial
    rw [hrecorded k]
    exact Nat.le_add_right ..
  rcases a with ⟨free, id, src⟩ | ⟨id, relPath, content⟩ | ⟨free, id⟩ | ⟨free, id⟩ | id |
    measured
  case create =>
    obtain ⟨hnext, hrecorded⟩ := hok.create free id src
    exact hcall nofun (fun _ => hnext) (hquiet hrecorded)
  case write =>
    obtain ⟨hnext, hwithin⟩ := hok.write id relPath content
    exact hcall nofun hnext hwithin
  case freeze =>
    obtain ⟨hnext, hrecorded⟩ := hok.freeze free id
    exact hcall nofun (fun _ => hnext) (hquiet hrecorded)
  case advance =>
    obtain ⟨hnext, hwithin⟩ := hok.advance free id
    exact hcall nofun hnext hwithin
  case throw =>
    obtain ⟨hnext, hrecorded⟩ := hok.throw_act id
    exact hcall nofun (fun _ => hnext) (hquiet hrecorded)
  case refresh =>
    obtain ⟨hnext, hcapped⟩ := hok.refresh measured
    refine ⟨hnext, fun hdominates => ⟨fun hcalled => absurd rfl (hcalled measured),
      hcapped.mpr hdominates⟩, fun hboth => hcapped.mp hboth.2⟩

end

/-- The cap holds, and every call records within its reservation, in exactly the runs
whose estimates dominate. -/
theorem storage_capped_iff (env : StorageSettings) (actions : List CapAction) :
    Throughout (capAct env)
        (fun h a => WithinReservation env h a ∧ Capped env (capAct env h a)) .start actions ↔
      Throughout (capAct env) (EstimateDominates env) .start actions :=
  (throughout_iff_of_invariant (CapOk env) (fun _ a hok ha => (hok.act a).1 ha)
    (fun _ a hok => (hok.act a).2) (capOk_start env)).symm

/-- A challenge with one byte is admitted under a cap of two and recorded as three. -/
theorem creation_exceeds_cap :
    ¬ ∀ (env : StorageSettings) (actions : List CapAction),
      Throughout (capAct env) (fun h a => Capped env (capAct env h a)) .start actions := by
  intro h
  let id : SessionName := ⟨List.replicate 36 (ord 'a'), rfl⟩
  have hrun := h ⟨2, 0, by decide⟩
    [.create 10 id smallChallenge, .advance 10 id, .advance 10 id]
  have hlast : Ledger.load _ ≤ 2 := hrun.2.2.1
  revert hlast
  decide +kernel

end PromptCode
