import PromptCode.LedgerSums
import PromptCode.RetainedArtifacts
import PromptCode.Transition

/-!
# Accounting of the retained artifacts

Completed calls on one storage root, beside the ledger that counts what they keep.  A
call that would raise is none of them.  What is recorded under a name is compared with
the directory of that name.
-/

namespace PromptCode

open Py FileTree Transition

/-- The text of a UUID. -/
structure SessionName where
  text : Str
  length_eq : text.length = 36
  deriving DecidableEq

/-- `starter_snapshot_path`. -/
def SessionName.starter (id : SessionName) : Str := id.text ++ lit ".starter"

/-- A storage root: its workspaces and starter baselines by name, the snapshots below
`.submitted` by session and digest, and the texts of the `.submitted` markers. -/
structure ArtifactRoot where
  trees : List (Str × Tree)
  snapshots : List ((Str × Str) × Snapshot)
  marker : Str → Option Str
  ledger : Ledger

inductive ArtifactAction where
  | create (cap : Capacity) (id : SessionName) (src : ChallengeDir)
  | write (cap : Capacity) (id : SessionName) (relPath content : Str)
  | freeze (cap : Capacity) (id : SessionName)
  | remove (name : Str)
  | refresh

namespace ArtifactRoot

def start : ArtifactRoot := ⟨[], [], fun _ => none, Ledger.empty⟩

variable (r : ArtifactRoot)

def put (name : Str) (t : Tree) : ArtifactRoot :=
  { r with trees := (name, t) :: r.trees.filter fun e => e.1 ≠ name }

def rmtree (name : Str) : ArtifactRoot :=
  { r with trees := r.trees.filter fun e => e.1 ≠ name }

/-- `create_workspace`. -/
def createWorkspace (cap : Capacity) (id : SessionName) (src : ChallengeDir) :
    Option ArtifactRoot :=
  match reserveCapacity cap r.ledger src.treeSourceBytes with
  | .error _ => none
  | .ok l =>
      let dest := src.copyCandidateTree
      let starter := src.copyCandidateTree
      let destUsage := measureWorkspace dest
      let starterUsage := measureWorkspace starter
      let l' := l.write id.text (destUsage.1 + starterUsage.1)
        (destUsage.2 + starterUsage.2) src.treeSourceBytes
      some { (r.put id.text dest).put id.starter starter with
        ledger := l'.write id.starter starterUsage.1 starterUsage.2 0 }

/-- `write_file`; it makes the directories above the file, the workspace among them. -/
def saveFile (cap : Capacity) (id : SessionName) (relPath content : Str) :
    Option ArtifactRoot :=
  match writeFile cap ⟨id.text, (r.trees.lookup id.text).getD .nil, r.marker id.text,
      r.ledger⟩ relPath content with
  | (.error _, _) => none
  | (.ok (), disk) => some { r.put id.text disk.workspace with ledger := disk.ledger }

/-- The temporary directory takes the place of its digest unless there is one. -/
def publish (id : SessionName) (digest : Str) (temporary : Snapshot) :
    Option ArtifactRoot :=
  match r.snapshots.lookup (id.text, digest) with
  | some snap =>
      match verifySnapshot digest (lit "source") (some snap.source) digest with
      | .error _ => none
      | .ok _ => some r
  | none => some { r with snapshots := ((id.text, digest), temporary) :: r.snapshots }

/-- The end of a freeze: the marker, and what the snapshot of the digest measures. -/
def settle (l : Ledger) (id : SessionName) (m : Manifest) : ArtifactRoot :=
  let digest := manifestDigest m
  let size := measureWorkspace
    (((r.snapshots.lookup (id.text, digest)).map Snapshot.tree).getD .nil)
  { r with
    marker := Function.update r.marker id.text (some digest)
    ledger := l.write digest size.1 size.2 (requiredBytes m) }

/-- `freeze_submission`. -/
def freezeSubmission (cap : Capacity) (id : SessionName) : Option ArtifactRoot :=
  match r.marker id.text with
  | some text =>
      let digest := strip text
      match verifySnapshot digest (lit "source")
          ((r.snapshots.lookup (id.text, digest)).map fun snap => snap.source) digest with
      | .error _ => none
      | .ok _ => some r
  | none =>
      match r.trees.lookup id.text with
      | none => none
      | some workspace =>
          match manifest workspace with
          | .error _ => none
          | .ok m =>
              if m = [] then none
              else
                match reserveCapacity cap r.ledger (requiredBytes m) with
                | .error _ => none
                | .ok l =>
                    match manifestInto workspace with
                    | .error _ => none
                    | .ok (copied, source) =>
                        if copied ≠ m then none
                        else
                          (r.publish id (manifestDigest m) ⟨source, manifestJson m⟩).map
                            (·.settle l id m)

/-- `_safe_rmtree`. -/
def safeRmtree (name : Str) : ArtifactRoot :=
  if (r.trees.lookup name).isSome then
    { r.rmtree name with ledger := r.ledger.forget name }
  else r

def snapshotBytes : ℕ := (r.snapshots.map fun e => (measureEntry e.2.tree).1).sum

/-- `ledger.measure`: each directory of the root, `.submitted` as one of them. -/
def measured : List (Str × ℕ × ℕ) :=
  measure r.trees ++
    if r.snapshots = [] then []
    else [(lit ".submitted", r.snapshotBytes,
      (r.snapshots.map fun e => (measureEntry e.2.tree).2).sum)]

/-- `refresh_ledger`. -/
def refreshLedger : ArtifactRoot := { r with ledger := r.ledger.reconcile r.measured }

/-- What is on the disk, each artifact once. -/
def diskBytes : ℕ := (r.trees.map fun e => (measureEntry e.2).1).sum + r.snapshotBytes

def treeBytes (name : Str) : ℕ :=
  ((r.trees.lookup name).map fun t => (measureEntry t).1).getD 0

end ArtifactRoot

/-- A call that returns, or nothing. -/
def artifactCall (r : ArtifactRoot) : ArtifactAction → Option ArtifactRoot
  | .create cap id src => r.createWorkspace cap id src
  | .write cap id relPath content => r.saveFile cap id relPath content
  | .freeze cap id => r.freezeSubmission cap id
  | .remove name => some (r.safeRmtree name)
  | .refresh => some r.refreshLedger

def artifactAct (r : ArtifactRoot) (a : ArtifactAction) : ArtifactRoot :=
  (artifactCall r a).getD r

/-- The ledger counts what is on the disk, and a reconcile would not change that. -/
structure CountedOnce (r : ArtifactRoot) : Prop where
  total : r.ledger.totalBytes = r.diskBytes
  reconcile : (r.ledger.reconcile r.measured).totalBytes = r.ledger.totalBytes

/-- A workspace is created from a challenge without bytes, a write leaves none where
`measure_workspace` does not look, and a snapshot is made where nothing is recorded under
its digest. -/
def RecordsOnce (r : ArtifactRoot) (a : ArtifactAction) : Prop :=
  (artifactCall r a).isSome →
    match a with
    | .create _ _ src => src.treeSourceBytes = 0
    | .write _ _ relPath content => isCounted (walkedParts relPath) = true ∨ content = []
    | .freeze _ id => r.marker id.text = none → ∀ workspace m,
        r.trees.lookup id.text = some workspace → manifest workspace = .ok m →
        r.ledger.recorded (manifestDigest m) = 0
    | .remove _ | .refresh => True

/-! ## One entry at a time -/

namespace Ledger

/-- One entry has moved, and the total with it. -/
structure EntryMove (l l' : Ledger) (k : Str) : Prop where
  totalled : Totalled l'
  total : l'.totalBytes + l.recorded k = l.totalBytes + l'.recorded k
  others : ∀ w ≠ k, l'.recorded w = l.recorded w

variable {l l' l'' : Ledger} {k : Str}

theorem EntryMove.trans (h : EntryMove l l' k) (h' : EntryMove l' l'' k) :
    EntryMove l l'' k := by
  refine ⟨h'.totalled, ?_, fun w hw => (h'.others w hw).trans (h.others w hw)⟩
  have htotal := h.total
  have htotal' := h'.total
  omega

theorem Totalled.write_move (h : Totalled l) (k : Str) (measured files settle : ℕ) :
    EntryMove l (l.write k measured files settle) k := by
  obtain ⟨htotalled, htotal⟩ := h.write k measured files settle
  refine ⟨htotalled, ?_, fun w hw => ?_⟩
  · rw [recorded_write, if_pos rfl, htotal]
  · rw [recorded_write, if_neg hw]

theorem Totalled.reserve_move (h : Totalled l) {key : Str} {limits : Limits}
    {wanted wantedFiles free : ℕ}
    (hreserve : l.reserve key limits wanted wantedFiles free = some l') (k : Str) :
    EntryMove l l' k := by
  refine ⟨h.reserve hreserve, ?_, fun w _ => recorded_reserve hreserve w⟩
  rw [recorded_reserve hreserve, (reserve_eq_some hreserve).totalBytes]

theorem Totalled.forget_move (h : Totalled l) (k : Str) : EntryMove l (l.forget k) k := by
  obtain ⟨htotalled, htotal⟩ := h.forget k
  refine ⟨htotalled, ?_, fun w hw => ?_⟩
  · rw [recorded_forget, if_pos rfl]
    exact htotal
  · rw [recorded_forget, if_neg hw]

end Ledger

theorem reserveCapacity_move {cap : Capacity} {l l' : Ledger} {n : ℕ}
    (hl : l.Totalled) (h : reserveCapacity cap l n = .ok l') (k : Str) :
    l.EntryMove l' k := by
  rw [reserveCapacity] at h
  split at h
  · rename_i l'' hreserve
    obtain rfl := Except.ok.inj h
    exact hl.reserve_move hreserve k
  · exact nomatch h

theorem checkUpload_move {l : Ledger} (hl : l.Totalled) (key : Str) (root : Tree)
    (path : List Str) (n : ℕ) : l.EntryMove (checkUpload l key root path n).2 key := by
  rw [checkUpload_ledger]
  split_ifs
  · exact ⟨hl, rfl, fun _ _ => rfl⟩
  · exact hl.write_move ..

/-! ## The disk -/

namespace ArtifactRoot

variable {r : ArtifactRoot} {name : Str} {t : Tree}

theorem treesBytes_split (hnames : (r.trees.map Prod.fst).Nodup) (name : Str) :
    (r.rmtree name).diskBytes + r.treeBytes name = r.diskBytes := by
  have hsum := sum_filter_ne (k := name) hnames fun t => (measureEntry t).1
  rw [diskBytes, diskBytes, treeBytes]
  change _ + r.snapshotBytes + _ = _
  rw [← hsum, Nat.add_right_comm]
  rfl

theorem diskBytes_put (hnames : (r.trees.map Prod.fst).Nodup) (name : Str) (t : Tree) :
    (r.put name t).diskBytes + r.treeBytes name = r.diskBytes + (measureEntry t).1 := by
  have hrest := treesBytes_split hnames name
  have hcons : (r.put name t).diskBytes = (measureEntry t).1 + (r.rmtree name).diskBytes := by
    rw [diskBytes, diskBytes, put, List.map_cons, List.sum_cons, Nat.add_assoc]
    rfl
  omega

theorem treeBytes_put (w : Str) :
    (r.put name t).treeBytes w =
      if w = name then (measureEntry t).1 else r.treeBytes w := by
  rw [treeBytes, put, List.lookup_cons]
  split_ifs with hw
  · rw [hw, beq_self_eq_true]
    rfl
  · rw [beq_eq_false_iff_ne.mpr hw]
    change ((List.lookup w (r.trees.filter fun e => e.1 ≠ name)).map _).getD 0 = _
    rw [lookup_filter_ne hw, treeBytes]

theorem treeBytes_rmtree (w : Str) :
    (r.rmtree name).treeBytes w = if w = name then 0 else r.treeBytes w := by
  rw [treeBytes, rmtree]
  split_ifs with hw
  · rw [hw, lookup_eq_none_of_not_mem]
    · rfl
    · intro hmem
      obtain ⟨e, he, rfl⟩ := List.mem_map.mp hmem
      simpa using (List.mem_filter.mp he).2
  · rw [lookup_filter_ne hw, treeBytes]

theorem names_rmtree (hnames : (r.trees.map Prod.fst).Nodup) :
    ((r.rmtree name).trees.map Prod.fst).Nodup :=
  hnames.sublist (List.filter_sublist.map _)

theorem names_put (hnames : (r.trees.map Prod.fst).Nodup) (name : Str) (t : Tree) :
    ((r.put name t).trees.map Prod.fst).Nodup := by
  refine List.nodup_cons.mpr ⟨?_, names_rmtree hnames⟩
  intro hmem
  obtain ⟨e, he, heq⟩ := List.mem_map.mp hmem
  simp [heq] at he

theorem reconcile_total (r : ArtifactRoot) :
    (r.ledger.reconcile r.measured).totalBytes = r.diskBytes := by
  rw [Ledger.reconcile, measured, measure, diskBytes]
  simp only [List.map_append, List.map_map, List.sum_append]
  congr 1
  split_ifs with hnil
  · rw [snapshotBytes, hnil]
    rfl
  · exact Nat.add_zero _

end ArtifactRoot

/-! ## The account -/

/-- The names of workspaces and starter baselines; digests have 64 digits. -/
def IsTreeName (name : Str) : Prop := name.length = 36 ∨ name.length = 44

/-- What is recorded under the name of a directory is what the directory holds. -/
structure AccountOk (r : ArtifactRoot) : Prop where
  totalled : r.ledger.Totalled
  names : (r.trees.map Prod.fst).Nodup
  treeNames : ∀ e ∈ r.trees, IsTreeName e.1
  valid : ∀ e ∈ r.trees, ValidTree e.2
  counted : ∀ e ∈ r.trees, uncountedBytes e.2 = 0
  recorded : ∀ n, IsTreeName n → r.ledger.recorded n = r.treeBytes n
  total : r.ledger.totalBytes = r.diskBytes
  marked : ∀ e ∈ r.snapshots, r.marker e.1.1 ≠ none

section

variable {r r' : ArtifactRoot} {cap : Capacity} {id : SessionName} {name : Str} {t : Tree}

theorem SessionName.isTreeName (id : SessionName) : IsTreeName id.text := .inl id.length_eq

theorem SessionName.starter_length (id : SessionName) : id.starter.length = 44 := by
  rw [starter, List.length_append, id.length_eq]
  decide

theorem SessionName.isTreeName_starter (id : SessionName) : IsTreeName id.starter :=
  .inr id.starter_length

theorem SessionName.starter_ne (id : SessionName) : id.starter ≠ id.text := by
  intro heq
  have hlength := congrArg List.length heq
  rw [id.starter_length, id.length_eq] at hlength
  exact absurd hlength (by decide)

theorem not_isTreeName_manifestDigest (m : Manifest) : ¬ IsTreeName (manifestDigest m) := by
  rw [IsTreeName, manifestDigest_length]
  decide

theorem accountOk_start : AccountOk .start where
  totalled := Ledger.totalled_empty
  names := List.nodup_nil
  treeNames := nofun
  valid := nofun
  counted := nofun
  recorded := fun _ _ => rfl
  total := rfl
  marked := nofun

theorem AccountOk.countedOnce (h : AccountOk r) : CountedOnce r :=
  ⟨h.total, r.reconcile_total.trans h.total.symm⟩

theorem mem_trees_of_lookup (h : r.trees.lookup name = some t) : (name, t) ∈ r.trees := by
  obtain ⟨l₁, l₂, hsplit, -⟩ := List.lookup_eq_some_iff.mp h
  simp [hsplit]

/-- A directory takes the place of another, and its entry holds what it measures. -/
theorem AccountOk.put (h : AccountOk r) (hname : IsTreeName name) (hvalid : ValidTree t)
    (hcounted : uncountedBytes t = 0) {l : Ledger} (hmove : r.ledger.EntryMove l name)
    (hrecorded : l.recorded name = (measureEntry t).1) :
    AccountOk { r.put name t with ledger := l } := by
  have hmem : ∀ e ∈ (r.put name t).trees, e = (name, t) ∨ e ∈ r.trees := fun e he =>
    (List.mem_cons.mp he).imp_right List.mem_of_mem_filter
  refine ⟨hmove.totalled, ArtifactRoot.names_put h.names name t, ?_, ?_, ?_, ?_, ?_, h.marked⟩
  · rintro e he
    rcases hmem e he with rfl | he
    · exact hname
    · exact h.treeNames e he
  · rintro e he
    rcases hmem e he with rfl | he
    · exact hvalid
    · exact h.valid e he
  · rintro e he
    rcases hmem e he with rfl | he
    · exact hcounted
    · exact h.counted e he
  · intro n hn
    change l.recorded n = (r.put name t).treeBytes n
    rw [ArtifactRoot.treeBytes_put]
    split_ifs with heq
    · rw [heq, hrecorded]
    · rw [hmove.others n heq, h.recorded n hn]
  · change l.totalBytes = (r.put name t).diskBytes
    have hledger := hmove.total
    have hdisk := ArtifactRoot.diskBytes_put h.names name t
    rw [h.recorded name hname, hrecorded, h.total] at hledger
    omega

/-! ### Creations -/

structure Created (r : ArtifactRoot) (id : SessionName) (src : ChallengeDir)
    (l : Ledger) (r' : ArtifactRoot) : Prop where
  first : r.ledger.EntryMove l id.text
  firstRecorded : l.recorded id.text = src.treeSourceBytes + src.treeSourceBytes
  second : l.EntryMove r'.ledger id.starter
  secondRecorded : r'.ledger.recorded id.starter = src.treeSourceBytes
  eq : r' = { (r.put id.text src.copyCandidateTree).put id.starter src.copyCandidateTree with
    ledger := r'.ledger }

theorem created_of_some {src : ChallengeDir} (h : AccountOk r)
    (hcreate : r.createWorkspace cap id src = some r') : ∃ l, Created r id src l r' := by
  rw [ArtifactRoot.createWorkspace] at hcreate
  split at hcreate
  · exact nomatch hcreate
  · rename_i l hreserve
    obtain rfl := Option.some.inj hcreate
    have hfirst := (reserveCapacity_move h.totalled hreserve id.text).trans
      ((reserveCapacity_move h.totalled hreserve id.text).totalled.write_move id.text
        ((measureWorkspace src.copyCandidateTree).1 +
          (measureWorkspace src.copyCandidateTree).1)
        ((measureWorkspace src.copyCandidateTree).2 +
          (measureWorkspace src.copyCandidateTree).2) src.treeSourceBytes)
    refine ⟨_, hfirst, ?_, hfirst.totalled.write_move .., ?_, rfl⟩
    · rw [Ledger.recorded_write, if_pos rfl, src.measureWorkspace_copy]
    · dsimp only
      rw [Ledger.recorded_write, if_pos rfl, src.measureWorkspace_copy]

/-- The starter baseline is counted twice. -/
theorem Created.total {src : ChallengeDir} {l : Ledger} (hcreated : Created r id src l r')
    (h : AccountOk r) : r'.ledger.totalBytes = r'.diskBytes + src.treeSourceBytes := by
  have hfirst := hcreated.first.total
  have hsecond := hcreated.second.total
  rw [hcreated.firstRecorded, h.recorded _ id.isTreeName, h.total] at hfirst
  rw [hcreated.secondRecorded, hcreated.first.others _ id.starter_ne,
    h.recorded _ id.isTreeName_starter] at hsecond
  have hput := ArtifactRoot.diskBytes_put h.names id.text src.copyCandidateTree
  have hput' := ArtifactRoot.diskBytes_put
    (ArtifactRoot.names_put h.names id.text src.copyCandidateTree) id.starter
    src.copyCandidateTree
  rw [ArtifactRoot.treeBytes_put, if_neg id.starter_ne] at hput'
  rw [src.measureEntry_copy] at hput hput'
  rw [hcreated.eq]
  change r'.ledger.totalBytes =
    ((r.put id.text src.copyCandidateTree).put id.starter src.copyCandidateTree).diskBytes + _
  omega

theorem Created.ok {src : ChallengeDir} {l : Ledger} (hcreated : Created r id src l r')
    (h : AccountOk r) (hzero : src.treeSourceBytes = 0) : AccountOk r' := by
  obtain ⟨hvalid, -⟩ := src.copyCandidateTree_spec
  have hmeasure := src.measureEntry_copy
  have hfirst := h.put id.isTreeName hvalid src.uncountedBytes_copy hcreated.first
    (by rw [hcreated.firstRecorded, hmeasure, hzero])
  have hsecond := hfirst.put id.isTreeName_starter hvalid src.uncountedBytes_copy
    hcreated.second (by rw [hcreated.secondRecorded, hmeasure])
  rw [hcreated.eq]
  exact hsecond

/-! ### Writes -/

structure Saved (r : ArtifactRoot) (id : SessionName) (relPath content : Str) (t : Tree)
    (l : Ledger) : Prop where
  move : r.ledger.EntryMove l id.text
  recorded : l.recorded id.text = (measureWorkspace t).1
  valid : ValidTree t
  counted : uncountedBytes t = 0 ↔ isCounted (walkedParts relPath) = true ∨ content = []

theorem saved_of_some {relPath content : Str} (h : AccountOk r)
    (hsave : r.saveFile cap id relPath content = some r') :
    ∃ t l, Saved r id relPath content t l ∧ r' = { r.put id.text t with ledger := l } := by
  have hold : ValidTree ((r.trees.lookup id.text).getD .nil) ∧
      uncountedBytes ((r.trees.lookup id.text).getD .nil) = 0 := by
    rcases hlookup : r.trees.lookup id.text with _ | t
    · exact ⟨validTree_nil, rfl⟩
    · exact ⟨h.valid _ (mem_trees_of_lookup hlookup),
        h.counted _ (mem_trees_of_lookup hlookup)⟩
  rw [ArtifactRoot.saveFile] at hsave
  split at hsave
  · exact nomatch hsave
  · rename_i disk hwrite
    obtain rfl := Option.some.inj hsave
    obtain ⟨path, encoded, hacc⟩ := writeFile_ok hwrite
    obtain ⟨l, hreserve, hledger⟩ := hacc.ledger
    refine ⟨disk.workspace, disk.ledger, ⟨?_, ?_, ?_, ?_⟩, rfl⟩
    · have hcheck := checkUpload_move h.totalled id.text
        ((r.trees.lookup id.text).getD .nil) path encoded.length
      have hreserved := reserveCapacity_move hcheck.totalled hreserve id.text
      rw [hledger]
      exact (hcheck.trans hreserved).trans (hreserved.totalled.write_move ..)
    · rw [hledger, Ledger.recorded_write, if_pos rfl]
    · exact hold.1.write hacc.isComponent hacc.written
    · rw [uncountedBytes_write_iff hold.1.sorted hold.2 hacc.written,
        (containedFile_ok hacc.contained).path_eq]
      refine or_congr_right ⟨?_, ?_⟩
      · rintro rfl
        exact utf8Encode_injective hacc.encode rfl
      · rintro rfl
        exact (Option.some.inj hacc.encode).symm

theorem Saved.exact_iff {relPath content : Str} {l : Ledger}
    (hsaved : Saved r id relPath content t l) (h : AccountOk r) :
    l.totalBytes = (r.put id.text t).diskBytes ↔ uncountedBytes t = 0 := by
  have htotal := hsaved.move.total
  rw [hsaved.recorded, h.recorded _ id.isTreeName, h.total] at htotal
  have hdisk := ArtifactRoot.diskBytes_put h.names id.text t
  have hmeasure := measureWorkspace_add_uncounted hsaved.valid.sorted
  omega

theorem Saved.ok {relPath content : Str} {l : Ledger}
    (hsaved : Saved r id relPath content t l) (h : AccountOk r)
    (hzero : uncountedBytes t = 0) : AccountOk { r.put id.text t with ledger := l } := by
  have hmeasure := measureWorkspace_add_uncounted hsaved.valid.sorted
  exact h.put id.isTreeName hsaved.valid hzero hsaved.move (by rw [hsaved.recorded]; omega)

/-! ### Freezes -/

structure Froze (r : ArtifactRoot) (id : SessionName) (m : Manifest) (snap : Snapshot)
    (r' : ArtifactRoot) : Prop where
  move : r.ledger.EntryMove r'.ledger (manifestDigest m)
  recorded : r'.ledger.recorded (manifestDigest m) = (measureEntry snap.tree).1
  trees : r'.trees = r.trees
  snapshots : r'.snapshots = ((id.text, manifestDigest m), snap) :: r.snapshots
  marker : r'.marker = Function.update r.marker id.text (some (manifestDigest m))

/-- A session without a marker has no snapshot that its freeze could meet. -/
theorem publish_eq (h : AccountOk r) (hmarker : r.marker id.text = none) (digest : Str)
    (snap : Snapshot) : r.publish id digest snap =
      some { r with snapshots := ((id.text, digest), snap) :: r.snapshots } := by
  have hnone : r.snapshots.lookup (id.text, digest) = none := by
    rw [List.lookup_eq_none_iff]
    intro e he
    rw [bne_iff_ne]
    intro heq
    refine h.marked e he ?_
    rw [← heq]
    exact hmarker
  rw [ArtifactRoot.publish, hnone]

/-- A freeze changes nothing, or makes a snapshot. -/
theorem froze_of_some (h : AccountOk r) (hfreeze : r.freezeSubmission cap id = some r') :
    (r' = r ∧ r.marker id.text ≠ none) ∨ r.marker id.text = none ∧
      ∃ workspace m snap, r.trees.lookup id.text = some workspace ∧
        manifest workspace = .ok m ∧ Froze r id m snap r' := by
  rw [ArtifactRoot.freezeSubmission] at hfreeze
  split at hfreeze
  · rename_i text hmarker
    dsimp only at hfreeze
    split at hfreeze
    · exact nomatch hfreeze
    · obtain rfl := Option.some.inj hfreeze
      exact .inl ⟨rfl, by rw [hmarker]; exact nofun⟩
  · rename_i hmarker
    split at hfreeze
    · exact nomatch hfreeze
    · rename_i workspace hlookup
      split at hfreeze
      · exact nomatch hfreeze
      · rename_i m hmanifest
        split_ifs at hfreeze
        split at hfreeze
        · exact nomatch hfreeze
        · rename_i l hreserve
          split at hfreeze
          · exact nomatch hfreeze
          · rename_i copied source hinto
            split_ifs at hfreeze with hcopied
            obtain rfl := not_not.mp hcopied
            rw [publish_eq h hmarker, Option.map_some] at hfreeze
            obtain rfl := Option.some.inj hfreeze
            have hvalid := h.valid _ (mem_trees_of_lookup hlookup)
            obtain ⟨hsorted, -, hzero⟩ := measure_frozen hvalid hinto
            have hmeasure := measureWorkspace_add_uncounted hsorted
            have hmove := reserveCapacity_move h.totalled hreserve (manifestDigest copied)
            refine .inr ⟨hmarker, workspace, copied, ⟨source, manifestJson copied⟩, hlookup,
              hmanifest, hmove.trans (hmove.totalled.write_move ..), ?_, rfl, rfl, rfl⟩
            rw [ArtifactRoot.settle]
            dsimp only
            rw [Ledger.recorded_write, if_pos rfl, List.lookup_cons_self, Option.map_some,
              Option.getD_some, ← hmeasure, hzero, Nat.add_zero]

theorem Froze.diskBytes {m : Manifest} {snap : Snapshot} (hfroze : Froze r id m snap r') :
    r'.diskBytes = r.diskBytes + (measureEntry snap.tree).1 := by
  rw [ArtifactRoot.diskBytes, ArtifactRoot.diskBytes, ArtifactRoot.snapshotBytes,
    hfroze.trees, hfroze.snapshots, List.map_cons, List.sum_cons]
  exact Nat.add_left_comm .. ▸ Nat.add_comm ..

/-- A snapshot adds its bytes to what is recorded under its digest. -/
theorem Froze.exact_iff {m : Manifest} {snap : Snapshot} (hfroze : Froze r id m snap r')
    (h : AccountOk r) : r'.ledger.totalBytes = r'.diskBytes ↔
      r.ledger.recorded (manifestDigest m) = 0 := by
  have htotal := hfroze.move.total
  rw [hfroze.recorded, h.total] at htotal
  have hdisk := hfroze.diskBytes
  omega

theorem Froze.ok {m : Manifest} {snap : Snapshot} (hfroze : Froze r id m snap r')
    (h : AccountOk r) (hzero : r.ledger.recorded (manifestDigest m) = 0) :
    AccountOk r' := by
  refine ⟨hfroze.move.totalled, ?_, ?_, ?_, ?_, ?_, (hfroze.exact_iff h).mpr hzero, ?_⟩
  · rw [hfroze.trees]
    exact h.names
  · rw [hfroze.trees]
    exact h.treeNames
  · rw [hfroze.trees]
    exact h.valid
  · rw [hfroze.trees]
    exact h.counted
  · intro n hn
    have hne : n ≠ manifestDigest m := by
      rintro rfl
      exact not_isTreeName_manifestDigest m hn
    rw [hfroze.move.others n hne, h.recorded n hn, ArtifactRoot.treeBytes,
      ArtifactRoot.treeBytes, hfroze.trees]
  · intro e he
    rw [hfroze.snapshots] at he
    rw [hfroze.marker]
    by_cases hid : e.1.1 = id.text
    · rw [hid, Function.update_self]
      exact nofun
    · rw [Function.update_of_ne hid]
      rcases List.mem_cons.mp he with rfl | he
      · exact absurd rfl hid
      · exact h.marked e he

/-! ### Removals and refreshes -/

theorem AccountOk.safeRmtree (h : AccountOk r) (name : Str) :
    AccountOk (r.safeRmtree name) := by
  rw [ArtifactRoot.safeRmtree]
  split_ifs with hsome
  · obtain ⟨t, hlookup⟩ := Option.isSome_iff_exists.mp hsome
    have hname := h.treeNames _ (mem_trees_of_lookup hlookup)
    have hmove := h.totalled.forget_move name
    have hzero : (r.ledger.forget name).recorded name = 0 := by
      rw [Ledger.recorded_forget, if_pos rfl]
    refine ⟨hmove.totalled, ArtifactRoot.names_rmtree h.names,
      fun e he => h.treeNames e (List.mem_of_mem_filter he),
      fun e he => h.valid e (List.mem_of_mem_filter he),
      fun e he => h.counted e (List.mem_of_mem_filter he), ?_, ?_, h.marked⟩
    · intro n hn
      change _ = (r.rmtree name).treeBytes n
      rw [ArtifactRoot.treeBytes_rmtree]
      split_ifs with heq
      · rw [heq, hzero]
      · rw [hmove.others n heq, h.recorded n hn]
    · change (r.ledger.forget name).totalBytes = (r.rmtree name).diskBytes
      have htotal := hmove.total
      rw [hzero, h.recorded name hname, h.total] at htotal
      have hdisk := ArtifactRoot.treesBytes_split h.names name
      omega
  · exact h

theorem not_isTreeName_submitted : ¬ IsTreeName (lit ".submitted") := by
  rw [IsTreeName]
  decide

theorem AccountOk.refreshLedger (h : AccountOk r) : AccountOk r.refreshLedger := by
  have hkeys : (r.measured.map Prod.fst).Nodup := by
    have htrees : (measure r.trees).map Prod.fst = r.trees.map Prod.fst := by
      rw [measure, List.map_map]
      rfl
    rw [ArtifactRoot.measured, List.map_append, htrees]
    split_ifs
    · rw [List.map_nil, List.append_nil]
      exact h.names
    · refine List.nodup_append.mpr ⟨h.names, by simp, ?_⟩
      intro a ha b hb
      obtain rfl := List.mem_singleton.mp hb
      rintro rfl
      obtain ⟨e, he, heq⟩ := List.mem_map.mp ha
      have hname := h.treeNames e he
      rw [heq] at hname
      exact not_isTreeName_submitted hname
  refine ⟨h.totalled.reconcile hkeys, h.names, h.treeNames, h.valid, h.counted, ?_,
    r.reconcile_total, h.marked⟩
  intro n hn
  have hne : n ≠ lit ".submitted" := by
    rintro rfl
    exact not_isTreeName_submitted hn
  have hrest : (if r.snapshots = [] then []
      else [(lit ".submitted", r.snapshotBytes,
        (r.snapshots.map fun e => (measureEntry e.2.tree).2).sum)]).lookup n = none := by
    split_ifs
    · rfl
    · rw [List.lookup_cons, beq_eq_false_iff_ne.mpr hne]
      rfl
  change (r.ledger.reconcile r.measured).recorded n = r.treeBytes n
  rw [Ledger.recorded_reconcile, ArtifactRoot.measured, List.lookup_append, hrest,
    Option.or_none, measure, Ledger.lookup_map_snd (fun _ t => measureEntry t),
    Option.map_map]
  rfl

/-! ### Runs -/

theorem AccountOk.act (h : AccountOk r) {a : ArtifactAction} (ha : RecordsOnce r a) :
    AccountOk (artifactAct r a) := by
  rw [artifactAct]
  rcases hcall : artifactCall r a with _ | r'
  · exact h
  replace ha := ha (hcall ▸ rfl)
  rw [Option.getD_some]
  rcases a with ⟨cap, id, src⟩ | ⟨cap, id, relPath, content⟩ | ⟨cap, id⟩ | name | _
  case create =>
    obtain ⟨l, hcreated⟩ := created_of_some h hcall
    exact hcreated.ok h ha
  case write =>
    obtain ⟨t, l, hsaved, rfl⟩ := saved_of_some h hcall
    exact hsaved.ok h (hsaved.counted.mpr ha)
  case freeze =>
    rcases froze_of_some h hcall with ⟨rfl, -⟩ | ⟨hmarker, workspace, m, snap, hlookup,
      hmanifest, hfroze⟩
    · exact h
    · exact hfroze.ok h (ha hmarker workspace m hlookup hmanifest)
  case remove =>
    obtain rfl := Option.some.inj hcall
    exact h.safeRmtree name
  case refresh =>
    obtain rfl := Option.some.inj hcall
    exact h.refreshLedger

/-- A call that returns keeps the count exactly when it records what it has made once. -/
theorem AccountOk.recordsOnce_iff (h : AccountOk r) (a : ArtifactAction) :
    RecordsOnce r a ↔ CountedOnce (artifactAct r a) := by
  refine ⟨fun ha => (h.act ha).countedOnce, fun hafter hsome => ?_⟩
  obtain ⟨r', hcall⟩ := Option.isSome_iff_exists.mp hsome
  have htotal := hafter.total
  rw [artifactAct, hcall, Option.getD_some] at htotal
  rcases a with ⟨cap, id, src⟩ | ⟨cap, id, relPath, content⟩ | ⟨cap, id⟩ | name | _
  case create =>
    obtain ⟨l, hcreated⟩ := created_of_some h hcall
    have hexcess := hcreated.total h
    change src.treeSourceBytes = 0
    omega
  case write =>
    obtain ⟨t, l, hsaved, rfl⟩ := saved_of_some h hcall
    exact hsaved.counted.mp ((hsaved.exact_iff h).mp htotal)
  case freeze =>
    rcases froze_of_some h hcall with ⟨rfl, hmarked⟩ | ⟨-, workspace, m, snap, hlookup,
      hmanifest, hfroze⟩
    · exact fun hmarker => absurd hmarker hmarked
    · intro _ workspace' m' hlookup' hmanifest'
      obtain rfl := Option.some.inj (hlookup.symm.trans hlookup')
      obtain rfl := Except.ok.inj (hmanifest.symm.trans hmanifest')
      exact (hfroze.exact_iff h).mp htotal
  case remove => trivial
  case refresh => trivial

end

/-- The artifacts are counted once in exactly the runs whose calls record them once. -/
theorem artifacts_counted_once_iff (actions : List ArtifactAction) :
    Throughout artifactAct (fun r a => CountedOnce (artifactAct r a)) .start actions ↔
      Throughout artifactAct RecordsOnce .start actions :=
  (throughout_iff_of_invariant AccountOk (fun _ _ hok ha => hok.act ha)
    (fun _ a hok => hok.recordsOnce_iff a) accountOk_start).symm

/-- A challenge of one file with one byte. -/
def smallChallenge : ChallengeDir where
  tree := Dir.nil.set (lit "a.py") (.file [1])
  valid := by decide
  plain := by
    intro p x hx
    rcases p with _ | ⟨n, _ | ⟨n', p⟩⟩
    · obtain rfl := Option.some.inj hx
      exact .inr ⟨_, rfl⟩
    · rw [Dir.get_singleton, Dir.find_set] at hx
      split_ifs at hx
      · exact .inl ⟨_, (Option.some.inj hx).symm⟩
      · exact nomatch hx
    · rw [Dir.get, Dir.find_set] at hx
      by_cases hn : n = lit "a.py"
      · simp [hn] at hx
      · simp [hn, Dir.find] at hx
  noLedger := by decide

/-- The first workspace of a challenge with one byte is recorded as three. -/
theorem starter_counted_twice :
    ¬ ∀ actions : List ArtifactAction,
      Throughout artifactAct (fun r a => CountedOnce (artifactAct r a)) .start actions := by
  intro h
  have hrun := h [.create ⟨0, 0, 10⟩ ⟨List.replicate 36 (ord 'a'), rfl⟩ smallChallenge]
  have htotal := hrun.1.total
  revert htotal
  decide +kernel

end PromptCode
