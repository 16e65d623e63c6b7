import PromptCode.DurableRoundTrip
import PromptCode.SaveRefresh

/-!
# What can be saved can be submitted

A freeze reads files that the ledger's measurement counts, so a workspace within
the measured quota is never over the quota of the freeze.  The names it hands to
the object store are those the saves have chosen.
-/

namespace PromptCode

open Py FileTree Transition

/-! ## The quota of a freeze -/

/-- The files that a reading yields. -/
def okItems (events : List (Except PyErr SourceItem)) : List SourceItem :=
  events.filterMap fun ev => ev.toOption

/-- Reading stops for the quota only if what it yields exceeds it. -/
theorem collect_ne_quota {events : List (Except PyErr SourceItem)}
    (total count : ℕ) (hno : .error (.value quotaText) ∉ events)
    (hbytes : total + ((okItems events).map fun f => f.2.length).sum ≤ sourceBytes)
    (hcount : count + (okItems events).length ≤ sourceFileLimit) :
    collect quotaText .ok events total count ≠ .error (.value quotaText) := by
  induction events generalizing total count with
  | nil => simp [collect]
  | cons ev rest ih =>
      cases ev with
      | error e =>
          simp only [collect, ne_eq, Except.error.injEq]
          rintro rfl
          exact hno (by simp)
      | ok f =>
          have hitems : okItems (.ok f :: rest) = f :: okItems rest := rfl
          rw [hitems] at hbytes hcount
          simp only [List.map_cons, List.sum_cons, List.length_cons] at hbytes hcount
          have hrest := ih (total + f.2.length) (count + 1)
            (fun hmem => hno (by simp [hmem])) (by omega) (by omega)
          simp only [collect]
          rw [if_neg (c := sourceBytes < total + f.2.length ∨ sourceFileLimit ≤ count)
            (by omega)]
          split_ifs
          · simp [quotaText]
          · cases hmore : collect quotaText .ok rest (total + f.2.length)
                (count + 1) with
            | error e =>
                rw [hmore] at hrest
                simpa [Except.map] using hrest
            | ok items => simp [Except.map]

theorem quotaText_notMem_sourceFiles (root : Tree) :
    .error (.value quotaText) ∉ sourceFiles root := by
  intro hmem
  obtain ⟨s, -, hs⟩ := List.mem_flatMap.mp hmem
  unfold stepSources at hs
  split_ifs at hs
  · simp [quotaText] at hs
  · obtain ⟨e, -, he⟩ := List.mem_filterMap.mp hs
    dsimp only at he
    split_ifs at he
    cases hx : e.2 <;> simp [hx, quotaText] at he

theorem okItems_stepSources_sublist (s : Step Str Bytes) :
    (okItems (stepSources s)).Sublist (s.paths.filterMap includedItem) := by
  unfold stepSources
  split_ifs
  · simp [okItems, Except.toOption]
  · rw [okItems, List.filterMap_filterMap, Step.paths, List.filterMap_map]
    rw [List.filterMap_congr fun e _ => ?_]
    simp only [Function.comp_apply, includedItem]
    by_cases hblocked : isBlockedPath (join slash (s.dirpath ++ [e.1])) = true
    · simp [hblocked]
    · cases hx : e.2 <;> simp [hblocked, Except.toOption]

/-- What a reading yields before it ends lies on the walk. -/
theorem okItems_sourceFiles_sublist (root : Tree) :
    (okItems (sourceFiles root)).Sublist (sourceItems root) := by
  rw [okItems, sourceFiles, List.filterMap_flatMap, sourceItems, Dir.walkPaths,
    List.filterMap_flatMap]
  induction root.osWalk keepSource with
  | nil => simp
  | cons s steps ih =>
      rw [List.flatMap_cons, List.flatMap_cons]
      exact (okItems_stepSources_sublist s).append ih

theorem isDependencyDir_of_keepSource {n : Str} (h : keepSource n = true) :
    isDependencyDir n = false := by
  have hall : dependencyDirs.all (fun d => decide (d ∈ skipDirNames)) = true := by
    decide
  simp only [keepSource, Bool.not_eq_true', decide_eq_false_iff_not] at h
  simp only [isDependencyDir, decide_eq_false_iff_not]
  intro hmem
  exact h (by simpa using List.all_eq_true.mp hall n hmem)

/-- Every file that a freeze reads is counted by the measurement. -/
theorem sourceItems_le_measure {root : Tree} (hroot : ValidTree root)
    (hledger : root.FilesAt fun p _ => p ≠ [ledgerName]) :
    ((sourceItems root).map fun f => f.2.length).sum ≤ (measureWorkspace root).1 ∧
      (sourceItems root).length ≤ (measureWorkspace root).2 := by
  set entries := (sourceItems root).map fun f => (f.1, Node.file f.2) with hentries
  have hnodup : entries.Nodup := by
    refine List.Nodup.of_map Prod.fst ?_
    rw [hentries, List.map_map]
    exact sourceItems_nodup hroot
  have hsub : entries ⊆ countedEntries root := by
    intro e he
    obtain ⟨f, hf, rfl⟩ := List.mem_map.mp he
    have hinc := (mem_sourceItems_iff hroot).mp hf
    refine (mem_countedEntries_iff hroot.sorted).mpr
      ⟨⟨hinc.onWalk.1, hinc.onWalk.2.1, rfl, fun n hn => ?_⟩, rfl,
        hledger _ _ hinc.fileAt⟩
    simp [isDependencyDir_of_keepSource (hinc.onWalk.2.2.2 n hn)]
  obtain ⟨counted, hperm, hsublist⟩ := List.subperm_of_subset hnodup hsub
  have hsum : ((sourceItems root).map fun f => f.2.length).sum =
      (counted.map fun e => nodeSize e.2).sum := by
    rw [(hperm.map _).sum_eq, hentries, List.map_map]
    rfl
  have hlen : (sourceItems root).length = counted.length := by
    rw [hperm.length_eq, hentries, List.length_map]
  exact ⟨hsum ▸ (hsublist.map _).sum_le_sum fun _ _ => Nat.zero_le _,
    hlen ▸ hsublist.length_le⟩

/-- A workspace within the measured quota is within the quota of a freeze. -/
theorem sourceContents_ne_quota {root : Tree} (hroot : ValidTree root)
    (hledger : root.FilesAt fun p _ => p ≠ [ledgerName])
    (hwithin : WithinQuota root) :
    sourceContents root ≠ .error (.value quotaText) := by
  obtain ⟨hbytes, hfiles⟩ := sourceItems_le_measure hroot hledger
  have hsub := okItems_sourceFiles_sublist root
  have hsum := (hsub.map fun f => f.2.length).sum_le_sum fun _ _ => Nat.zero_le _
  have hlen := hsub.length_le
  have hb := hwithin.bytes
  have hf := hwithin.files
  exact collect_ne_quota _ _ (quotaText_notMem_sourceFiles root) (by omega) (by omega)

/-! ## The names of a submission -/

/-- A freeze reads a file of this path. -/
def Collected (path : List Str) : Prop :=
  isBlockedPath (join slash path) = false ∧ ∀ n ∈ path.dropLast, keepSource n = true

instance : DecidablePred Collected := fun path =>
  decidable_of_iff (isBlockedPath (join slash path) = false ∧
    path.dropLast.all keepSource = true) (by rw [List.all_eq_true]; rfl)

/-- A path the object store takes if a freeze reads it. -/
def Submittable (path : List Str) : Prop :=
  Collected path → Storable (join slash path) ∧ backslash ∉ join slash path

/-- No save that a freeze reads writes a path with a control character or of more
bytes than a key has left. -/
def NameCond : SaveHost → SaveAction → Prop :=
  WritesAt fun p _ => Collected p → Storable (join slash p)

/-- Every name of the workspace that a freeze reads can be stored. -/
structure NameInv (h : SaveHost) : Prop where
  paths : PathInv h
  files : h.disk.workspace.FilesAt fun p _ => Submittable p

theorem SaveMove.nameInv {h h' : SaveHost} {a : SaveAction}
    (hmove : SaveMove h a h') (hi : NameInv h) (hcond : NameCond h a) :
    NameInv h' := by
  refine ⟨hmove.pathInv hi.paths, hmove.filesAt hi.files ?_⟩
  cases a with
  | write =>
      intro path encoded t hp hwrite hcollected
      have hnames := hi.paths.pending path encoded (by rw [hp]; rfl)
      refine ⟨hcond path encoded t hp hwrite hcollected, fun hmem => ?_⟩
      obtain ⟨n, hn, hback⟩ := (mem_join_iff (by decide)).mp hmem
      exact (hnames n hn).2 hback
  | save | reserve | record | store => trivial

/-- The object store accepts the key of every row, and takes the whole submission
if its objects have room and its marker reads. -/
structure NamesAccepted (sessionId : Str) (m : Manifest) (source : Tree) : Prop where
  keys : ∀ r ∈ m, ∃ key, submissionKey sessionId (manifestDigest m) r.path = .ok key ∧
    validateKey key = .ok key
  persisted : ∀ foreign store, (∀ r ∈ m, FitsObject store r.size) →
    FitsObject store (manifestJson m).length →
    MarkerReadable foreign store (prefixOf sessionId (manifestDigest m)) →
    ∃ p store', persistSubmission foreign store sessionId (manifestDigest m) m source =
      (.ok p, store')

theorem namesAccepted_of_filesAt {t source : Tree} {files : List SourceItem} {s : Str}
    (hfrozen : FrozenSource t files source) (hs : IsSessionId s)
    (hnames : t.FilesAt fun p _ => Submittable p) : NamesAccepted s (manifestOf files) source := by
  have hok : ∀ f ∈ files, Storable (join slash f.1) ∧ backslash ∉ join slash f.1 := by
    intro f hf
    have hinc := (hfrozen.of_workspace.mem_iff f.1 f.2).mp hf
    exact hnames _ _ hinc.fileAt ⟨hinc.not_blocked, hinc.onWalk.2.2.2⟩
  have hd := isDigest_manifestDigest (manifestOf files)
  constructor
  · intro r hr
    obtain ⟨f, hf, rfl⟩ := mem_manifestOf.mp hr
    exact (exists_key_iff_storable hs hd (hfrozen.path_ne_dot hf)).mpr (hok f hf).1
  · intro foreign store hfits hmanifest hread
    obtain ⟨store', hpersist⟩ := persistSubmission_succeeds _ _ _ hfrozen hs
      { storable := fun f hf => (hok f hf).1
        no_backslash := fun f hf => (hok f hf).2
        fits := fun f hf => hfits _ (mem_manifestOf.mpr ⟨f, hf, rfl⟩)
        fits_manifest := hmanifest
        readable := hread }
    exact ⟨_, store', hpersist⟩

/-- Only names that can be stored are ever persisted. -/
theorem storable_of_persistSubmission {t source : Tree} {files : List SourceItem}
    {foreign : ForeignMarker} {store store' : ObjectStore} {s p : Str}
    (hfrozen : FrozenSource t files source) (hs : IsSessionId s)
    (hback : ∀ f ∈ files, backslash ∉ join slash f.1)
    (hpersist : persistSubmission foreign store s (manifestDigest (manifestOf files))
      (manifestOf files) source = (.ok p, store')) :
    ∀ f ∈ files, Storable (join slash f.1) := by
  intro f hf
  have hd := isDigest_manifestDigest (manifestOf files)
  have hrow : itemRow f ∈ manifestOf files := mem_manifestOf.mpr ⟨f, hf, rfl⟩
  refine (exists_key_iff_storable hs hd (hfrozen.path_ne_dot hf)).mp ?_
  obtain ⟨hpre, -, -, hcases⟩ := persistSubmission_ok hpersist
  rw [sortedManifest_manifestOf] at hcases
  rcases hcases with ⟨halready, -⟩ | ⟨-, store₁, hup, hput⟩
  · unfold alreadyPersisted at halready
    cases hcommitted : committedManifest foreign store s
        (manifestDigest (manifestOf files)) with
    | error e => simp [hcommitted] at halready
    | ok c =>
        cases c with
        | none => simp [hcommitted] at halready
        | some rows =>
            rw [hcommitted] at halready
            obtain ⟨key, data, hkey, hget, -⟩ :=
              verifiedObjects_true_iff.mp halready _ hrow
            exact ⟨key, hkey, (get_ok_iff.mp hget).1⟩
  · have hrows : ∀ r ∈ manifestOf files, r.path ≠ lit "." ∧ backslash ∉ r.path := by
      intro r hr
      obtain ⟨g, hg, rfl⟩ := mem_manifestOf.mp hr
      exact ⟨hfrozen.path_ne_dot hg, hback g hg⟩
    obtain ⟨hnorm, hvalid⟩ := (persisted_of_upload hpre hrows hup hput).valid _ hrow
    exact ⟨_, submissionKey_eq hpre hnorm, hvalid⟩

/-! ## Saves and refreshes in any order -/

/-- A session before its first save: the starter is within the quota, the ledger
counts at least what it holds, and its names can be stored. -/
structure FreshSession (disk : SessionDisk) : Prop where
  sessionId : IsSessionId disk.sessionId
  valid : ValidTree disk.workspace
  no_ledger_file : disk.workspace.FilesAt fun p _ => p ≠ [ledgerName]
  within : WithinQuota disk.workspace
  unreserved : disk.ledger.Unreserved disk.sessionId
  covered : Covers disk.ledger disk.sessionId disk.workspace
  names : disk.workspace.FilesAt fun p _ => Submittable p

theorem IsSessionId.ne_reservationKey {s : Str} (hs : IsSessionId s) :
    s ≠ reservationKey := by
  rintro rfl
  exact absurd hs.length (by decide)

section Fresh

variable {disk : SessionDisk} (hfresh : FreshSession disk)

include hfresh

theorem FreshSession.pathInv : PathInv ⟨disk, .idle⟩ :=
  ⟨hfresh.valid, fun path encoded hp => by simp [SavePhase.pending] at hp⟩

theorem FreshSession.quotaInv : QuotaInv ⟨disk, .idle⟩ :=
  ⟨hfresh.pathInv, hfresh.sessionId.ne_reservationKey, hfresh.no_ledger_file,
    hfresh.within, hfresh.unreserved, fun _ => hfresh.covered,
    fun path encoded hp => by simp [SavePhase.pending] at hp⟩

theorem FreshSession.nameInv : NameInv ⟨disk, .idle⟩ := ⟨hfresh.pathInv, hfresh.names⟩

end Fresh

/-- After every run of saves and refreshes from a starter within the limits, the
workspace is not over the quota of a freeze if no refresh stored less than the
workspace held and no file took the place of the ledger database, and every name
of the frozen source is accepted if the collected paths that were saved can be
stored. -/
theorem saved_can_be_submitted {disk : SessionDisk} (actions : List SaveAction)
    (hfresh : FreshSession disk) :
    (Throughout saveAct QuotaCond ⟨disk, .idle⟩ actions →
      manifest (run saveAct ⟨disk, .idle⟩ actions).disk.workspace ≠
          .error (.value quotaText) ∧
        manifestInto (run saveAct ⟨disk, .idle⟩ actions).disk.workspace ≠
          .error (.value quotaText)) ∧
    (Throughout saveAct NameCond ⟨disk, .idle⟩ actions → ∀ m source,
      manifestInto (run saveAct ⟨disk, .idle⟩ actions).disk.workspace =
        .ok (m, source) → m ≠ [] → NamesAccepted disk.sessionId m source) := by
  constructor
  · intro hcond
    have hinv : QuotaInv (run saveAct ⟨disk, .idle⟩ actions) :=
      invariant_run _ (fun h a hi hc => (saveAct_move h a).quotaInv hi hc)
        hfresh.quotaInv hcond
    have hne := sourceContents_ne_quota hinv.paths.valid hinv.no_ledger_file hinv.within
    constructor
    · intro h
      unfold manifest at h
      cases hc : sourceContents (run saveAct ⟨disk, .idle⟩ actions).disk.workspace with
      | error e =>
          rw [hc] at h hne
          exact hne (congrArg _ (Except.error.inj h))
      | ok files => simp [hc, Except.map] at h
    · intro h
      unfold manifestInto at h
      cases hc : sourceContents (run saveAct ⟨disk, .idle⟩ actions).disk.workspace with
      | error e =>
          rw [hc] at h hne
          exact hne (congrArg _ (Except.error.inj h))
      | ok files =>
          rw [hc] at h
          dsimp only at h
          split at h <;> simp at h
  · intro hcond m source hinto hm
    have hinv : NameInv (run saveAct ⟨disk, .idle⟩ actions) :=
      invariant_run _ (fun h a hi hc => (saveAct_move h a).nameInv hi hc)
        hfresh.nameInv hcond
    obtain ⟨files, hfrozen, rfl⟩ :=
      frozenSource_of_manifestInto hinv.paths.valid hinto hm
    exact namesAccepted_of_filesAt hfrozen hfresh.sessionId hinv.files

/-! ## Runs on small sessions -/

/-- A session with a source file `a.py`. -/
def someDisk : SessionDisk :=
  { singleFileDisk "a.py" "a" with sessionId := someSession }

theorem freshSession_someDisk : FreshSession someDisk := by
  have hfiles {P : List Str → Bytes → Prop} (hP : P [lit "a.py"] [97]) :
      someDisk.workspace.FilesAt P := by
    intro p b hp
    change (Dir.file (lit "a.py") [97] .nil : Tree).fileAt p = some b at hp
    cases p with
    | nil => simp [Dir.fileAt] at hp
    | cons n ns =>
        by_cases hn : n = lit "a.py"
        · subst hn
          cases ns with
          | nil =>
              obtain rfl : [97] = b := by simpa [Dir.fileAt, Dir.get, Dir.find] using hp
              exact hP
          | cons m ms => simp [Dir.fileAt, Dir.get, Dir.find] at hp
        · simp [Dir.fileAt, Dir.get, Dir.find, hn] at hp
  exact
    { sessionId := by decide
      valid := by decide
      no_ledger_file := hfiles (by decide)
      within := ⟨by decide, by decide⟩
      unreserved := fun e he => by simp [someDisk, singleFileDisk, Ledger.empty] at he
      covered := fun r hr => by
        simp [someDisk, singleFileDisk, Ledger.empty, Ledger.row] at hr
      names := hfiles fun _ => by decide }

/-- One save with nothing between its steps. -/
def oneSave (relPath content : String) : List SaveAction :=
  [.save (lit relPath) (lit content), .reserve roomyCapacity, .write, .record]

theorem saved_can_be_submitted_one_save :
    manifest (run saveAct ⟨someDisk, .idle⟩ (oneSave "b.py" "x")).disk.workspace ≠
        .error (.value quotaText) ∧
      ∃ m source,
        manifestInto (run saveAct ⟨someDisk, .idle⟩
          (oneSave "b.py" "x")).disk.workspace = .ok (m, source) ∧
        NamesAccepted someSession m source := by
  have hstate : run saveAct ⟨someDisk, .idle⟩ (oneSave "b.py" "x") =
      ⟨(writeFile roomyCapacity someDisk (lit "b.py") (lit "x")).2, .idle⟩ :=
    run_save_eq_writeFile _ _ _ _
  have hpath : ∀ path encoded,
      (run saveAct ⟨someDisk, .idle⟩ [.save (lit "b.py") (lit "x"),
        .reserve roomyCapacity]).phase = .reserved path encoded →
      path ≠ [ledgerName] ∧ Storable (join slash path) := by
    intro path encoded hp
    have hphase : (run saveAct ⟨someDisk, .idle⟩ [.save (lit "b.py") (lit "x"),
        .reserve roomyCapacity]).phase.pending = some ([lit "b.py"], [120]) := by
      decide
    rw [hp] at hphase
    obtain ⟨rfl, -⟩ := Prod.mk.inj (Option.some.inj hphase)
    exact ⟨by decide, by decide⟩
  have hquota : Throughout saveAct QuotaCond ⟨someDisk, .idle⟩ (oneSave "b.py" "x") :=
    ⟨trivial, trivial, fun path encoded _ hp _ => (hpath path encoded hp).1, trivial,
      trivial⟩
  have hname : Throughout saveAct NameCond ⟨someDisk, .idle⟩ (oneSave "b.py" "x") :=
    ⟨trivial, trivial, fun path encoded _ hp _ _ => (hpath path encoded hp).2, trivial,
      trivial⟩
  obtain ⟨hfirst, hsecond⟩ := saved_can_be_submitted (oneSave "b.py" "x")
    freshSession_someDisk
  refine ⟨(hfirst hquota).1, ?_⟩
  have hfiles : sourceContents
      (run saveAct ⟨someDisk, .idle⟩ (oneSave "b.py" "x")).disk.workspace =
        .ok [([lit "a.py"], [97]), ([lit "b.py"], [120])] := by
    rw [hstate]
    decide
  have hvalid : ValidTree
      (run saveAct ⟨someDisk, .idle⟩ (oneSave "b.py" "x")).disk.workspace := by
    rw [hstate]
    decide
  obtain ⟨source, hinto, -⟩ := manifestInto_of_ok hvalid hfiles
  exact ⟨_, source, hinto, hsecond hname _ source hinto (manifestOf_ne_nil (by decide))⟩

/-- A session in which the candidate has saved a file with a tabulator in its
name. -/
def savedTabName : Except PyErr Unit × SessionDisk :=
  writeFile roomyCapacity someDisk (lit "a\tb") (lit "x")

/-- The name with the tabulator is saved and frozen, and no object store takes
the submission. -/
theorem saved_tab_name_not_persisted :
    savedTabName.1 = .ok () ∧
      ∃ m source,
        manifestInto savedTabName.2.workspace = .ok (m, source) ∧ m ≠ [] ∧
        ∀ foreign store p store', persistSubmission foreign store someSession
          (manifestDigest m) m source ≠ (.ok p, store') := by
  have hvalid : ValidTree savedTabName.2.workspace := by decide
  have hfiles : sourceContents savedTabName.2.workspace =
      .ok [([lit "a\tb"], [120]), ([lit "a.py"], [97])] := by decide
  obtain ⟨source, hinto, hcopy⟩ := manifestInto_of_ok hvalid hfiles
  have hfrozen : FrozenSource savedTabName.2.workspace _ source :=
    ⟨hfiles, sourceOf_of_ok hvalid hfiles, hcopy, by decide⟩
  refine ⟨by decide, _, source, hinto, manifestOf_ne_nil (by decide), ?_⟩
  intro foreign store p store' hpersist
  have hstorable := storable_of_persistSubmission hfrozen (by decide) (by decide)
    hpersist ([lit "a\tb"], [120]) (by simp)
  exact absurd hstorable (by decide)

end PromptCode
