import PromptCode.SnapshotFreeze

/-!
# The sizes of retained artifacts

A challenge is copied twice for a session, as its workspace and as its starter
baseline, and a frozen submission is a third copy.  What each of them measures follows
from the files that are copied.
-/

namespace PromptCode

open Py FileTree

/-! ## Files and their bytes -/

/-- The bytes of some files. -/
def sizeOf (files : List SourceItem) : ℕ := (files.map fun f => f.2.length).sum

def fileItem (e : List Str × Node Str Bytes) : Option SourceItem :=
  match e.2 with
  | .file data => some (e.1, data)
  | _ => none

/-- The regular files of a tree. -/
def fileItems (t : Tree) : List SourceItem :=
  (t.walkPaths fun _ => true).filterMap fileItem

/-- `measure_workspace` counts the file: it lies below no dependency directory and is
not the name of the ledger database. -/
def isCounted (path : List Str) : Bool :=
  path.dropLast.all (fun n => !isDependencyDir n) && path ≠ [ledgerName]

/-- The bytes that `measure_workspace` leaves out. -/
def uncountedBytes (t : Tree) : ℕ := sizeOf ((fileItems t).filter fun f => !isCounted f.1)

section

variable {t : Tree} {files files' : List SourceItem}

theorem sizeOf_perm (h : files.Perm files') : sizeOf files = sizeOf files' :=
  (h.map _).sum_eq

theorem sizeOf_filter_add (p : SourceItem → Bool) :
    sizeOf (files.filter p) + sizeOf (files.filter fun f => !p f) = sizeOf files := by
  induction files with
  | nil => rfl
  | cons f files ih =>
      simp only [sizeOf] at ih ⊢
      by_cases hp : p f = true
      · rw [List.filter_cons_of_pos hp, List.filter_cons_of_neg (by simp [hp])]
        simp only [List.map_cons, List.sum_cons]
        omega
      · rw [List.filter_cons_of_neg hp, List.filter_cons_of_pos (by simpa using hp)]
        simp only [List.map_cons, List.sum_cons]
        omega

theorem fileItem_eq_some_iff {e : List Str × Node Str Bytes} {f : SourceItem} :
    fileItem e = some f ↔ e = (f.1, .file f.2) := by
  obtain ⟨p, x⟩ := e
  obtain ⟨q, b⟩ := f
  rcases x with b' | _ | _ | _ <;> simp [fileItem]

theorem mem_fileItems_iff (ht : t.Sorted) {p : List Str} {b : Bytes} :
    (p, b) ∈ fileItems t ↔ t.fileAt p = some b := by
  simp only [fileItems, List.mem_filterMap, fileItem_eq_some_iff, exists_eq_right,
    Dir.mem_walkPaths_iff ht, Dir.fileAt_eq_some_iff, Dir.OnWalk]
  refine ⟨fun h => h.2.1, fun h => ⟨?_, h, rfl, fun _ _ => trivial⟩⟩
  rintro rfl
  simp at h

theorem fileItems_nodup (ht : t.Sorted) : ((fileItems t).map Prod.fst).Nodup := by
  have hsub : ∀ l : List (List Str × Node Str Bytes),
      ((l.filterMap fileItem).map Prod.fst).Sublist (l.map Prod.fst) := by
    intro l
    induction l with
    | nil => exact .slnil
    | cons e l ih =>
        rcases hitem : fileItem e with _ | f
        · rw [List.filterMap_cons_none hitem]
          exact ih.cons _
        · rw [List.filterMap_cons_some hitem, fileItem_eq_some_iff.mp hitem]
          exact ih.cons_cons _
  exact (Dir.walkPaths_nodup _ ht).sublist (hsub _)

/-- A tree is measured by its files, whatever lists them. -/
theorem fileItems_perm (ht : t.Sorted) (hnodup : (files.map Prod.fst).Nodup)
    (h : ∀ p b, t.fileAt p = some b ↔ (p, b) ∈ files) : (fileItems t).Perm files := by
  rw [List.perm_ext_iff_of_nodup (fileItems_nodup ht).of_map hnodup.of_map]
  rintro ⟨p, b⟩
  rw [mem_fileItems_iff ht, h]

/-- Links and special files have no bytes. -/
theorem sum_nodeSize (l : List (List Str × Node Str Bytes)) :
    (l.map fun e => nodeSize e.2).sum = sizeOf (l.filterMap fileItem) := by
  induction l with
  | nil => rfl
  | cons e l ih =>
      obtain ⟨p, x⟩ := e
      rcases x with b | _ | _ | _
      case file =>
        rw [List.filterMap_cons_some (fileItem_eq_some_iff (f := (p, b)).mpr rfl)]
        simp only [List.map_cons, List.sum_cons, ih, sizeOf]
        rfl
      all_goals
        rw [List.filterMap_cons_none rfl, List.map_cons, List.sum_cons, ih]
        exact Nat.zero_add _

theorem filterMap_filter_link (l : List (List Str × Node Str Bytes)) :
    (l.filter fun e => !isLink e.2).filterMap fileItem = l.filterMap fileItem := by
  rw [List.filterMap_filter]
  apply List.filterMap_congr
  rintro ⟨p, x⟩ -
  rcases x with _ | _ | _ | _ <;> rfl

theorem measureEntry_eq (t : Tree) : (measureEntry t).1 = sizeOf (fileItems t) := by
  rw [measureEntry, fileItems, ← filterMap_filter_link, ← sum_nodeSize]

theorem measureWorkspace_eq (ht : t.Sorted) :
    (measureWorkspace t).1 = sizeOf ((fileItems t).filter fun f => isCounted f.1) := by
  rw [measureWorkspace, sum_nodeSize]
  apply sizeOf_perm
  have hleft : ((countedEntries t).filterMap fileItem).Nodup := by
    apply List.Nodup.filterMap _ (countedEntries_nodup ht).of_map
    intro e e' f hf hf'
    rw [Option.mem_def, fileItem_eq_some_iff] at hf hf'
    exact hf.trans hf'.symm
  rw [List.perm_ext_iff_of_nodup hleft ((fileItems_nodup ht).of_map.filter _)]
  rintro ⟨p, b⟩
  simp only [List.mem_filterMap, fileItem_eq_some_iff, exists_eq_right,
    mem_countedEntries_iff ht, Dir.OnWalk, List.mem_filter, mem_fileItems_iff ht,
    Dir.fileAt_eq_some_iff, isCounted, Bool.and_eq_true, List.all_eq_true,
    decide_eq_true_eq]
  constructor
  · rintro ⟨⟨-, hget, -, hkeep⟩, -, hname⟩
    exact ⟨hget, hkeep, hname⟩
  · rintro ⟨hget, hkeep, hname⟩
    refine ⟨⟨?_, hget, rfl, hkeep⟩, rfl, hname⟩
    rintro rfl
    simp at hget

/-- Both measurements agree up to the bytes that one of them leaves out. -/
theorem measureWorkspace_add_uncounted (ht : t.Sorted) :
    (measureWorkspace t).1 + uncountedBytes t = (measureEntry t).1 := by
  rw [measureWorkspace_eq ht, measureEntry_eq, uncountedBytes]
  exact sizeOf_filter_add fun f => isCounted f.1

theorem uncountedBytes_eq_zero_iff (ht : t.Sorted) : uncountedBytes t = 0 ↔
    ∀ p b, t.fileAt p = some b → isCounted p = true ∨ b = [] := by
  rw [uncountedBytes, sizeOf, List.sum_eq_zero_iff]
  constructor
  · intro h p b hp
    by_contra hnot
    push Not at hnot
    have hmem : (p, b) ∈ (fileItems t).filter fun f => !isCounted f.1 :=
      List.mem_filter.mpr ⟨(mem_fileItems_iff ht).mpr hp, by simpa using hnot.1⟩
    exact hnot.2 (List.length_eq_zero_iff.mp (h _ (List.mem_map_of_mem hmem)))
  · intro h n hn
    obtain ⟨⟨p, b⟩, hmem, rfl⟩ := List.mem_map.mp hn
    obtain ⟨hfile, hcounted⟩ := List.mem_filter.mp hmem
    rcases h p b ((mem_fileItems_iff ht).mp hfile) with hp | rfl
    · simp [hp] at hcounted
    · rfl

theorem uncountedBytes_write_iff (ht : t.Sorted) (hzero : uncountedBytes t = 0)
    {t' : Tree} {p : List Str} {b : Bytes} (h : t.write p b = some t') :
    uncountedBytes t' = 0 ↔ isCounted p = true ∨ b = [] := by
  rw [uncountedBytes_eq_zero_iff ht] at hzero
  rw [uncountedBytes_eq_zero_iff (ht.write h)]
  refine ⟨fun hall => hall p b (Dir.fileAt_write_self h), fun hnew q c hq => ?_⟩
  by_cases hqp : q = p
  · subst hqp
    rw [Dir.fileAt_write_self h, Option.some.injEq] at hq
    exact hq ▸ hnew
  · rw [Dir.fileAt_write_of_ne h hqp] at hq
    exact hzero q c hq

theorem fileItems_write_perm (ht : t.Sorted) {t' : Tree} {p : List Str} {b : Bytes}
    (h : t.write p b = some t') :
    (fileItems t').Perm ((p, b) :: (fileItems t).filter fun f => f.1 ≠ p) := by
  apply fileItems_perm (ht.write h)
  · refine List.nodup_cons.mpr
      ⟨?_, (fileItems_nodup ht).sublist (List.filter_sublist.map _)⟩
    intro hmem
    obtain ⟨f, hf, heq⟩ := List.mem_map.mp hmem
    simp [heq] at hf
  · intro q c
    rw [List.mem_cons, List.mem_filter, mem_fileItems_iff ht, Prod.mk.injEq]
    by_cases hqp : q = p
    · subst hqp
      simp [Dir.fileAt_write_self h, eq_comm]
    · simp [Dir.fileAt_write_of_ne h hqp, hqp]

theorem sizeOf_counted_cons (p : List Str) (b : Bytes) :
    sizeOf (((p, b) :: files).filter fun f => isCounted f.1) =
      (if isCounted p then b.length else 0) +
        sizeOf (files.filter fun f => isCounted f.1) := by
  split_ifs with hcounted
  · rw [List.filter_cons_of_pos (by exact hcounted)]
    rfl
  · rw [List.filter_cons_of_neg (by exact hcounted), Nat.zero_add]

/-- A write to a counted place puts its bytes in the place of the older ones. -/
theorem measureWorkspace_write_add (ht : t.Sorted) {t' : Tree} {p : List Str} {b : Bytes}
    (h : t.write p b = some t') :
    (measureWorkspace t').1 +
        (if isCounted p then ((t.fileAt p).getD []).length else 0) =
      (measureWorkspace t).1 + if isCounted p then b.length else 0 := by
  have hnew := sizeOf_perm ((fileItems_write_perm ht h).filter fun f => isCounted f.1)
  have hold : sizeOf ((fileItems t).filter fun f => isCounted f.1) =
      sizeOf (((fileItems t).filter fun f => f.1 ≠ p).filter fun f => isCounted f.1) +
        if isCounted p then ((t.fileAt p).getD []).length else 0 := by
    rcases hfile : t.fileAt p with _ | c
    · have hall : (fileItems t).filter (fun f => f.1 ≠ p) = fileItems t := by
        rw [List.filter_eq_self]
        rintro ⟨q, c⟩ hf
        have hq := (mem_fileItems_iff ht).mp hf
        have hne : q ≠ p := by
          rintro rfl
          exact nomatch hfile.symm.trans hq
        simpa using hne
      rw [hall]
      simp
    · have hsplit := sizeOf_perm ((perm_cons_filter_of_mem (fileItems_nodup ht)
        ((mem_fileItems_iff ht).mpr hfile)).filter fun f => isCounted f.1)
      rw [hsplit, sizeOf_counted_cons, Nat.add_comm]
      rfl
  rw [measureWorkspace_eq (ht.write h), measureWorkspace_eq ht, hnew, hold,
    sizeOf_counted_cons]
  omega

end

/-! ## Challenges -/

/-- `_should_skip`. -/
def shouldSkip (name : Str) : Bool :=
  decide (name ∈ skipDirNames) || holdsBlockedFragment name

/-- The items that `_copy_candidate_tree` and `_tree_source_bytes` keep. -/
def isCandidateFile (path : List Str) : Bool :=
  !path.any (fun part => decide (part ∈ skipDirNames)) &&
    !(isBlockedPath (join slash path) || shouldSkip (path.getLastD []))

/-- The folder of a challenge: regular files in directories, without the ledger's name
at its root. -/
structure ChallengeDir where
  tree : Tree
  valid : ValidTree tree
  plain : tree.Plain
  noLedger : tree.fileAt [ledgerName] = none

namespace ChallengeDir

variable (src : ChallengeDir)

def candidateFiles : List SourceItem :=
  (fileItems src.tree).filter fun f => isCandidateFile f.1

/-- `_tree_source_bytes`. -/
def treeSourceBytes : ℕ := sizeOf src.candidateFiles

/-- `_copy_candidate_tree`. -/
def copyCandidateTree : Tree := (Dir.nil.writeAll src.candidateFiles).getD .nil

theorem candidateFiles_nodup : (src.candidateFiles.map Prod.fst).Nodup :=
  (fileItems_nodup src.valid.sorted).sublist (List.filter_sublist.map _)

theorem mem_candidateFiles_iff {p : List Str} {b : Bytes} :
    (p, b) ∈ src.candidateFiles ↔
      src.tree.fileAt p = some b ∧ isCandidateFile p = true := by
  rw [candidateFiles, List.mem_filter, mem_fileItems_iff src.valid.sorted]

theorem ne_nil_of_fileAt {t : Tree} {p : List Str} {b : Bytes} (h : t.fileAt p = some b) :
    p ≠ [] := by
  rintro rfl
  simp [Dir.fileAt] at h

/-- The copy holds the candidate files and nothing else. -/
theorem copyCandidateTree_spec : ValidTree src.copyCandidateTree ∧
    ∀ p b, src.copyCandidateTree.fileAt p = some b ↔ (p, b) ∈ src.candidateFiles := by
  have hroom : ∀ w ∈ src.candidateFiles, w.1 ≠ [] ∧
      ∃ b, src.tree.get w.1 = some (.file b) := by
    rintro ⟨p, b⟩ hw
    obtain ⟨hfile, -⟩ := src.mem_candidateFiles_iff.mp hw
    exact ⟨ne_nil_of_fileAt hfile, b, Dir.fileAt_eq_some_iff.mp hfile⟩
  obtain ⟨t, hwrite, -⟩ := (Dir.fitsIn_nil src.tree).exists_writeAll hroom
  rw [copyCandidateTree, hwrite, Option.getD_some]
  have hnames : ∀ w ∈ src.candidateFiles, ∀ n ∈ w.1, IsComponent n := fun w hw =>
    src.valid.names.of_get (hroom w hw).2.choose_spec
  refine ⟨⟨validTree_nil.sorted.writeAll hwrite,
    validTree_nil.names.writeAll hnames hwrite⟩, ?_⟩
  intro p b
  rw [Dir.fileAt_writeAll hwrite, fileAt_nil_eq,
    Dir.updateAll_eq_some_iff src.candidateFiles_nodup]

theorem copyCandidateTree_fileItems :
    (fileItems src.copyCandidateTree).Perm src.candidateFiles := by
  obtain ⟨hvalid, hfiles⟩ := src.copyCandidateTree_spec
  exact fileItems_perm hvalid.sorted src.candidateFiles_nodup hfiles

/-- What is reserved is what one copy holds. -/
theorem measureEntry_copy : (measureEntry src.copyCandidateTree).1 = src.treeSourceBytes := by
  rw [measureEntry_eq, treeSourceBytes]
  exact sizeOf_perm src.copyCandidateTree_fileItems

theorem isDependencyDir_le_skip {n : Str} (h : n ∉ skipDirNames) :
    isDependencyDir n = false := by
  simp only [skipDirNames, List.mem_cons, not_or] at h
  simp [isDependencyDir, dependencyDirs, h.1, h.2.1, h.2.2.1]

theorem uncountedBytes_copy : uncountedBytes src.copyCandidateTree = 0 := by
  obtain ⟨hvalid, hfiles⟩ := src.copyCandidateTree_spec
  rw [uncountedBytes_eq_zero_iff hvalid.sorted]
  intro p b hp
  obtain ⟨hfile, hcandidate⟩ := src.mem_candidateFiles_iff.mp ((hfiles p b).mp hp)
  simp only [isCandidateFile, Bool.and_eq_true, Bool.not_eq_true', List.any_eq_false,
    decide_eq_true_eq] at hcandidate
  have hname : p ≠ [ledgerName] := by
    rintro rfl
    exact nomatch src.noLedger.symm.trans hfile
  have hkeep : ∀ n ∈ p.dropLast, isDependencyDir n = false := fun n hn =>
    isDependencyDir_le_skip (hcandidate.1 n (List.mem_of_mem_dropLast hn))
  simp only [isCounted, Bool.and_eq_true, List.all_eq_true, decide_eq_true_eq]
  exact .inl ⟨fun n hn => by rw [hkeep n hn]; rfl, hname⟩

theorem measureWorkspace_copy :
    (measureWorkspace src.copyCandidateTree).1 = src.treeSourceBytes := by
  have hsum := measureWorkspace_add_uncounted src.copyCandidateTree_spec.1.sorted
  rw [src.uncountedBytes_copy, src.measureEntry_copy] at hsum
  exact hsum

end ChallengeDir

/-! ## Frozen snapshots -/

namespace Snapshot

variable {snap : Snapshot}

theorem sorted_tree (h : snap.source.Sorted) : snap.tree.Sorted := by
  have hnode : (Node.dir snap.source : Node Str Bytes).Sorted := h
  have hfile : (Node.file snap.manifestText : Node Str Bytes).Sorted := trivial
  exact (Dir.Sorted.set (d := .nil) trivial hnode).set hfile

theorem fileAt_tree {p : List Str} {b : Bytes} :
    snap.tree.fileAt p = some b ↔
      (p, b) = ([manifestName], snap.manifestText) ∨
        ∃ q, p = lit "source" :: q ∧ snap.source.fileAt q = some b := by
  have hsource : snap.tree.find (lit "source") = some (.dir snap.source) := by
    have hne : lit "source" ≠ manifestName := by decide
    rw [tree, Dir.find_set, if_neg hne, Dir.find_set, if_pos rfl]
  have hmanifest : snap.tree.find manifestName = some (.file snap.manifestText) := by
    rw [tree, Dir.find_set, if_pos rfl]
  rcases p with _ | ⟨n, q⟩
  · simp [Dir.fileAt]
  · by_cases hn : n = lit "source"
    · subst hn
      have hget : snap.tree.get (lit "source" :: q) = snap.source.get q :=
        Dir.get_cons_of_find_dir hsource ..
      have hne : lit "source" ≠ manifestName := by decide
      simp only [Dir.fileAt, hget, Prod.mk.injEq, List.cons.injEq, hne, false_and, true_and,
        false_or, exists_eq_left']
    · by_cases hm : n = manifestName
      · subst hm
        rcases q with _ | ⟨m, q⟩
        · rw [Dir.fileAt_eq_some_iff, Dir.get_singleton, hmanifest]
          simp [hn, eq_comm]
        · simp [Dir.fileAt, Dir.get, hmanifest, hn]
      · have hnone : snap.tree.find n = none := by
          rw [tree, Dir.find_set, if_neg hm, Dir.find_set, if_neg hn]
          rfl
        simp [Dir.fileAt, Dir.get_cons_of_find_none hnone, hn, hm]

theorem fileItems_tree (h : snap.source.Sorted) :
    (fileItems snap.tree).Perm (([manifestName], snap.manifestText) ::
      (fileItems snap.source).map fun f => (lit "source" :: f.1, f.2)) := by
  apply fileItems_perm (sorted_tree h)
  · have hkeys : ((fileItems snap.source).map
        fun f => (lit "source" :: f.1, f.2)).map Prod.fst =
        ((fileItems snap.source).map Prod.fst).map (lit "source" :: ·) := by
      rw [List.map_map, List.map_map]
      rfl
    rw [List.map_cons, List.nodup_cons, hkeys]
    refine ⟨?_, (fileItems_nodup h).map fun _ _ heq => (List.cons.inj heq).2⟩
    intro hmem
    obtain ⟨q, -, hq⟩ := List.mem_map.mp hmem
    exact absurd (List.cons.inj hq).1 (by decide)
  · intro p b
    rw [fileAt_tree, List.mem_cons, List.mem_map]
    refine or_congr_right ?_
    constructor
    · rintro ⟨q, rfl, hq⟩
      exact ⟨(q, b), (mem_fileItems_iff h).mpr hq, rfl⟩
    · rintro ⟨⟨q, b'⟩, hq, heq⟩
      obtain ⟨rfl, rfl⟩ := Prod.mk.inj heq
      exact ⟨q, rfl, (mem_fileItems_iff h).mp hq⟩

theorem measureEntry_tree (h : snap.source.Sorted) :
    (measureEntry snap.tree).1 =
      snap.manifestText.length + sizeOf (fileItems snap.source) := by
  rw [measureEntry_eq, sizeOf_perm (fileItems_tree h)]
  simp only [sizeOf, List.map_cons, List.sum_cons, List.map_map]
  rfl

/-- A source without files below dependency directories is counted in full. -/
theorem uncountedBytes_tree (h : snap.source.Sorted)
    (hkeep : ∀ p b, snap.source.fileAt p = some b →
      ∀ n ∈ p.dropLast, isDependencyDir n = false) : uncountedBytes snap.tree = 0 := by
  rw [uncountedBytes_eq_zero_iff (sorted_tree h)]
  intro p b hp
  simp only [isCounted, Bool.and_eq_true, List.all_eq_true, decide_eq_true_eq]
  refine .inl ?_
  rcases fileAt_tree.mp hp with heq | ⟨q, rfl, hq⟩
  · obtain ⟨rfl, -⟩ := Prod.mk.inj heq
    exact ⟨nofun, by decide⟩
  · refine ⟨?_, ?_⟩
    · intro n hn
      rw [List.dropLast_cons_of_ne_nil (ChallengeDir.ne_nil_of_fileAt hq)] at hn
      rcases List.mem_cons.mp hn with rfl | hn
      · decide
      · rw [hkeep q b hq n hn]
        rfl
    · intro heq
      exact absurd (List.cons.inj heq).1 (by decide)

end Snapshot

theorem sizeOf_manifestOf (files : List SourceItem) :
    ((manifestOf files).map fun r => r.size).sum = sizeOf files := by
  rw [((manifestOf_perm_map files).map fun r => r.size).sum_eq, List.map_map]
  rfl

/-- What a freeze copies measures 64 bytes less than it has reserved, all of them
counted. -/
theorem measure_frozen {root source : Tree} {m : Manifest} (hroot : ValidTree root)
    (h : manifestInto root = .ok (m, source)) :
    (Snapshot.tree ⟨source, manifestJson m⟩).Sorted ∧
      (measureEntry (Snapshot.tree ⟨source, manifestJson m⟩)).1 + 64 = requiredBytes m ∧
      uncountedBytes (Snapshot.tree ⟨source, manifestJson m⟩) = 0 := by
  rcases hfiles : sourceContents root with e | files
  · rw [manifestInto, hfiles] at h
    exact nomatch h
  · obtain ⟨t, hinto, hcopy⟩ := manifestInto_of_ok hroot hfiles
    obtain ⟨rfl, rfl⟩ := Prod.mk.inj (Except.ok.inj (hinto.symm.trans h))
    have hsource := sourceOf_of_ok hroot hfiles
    have hperm := fileItems_perm hcopy.valid.sorted hsource.list.nodup hcopy.fileAt
    refine ⟨Snapshot.sorted_tree hcopy.valid.sorted, ?_, ?_⟩
    · rw [Snapshot.measureEntry_tree hcopy.valid.sorted, sizeOf_perm hperm, requiredBytes,
        sizeOf_manifestOf, Nat.add_comm (manifestJson _).length]
    · apply Snapshot.uncountedBytes_tree hcopy.valid.sorted
      intro p b hp n hn
      have hincluded := (hsource.mem_iff p b).mp ((hcopy.fileAt p b).mp hp)
      have hkeep := hincluded.onWalk.2.2.2 n hn
      rw [keepSource, Bool.not_eq_true', decide_eq_false_iff_not] at hkeep
      exact ChallengeDir.isDependencyDir_le_skip hkeep

end PromptCode
