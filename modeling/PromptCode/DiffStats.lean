import PromptCode.Py.Lines
import PromptCode.Py.SameValue
import PromptCode.RetainedArtifacts

/-!
# Diff statistics

`compute_diff_stats` compares the starter with the workspace, one path after another, and
counts the lines that were added and deleted.  It compares the lines of a file and not
its content, and it skips a path by any of its parts, the last one included.
-/

namespace PromptCode

open Py FileTree

/-! ## Opcodes -/

inductive OpTag where
  | equal
  | insert
  | delete
  | replace
  deriving DecidableEq

/-- One tuple of `SequenceMatcher.get_opcodes`. -/
structure Opcode where
  tag : OpTag
  i1 : ℕ
  i2 : ℕ
  j1 : ℕ
  j2 : ℕ

/-- The ranges fit the tag. -/
def Opcode.Fits (o : Opcode) : Prop :=
  match o.tag with
  | .equal => o.i2 - o.i1 = o.j2 - o.j1
  | .insert => o.i1 = o.i2
  | .delete => o.j1 = o.j2
  | .replace => True

/-- The opcodes cover two sequences of `m` and `n` items from `i` and `j` on, each opcode
where the one before it ends. -/
def Tiles (m n : ℕ) : ℕ → ℕ → List Opcode → Prop
  | i, j, [] => i = m ∧ j = n
  | i, j, o :: ops =>
      o.i1 = i ∧ o.j1 = j ∧ o.i1 ≤ o.i2 ∧ o.j1 ≤ o.j2 ∧ o.Fits ∧ Tiles m n o.i2 o.j2 ops

/-- The two sums of the inner loop. -/
def countOpcode (acc : ℤ × ℤ) (o : Opcode) : ℤ × ℤ :=
  match o.tag with
  | .insert => (acc.1 + (o.j2 - o.j1), acc.2)
  | .delete => (acc.1, acc.2 + (o.i2 - o.i1))
  | .replace => (acc.1 + (o.j2 - o.j1), acc.2 + (o.i2 - o.i1))
  | .equal => acc

/-- One opcode moves the balance by what it advances in the second sequence more than in
the first. -/
theorem countOpcode_balance {o : Opcode} (hi : o.i1 ≤ o.i2) (hj : o.j1 ≤ o.j2) (hfits : o.Fits)
    (acc : ℤ × ℤ) :
    (countOpcode acc o).1 - (countOpcode acc o).2 =
      acc.1 - acc.2 + ((o.j2 - o.j1 : ℤ) - (o.i2 - o.i1)) := by
  unfold countOpcode
  unfold Opcode.Fits at hfits
  cases htag : o.tag <;> rw [htag] at hfits <;> dsimp only at hfits ⊢ <;> omega

/-- Over a tiling the balance is the difference of the lengths. -/
theorem countOpcode_foldl {m n i j : ℕ} {ops : List Opcode} (h : Tiles m n i j ops)
    (acc : ℤ × ℤ) :
    (ops.foldl countOpcode acc).1 - (ops.foldl countOpcode acc).2 =
      acc.1 - acc.2 + ((n - j : ℤ) - (m - i)) := by
  induction ops generalizing i j acc with
  | nil =>
      obtain ⟨rfl, rfl⟩ := h
      rw [List.foldl_nil]
      omega
  | cons o ops ih =>
      obtain ⟨rfl, rfl, hi, hj, hfits, hrest⟩ := h
      have hstep := countOpcode_balance hi hj hfits acc
      have hops := ih hrest (countOpcode acc o)
      rw [List.foldl_cons]
      omega

/-! ## The statistics -/

inductive ChangeStatus where
  | added
  | deleted
  | modified
  deriving DecidableEq

/-- One entry of `files_changed`. -/
structure FileStat where
  path : Str
  additions : ℤ
  deletions : ℤ
  status : ChangeStatus

structure DiffStats where
  filesChanged : List FileStat
  additions : ℤ
  deletions : ℤ

/-- `file_count`. -/
def DiffStats.fileCount (s : DiffStats) : ℕ := s.filesChanged.length

/-- The files of one side: regular files whose path is not blocked, under their paths. -/
def comparedFiles (t : Tree) : List (Str × Bytes) :=
  ((fileItems t).map fun f => (join slash f.1, f.2)).filter fun f => !isBlockedPath f.1

/-- The lines of one side: none when the file is not there. -/
def sideLines (files : List (Str × Bytes)) (rel : Str) : List Str :=
  match files.lookup rel with
  | some data => splitLines (readText data)
  | none => []

def changeStatus (starterFiles currentFiles : List (Str × Bytes)) (rel : Str) :
    ChangeStatus :=
  if (starterFiles.lookup rel).isNone then .added
  else if (currentFiles.lookup rel).isNone then .deleted
  else .modified

section

variable (getOpcodes : List Str → List Str → List Opcode)

/-- One round of the loop over the paths. -/
def diffPath (starterFiles currentFiles : List (Str × Bytes)) (acc : DiffStats) (rel : Str) :
    DiffStats :=
  if (PurePath.parse rel).parts.any fun part => decide (part ∈ skipDirNames) then acc
  else
    let a := sideLines starterFiles rel
    let b := sideLines currentFiles rel
    if a = b then acc
    else
      let counts := (getOpcodes a b).foldl countOpcode (0, 0)
      { filesChanged := acc.filesChanged ++
          [⟨rel, counts.1, counts.2, changeStatus starterFiles currentFiles rel⟩]
        additions := acc.additions + counts.1
        deletions := acc.deletions + counts.2 }

/-- `sorted(set(starter_files) | set(current_files))`. -/
def allPaths (starterFiles currentFiles : List (Str × Bytes)) : List Str :=
  (starterFiles.map Prod.fst ++ currentFiles.map Prod.fst).dedup.insertionSort (· ≤ ·)

/-- `compute_diff_stats`. -/
def computeDiffStats (starter current : Tree) : DiffStats :=
  let starterFiles := comparedFiles starter
  let currentFiles := comparedFiles current
  (allPaths starterFiles currentFiles).foldl
    (diffPath getOpcodes starterFiles currentFiles) ⟨[], 0, 0⟩

end

/-! ## What the statistics should say -/

/-- The path is not blocked and lies under no skipped directory. -/
def IsVisible (path : List Str) : Prop :=
  isBlockedPath (join slash path) = false ∧ ∀ dir ∈ path.dropLast, dir ∉ skipDirNames

/-- The text of a file, empty when the file is not there. -/
def textAt (t : Tree) (path : List Str) : Str :=
  match t.fileAt path with
  | some data => readText data
  | none => []

def lineCountAt (t : Tree) (path : List Str) : ℕ := (splitLines (textAt t path)).length

/-- Every visible change is listed once, nothing else is, and the numbers add up. -/
structure Conservative (starter current : Tree) (stats : DiffStats) : Prop where
  nodup : (stats.filesChanged.map FileStat.path).Nodup
  listed_iff : ∀ rel, rel ∈ stats.filesChanged.map FileStat.path ↔
    ∃ path, join slash path = rel ∧ IsVisible path ∧
      starter.fileAt path ≠ current.fileAt path
  balance : ∀ f ∈ stats.filesChanged, ∃ path, join slash path = f.path ∧
    f.additions - f.deletions = (lineCountAt current path : ℤ) - lineCountAt starter path
  additions_eq : stats.additions = (stats.filesChanged.map FileStat.additions).sum
  deletions_eq : stats.deletions = (stats.filesChanged.map FileStat.deletions).sum

/-- The change of a file shows in its lines, and its own name is not one of the skipped
directory names. -/
def ShowsInLines (starter current : Tree) (path : List Str) : Prop :=
  (∀ name ∈ path.getLast?, name ∉ skipDirNames) ∧
    endLines (textAt starter path) ≠ endLines (textAt current path)

/-! ## The files compared -/

section

variable {t : Tree} {path : List Str} {rel : Str}

theorem mem_comparedFiles_iff (ht : ValidTree t) {data : Bytes} :
    (rel, data) ∈ comparedFiles t ↔
      isBlockedPath rel = false ∧ ∃ path, join slash path = rel ∧ t.fileAt path = some data := by
  simp only [comparedFiles, List.mem_filter, List.mem_map, Prod.exists, Prod.mk.injEq,
    mem_fileItems_iff ht.sorted, Bool.not_eq_true']
  constructor
  · rintro ⟨⟨p, b, hfile, rfl, rfl⟩, hblocked⟩
    exact ⟨hblocked, p, rfl, hfile⟩
  · rintro ⟨hblocked, p, rfl, hfile⟩
    exact ⟨⟨p, data, hfile, rfl, rfl⟩, hblocked⟩

/-- The path of a file has a name, and names only. -/
theorem components_of_fileAt (ht : ValidTree t) {data : Bytes} (h : t.fileAt path = some data) :
    path ≠ [] ∧ ∀ n ∈ path, IsComponent n :=
  ⟨ChallengeDir.ne_nil_of_fileAt h, ht.names.of_get (Dir.fileAt_eq_some_iff.mp h)⟩

theorem comparedFiles_nodup (ht : ValidTree t) : ((comparedFiles t).map Prod.fst).Nodup := by
  have hpaths : (((fileItems t).map fun f => (join slash f.1, f.2)).map Prod.fst).Nodup := by
    rw [List.map_map]
    have hmap : (fileItems t).map (Prod.fst ∘ fun f => (join slash f.1, f.2)) =
        ((fileItems t).map Prod.fst).map (join slash) := by
      rw [List.map_map]
      rfl
    rw [hmap]
    apply (fileItems_nodup ht.sorted).map_on
    have hvalid : ∀ p ∈ (fileItems t).map Prod.fst, p ≠ [] ∧ ∀ n ∈ p, IsComponent n := by
      intro p hp
      obtain ⟨⟨q, b⟩, hmem, rfl⟩ := List.mem_map.mp hp
      exact components_of_fileAt ht ((mem_fileItems_iff ht.sorted).mp hmem)
    intro p hp q hq heq
    obtain ⟨hne, hcomp⟩ := hvalid p hp
    obtain ⟨hne', hcomp'⟩ := hvalid q hq
    exact join_injOn hne hne' hcomp hcomp' heq
  exact hpaths.sublist (List.filter_sublist.map _)

/-- Under the path of a file stands what the tree has there. -/
theorem lookup_comparedFiles (ht : ValidTree t) (hne : path ≠ [])
    (hcomp : ∀ n ∈ path, IsComponent n) (hblocked : isBlockedPath (join slash path) = false) :
    (comparedFiles t).lookup (join slash path) = t.fileAt path := by
  apply Option.ext
  intro data
  rw [lookup_eq_some_iff_mem (comparedFiles_nodup ht), mem_comparedFiles_iff ht]
  constructor
  · rintro ⟨-, q, heq, hfile⟩
    obtain ⟨hne', hcomp'⟩ := components_of_fileAt ht hfile
    rwa [← join_injOn hne' hne hcomp' hcomp heq]
  · intro hfile
    exact ⟨hblocked, path, rfl, hfile⟩

theorem sideLines_comparedFiles (ht : ValidTree t) (hne : path ≠ [])
    (hcomp : ∀ n ∈ path, IsComponent n) (hblocked : isBlockedPath (join slash path) = false) :
    sideLines (comparedFiles t) (join slash path) = splitLines (textAt t path) := by
  rw [sideLines, lookup_comparedFiles ht hne hcomp hblocked, textAt]
  cases t.fileAt path with
  | none => rfl
  | some data => rfl

end

/-! ## The loop -/

section

variable (getOpcodes : List Str → List Str → List Opcode)
  (starterFiles currentFiles : List (Str × Bytes))

/-- The entry of a path, if it gets one. -/
def fileStat (rel : Str) : Option FileStat :=
  let a := sideLines starterFiles rel
  let b := sideLines currentFiles rel
  if ((PurePath.parse rel).parts.any fun part => decide (part ∈ skipDirNames)) ∨ a = b then none
  else
    let counts := (getOpcodes a b).foldl countOpcode (0, 0)
    some ⟨rel, counts.1, counts.2, changeStatus starterFiles currentFiles rel⟩

def DiffStats.add (s : DiffStats) (f : FileStat) : DiffStats where
  filesChanged := s.filesChanged ++ [f]
  additions := s.additions + f.additions
  deletions := s.deletions + f.deletions

theorem diffPath_eq (acc : DiffStats) (rel : Str) :
    diffPath getOpcodes starterFiles currentFiles acc rel =
      ((fileStat getOpcodes starterFiles currentFiles rel).map acc.add).getD acc := by
  unfold diffPath fileStat
  dsimp only
  by_cases hskip : ((PurePath.parse rel).parts.any fun part => decide (part ∈ skipDirNames)) = true
  · rw [if_pos hskip, if_pos (Or.inl hskip), Option.map_none, Option.getD_none]
  · by_cases hsame : sideLines starterFiles rel = sideLines currentFiles rel
    · rw [if_neg hskip, if_pos hsame, if_pos (Or.inr hsame), Option.map_none, Option.getD_none]
    · rw [if_neg hskip, if_neg hsame, if_neg (not_or.mpr ⟨hskip, hsame⟩), Option.map_some,
        Option.getD_some]
      rfl

/-- The loop appends the entries of its paths and adds their numbers. -/
theorem diffPath_foldl (rels : List Str) (acc : DiffStats) :
    rels.foldl (diffPath getOpcodes starterFiles currentFiles) acc =
      (rels.filterMap (fileStat getOpcodes starterFiles currentFiles)).foldl
        DiffStats.add acc := by
  induction rels generalizing acc with
  | nil => rfl
  | cons rel rels ih =>
      rw [List.foldl_cons, ih, diffPath_eq]
      cases hstat : fileStat getOpcodes starterFiles currentFiles rel with
      | none => rw [List.filterMap_cons_none hstat, Option.map_none, Option.getD_none]
      | some f =>
          rw [List.filterMap_cons_some hstat, Option.map_some, Option.getD_some, List.foldl_cons]

theorem diffStats_foldl_add (stats : List FileStat) (acc : DiffStats) :
    stats.foldl DiffStats.add acc =
      { filesChanged := acc.filesChanged ++ stats
        additions := acc.additions + (stats.map FileStat.additions).sum
        deletions := acc.deletions + (stats.map FileStat.deletions).sum } := by
  induction stats generalizing acc with
  | nil => simp
  | cons f stats ih =>
      rw [List.foldl_cons, ih]
      simp only [DiffStats.add, List.append_assoc, List.singleton_append, List.map_cons,
        List.sum_cons, add_assoc]

variable {starterFiles currentFiles} {rel : Str} {f : FileStat}

theorem fileStat_path (h : fileStat getOpcodes starterFiles currentFiles rel = some f) :
    f.path = rel := by
  unfold fileStat at h
  dsimp only at h
  split_ifs at h
  rw [← Option.some.inj h]

/-- A path is listed when no part of it is skipped and its lines differ. -/
theorem fileStat_isSome_iff :
    (fileStat getOpcodes starterFiles currentFiles rel).isSome = true ↔
      (∀ part ∈ (PurePath.parse rel).parts, part ∉ skipDirNames) ∧
        sideLines starterFiles rel ≠ sideLines currentFiles rel := by
  have hskip : (PurePath.parse rel).parts.any (fun part => decide (part ∈ skipDirNames)) = true ↔
      ¬ ∀ part ∈ (PurePath.parse rel).parts, part ∉ skipDirNames := by
    simp
  unfold fileStat
  dsimp only
  split_ifs with h
  · rw [hskip] at h
    simp only [Option.isSome_none, Bool.false_eq_true, false_iff, not_and, not_not]
    intro hparts
    exact h.resolve_left (not_not.mpr hparts)
  · rw [hskip] at h
    push Not at h
    simpa using h

theorem fileStat_balance
    (hopcodes : ∀ a b, Tiles a.length b.length 0 0 (getOpcodes a b))
    (h : fileStat getOpcodes starterFiles currentFiles rel = some f) :
    f.additions - f.deletions =
      ((sideLines currentFiles rel).length : ℤ) - (sideLines starterFiles rel).length := by
  unfold fileStat at h
  dsimp only at h
  split_ifs at h
  obtain rfl := Option.some.inj h
  have hsum := countOpcode_foldl
    (hopcodes (sideLines starterFiles rel) (sideLines currentFiles rel)) (0, 0)
  dsimp only at hsum ⊢
  omega

end

/-! ## The statistics are conservative -/

section

variable {starter current : Tree} {path : List Str} {rel : Str}

theorem forall_mem_path_iff {P : Str → Prop} :
    (∀ n ∈ path, P n) ↔ (∀ n ∈ path.dropLast, P n) ∧ ∀ n ∈ path.getLast?, P n := by
  induction path using List.reverseRecOn with
  | nil => simp
  | append_singleton path n ih =>
      simp only [List.mem_append, List.mem_singleton, List.dropLast_concat,
        List.getLast?_concat, Option.mem_def, Option.some.injEq, or_imp, forall_and,
        forall_eq, forall_eq']

/-- A change at the path is listed when the path is in no skipped directory, is not called
like one, and the lines differ. -/
theorem isSome_fileStat_join_iff (getOpcodes : List Str → List Str → List Opcode)
    (hs : ValidTree starter) (hc : ValidTree current) (hne : path ≠ [])
    (hcomp : ∀ n ∈ path, IsComponent n) (hblocked : isBlockedPath (join slash path) = false) :
    (fileStat getOpcodes (comparedFiles starter) (comparedFiles current)
      (join slash path)).isSome = true ↔
      IsVisible path ∧ ShowsInLines starter current path := by
  rw [fileStat_isSome_iff, parse_join hne hcomp,
    sideLines_comparedFiles hs hne hcomp hblocked, sideLines_comparedFiles hc hne hcomp hblocked,
    Ne, splitLines_eq_iff, PurePath.parts, if_pos rfl, forall_mem_path_iff, IsVisible,
    ShowsInLines]
  constructor
  · rintro ⟨⟨hdirs, hname⟩, hlines⟩
    exact ⟨⟨hblocked, hdirs⟩, hname, hlines⟩
  · rintro ⟨⟨-, hdirs⟩, hname, hlines⟩
    exact ⟨⟨hdirs, hname⟩, hlines⟩

/-- The paths of the loop are those of the files that one of the trees has. -/
theorem mem_allPaths_iff (hs : ValidTree starter) (hc : ValidTree current) :
    rel ∈ allPaths (comparedFiles starter) (comparedFiles current) ↔
      isBlockedPath rel = false ∧ ∃ path, join slash path = rel ∧
        ((starter.fileAt path).isSome = true ∨ (current.fileAt path).isSome = true) := by
  simp only [allPaths, List.mem_insertionSort, List.mem_dedup, List.mem_append, List.mem_map,
    Prod.exists, exists_and_right, exists_eq_right, mem_comparedFiles_iff hs,
    mem_comparedFiles_iff hc, Option.isSome_iff_exists]
  constructor
  · rintro (⟨data, hblocked, path, hrel, hfile⟩ | ⟨data, hblocked, path, hrel, hfile⟩)
    · exact ⟨hblocked, path, hrel, .inl ⟨data, hfile⟩⟩
    · exact ⟨hblocked, path, hrel, .inr ⟨data, hfile⟩⟩
  · rintro ⟨hblocked, path, hrel, ⟨data, hfile⟩ | ⟨data, hfile⟩⟩
    · exact .inl ⟨data, hblocked, path, hrel, hfile⟩
    · exact .inr ⟨data, hblocked, path, hrel, hfile⟩

theorem components_of_either (hs : ValidTree starter) (hc : ValidTree current)
    (h : (starter.fileAt path).isSome = true ∨ (current.fileAt path).isSome = true) :
    path ≠ [] ∧ ∀ n ∈ path, IsComponent n := by
  rw [Option.isSome_iff_exists, Option.isSome_iff_exists] at h
  obtain ⟨data, hfile⟩ | ⟨data, hfile⟩ := h
  · exact components_of_fileAt hs hfile
  · exact components_of_fileAt hc hfile

theorem either_of_ne (h : starter.fileAt path ≠ current.fileAt path) :
    (starter.fileAt path).isSome = true ∨ (current.fileAt path).isSome = true := by
  by_contra hnone
  rw [not_or, Option.not_isSome_iff_eq_none, Option.not_isSome_iff_eq_none] at hnone
  exact h (hnone.1.trans hnone.2.symm)

/-- A file that changed in its lines changed. -/
theorem ShowsInLines.changed (h : ShowsInLines starter current path) :
    starter.fileAt path ≠ current.fileAt path := by
  intro heq
  apply h.2
  rw [textAt, textAt, heq]

variable (getOpcodes : List Str → List Str → List Opcode)

def listedStats (starter current : Tree) : List FileStat :=
  (allPaths (comparedFiles starter) (comparedFiles current)).filterMap
    (fileStat getOpcodes (comparedFiles starter) (comparedFiles current))

theorem computeDiffStats_eq (starter current : Tree) :
    computeDiffStats getOpcodes starter current =
      { filesChanged := listedStats getOpcodes starter current
        additions := ((listedStats getOpcodes starter current).map FileStat.additions).sum
        deletions := ((listedStats getOpcodes starter current).map FileStat.deletions).sum } := by
  unfold computeDiffStats
  dsimp only
  rw [diffPath_foldl, diffStats_foldl_add, List.nil_append, zero_add, zero_add]
  rfl

theorem listedStats_paths (starter current : Tree) :
    (listedStats getOpcodes starter current).map FileStat.path =
      (allPaths (comparedFiles starter) (comparedFiles current)).filter fun rel =>
        (fileStat getOpcodes (comparedFiles starter) (comparedFiles current) rel).isSome := by
  unfold listedStats
  generalize allPaths (comparedFiles starter) (comparedFiles current) = rels
  induction rels with
  | nil => rfl
  | cons rel rels ih =>
      cases hstat : fileStat getOpcodes (comparedFiles starter) (comparedFiles current) rel with
      | none => rw [List.filterMap_cons_none hstat, List.filter_cons_of_neg (by simp [hstat]), ih]
      | some f =>
          rw [List.filterMap_cons_some hstat, List.filter_cons_of_pos (by simp [hstat]),
            List.map_cons, ih, fileStat_path getOpcodes hstat]

theorem listedStats_nodup (starter current : Tree) :
    ((listedStats getOpcodes starter current).map FileStat.path).Nodup := by
  rw [listedStats_paths]
  apply List.Nodup.filter
  exact (List.perm_insertionSort _ _).nodup_iff.mpr (List.nodup_dedup _)

/-- What is listed: the visible changes that show in the lines. -/
theorem mem_listedStats_paths_iff (hs : ValidTree starter) (hc : ValidTree current) :
    rel ∈ (listedStats getOpcodes starter current).map FileStat.path ↔
      ∃ path, join slash path = rel ∧ IsVisible path ∧
        starter.fileAt path ≠ current.fileAt path ∧ ShowsInLines starter current path := by
  rw [listedStats_paths, List.mem_filter, mem_allPaths_iff hs hc]
  constructor
  · rintro ⟨⟨hblocked, path, rfl, hsome⟩, hstat⟩
    obtain ⟨hne, hcomp⟩ := components_of_either hs hc hsome
    obtain ⟨hvisible, hshows⟩ :=
      (isSome_fileStat_join_iff getOpcodes hs hc hne hcomp hblocked).mp hstat
    exact ⟨path, rfl, hvisible, hshows.changed, hshows⟩
  · rintro ⟨path, rfl, hvisible, hchanged, hshows⟩
    have hsome := either_of_ne hchanged
    obtain ⟨hne, hcomp⟩ := components_of_either hs hc hsome
    refine ⟨⟨hvisible.1, path, rfl, hsome⟩, ?_⟩
    exact (isSome_fileStat_join_iff getOpcodes hs hc hne hcomp hvisible.1).mpr ⟨hvisible, hshows⟩

theorem listedStats_balance (hs : ValidTree starter) (hc : ValidTree current)
    (hopcodes : ∀ a b, Tiles a.length b.length 0 0 (getOpcodes a b)) {f : FileStat}
    (hf : f ∈ listedStats getOpcodes starter current) :
    ∃ path, join slash path = f.path ∧
      f.additions - f.deletions = (lineCountAt current path : ℤ) - lineCountAt starter path := by
  obtain ⟨rel, hrel, hstat⟩ := List.mem_filterMap.mp hf
  obtain ⟨hblocked, path, rfl, hsome⟩ := (mem_allPaths_iff hs hc).mp hrel
  obtain ⟨hne, hcomp⟩ := components_of_either hs hc hsome
  refine ⟨path, (fileStat_path getOpcodes hstat).symm, ?_⟩
  have hbalance := fileStat_balance getOpcodes hopcodes hstat
  rwa [sideLines_comparedFiles hs hne hcomp hblocked,
    sideLines_comparedFiles hc hne hcomp hblocked] at hbalance

end

/-- The statistics are conservative exactly when every visible change shows in the lines of
the file and the file is not called like a skipped directory. -/
theorem computeDiffStats_conservative_iff {getOpcodes : List Str → List Str → List Opcode}
    (hopcodes : ∀ a b, Tiles a.length b.length 0 0 (getOpcodes a b)) {starter current : Tree}
    (hs : ValidTree starter) (hc : ValidTree current) :
    Conservative starter current (computeDiffStats getOpcodes starter current) ↔
      ∀ path, IsVisible path → starter.fileAt path ≠ current.fileAt path →
        ShowsInLines starter current path := by
  rw [computeDiffStats_eq]
  constructor
  · intro h path hvisible hchanged
    have hlisted := (h.listed_iff (join slash path)).mpr ⟨path, rfl, hvisible, hchanged⟩
    obtain ⟨q, heq, -, hchanged', hshows⟩ :=
      (mem_listedStats_paths_iff getOpcodes hs hc).mp hlisted
    obtain ⟨hne, hcomp⟩ := components_of_either hs hc (either_of_ne hchanged)
    obtain ⟨hne', hcomp'⟩ := components_of_either hs hc (either_of_ne hchanged')
    rwa [← join_injOn hne' hne hcomp' hcomp heq]
  · intro hshows
    refine ⟨listedStats_nodup getOpcodes starter current, ?_, ?_, rfl, rfl⟩
    · intro rel
      rw [mem_listedStats_paths_iff getOpcodes hs hc]
      constructor
      · rintro ⟨path, hrel, hvisible, hchanged, -⟩
        exact ⟨path, hrel, hvisible, hchanged⟩
      · rintro ⟨path, hrel, hvisible, hchanged⟩
        exact ⟨path, hrel, hvisible, hchanged, hshows path hvisible hchanged⟩
    · intro f hf
      exact listedStats_balance getOpcodes hs hc hopcodes hf

/-- One opcode that replaces everything, as for two texts with no common line. -/
def replaceAllOpcodes (a b : List Str) : List Opcode :=
  [⟨.replace, 0, a.length, 0, b.length⟩]

theorem tiles_replaceAllOpcodes (a b : List Str) :
    Tiles a.length b.length 0 0 (replaceAllOpcodes a b) :=
  ⟨rfl, rfl, Nat.zero_le _, Nat.zero_le _, trivial, rfl, rfl⟩

/-- A tree with one file. -/
def oneFile (name : String) (text : String) : Tree :=
  .file (lit name) (text.toUTF8.toList) .nil

/-- One line of `app.py` is rewritten. -/
theorem computeDiffStats_conservative_rewrite :
    Conservative (oneFile "app.py" "x = 1\n") (oneFile "app.py" "y = 2\n")
        (computeDiffStats replaceAllOpcodes (oneFile "app.py" "x = 1\n")
          (oneFile "app.py" "y = 2\n")) ↔
      ∀ path, IsVisible path →
        (oneFile "app.py" "x = 1\n").fileAt path ≠ (oneFile "app.py" "y = 2\n").fileAt path →
        ShowsInLines (oneFile "app.py" "x = 1\n") (oneFile "app.py" "y = 2\n") path :=
  computeDiffStats_conservative_iff tiles_replaceAllOpcodes (by decide +kernel)
    (by decide +kernel)

/-- An empty package file is added and not listed. -/
theorem computeDiffStats_misses_empty_file :
    ¬ Conservative .nil (oneFile "__init__.py" "")
      (computeDiffStats replaceAllOpcodes .nil (oneFile "__init__.py" "")) := by
  intro h
  have hlisted := (h.listed_iff (lit "__init__.py")).mpr
    ⟨[lit "__init__.py"], rfl, ⟨by decide +kernel, by decide +kernel⟩, by decide +kernel⟩
  have hnone : (computeDiffStats replaceAllOpcodes .nil
      (oneFile "__init__.py" "")).filesChanged.map FileStat.path = [] := by decide +kernel
  rw [hnone] at hlisted
  exact List.not_mem_nil hlisted

end PromptCode
