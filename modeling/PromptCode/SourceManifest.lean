import PromptCode.Py.Json
import PromptCode.Py.Sha256
import PromptCode.Workspace

/-!
# Source files and manifests

`snapshot.py` reads a source tree in the order of a walk, bounds what it reads
and lists it in a manifest.  What it reads is a set of files: a tree made of
just these files is read with the same manifest.
-/

namespace PromptCode

open Py FileTree

/-! ## Reading a source tree -/

/-- A file of a source tree, by its components. -/
abbrev SourceItem := List Str × Bytes

def keepSource (name : Str) : Bool := !decide (name ∈ skipDirNames)

/-- What `_source_files` yields, or raises, at one directory. -/
def stepSources (s : Step Str Bytes) : List (Except PyErr SourceItem) :=
  if s.dirs.any (fun d => keepSource d.1 && d.2) then
    [.error (.value "Source links are not allowed")]
  else
    s.files.filterMap fun e =>
      let path := s.dirpath ++ [e.1]
      if isBlockedPath (join slash path) then none
      else
        match e.2 with
        | .file data => some (.ok (path, data))
        | _ => some (.error (.value "Source must contain regular files only"))

/-- `_source_files`. -/
def sourceFiles (root : Tree) : List (Except PyErr SourceItem) :=
  (root.osWalk keepSource).flatMap stepSources

/-- The loop over the source files in `_manifest` and `bundle_source`: read a
file, bound what was read so far, and make an item of it. -/
def collect {α : Type} (quotaText : String) (make : SourceItem → Except PyErr α) :
    List (Except PyErr SourceItem) → ℕ → ℕ → Except PyErr (List α)
  | [], _, _ => .ok []
  | .error e :: _, _, _ => .error e
  | .ok f :: rest, total, count =>
      if maxFileBytes < f.2.length then
        .error (.value "Submission file exceeds limit")
      else if sourceBytes < total + f.2.length ∨ sourceFileLimit ≤ count then
        .error (.value quotaText)
      else
        match make f with
        | .error e => .error e
        | .ok item =>
            (collect quotaText make rest (total + f.2.length) (count + 1)).map
              fun items => item :: items

def quotaText : String := "Submission exceeds source quota"

/-- The files `_manifest` reads. -/
def sourceContents (root : Tree) : Except PyErr (List SourceItem) :=
  collect quotaText .ok (sourceFiles root) 0 0

/-! ## Manifests -/

/-- One entry of a manifest. -/
structure ManifestRow where
  path : Str
  sha256 : Str
  size : ℕ
deriving DecidableEq

abbrev Manifest := List ManifestRow

def manifestRow (rel : Str) (data : Bytes) : ManifestRow where
  path := rel
  sha256 := sha256Hex data
  size := data.length

def itemRow (f : SourceItem) : ManifestRow := manifestRow (join slash f.1) f.2

/-- `sorted(manifest, key=lambda item: item["path"])`. -/
def sortedManifest (m : Manifest) : Manifest :=
  m.insertionSort fun a b => a.path ≤ b.path

def manifestOf (files : List SourceItem) : Manifest :=
  sortedManifest (files.map itemRow)

/-- `_manifest` without a target. -/
def manifest (root : Tree) : Except PyErr Manifest :=
  (sourceContents root).map manifestOf

/-- The components of `target / rel`. -/
def relParts (rel : Str) : List Str := (PurePath.parse rel).tail

/-- `_manifest` with a fresh target directory. -/
def manifestInto (root : Tree) : Except PyErr (Manifest × Tree) :=
  match sourceContents root with
  | .error e => .error e
  | .ok files =>
      match Dir.nil.writeAll
          (files.map fun f => (relParts (join slash f.1), f.2)) with
      | some target => .ok (manifestOf files, target)
      | none => .error .os

/-- `json.dumps` of one row, keys sorted. -/
def dumpsRow (itemSep keySep : Str) (r : ManifestRow) : Str :=
  [123] ++ jsonString (lit "path") ++ keySep ++ jsonString r.path ++ itemSep ++
    jsonString (lit "sha256") ++ keySep ++ jsonString r.sha256 ++ itemSep ++
    jsonString (lit "size") ++ keySep ++ jsonNat r.size ++ [125]

/-- `json.dumps(manifest, sort_keys=True, separators=(itemSep, keySep))`. -/
def dumpsManifest (itemSep keySep : Str) (m : Manifest) : Str :=
  [91] ++ itemSep.intercalate (m.map (dumpsRow itemSep keySep)) ++ [93]

/-- `manifest_digest`. -/
def manifestDigest (m : Manifest) : Str :=
  sha256Hex (asciiBytes (dumpsManifest (lit ",") (lit ":") m))

/-- `json.dumps(manifest, sort_keys=True).encode()`. -/
def manifestJson (m : Manifest) : Bytes :=
  asciiBytes (dumpsManifest (lit ", ") (lit ": ") m)

/-- `verify_snapshot` of a directory `<parentName>/<name>`, absent or a tree. -/
def verifySnapshot (parentName name : Str) (source : Option Tree)
    (sourceDigest : Str) : Except PyErr Manifest :=
  if sourceDigest.length ≠ 64 ∨ sourceDigest.any (fun c => !isHexDigit c) ∨
      name ≠ lit "source" ∨ parentName ≠ sourceDigest then
    .error (.value "Invalid snapshot identity")
  else
    match source with
    | none => .error (.value "Invalid source directory")
    | some root =>
        match manifest root with
        | .error e => .error e
        | .ok actual =>
            if actual = [] ∨ manifestDigest actual ≠ sourceDigest then
              .error (.value "Submitted source integrity check failed")
            else .ok actual

/-! ## What a successful read has checked -/

/-- The bounds on what is read of one source tree. -/
structure WithinSourceQuota (files : List SourceItem) (total count : ℕ) :
    Prop where
  each : ∀ f ∈ files, f.2.length ≤ maxFileBytes
  bytes : files ≠ [] → total + (files.map fun f => f.2.length).sum ≤ sourceBytes
  count : files ≠ [] → count + files.length ≤ sourceFileLimit

theorem withinSourceQuota_cons {f : SourceItem} {files : List SourceItem}
    {total count : ℕ} :
    WithinSourceQuota (f :: files) total count ↔
      f.2.length ≤ maxFileBytes ∧ total + f.2.length ≤ sourceBytes ∧
        count < sourceFileLimit ∧
        WithinSourceQuota files (total + f.2.length) (count + 1) := by
  constructor
  · rintro ⟨heach, hbytes, hcount⟩
    have hb := hbytes (by simp)
    have hc := hcount (by simp)
    simp only [List.map_cons, List.sum_cons, List.length_cons] at hb hc
    exact ⟨heach f (by simp), by omega, by omega,
      fun g hg => heach g (by simp [hg]), fun _ => by omega, fun _ => by omega⟩
  · rintro ⟨hf, hb, hc, heach, hbytes, hcount⟩
    refine ⟨?_, fun _ => ?_, fun _ => ?_⟩
    · intro g hg
      rcases List.mem_cons.mp hg with rfl | hg
      · exact hf
      · exact heach g hg
    · by_cases hne : files = []
      · simpa [hne] using hb
      · have := hbytes hne
        simp only [List.map_cons, List.sum_cons]
        omega
    · by_cases hne : files = []
      · simpa [hne] using hc
      · have := hcount hne
        simp only [List.length_cons]
        omega

/-- What the loop checks when every file can be made an item. -/
theorem collect_ok_iff {α : Type} {text : String}
    {make : SourceItem → Except PyErr α} {events : List (Except PyErr SourceItem)}
    {total count : ℕ} {items : List α} :
    collect text make events total count = .ok items ↔
      ∃ files, events = files.map .ok ∧ WithinSourceQuota files total count ∧
        files.mapM make = .ok items := by
  induction events generalizing total count items with
  | nil =>
      constructor
      · intro h
        obtain rfl : [] = items := Except.ok.inj h
        exact ⟨[], rfl, ⟨by simp, by simp, by simp⟩, rfl⟩
      · rintro ⟨files, hfiles, -, hmake⟩
        obtain rfl : files = [] := List.map_eq_nil_iff.mp hfiles.symm
        exact hmake
  | cons ev rest ih =>
      cases ev with
      | error e =>
          constructor
          · intro h
            simp [collect] at h
          · rintro ⟨files, hfiles, -⟩
            cases files with
            | nil => simp at hfiles
            | cons f files => simp at hfiles
      | ok f =>
          simp only [collect]
          constructor
          · intro h
            split_ifs at h with hsize hquota
            push Not at hquota
            cases hmake : make f with
            | error e => simp [hmake] at h
            | ok item =>
                simp only [hmake] at h
                cases hrest : collect text make rest (total + f.2.length)
                    (count + 1) with
                | error e => simp [hrest, Except.map] at h
                | ok more =>
                    rw [hrest] at h
                    obtain rfl : item :: more = items := Except.ok.inj h
                    obtain ⟨files, rfl, hwithin, hmap⟩ := ih.mp hrest
                    refine ⟨f :: files, rfl, ?_, ?_⟩
                    · exact withinSourceQuota_cons.mpr
                        ⟨not_lt.mp hsize, hquota.1, hquota.2, hwithin⟩
                    · rw [List.mapM_cons, hmake, hmap]
                      rfl
          · rintro ⟨files, hfiles, hwithin, hmap⟩
            cases files with
            | nil => simp at hfiles
            | cons g files =>
                simp only [List.map_cons, List.cons.injEq, Except.ok.injEq]
                  at hfiles
                obtain ⟨rfl, rfl⟩ := hfiles
                obtain ⟨hsize, hbytes, hcount, hrest⟩ :=
                  withinSourceQuota_cons.mp hwithin
                rw [if_neg (not_lt.mpr hsize), if_neg (by omega)]
                rw [List.mapM_cons] at hmap
                cases hmake : make f with
                | error e => simp [hmake, bind, Except.bind] at hmap
                | ok item =>
                    cases hmore : files.mapM make with
                    | error e =>
                        simp [hmake, hmore, bind, Except.bind] at hmap
                    | ok more =>
                        rw [hmake, hmore] at hmap
                        obtain rfl : item :: more = items := Except.ok.inj hmap
                        have := ih.mpr ⟨files, rfl, hrest, hmore⟩
                        simp only [this]
                        rfl

theorem mapM_ok {α : Type} (l : List α) :
    l.mapM (fun a => (.ok a : Except PyErr α)) = .ok l := by
  induction l with
  | nil => rfl
  | cons a l ih =>
      rw [List.mapM_cons, ih]
      rfl

theorem sourceContents_ok_iff {root : Tree} {files : List SourceItem} :
    sourceContents root = .ok files ↔
      sourceFiles root = files.map .ok ∧ WithinSourceQuota files 0 0 := by
  unfold sourceContents
  rw [collect_ok_iff]
  constructor
  · rintro ⟨files', hfiles, hwithin, hmap⟩
    rw [mapM_ok] at hmap
    obtain rfl := Except.ok.inj hmap
    exact ⟨hfiles, hwithin⟩
  · rintro ⟨hfiles, hwithin⟩
    exact ⟨files, hfiles, hwithin, mapM_ok files⟩

theorem withinSourceQuota_of_perm {files files' : List SourceItem}
    (hperm : files'.Perm files) (h : WithinSourceQuota files 0 0) :
    WithinSourceQuota files' 0 0 := by
  have hnil : files' ≠ [] → files ≠ [] := by
    rintro hne rfl
    exact hne hperm.eq_nil
  refine ⟨fun f hf => h.each f (hperm.mem_iff.mp hf), fun hne => ?_, fun hne => ?_⟩
  · rw [(hperm.map _).sum_eq]
    exact h.bytes (hnil hne)
  · rw [hperm.length_eq]
    exact h.count (hnil hne)

/-! ## Which files are read -/

/-- The source file that an entry of the walk is, if it is one. -/
def includedItem (e : List Str × Node Str Bytes) : Option SourceItem :=
  if isBlockedPath (join slash e.1) then none
  else
    match e.2 with
    | .file data => some (e.1, data)
    | _ => none

/-- The regular files of the walk that the policy does not block. -/
def sourceItems (root : Tree) : List SourceItem :=
  (root.walkPaths keepSource).filterMap includedItem

theorem stepSources_eq_of_ok {s : Step Str Bytes}
    (h : ∀ ev ∈ stepSources s, ev.isOk = true) :
    stepSources s = (s.paths.filterMap includedItem).map .ok := by
  have hlinks : ¬ s.dirs.any (fun d => keepSource d.1 && d.2) = true := by
    intro hany
    have := h (.error (.value "Source links are not allowed")) (by
      rw [stepSources, if_pos hany]
      simp)
    simp [Except.isOk, Except.toBool] at this
  rw [stepSources, if_neg hlinks] at h ⊢
  rw [Step.paths, List.filterMap_map, List.map_filterMap]
  refine List.filterMap_congr fun e he => ?_
  by_cases hblocked : isBlockedPath (join slash (s.dirpath ++ [e.1])) = true
  · simp [hblocked, includedItem]
  · cases hx : e.2 with
    | file data => simp [hblocked, includedItem, hx]
    | link t | special | dir d =>
        have := h (.error (.value "Source must contain regular files only"))
          (List.mem_filterMap.mpr ⟨e, he, by simp [hblocked, hx]⟩)
        simp [Except.isOk, Except.toBool] at this

/-- A source tree that is read without an error is read file by file along the
walk. -/
theorem sourceFiles_eq_of_ok {root : Tree}
    (h : ∀ ev ∈ sourceFiles root, ev.isOk = true) :
    sourceFiles root = (sourceItems root).map .ok := by
  have hsteps : (root.osWalk keepSource).flatMap stepSources =
      (root.osWalk keepSource).flatMap
        fun s => (s.paths.filterMap includedItem).map .ok := by
    refine List.flatMap_congr fun s hs => stepSources_eq_of_ok fun ev hev => ?_
    exact h ev (List.mem_flatMap.mpr ⟨s, hs, hev⟩)
  rw [sourceFiles, hsteps, sourceItems, Dir.walkPaths, List.filterMap_flatMap,
    List.map_flatMap]

theorem sourceItems_of_sourceFiles {root : Tree} {files : List SourceItem}
    (h : sourceFiles root = files.map .ok) : files = sourceItems root := by
  have hok : ∀ ev ∈ sourceFiles root, ev.isOk = true := by
    intro ev hev
    rw [h] at hev
    obtain ⟨f, -, rfl⟩ := List.mem_map.mp hev
    rfl
  have hinj : Function.Injective
      (Except.ok : SourceItem → Except PyErr SourceItem) :=
    fun _ _ heq => Except.ok.inj heq
  exact (List.map_injective_iff.mpr hinj) (h.symm.trans (sourceFiles_eq_of_ok hok))

/-- A regular file that the policy does not block, below kept directories. -/
structure Included (root : Tree) (path : List Str) (data : Bytes) : Prop where
  onWalk : Dir.OnWalk keepSource root path (.file data)
  not_blocked : isBlockedPath (join slash path) = false

theorem includedItem_eq_some_iff {e : List Str × Node Str Bytes}
    {f : SourceItem} :
    includedItem e = some f ↔
      isBlockedPath (join slash e.1) = false ∧ e = (f.1, .file f.2) := by
  obtain ⟨p, x⟩ := e
  obtain ⟨q, b⟩ := f
  unfold includedItem
  by_cases hblocked : isBlockedPath (join slash p) = true
  · simp [hblocked]
  · cases x <;> simp [hblocked]

theorem mem_sourceItems_iff {root : Tree} (hroot : ValidTree root)
    {path : List Str} {data : Bytes} :
    (path, data) ∈ sourceItems root ↔ Included root path data := by
  simp only [sourceItems, List.mem_filterMap, includedItem_eq_some_iff]
  constructor
  · rintro ⟨e, hmem, hblocked, rfl⟩
    exact ⟨(Dir.mem_walkPaths_iff hroot.sorted).mp hmem, hblocked⟩
  · rintro ⟨hwalk, hblocked⟩
    exact ⟨_, (Dir.mem_walkPaths_iff hroot.sorted).mpr hwalk, hblocked, rfl⟩

theorem filterMap_includedItem_fst_sublist
    (l : List (List Str × Node Str Bytes)) :
    ((l.filterMap includedItem).map Prod.fst).Sublist (l.map Prod.fst) := by
  induction l with
  | nil => simp
  | cons e l ih =>
      cases he : includedItem e with
      | none =>
          rw [List.filterMap_cons_none he, List.map_cons]
          exact ih.cons _
      | some f =>
          obtain ⟨-, rfl⟩ := includedItem_eq_some_iff.mp he
          rw [List.filterMap_cons_some he, List.map_cons, List.map_cons]
          exact ih.cons_cons _

theorem sourceItems_nodup {root : Tree} (hroot : ValidTree root) :
    ((sourceItems root).map Prod.fst).Nodup :=
  (Dir.walkPaths_nodup keepSource hroot.sorted).sublist
    (filterMap_includedItem_fst_sublist _)

theorem Included.isComponent {root : Tree} (hroot : ValidTree root)
    {path : List Str} {data : Bytes} (h : Included root path data) :
    ∀ n ∈ path, IsComponent n :=
  hroot.names.of_get h.onWalk.2.1

theorem Included.fileAt {root : Tree} {path : List Str} {data : Bytes}
    (h : Included root path data) : root.fileAt path = some data :=
  Dir.fileAt_eq_some_iff.mpr h.onWalk.2.1

/-! ## Manifests of the same files -/

theorem manifestOf_perm_map (files : List SourceItem) :
    (manifestOf files).Perm (files.map itemRow) :=
  List.perm_insertionSort _ _

theorem mem_manifestOf {files : List SourceItem} {r : ManifestRow} :
    r ∈ manifestOf files ↔ ∃ f ∈ files, itemRow f = r := by
  rw [(manifestOf_perm_map files).mem_iff, List.mem_map]

theorem manifestOf_pairwise (files : List SourceItem) :
    (manifestOf files).Pairwise fun a b => a.path ≤ b.path := by
  have : Std.Total fun a b : ManifestRow => a.path ≤ b.path :=
    ⟨fun a b => le_total a.path b.path⟩
  have : IsTrans ManifestRow fun a b => a.path ≤ b.path :=
    ⟨fun _ _ _ => le_trans⟩
  exact List.pairwise_insertionSort _ _

/-- What the files of a source tree have in common: proper relative paths, each
of them once. -/
structure SourceList (files : List SourceItem) : Prop where
  nodup : (files.map Prod.fst).Nodup
  ne_nil : ∀ f ∈ files, f.1 ≠ []
  components : ∀ f ∈ files, ∀ n ∈ f.1, IsComponent n

theorem SourceList.perm {files files' : List SourceItem} (h : SourceList files)
    (hperm : files'.Perm files) : SourceList files' where
  nodup := (hperm.map Prod.fst).nodup_iff.mpr h.nodup
  ne_nil f hf := h.ne_nil f (hperm.mem_iff.mp hf)
  components f hf := h.components f (hperm.mem_iff.mp hf)

theorem SourceList.eq_of_rel_eq {files : List SourceItem} (h : SourceList files)
    {f g : SourceItem} (hf : f ∈ files) (hg : g ∈ files)
    (heq : join slash f.1 = join slash g.1) : f = g := by
  have hpath : f.1 = g.1 := join_injOn (h.ne_nil f hf) (h.ne_nil g hg)
    (h.components f hf) (h.components g hg) heq
  exact List.inj_on_of_nodup_map h.nodup hf hg hpath

/-- The manifest does not depend on the order the files were read in. -/
theorem manifestOf_eq_of_perm {files files' : List SourceItem}
    (h : SourceList files) (hperm : files'.Perm files) :
    manifestOf files' = manifestOf files := by
  refine List.Perm.eq_of_pairwise ?_
    (manifestOf_pairwise files') (manifestOf_pairwise files) ?_
  · intro a b ha hb hab hba
    obtain ⟨f, hf, rfl⟩ := mem_manifestOf.mp ha
    obtain ⟨g, hg, rfl⟩ := mem_manifestOf.mp hb
    have hrel : join slash f.1 = join slash g.1 := le_antisymm hab hba
    rw [h.eq_of_rel_eq (hperm.mem_iff.mp hf) hg hrel]
  · exact (manifestOf_perm_map files').trans
      ((hperm.map itemRow).trans (manifestOf_perm_map files).symm)

theorem relParts_join {path : List Str} (hne : path ≠ [])
    (hcomp : ∀ n ∈ path, IsComponent n) : relParts (join slash path) = path := by
  rw [relParts, parse_join hne hcomp]

/-! ## Copies of a source tree -/

/-- What a successful read of a source tree says about the files. -/
structure SourceOf (root : Tree) (files : List SourceItem) : Prop where
  list : SourceList files
  mem_iff : ∀ path data, (path, data) ∈ files ↔ Included root path data
  quota : WithinSourceQuota files 0 0

theorem sourceOf_of_ok {root : Tree} (hroot : ValidTree root)
    {files : List SourceItem} (h : sourceContents root = .ok files) :
    SourceOf root files := by
  obtain ⟨hfiles, hquota⟩ := sourceContents_ok_iff.mp h
  obtain rfl := sourceItems_of_sourceFiles hfiles
  have hincluded : ∀ f ∈ sourceItems root, Included root f.1 f.2 := fun f hf =>
    (mem_sourceItems_iff hroot).mp hf
  exact ⟨⟨sourceItems_nodup hroot, fun f hf => (hincluded f hf).onWalk.1,
    fun f hf => (hincluded f hf).isComponent hroot⟩,
    fun path data => mem_sourceItems_iff hroot, hquota⟩

/-- A tree without links and special files is read without an error. -/
theorem sourceFiles_isOk_of_fitsIn {t root : Tree} (ht : ValidTree t)
    (hfits : t.FitsIn root) : ∀ ev ∈ sourceFiles t, ev.isOk = true := by
  intro ev hev
  obtain ⟨s, hs, hmem⟩ := List.mem_flatMap.mp hev
  obtain ⟨e, hget, hsorted, hdirs⟩ := Dir.exists_dir_of_mem_osWalk ht.sorted hs
  have hlinks : ¬ s.dirs.any (fun d => keepSource d.1 && d.2) = true := by
    intro hany
    obtain ⟨⟨n, flag⟩, hn, hflag⟩ := List.any_eq_true.mp hany
    obtain rfl : flag = true := (Bool.and_eq_true_iff.mp hflag).2
    rw [hdirs] at hn
    have hlink : t.get (s.dirpath ++ [n]) = some (.link .dir) := by
      rw [Dir.get_append_of_dir hget, Dir.get_singleton,
        Dir.find_of_mem_dirEntries hsorted hn]
    rcases hfits _ _ hlink with ⟨b, b', heq, -⟩ | ⟨d, d', heq, -⟩ <;> simp at heq
  rw [stepSources, if_neg hlinks] at hmem
  obtain ⟨⟨n, x⟩, hx, hyield⟩ := List.mem_filterMap.mp hmem
  have hwalk : (s.dirpath ++ [n], x) ∈ t.walkPaths keepSource :=
    List.mem_flatMap.mpr ⟨s, hs, List.mem_map.mpr ⟨(n, x), hx, rfl⟩⟩
  obtain ⟨-, hgetx, hfile, -⟩ := (Dir.mem_walkPaths_iff ht.sorted).mp hwalk
  dsimp only at hyield
  split_ifs at hyield with hblocked
  rcases hfits _ _ hgetx with ⟨b, b', rfl, -⟩ | ⟨d, d', rfl, -⟩
  · obtain rfl := Option.some.inj hyield
    rfl
  · simp [Node.isFileEntry] at hfile

/-- A tree that holds exactly the given source files. -/
structure IsCopy (files : List SourceItem) (t : Tree) : Prop where
  valid : ValidTree t
  fileAt : ∀ path data, t.fileAt path = some data ↔ (path, data) ∈ files
  contents : ∃ files', sourceContents t = .ok files' ∧ files'.Perm files

theorem fileAt_nil_eq : (Dir.nil : Tree).fileAt = fun _ => none := by
  funext p
  cases p with
  | nil => rfl
  | cons n ns => simp [Dir.fileAt, Dir.get_nil_cons]

/-- Writing the source files of a tree into an empty directory, in any order,
gives a tree that is read as the same files. -/
theorem exists_copy {root : Tree} {files fs : List SourceItem}
    (hsource : SourceOf root files) (hperm : fs.Perm files) :
    ∃ t, (Dir.nil : Tree).writeAll fs = some t ∧ IsCopy files t := by
  have hlist : SourceList fs := hsource.list.perm hperm
  have hroom : ∀ w ∈ fs, w.1 ≠ [] ∧ ∃ b, root.get w.1 = some (.file b) := by
    intro w hw
    have hmem : (w.1, w.2) ∈ files := hperm.mem_iff.mp hw
    exact ⟨hlist.ne_nil w hw, w.2,
      ((hsource.mem_iff w.1 w.2).mp hmem).onWalk.2.1⟩
  obtain ⟨t, hwrite, hfits⟩ := (Dir.fitsIn_nil root).exists_writeAll hroom
  have hvalid : ValidTree t :=
    ⟨Dir.Sorted.writeAll (d := .nil) trivial hwrite,
      Dir.AllNames.writeAll (d := .nil) trivial hlist.components hwrite⟩
  have hfileAt : ∀ path data,
      t.fileAt path = some data ↔ (path, data) ∈ files := by
    intro path data
    rw [Dir.fileAt_writeAll hwrite, fileAt_nil_eq,
      Dir.updateAll_eq_some_iff hlist.nodup, hperm.mem_iff]
  refine ⟨t, hwrite, hvalid, hfileAt, sourceItems t, ?_, ?_⟩
  all_goals
    have hmem : (sourceItems t).Perm files := by
      rw [List.perm_ext_iff_of_nodup (sourceItems_nodup hvalid).of_map
        hsource.list.nodup.of_map]
      rintro ⟨path, data⟩
      rw [mem_sourceItems_iff hvalid]
      constructor
      · intro h
        exact (hfileAt path data).mp h.fileAt
      · intro h
        have hinc := (hsource.mem_iff path data).mp h
        exact ⟨⟨hinc.onWalk.1, Dir.fileAt_eq_some_iff.mp ((hfileAt path data).mpr h),
          rfl, hinc.onWalk.2.2.2⟩, hinc.not_blocked⟩
  · refine sourceContents_ok_iff.mpr ⟨?_, withinSourceQuota_of_perm hmem hsource.quota⟩
    exact sourceFiles_eq_of_ok (sourceFiles_isOk_of_fitsIn hvalid hfits)
  · exact hmem

theorem IsCopy.manifest {files : List SourceItem} {t : Tree} (h : IsCopy files t)
    (hlist : SourceList files) : manifest t = .ok (manifestOf files) := by
  obtain ⟨files', hcontents, hperm⟩ := h.contents
  rw [PromptCode.manifest, hcontents]
  exact congrArg _ (manifestOf_eq_of_perm hlist hperm)

theorem manifest_ok_iff {root : Tree} {m : Manifest} :
    manifest root = .ok m ↔
      ∃ files, sourceContents root = .ok files ∧ m = manifestOf files := by
  unfold manifest
  cases sourceContents root with
  | error e => simp [Except.map]
  | ok files => simp [Except.map, eq_comm]

/-- Reading a tree into a fresh directory copies its source files. -/
theorem manifestInto_of_ok {root : Tree} {files : List SourceItem}
    (hroot : ValidTree root) (h : sourceContents root = .ok files) :
    ∃ t, manifestInto root = .ok (manifestOf files, t) ∧ IsCopy files t := by
  have hsource := sourceOf_of_ok hroot h
  obtain ⟨t, hwrite, hcopy⟩ := exists_copy hsource (List.Perm.refl files)
  have hparts : files.map (fun f => (relParts (join slash f.1), f.2)) = files := by
    conv_rhs => rw [← List.map_id files]
    refine List.map_congr_left fun f hf => ?_
    rw [relParts_join (hsource.list.ne_nil f hf) (hsource.list.components f hf)]
    rfl
  refine ⟨t, ?_, hcopy⟩
  unfold manifestInto
  simp only [h, hparts, hwrite]

/-! ## Digests -/

theorem manifestDigest_length (m : Manifest) : (manifestDigest m).length = 64 :=
  sha256Hex_length _

theorem isHexDigit_of_mem_manifestDigest {m : Manifest} {c : CodePoint}
    (hc : c ∈ manifestDigest m) : isHexDigit c = true :=
  isHexDigit_of_mem_sha256Hex hc

/-- A snapshot directory named by the digest of its own manifest verifies. -/
theorem verifySnapshot_of_manifest {root : Tree} {m : Manifest}
    (h : manifest root = .ok m) (hne : m ≠ []) :
    verifySnapshot (manifestDigest m) (lit "source") (some root)
      (manifestDigest m) = .ok m := by
  have hhex : ((manifestDigest m).any fun c => !isHexDigit c) = false := by
    rw [List.any_eq_false]
    intro c hc
    simp [isHexDigit_of_mem_manifestDigest hc]
  simp [verifySnapshot, manifestDigest_length, hhex, h, hne]

theorem verifySnapshot_ok {parentName name digest : Str} {source : Option Tree}
    {m : Manifest} (h : verifySnapshot parentName name source digest = .ok m) :
    ∃ root, source = some root ∧ manifest root = .ok m ∧ m ≠ [] ∧
      manifestDigest m = digest := by
  unfold verifySnapshot at h
  split_ifs at h with hident
  cases source with
  | none => simp at h
  | some root =>
      dsimp only at h
      cases hm : manifest root with
      | error e => simp [hm] at h
      | ok actual =>
          simp only [hm] at h
          split_ifs at h with hcheck
          obtain rfl := Except.ok.inj h
          push Not at hcheck
          exact ⟨root, rfl, hm, hcheck.1, hcheck.2⟩

end PromptCode
