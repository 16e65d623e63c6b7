import PromptCode.Py.Symlinks
import PromptCode.DurableSubmission
import PromptCode.ExecutionTransfer

/-!
# Paths that stay below their root

Three functions turn a path that a candidate chose into a place on the disk:
`contained_file` for the files of a workspace, `_contained` for a fetched submission, and
`SourceBundle.materialize` for a transferred one.  Here they run on a file system where
any name may be a symbolic link.
-/

namespace PromptCode

open Py FileTree

/-- The exceptions modelled before, and the `RuntimeError` of a loop of links. -/
inductive PathErr where
  | raised (e : PyErr)
  | symlinkLoop
deriving DecidableEq

namespace Py.FileSystem

variable (fs : FileSystem) (depth : ℕ)

/-! ## `contained_file` -/

/-- The loop over the parts. -/
def descend : AbsPath → List Str → Except PathErr AbsPath
  | current, [] => .ok current
  | current, part :: rest =>
      if part = lit "." ∨ part = lit ".." then
        .error (.raised (.permission "Path escape blocked"))
      else if fs.isLink (current ++ [part]) then
        .error (.raised (.permission "Path escape blocked"))
      else descend (current ++ [part]) rest

/-- `contained_file`.  A name that `os.fsencode` rejects makes `resolve` raise a
`ValueError`. -/
def containedFile (workspace : AbsPath) (relPath : Str) : Except PathErr AbsPath :=
  if relPath = [] ∨ (0 : CodePoint) ∈ relPath then
    .error (.raised (.permission "Path escape blocked"))
  else
    let raw := replaceBackslash relPath
    if raw.head? = some slash ∨ raw.head? = some (ord '~') then
      .error (.raised (.permission "Path escape blocked"))
    else
      let parts := walkedParts relPath
      if parts = [] ∨ lit ".." ∈ parts then
        .error (.raised (.permission "Path escape blocked"))
      else
        match fs.resolve depth workspace with
        | none => .error .symlinkLoop
        | some root =>
            match descend fs root parts with
            | .error e => .error e
            | .ok current =>
                if relPath.any isUnencodable then
                  .error (.raised (.permission "Path escape blocked"))
                else
                  match fs.resolve depth current with
                  | none => .error .symlinkLoop
                  | some resolved =>
                      if root <+: resolved then .ok current
                      else .error (.raised (.permission "Path escape blocked"))

/-! ## `_contained` and `fetch_submission` -/

/-- `path.parents`. -/
def parentsOf (path : AbsPath) : List AbsPath := path.inits.dropLast

/-- `_contained`. -/
def contained (root : AbsPath) (relPath : Str) : Except PathErr AbsPath :=
  match normalizeRelPath relPath with
  | .error e => .error (.raised e)
  | .ok rel =>
      if isBlockedPath rel then .error (.raised (.value "Invalid object path"))
      else
        match fs.resolve depth root with
        | none => .error .symlinkLoop
        | some base =>
            if rel.any isUnencodable then .error (.raised .unicodeEncode)
            else
              match fs.resolve depth (base ++ relParts rel) with
              | none => .error .symlinkLoop
              | some resolved =>
                  if resolved ≠ base ∧ base ∉ parentsOf resolved then
                    .error (.raised (.value "Object path escapes its root"))
                  else .ok resolved

end Py.FileSystem

/-- A file that was opened for writing: the file system the path was chosen on, the path,
and the place that the operating system found for it. -/
structure FileWrite where
  before : FileSystem
  path : AbsPath
  location : AbsPath

namespace Py.FileSystem

/-- The write loop of `fetch_submission`: the files opened, and how it ended. -/
def writeContents (depth : ℕ) (source : AbsPath) :
    FileSystem → List (Str × Bytes) → List FileWrite × Except PathErr FileSystem
  | fs, [] => ([], .ok fs)
  | fs, (rel, data) :: rest =>
      match fs.contained depth source rel with
      | .error e => ([], .error e)
      | .ok target =>
          match (fs.makeDirs depth [] target.dropLast).bind fun r =>
              r.1.writeBytes depth r.2 (target.getLastD []) data with
          | none => ([], .error (.raised .os))
          | some (fs', location) =>
              let r := writeContents depth source fs' rest
              (⟨fs, target, location⟩ :: r.1, r.2)

/-- `fetch_submission` up to its last check, for the rows of a manifest. -/
def fetchSubmission (fs : FileSystem) (depth : ℕ) (store : ObjectStore)
    (sessionId sourceDigest : Str) (rows : Manifest) (destDir : AbsPath) :
    List FileWrite × Except PathErr FileSystem :=
  if manifestDigest rows ≠ sourceDigest then
    ([], .error (.raised (.value "Submitted source integrity check failed")))
  else
    match rows.mapM (fetchRow store sessionId sourceDigest) with
    | .error e => ([], .error (.raised e))
    | .ok contents =>
        writeContents depth (destDir ++ [sourceDigest, lit "source"]) fs contents

/-! ## `SourceBundle.materialize` -/

/-- `source.mkdir(parents=True)`, and where the directory is. -/
def makeSource (fs : FileSystem) (depth : ℕ) (root : AbsPath) (digest : Str) :
    Option (FileSystem × AbsPath) :=
  (fs.resolve depth root).bind fun top =>
    (fs.makeDirs depth [] (top ++ [digest])).bind fun r =>
      if (r.1.entry (r.2 ++ [lit "source"])).isSome then none
      else (r.1.create r.2 (lit "source") .dir).map fun fs' => (fs', r.2 ++ [lit "source"])

def materializeFiles (depth : ℕ) (source : AbsPath) :
    FileSystem → List SourceFile → List FileWrite × Except PathErr FileSystem
  | fs, [] => ([], .ok fs)
  | fs, item :: rest =>
      match decodedSource item.data with
      | .error e => ([], .error (.raised e))
      | .ok data =>
          match (fs.makeDirs depth source (relParts item.path).dropLast).bind fun r =>
              r.1.writeNew r.2 ((relParts item.path).getLastD []) data with
          | none => ([], .error (.raised .os))
          | some (fs', location) =>
              let r := materializeFiles depth source fs' rest
              (⟨fs, source ++ relParts item.path, location⟩ :: r.1, r.2)

/-- `SourceBundle.materialize`. -/
def materialize (fs : FileSystem) (depth : ℕ) (root : AbsPath) (b : SourceBundle) :
    List FileWrite × Except PathErr FileSystem :=
  match fs.makeSource depth root b.digest with
  | none => ([], .error (.raised .os))
  | some (fs', source) => materializeFiles depth source fs' b.files

end Py.FileSystem

/-- A path strictly below a root, with no `..` and no link among its components. -/
structure StaysBelow (fs : FileSystem) (root path : AbsPath) : Prop where
  below : ∃ q ≠ [], path = root ++ q
  no_dotdot : lit ".." ∉ path
  no_link : ∀ q, q <+: path → fs.isLink q = false

/-- Nothing stands below the path. -/
def Py.FileSystem.Fresh (fs : FileSystem) (path : AbsPath) : Prop :=
  ∀ q ≠ [], fs.entry (path ++ q) = none

/-! ## Paths of one file -/

section

variable {fs : FileSystem} {depth : ℕ} {root path : AbsPath}

theorem staysBelow_of_real {q : List Str} (hq : q ≠ []) (h : fs.Real (root ++ q)) :
    StaysBelow fs root (root ++ q) := by
  refine ⟨⟨q, hq, rfl⟩, ?_, h.not_link⟩
  intro hmem
  exact absurd (h.no_dots _ hmem) (by decide)

theorem descend_ok {parts : List Str} (h : fs.descend root parts = .ok path) :
    path = root ++ parts ∧ ∀ q, q <+: parts → q ≠ [] → fs.isLink (root ++ q) = false := by
  induction parts generalizing root with
  | nil =>
      obtain rfl := Except.ok.inj h
      refine ⟨(List.append_nil root).symm, ?_⟩
      intro q hq hne
      exact absurd (List.prefix_nil.mp hq) hne
  | cons part rest ih =>
      unfold FileSystem.descend at h
      split_ifs at h with hdots hlink
      obtain ⟨heq, hrest⟩ := ih h
      refine ⟨by rw [heq, List.append_assoc, List.singleton_append], ?_⟩
      intro q hq hne
      obtain ⟨n, q', rfl⟩ := List.exists_cons_of_ne_nil hne
      obtain ⟨rfl, hq'⟩ := List.cons_prefix_cons.mp hq
      rw [← List.singleton_append, ← List.append_assoc]
      by_cases hnil : q' = []
      · rw [hnil, List.append_nil]
        exact Bool.eq_false_of_not_eq_true hlink
      · exact hrest q' hq' hnil

/-- With no link among its components a path of names below a resolved root is resolved. -/
theorem real_append {parts : List Str} (hroot : fs.Real root)
    (hnames : ∀ n ∈ parts, isDots n = false)
    (hlink : ∀ q, q <+: parts → q ≠ [] → fs.isLink (root ++ q) = false) :
    fs.Real (root ++ parts) := by
  induction parts using List.reverseRecOn with
  | nil => rwa [List.append_nil]
  | append_singleton parts n ih =>
      have hparts : fs.Real (root ++ parts) := by
        apply ih
        · intro m hm
          exact hnames m (List.mem_append_left _ hm)
        · intro q hq hne
          exact hlink q (hq.trans (List.prefix_append _ _)) hne
      rw [← List.append_assoc]
      apply hparts.concat (hnames n (by simp))
      rw [List.append_assoc]
      exact hlink _ (List.prefix_refl _) (by simp)

theorem isDots_of_mem_walkedParts {relPath n : Str} (hdotdot : lit ".." ∉ walkedParts relPath)
    (hn : n ∈ walkedParts relPath) : isDots n = false := by
  have hkept := keptPart_eq_true_iff.mp (List.mem_filter.mp hn).2
  rw [FileSystem.isDots_eq_false_iff]
  refine ⟨hkept.1, hkept.2, ?_⟩
  rintro rfl
  exact hdotdot hn

/-- `contained_file` rejects a path or returns one strictly below the resolved root. -/
theorem containedFile_staysBelow {workspace : AbsPath} {relPath : Str}
    (h : fs.containedFile depth workspace relPath = .ok path) :
    ∃ root, fs.resolve depth workspace = some root ∧ StaysBelow fs root path := by
  unfold FileSystem.containedFile at h
  dsimp only at h
  split at h
  · exact nomatch h
  split at h
  · exact nomatch h
  split at h
  · exact nomatch h
  next hparts =>
  cases hresolve : fs.resolve depth workspace with
  | none => simp [hresolve] at h
  | some root =>
      simp only [hresolve] at h
      cases hwalk : fs.descend root (walkedParts relPath) with
      | error e => simp [hwalk] at h
      | ok current =>
          simp only [hwalk] at h
          split at h
          · exact nomatch h
          cases hcurrent : fs.resolve depth current with
          | none => simp [hcurrent] at h
          | some resolved =>
              simp only [hcurrent] at h
              split_ifs at h
              obtain rfl := Except.ok.inj h
              obtain ⟨rfl, hlink⟩ := descend_ok hwalk
              push Not at hparts
              refine ⟨root, rfl, staysBelow_of_real hparts.1 ?_⟩
              apply real_append (FileSystem.resolve_real hresolve) _ hlink
              intro n hn
              exact isDots_of_mem_walkedParts hparts.2 hn

end

/-! ## The workspace as a tree -/

section

variable {fs : FileSystem} {depth : ℕ} {root : AbsPath}

theorem descend_eq {parts : List Str} (hroot : fs.isLink root = false)
    (hnames : ∀ n ∈ parts, isDots n = false) :
    fs.descend root parts =
      if parts.inits.any (fun q => fs.isLink (root ++ q)) then
        .error (.raised (.permission "Path escape blocked"))
      else .ok (root ++ parts) := by
  induction parts generalizing root with
  | nil => simp [FileSystem.descend, hroot]
  | cons part rest ih =>
      rw [List.forall_mem_cons] at hnames
      obtain ⟨-, hdot, hdotdot⟩ := FileSystem.isDots_eq_false_iff.mp hnames.1
      have hinits : (part :: rest).inits.any (fun q => fs.isLink (root ++ q)) =
          rest.inits.any fun q => fs.isLink (root ++ [part] ++ q) := by
        simp [List.any_map, hroot, Function.comp_def]
      rw [FileSystem.descend, if_neg (not_or.mpr ⟨hdot, hdotdot⟩), hinits]
      by_cases hlink : fs.isLink (root ++ [part]) = true
      · have hany : rest.inits.any (fun q => fs.isLink (root ++ [part] ++ q)) = true := by
          rw [List.any_eq_true]
          exact ⟨[], (List.mem_inits _ _).mpr (List.nil_prefix), by rwa [List.append_nil]⟩
        rw [if_pos hlink, if_pos hany]
      · rw [if_neg hlink, ih (Bool.eq_false_of_not_eq_true hlink) hnames.2, List.append_assoc,
          List.singleton_append]

/-- On a workspace whose links are those of a tree, `contained_file` does what it does on
the tree. -/
theorem containedFile_eq_tree {tree : Tree} {workspace : AbsPath}
    (hroot : fs.resolve depth workspace = some root)
    (hlinks : ∀ q, fs.isLink (root ++ q) = tree.isLinkAt q) (relPath : Str) :
    fs.containedFile depth workspace relPath =
      match PromptCode.containedFile tree relPath with
      | .error e => .error (.raised e)
      | .ok parts => .ok (root ++ parts) := by
  have hreal := FileSystem.resolve_real hroot
  unfold FileSystem.containedFile PromptCode.containedFile
  dsimp only
  by_cases hempty : relPath = [] ∨ (0 : CodePoint) ∈ relPath
  · rw [if_pos hempty, if_pos hempty]
  by_cases habsolute : (replaceBackslash relPath).head? = some slash ∨
      (replaceBackslash relPath).head? = some (ord '~')
  · rw [if_neg hempty, if_neg hempty, if_pos habsolute, if_pos habsolute]
  by_cases hparts : walkedParts relPath = [] ∨ lit ".." ∈ walkedParts relPath
  · rw [if_neg hempty, if_neg hempty, if_neg habsolute, if_neg habsolute, if_pos hparts,
      if_pos hparts]
  have hnames : ∀ n ∈ walkedParts relPath, isDots n = false := fun n hn =>
    isDots_of_mem_walkedParts (not_or.mp hparts).2 hn
  have hself : fs.isLink root = false := hreal.not_link root (List.prefix_refl root)
  rw [if_neg hempty, if_neg hempty, if_neg habsolute, if_neg habsolute, if_neg hparts,
    if_neg hparts, hroot]
  dsimp only
  rw [descend_eq hself hnames]
  simp only [hlinks]
  by_cases hany : (walkedParts relPath).inits.any tree.isLinkAt = true
  · rw [if_pos hany, if_pos hany]
  rw [if_neg hany, if_neg hany]
  dsimp only
  by_cases hencode : relPath.any isUnencodable = true
  · rw [if_pos hencode, if_pos hencode]
  have hpath : fs.Real (root ++ walkedParts relPath) := by
    apply real_append hreal hnames
    intro q hq _
    rw [hlinks]
    by_contra hlink
    rw [Bool.not_eq_false] at hlink
    exact hany (List.any_eq_true.mpr ⟨q, (List.mem_inits _ _).mpr hq, hlink⟩)
  rw [if_neg hencode, if_neg hencode, FileSystem.resolve_of_real depth hpath]
  dsimp only
  rw [if_pos (List.prefix_append root _)]

end

/-! ## Files of a fetched submission -/

section

variable {fs : FileSystem} {depth : ℕ} {root target : AbsPath} {rel : Str}

/-- The parts of a normalized path are names. -/
theorem normalizeRelPath_names {relPath : Str} (h : normalizeRelPath relPath = .ok rel) :
    (∀ n ∈ relParts rel, isDots n = false) ∧ (relParts rel = [] → rel = lit ".") := by
  unfold normalizeRelPath at h
  dsimp only at h
  split_ifs at h with hbad
  simp only [not_or, not_not] at hbad
  obtain ⟨-, hposix, habsolute, hdots, -⟩ := hbad
  have hroot : (PurePath.parse (replaceBackslash relPath)).root = [] := by
    simpa [PurePath.isAbsolute] using habsolute
  obtain rfl := Except.ok.inj h
  rw [← hposix, relParts]
  rw [PurePath.parts, if_pos hroot] at hdots
  refine ⟨?_, ?_⟩
  · intro n hn
    by_contra hne
    rw [Bool.not_eq_false] at hne
    apply hdots
    rw [List.any_eq_true]
    refine ⟨n, hn, ?_⟩
    simpa [isDots, dotParts] using hne
  · intro htail
    rw [hposix, PurePath.asPosix, if_pos ⟨hroot, htail⟩]

/-- `_contained` returns its root or a path strictly below it, resolved in both cases; its
root only when that is a directory or the path is a dot. -/
theorem contained_spec {relPath : Str} (h : fs.contained depth root relPath = .ok target) :
    ∃ base, fs.resolve depth root = some base ∧ fs.Real target ∧
      ((target = base ∧ (normalizeRelPath relPath = .ok (lit ".") ∨
        fs.entry base = some .dir)) ∨ ∃ q ≠ [], target = base ++ q) := by
  unfold FileSystem.contained at h
  cases hnorm : normalizeRelPath relPath with
  | error e => simp [hnorm] at h
  | ok rel =>
      simp only [hnorm] at h
      split at h
      · exact nomatch h
      cases hbase : fs.resolve depth root with
      | none => simp [hbase] at h
      | some base =>
          simp only [hbase] at h
          split at h
          · exact nomatch h
          cases hresolved : fs.resolve depth (base ++ relParts rel) with
          | none => simp [hresolved] at h
          | some resolved =>
              simp only [hresolved] at h
              split_ifs at h with hescape
              obtain rfl := Except.ok.inj h
              refine ⟨base, rfl, FileSystem.resolve_real hresolved, ?_⟩
              obtain ⟨hnames, hdot⟩ := normalizeRelPath_names hnorm
              by_cases hself : resolved = base
              · refine .inl ⟨hself, ?_⟩
                by_cases hparts : relParts rel = []
                · exact .inl (by rw [hdot hparts])
                · rw [hself, FileSystem.resolve_append depth (FileSystem.resolve_real hbase)]
                    at hresolved
                  exact .inr (FileSystem.entry_of_joinReal_self hnames hparts hresolved)
              · have hparent : base ∈ FileSystem.parentsOf resolved := by
                  by_contra hparent
                  exact hescape ⟨hself, hparent⟩
                have hprefix := List.mem_of_mem_dropLast hparent
                obtain ⟨q, rfl⟩ := (List.mem_inits _ _).mp hprefix
                refine .inr ⟨q, ?_, rfl⟩
                rintro rfl
                exact hself (List.append_nil base)

/-- No object is called by a dot. -/
theorem fetchRow_ne_dot {store : ObjectStore} {sessionId digest : Str} {r : ManifestRow}
    {c : Str × Bytes} (h : fetchRow store sessionId digest r = .ok c) :
    normalizeRelPath r.path = .ok c.1 ∧ c.1 ≠ lit "." := by
  unfold fetchRow at h
  cases hnorm : normalizeRelPath r.path with
  | error e => simp [hnorm] at h
  | ok rel =>
      simp only [hnorm] at h
      cases hkey : submissionKey sessionId digest rel with
      | error e => simp [hkey] at h
      | ok key =>
          simp only [hkey] at h
          cases hget : store.get key with
          | error e => cases e <;> simp [hget] at h
          | ok data =>
              simp only [hget] at h
              split_ifs at h
              obtain rfl := Except.ok.inj h
              refine ⟨rfl, ?_⟩
              rintro rfl
              have hparts := (validateKey_ok_iff.mp (get_ok_iff.mp hget).1).2.2.1
              unfold submissionKey at hkey
              cases hpre : submissionPrefix sessionId digest with
              | error e => simp [hpre] at hkey
              | ok pre =>
                  have hdot : normalizeRelPath (lit ".") = .ok (lit ".") := by decide
                  simp only [hpre, hdot] at hkey
                  obtain rfl := Except.ok.inj hkey
                  rw [split_append_cons_self] at hparts
                  exact hparts (lit ".") (List.mem_append_right _ (by decide)) (by decide)

/-- Normalizing again changes nothing. -/
theorem normalizeRelPath_idem {relPath : Str} (h : normalizeRelPath relPath = .ok rel) :
    normalizeRelPath rel = .ok rel := by
  have heq := normalizeRelPath_eq h
  rw [heq] at h ⊢
  unfold normalizeRelPath at h ⊢
  rw [replaceBackslash_idem]
  exact h

/-- One round of the loop writes to the path it was given, strictly below the root. -/
theorem write_staysBelow {fs' : FileSystem} {location source : AbsPath} {data : Bytes}
    (hrel : ∃ relPath, normalizeRelPath relPath = .ok rel ∧ rel ≠ lit ".")
    (hcontained : fs.contained depth source rel = .ok target)
    (hopen : ((fs.makeDirs depth [] target.dropLast).bind fun r =>
      r.1.writeBytes depth r.2 (target.getLastD []) data) = some (fs', location)) :
    ∃ base, fs.resolve depth source = some base ∧ StaysBelow fs base target ∧
      location = target := by
  obtain ⟨base, hbase, hreal, hplace⟩ := contained_spec hcontained
  obtain ⟨relPath, hnorm, hdot⟩ := hrel
  rw [Option.bind_eq_some_iff] at hopen
  obtain ⟨⟨fs₁, dir⟩, hdirs, hwrite⟩ := hopen
  have hparent : fs.Real ([] ++ target.dropLast) := hreal.dropLast
  obtain ⟨hgrows, -, -, hdir⟩ := FileSystem.makeDirs_spec fs.real_nil fs.entry_root
    (fun n hn => hreal.no_dots n (List.mem_of_mem_dropLast hn)) hdirs
  obtain ⟨-, hresolve, hfile⟩ := FileSystem.writeBytes_spec hwrite
  rw [hdir hparent, List.nil_append] at hresolve
  have hne : target ≠ [] := by
    -- the root of the file system is a directory
    rintro rfl
    obtain ⟨follow, heq⟩ := fs₁.joinReal_eq depth
    rw [FileSystem.resolve, heq] at hresolve
    obtain rfl := Option.some.inj hresolve
    exact hfile fs₁.entry_root
  have hsplit : target.dropLast ++ [target.getLastD []] = target := by
    rw [List.getLastD_eq_getLast?, List.getLast?_eq_some_getLast hne, Option.getD_some,
      List.dropLast_append_getLast]
  rw [hsplit, FileSystem.resolve_of_real depth (hgrows.real hreal)] at hresolve
  obtain rfl := Option.some.inj hresolve
  refine ⟨base, hbase, ?_, rfl⟩
  obtain ⟨rfl, hbad | hbad⟩ | ⟨q, hq, rfl⟩ := hplace
  · rw [normalizeRelPath_idem hnorm] at hbad
    exact absurd (Except.ok.inj hbad) hdot
  · exact absurd (hgrows.keeps_dir _ hbad) hfile
  · exact staysBelow_of_real hq hreal

/-- Every write goes to its own path, which stays below the root. -/
theorem mem_writeContents {source : AbsPath} {contents : List (Str × Bytes)} {w : FileWrite}
    (hcontents : ∀ c ∈ contents, ∃ relPath, normalizeRelPath relPath = .ok c.1 ∧
      c.1 ≠ lit ".")
    (hw : w ∈ (FileSystem.writeContents depth source fs contents).1) :
    ∃ base, w.before.resolve depth source = some base ∧ StaysBelow w.before base w.path ∧
      w.location = w.path := by
  induction contents generalizing fs with
  | nil => exact absurd hw List.not_mem_nil
  | cons c rest ih =>
      obtain ⟨rel, data⟩ := c
      rw [List.forall_mem_cons] at hcontents
      unfold FileSystem.writeContents at hw
      cases hcontained : fs.contained depth source rel with
      | error e => simp [hcontained] at hw
      | ok target =>
          simp only [hcontained] at hw
          split at hw
          · exact absurd hw List.not_mem_nil
          · next fs' location hopen =>
              obtain rfl | hw := List.mem_cons.mp hw
              · exact write_staysBelow hcontents.1 hcontained hopen
              · exact ih hcontents.2 hw

end

/-! ## Files of a transferred submission -/

section

variable {fs fs' : FileSystem} {depth : ℕ} {root source : AbsPath}

/-- A resolved directory with no link below it. -/
structure Sealed (fs : FileSystem) (source : AbsPath) : Prop where
  real : fs.Real source
  entry : fs.entry source = some .dir
  no_link : ∀ q, fs.isLink (source ++ q) = false

theorem Sealed.grows (h : Sealed fs source) (hgrows : FileSystem.Grows fs fs') :
    Sealed fs' source :=
  ⟨hgrows.real h.real, hgrows.keeps_dir _ h.entry, fun q => hgrows.no_new_link _ (h.no_link q)⟩

/-- Names below a sealed directory make a resolved path. -/
theorem Sealed.append (h : Sealed fs source) {parts : List Str}
    (hnames : ∀ n ∈ parts, isDots n = false) : fs.Real (source ++ parts) :=
  real_append h.real hnames fun q _ _ => h.no_link q

/-- The parts of a checked path are names, and there is one. -/
theorem SourceFile.names (item : SourceFile) :
    relParts item.path ≠ [] ∧ ∀ n ∈ relParts item.path, isDots n = false := by
  have hsafe : safePath item.path = true := by
    have hvalid := item.valid
    unfold checkSourceFile at hvalid
    split_ifs at hvalid with _ _ _ _ hsafe
    simpa using hsafe
  simp only [safePath, Bool.and_eq_true, Bool.not_eq_true', decide_eq_false_iff_not] at hsafe
  obtain ⟨⟨⟨⟨⟨⟨hne, habsolute⟩, -⟩, -⟩, hparts⟩, -⟩, -⟩ := hsafe
  have hroot : (PurePath.parse item.path).root = [] := by
    simpa [PurePath.isAbsolute] using habsolute
  rw [PurePath.parts, if_pos hroot] at hne hparts
  refine ⟨hne, ?_⟩
  intro n hn
  have hkept := keptPart_eq_true_iff.mp (List.mem_filter.mp hn).2
  rw [FileSystem.isDots_eq_false_iff]
  refine ⟨hkept.1, hkept.2, ?_⟩
  rintro rfl
  have hrefused := List.any_eq_false.mp hparts _ hn
  exact hrefused (by decide)

theorem SourceBundle.digest_no_dots (b : SourceBundle) : isDots b.digest = false := by
  have hlength : b.digest.length = 64 := by
    have hvalid := b.valid
    by_contra hlength
    rw [checkBundle, if_pos (Or.inl hlength)] at hvalid
    exact nomatch hvalid
  rw [FileSystem.isDots_eq_false_iff]
  refine ⟨?_, ?_, ?_⟩ <;> intro h <;> rw [h] at hlength <;> exact absurd hlength (by decide)

/-- The new directory is sealed, and it lies below a root in which nothing was. -/
theorem makeSource_spec {digest : Str} (hdigest : isDots digest = false)
    (h : fs.makeSource depth root digest = some (fs', source)) :
    Sealed fs' source ∧ ∃ top, fs.resolve depth root = some top ∧
      (fs.Fresh top → source = top ++ [digest, lit "source"]) := by
  unfold FileSystem.makeSource at h
  rw [Option.bind_eq_some_iff] at h
  obtain ⟨top, htop, h⟩ := h
  rw [Option.bind_eq_some_iff] at h
  obtain ⟨⟨fs₁, dir⟩, hdirs, h⟩ := h
  split_ifs at h with hsome
  rw [Option.map_eq_some_iff] at h
  obtain ⟨fs₂, hcreate, heq⟩ := h
  obtain ⟨rfl, rfl⟩ := Prod.mk.inj heq
  have hreal := FileSystem.resolve_real htop
  have hnames : ∀ n ∈ top ++ [digest], isDots n = false := by
    intro n hn
    obtain hn | hn := List.mem_append.mp hn
    · exact hreal.no_dots n hn
    · rwa [List.mem_singleton.mp hn]
  obtain ⟨-, hdir, -, hplace⟩ :=
    FileSystem.makeDirs_spec fs.real_nil fs.entry_root hnames hdirs
  have hgrows := FileSystem.create_grows (fun _ => Entry.noConfusion) hcreate
  have hentry := FileSystem.entry_create hcreate
  have hnone : ∀ q, fs₁.entry (dir ++ [lit "source"] ++ q) = none := by
    intro q
    by_cases hq : q = []
    · rw [hq, List.append_nil]
      exact Option.not_isSome_iff_eq_none.mp hsome
    · by_contra hbelow
      rw [← Ne, Option.ne_none_iff_isSome] at hbelow
      rw [FileSystem.entry_of_below hq hbelow] at hsome
      exact hsome rfl
  have hlink : ∀ q, fs₂.isLink (dir ++ [lit "source"] ++ q) = false := by
    intro q
    apply hgrows.no_new_link
    rw [FileSystem.isLink, hnone]
  refine ⟨⟨(hgrows.real hdir).concat (by decide) ?_, ?_, hlink⟩, top, htop, ?_⟩
  · have hself := hlink []
    rwa [List.append_nil] at hself
  · rw [hentry, if_pos rfl]
  · intro hfresh
    have hdigestLink : fs.Real ([] ++ (top ++ [digest])) := by
      apply hreal.concat hdigest
      rw [FileSystem.isLink, hfresh [digest] (by simp)]
    rw [hplace hdigestLink, List.nil_append, List.append_assoc]
    rfl

theorem mem_materializeFiles {items : List SourceFile} {w : FileWrite}
    (hsealed : Sealed fs source)
    (hw : w ∈ (FileSystem.materializeFiles depth source fs items).1) :
    StaysBelow w.before source w.path ∧ w.location = w.path := by
  induction items generalizing fs with
  | nil => exact absurd hw List.not_mem_nil
  | cons item rest ih =>
      unfold FileSystem.materializeFiles at hw
      split at hw
      · exact absurd hw List.not_mem_nil
      · split at hw
        · exact absurd hw List.not_mem_nil
        · next data _ fs₂ location hopen =>
            rw [Option.bind_eq_some_iff] at hopen
            obtain ⟨⟨fs₁, dir⟩, hdirs, hwrite⟩ := hopen
            obtain ⟨hne, hnames⟩ := item.names
            have hdropped : ∀ n ∈ (relParts item.path).dropLast, isDots n = false := fun n hn =>
              hnames n (List.mem_of_mem_dropLast hn)
            obtain ⟨hgrows, -, -, hplace⟩ :=
              FileSystem.makeDirs_spec hsealed.real hsealed.entry hdropped hdirs
            obtain ⟨hgrows', hlocation, -⟩ := FileSystem.writeNew_spec hwrite
            obtain rfl | hw := List.mem_cons.mp hw
            · refine ⟨staysBelow_of_real hne (hsealed.append hnames), ?_⟩
              rw [hlocation, hplace (hsealed.append hdropped), List.append_assoc,
                List.getLastD_eq_getLast?, List.getLast?_eq_some_getLast hne, Option.getD_some,
                List.dropLast_append_getLast]
            · exact ih (hsealed.grows (hgrows.trans hgrows')) hw

end

/-- A workspace at `/w` with a file and a link out of it. -/
def linkedWorkspace : FileSystem :=
  [(([] : AbsPath), lit "w", Entry.dir), ([lit "w"], lit "app.py", .file []),
    ([lit "w"], lit "out", .link (lit "/etc"))].foldl
    (fun fs e => (fs.create e.1 e.2.1 e.2.2).getD fs)
    { entry := fun path => if path = [] then some .dir else none
      entry_root := rfl
      parent_dir := by intro path name; simp }

/-- A path through the link is refused. -/
example : linkedWorkspace.containedFile 1 [lit "w"] (lit "out/passwd") =
    .error (.raised (.permission "Path escape blocked")) := by decide +kernel

end PromptCode
