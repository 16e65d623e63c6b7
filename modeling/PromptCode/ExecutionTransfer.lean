import PromptCode.DurableSubmission
import PromptCode.Py.Base64

/-!
# Source bundles

`execution_transfer.py`: a frozen source travels to the execution host as a
bundle of base64 files.  The host builds its copy of the tree from the bundle,
and a bundle is only built from files that pass its own test of names.
-/

namespace PromptCode

open Py FileTree

def maxSourcePath : ℕ := 500

def maxSourceData : ℕ := 4 * ((maxFileBytes + 2) / 3)

/-! ## Files of a bundle -/

/-- What pydantic accepts as a `str`. -/
def isUnicode (s : Str) : Bool := s.all fun c => !isSurrogate c

/-- `SourceFile.decoded`. -/
def decodedSource (data : Str) : Except PyErr Bytes :=
  match b64decode data with
  | none => .error (.value "Invalid source encoding")
  | some bytes =>
      if maxFileBytes < bytes.length then
        .error (.value "Source file exceeds limit")
      else .ok bytes

/-- The names no part of a source path may have. -/
def refusedParts : List Str := [lit ".", lit ".."] ++ skipDirNames

/-- The test of `SourceFile.safe_file` on the path. -/
def safePath (path : Str) : Bool :=
  let parsed := PurePath.parse path
  !decide (parsed.parts = []) && !parsed.isAbsolute &&
    decide (path = parsed.asPosix) && !decide (backslash ∈ path) &&
    !(parsed.parts.any fun part => decide (part ∈ refusedParts)) &&
    (!decide (path = []) && path.all fun c => !isControl c) &&
    !isBlockedPath path

/-- The field bounds of `SourceFile`, then its validator. -/
def checkSourceFile (path data : Str) : Except PyErr Unit :=
  if !isUnicode path || !isUnicode data then
    .error (.value "Input should be a valid string")
  else if path.length < 1 then
    .error (.value "String should have at least 1 character")
  else if maxSourcePath < path.length then
    .error (.value "String should have at most 500 characters")
  else if maxSourceData < data.length then
    .error (.value "String should have at most 2000000 characters")
  else if !safePath path then .error (.value "Invalid source path")
  else
    match decodedSource data with
    | .error e => .error e
    | .ok _ => .ok ()

/-- A validated `SourceFile`. -/
structure SourceFile where
  path : Str
  data : Str
  valid : checkSourceFile path data = .ok ()

def SourceFile.make (path data : Str) : Except PyErr SourceFile :=
  match h : checkSourceFile path data with
  | .error e => .error e
  | .ok () => .ok { path := path, data := data, valid := h }

/-! ## Bundles -/

/-- The rows of the manifest that `bounded_and_verified` builds. -/
def boundedRows : List SourceFile → List Str → ℕ → Except PyErr Manifest
  | [], _, _ => .ok []
  | item :: rest, paths, total =>
      if item.path ∈ paths then .error (.value "Duplicate source path")
      else
        match decodedSource item.data with
        | .error e => .error e
        | .ok data =>
            if sourceBytes < total + data.length then
              .error (.value "Source exceeds quota")
            else
              (boundedRows rest (item.path :: paths) (total + data.length)).map
                fun rows => manifestRow item.path data :: rows

/-- Some file of the bundle lies below another one. -/
def pathConflict (paths : List Str) : Bool :=
  paths.any fun path =>
    (PurePath.parse path).parents.any fun parent =>
      decide (parent.asPosix ∈ paths)

/-- The field bounds of `SourceBundle`, then its validator. -/
def checkBundle (digest : Str) (files : List SourceFile) : Except PyErr Unit :=
  if digest.length ≠ 64 ∨ digest.any (fun c => !isHexDigit c) then
    .error (.value "String should match pattern '^[a-f0-9]\x7b64\x7d$'")
  else if files = [] then
    .error (.value "List should have at least 1 item after validation")
  else if sourceFileLimit < files.length then
    .error (.value "List should have at most 1000 items after validation")
  else
    match boundedRows files [] 0 with
    | .error e => .error e
    | .ok rows =>
        if pathConflict (files.map fun f => f.path) then
          .error (.value "Source path conflicts with directory")
        else if manifestDigest (sortedManifest rows) ≠ digest then
          .error (.value "Source digest mismatch")
        else .ok ()

/-- A validated `SourceBundle`. -/
structure SourceBundle where
  digest : Str
  files : List SourceFile
  valid : checkBundle digest files = .ok ()

def SourceBundle.make (digest : Str) (files : List SourceFile) :
    Except PyErr SourceBundle :=
  match h : checkBundle digest files with
  | .error e => .error e
  | .ok () => .ok { digest := digest, files := files, valid := h }

/-- `target.open("xb")` and the write: the file must not exist. -/
def writeNew (t : Tree) (path : List Str) (data : Bytes) : Option Tree :=
  if (t.get path).isSome then none else t.write path data

def materializeFiles : Tree → List SourceFile → Except PyErr Tree
  | t, [] => .ok t
  | t, item :: rest =>
      match decodedSource item.data with
      | .error e => .error e
      | .ok data =>
          match writeNew t (relParts item.path) data with
          | none => .error .os
          | some t' => materializeFiles t' rest

/-- `SourceBundle.materialize` into an empty directory: the tree at
`<digest>/source`. -/
def SourceBundle.materialize (b : SourceBundle) : Except PyErr Tree :=
  materializeFiles .nil b.files

/-- One round of the loop in `bundle_source`. -/
def bundleItem (f : SourceItem) : Except PyErr (SourceFile × ManifestRow) :=
  (SourceFile.make (join slash f.1) (b64encode f.2)).map fun item =>
    (item, itemRow f)

def bundleSource (root : Tree) : Except PyErr SourceBundle :=
  match collect "Source exceeds quota" bundleItem (sourceFiles root) 0 0 with
  | .error e => .error e
  | .ok items =>
      SourceBundle.make
        (manifestDigest (sortedManifest (items.map fun i => i.2)))
        (items.map fun i => i.1)

/-! ## Which names a bundle takes -/

/-- The names that a bundle takes and a source tree need not have. -/
structure Transferable (rel : Str) : Prop where
  length : rel.length ≤ maxSourcePath
  unicode : ∀ c ∈ rel, isSurrogate c = false
  no_control : ∀ c ∈ rel, isControl c = false
  no_backslash : backslash ∉ rel
  /-- The file itself is not named like a skipped directory. -/
  name : (split slash rel).getLastD [] ∉ skipDirNames

theorem isUnicode_b64encode (data : Bytes) : isUnicode (b64encode data) = true := by
  have hchar : ∀ n, isSurrogate (b64Char n) = false := by
    intro n
    unfold b64Char
    split_ifs <;> simp [isSurrogate] <;> omega
  have hpad : isSurrogate b64Pad = false := by decide
  unfold isUnicode
  fun_induction b64encode data with
  | case1 => rfl
  | case2 a => simp [hchar, hpad]
  | case3 a b => simp [hchar, hpad]
  | case4 a b c rest ih => simpa [hchar] using ih

theorem decodedSource_b64encode {data : Bytes} (h : data.length ≤ maxFileBytes) :
    decodedSource (b64encode data) = .ok data := by
  simp [decodedSource, b64decode_b64encode, not_lt.mpr h]

theorem getLastD_mem {α : Type} {l : List α} {d : α} (h : l ≠ []) :
    l.getLastD d ∈ l := by
  rw [List.getLastD_eq_getLast?, List.getLast?_eq_getLast_of_ne_nil h]
  exact List.getLast_mem h

/-- A file of a frozen source passes the test of names exactly when its name is
transferable. -/
theorem checkSourceFile_iff {workspace source : Tree} {files : List SourceItem}
    (h : FrozenSource workspace files source) {f : SourceItem} (hf : f ∈ files) :
    checkSourceFile (join slash f.1) (b64encode f.2) = .ok () ↔
      Transferable (join slash f.1) := by
  have hne := h.of_workspace.list.ne_nil f hf
  have hcomp := h.of_workspace.list.components f hf
  have hinc := (h.of_workspace.mem_iff f.1 f.2).mp hf
  have hsize : f.2.length ≤ maxFileBytes := h.of_workspace.quota.each f hf
  have hparse := parse_join hne hcomp
  have hposix := asPosix_parse_join hne hcomp
  have hrelne : join slash f.1 ≠ [] := join_ne_nil hne hcomp
  have hsplit : split slash (join slash f.1) = f.1 :=
    split_join (fun p hp => (hcomp p hp).no_slash) hne
  have hdata : ¬ maxSourceData < (b64encode f.2).length := by
    rw [b64encode_length, maxSourceData]
    omega
  have hparts : (f.1.any fun part => decide (part ∈ refusedParts)) =
      decide (f.1.getLastD [] ∈ skipDirNames) := by
    rw [Bool.eq_iff_iff, List.any_eq_true, decide_eq_true_eq]
    constructor
    · rintro ⟨part, hpart, hrefused⟩
      rw [decide_eq_true_eq, refusedParts, List.mem_append] at hrefused
      rcases hrefused with hdot | hskip
      · simp only [List.mem_cons, List.not_mem_nil, or_false] at hdot
        rcases hdot with rfl | rfl
        · exact absurd rfl (hcomp _ hpart).ne_dot
        · exact absurd rfl (hcomp _ hpart).ne_dotdot
      · have hsplitlast := List.dropLast_append_getLast hne
        rw [← hsplitlast, List.mem_append, List.mem_singleton] at hpart
        rcases hpart with hpart | rfl
        · have hkeep := hinc.onWalk.2.2.2 part hpart
          simp [keepSource, hskip] at hkeep
        · rwa [List.getLastD_eq_getLast?, List.getLast?_eq_getLast_of_ne_nil hne]
    · intro hskip
      refine ⟨f.1.getLastD [], getLastD_mem hne, ?_⟩
      rw [decide_eq_true_eq, refusedParts, List.mem_append]
      exact Or.inr hskip
  have hsafe : safePath (join slash f.1) = true ↔
      (∀ c ∈ join slash f.1, isControl c = false) ∧
        backslash ∉ join slash f.1 ∧ f.1.getLastD [] ∉ skipDirNames := by
    rw [hparse] at hposix
    simp only [safePath, hparse, hposix, PurePath.parts, if_true, hne,
      PurePath.isAbsolute, hparts, hinc.not_blocked, hrelne]
    simp only [ne_eq, not_true_eq_false, decide_false, Bool.not_false,
      decide_true, Bool.and_true, Bool.true_and, Bool.and_eq_true,
      Bool.not_eq_true', decide_eq_false_iff_not, List.all_eq_true]
    tauto
  have hlen : ¬ (join slash f.1).length < 1 := by
    have := List.length_pos_of_ne_nil hrelne
    omega
  unfold checkSourceFile
  rw [isUnicode_b64encode, decodedSource_b64encode hsize]
  constructor
  · intro hcheck
    split_ifs at hcheck with hunicode hlong hsafe'
    have huni : isUnicode (join slash f.1) = true := by simpa using hunicode
    have hok : safePath (join slash f.1) = true := by simpa using hsafe'
    obtain ⟨hctl, hback, hname⟩ := hsafe.mp hok
    refine ⟨not_lt.mp hlong, ?_, hctl, hback, by rwa [hsplit]⟩
    simpa [isUnicode] using huni
  · rintro ⟨hlong, huni, hctl, hback, hname⟩
    rw [hsplit] at hname
    have huni' : isUnicode (join slash f.1) = true := by simpa [isUnicode] using huni
    have hok := hsafe.mpr ⟨hctl, hback, hname⟩
    simp [huni', hok, hlen, not_lt.mpr hlong, hdata]

theorem make_ok_iff {path data : Str} {item : SourceFile} :
    SourceFile.make path data = .ok item ↔
      checkSourceFile path data = .ok () ∧ item.path = path ∧ item.data = data := by
  unfold SourceFile.make
  split
  · rename_i e he
    simp [he]
  · rename_i he
    constructor
    · intro h
      obtain rfl := Except.ok.inj h
      exact ⟨he, rfl, rfl⟩
    · rintro ⟨-, rfl, rfl⟩
      rfl

end PromptCode
