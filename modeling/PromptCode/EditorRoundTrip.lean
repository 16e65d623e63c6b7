import PromptCode.Workspace

/-!
# The text that the editor gets back

`read_file` after `write_file`: the writer encodes the text as it is, the reader opens the
file in text mode, where CR LF and CR are read as LF.
-/

namespace PromptCode

open Py FileTree

section

variable {cap : Capacity} {disk disk' : SessionDisk} {relPath content : Str}

/-- A path without links to a file of the workspace. -/
theorem readFile_of_contained {workspace : Tree} {path : List Str} {data : Bytes}
    (hblocked : isBlockedPath relPath = false)
    (hpath : containedFile workspace relPath = .ok path)
    (hfile : workspace.fileAt path = some data) (hsize : data.length ≤ maxFileBytes) :
    readFile workspace relPath = .ok (readText data) := by
  unfold readFile
  rw [if_neg (by simp [hblocked]), hpath]
  simp only [bind, Except.bind, hfile]
  exact if_neg (by omega)

/-- A write leaves no link where it walked. -/
theorem isLinkAt_of_write {workspace workspace' : Tree} {path q : List Str} {data : Bytes}
    (h : workspace.write path data = some workspace') (hq : q <+: path) :
    workspace'.isLinkAt q = false := by
  have hself := Dir.get_write_self h
  unfold Dir.isLinkAt
  by_cases heq : q = path
  · rw [heq, hself]
  · obtain ⟨e, he⟩ := Dir.exists_dir_of_prefix hq heq hself
    rw [he]

theorem containedFile_after_write {path : List Str} {encoded : Bytes}
    (h : Accepted cap disk relPath content path encoded disk') :
    containedFile disk'.workspace relPath = .ok path := by
  have hcontained := containedFile_ok h.contained
  rw [← h.contained]
  refine containedFile_congr fun q hq => ?_
  rw [← hcontained.path_eq] at hq
  rw [isLinkAt_of_write h.written hq, hcontained.no_link q hq]

/-- What is read after an accepted write. -/
theorem readFile_after_write {path : List Str} {encoded : Bytes}
    (h : Accepted cap disk relPath content path encoded disk') :
    readFile disk'.workspace relPath = .ok (universalNewlines content) := by
  rw [← readText_encode h.encode]
  exact readFile_of_contained h.not_blocked (containedFile_after_write h)
    (Dir.fileAt_write_self h.written) h.size

/-- What a read has found. -/
theorem readFile_ok {workspace : Tree} {text : Str}
    (h : readFile workspace relPath = .ok text) :
    ∃ path data, containedFile workspace relPath = .ok path ∧
      workspace.fileAt path = some data ∧ text = readText data := by
  unfold readFile at h
  split_ifs at h
  obtain ⟨path, hpath, hread⟩ := bind_eq_ok.mp h
  cases hfile : workspace.fileAt path with
  | none => simp [hfile] at hread
  | some data =>
      rw [hfile] at hread
      dsimp only at hread
      split_ifs at hread
      exact ⟨path, data, hpath, hfile, (Except.ok.inj hread).symm⟩

/-- Opening a file and saving its text unmodified leaves the bytes of every file as they are
exactly when those of this file encode a text without carriage returns. -/
theorem saveUnmodified_iff {text : Str} {path : List Str} {data : Bytes}
    (hpath : containedFile disk.workspace relPath = .ok path)
    (hdata : disk.workspace.fileAt path = some data)
    (hread : readFile disk.workspace relPath = .ok text)
    (hwrite : writeFile cap disk relPath text = (.ok (), disk')) :
    (∀ q, disk'.workspace.fileAt q = disk.workspace.fileAt q) ↔
      ∃ s, utf8Encode s = some data ∧ (13 : CodePoint) ∉ s := by
  obtain ⟨path', data', hpath', hdata', rfl⟩ := readFile_ok hread
  obtain rfl := Except.ok.inj (hpath.symm.trans hpath')
  obtain rfl := Option.some.inj (hdata.symm.trans hdata')
  obtain ⟨written, encoded, hacc⟩ := writeFile_ok hwrite
  obtain rfl := Except.ok.inj (hpath.symm.trans hacc.contained)
  constructor
  · intro h
    have hsame := h path
    rw [Dir.fileAt_write_self hacc.written, hdata, Option.some.injEq] at hsame
    exact ⟨readText data, hsame ▸ hacc.encode, cr_notMem_universalNewlines _⟩
  · rintro ⟨s, hs, hcr⟩ q
    have htext : readText data = s := by
      rw [readText_encode hs, universalNewlines_of_notMem hcr]
    have hencoded : encoded = data := by
      rw [← Option.some.injEq, ← hacc.encode, htext, hs]
    by_cases hq : q = path
    · rw [hq, Dir.fileAt_write_self hacc.written, hencoded, hdata]
    · exact Dir.fileAt_write_of_ne hacc.written hq

/-- Every save of the text that is read leaves the files as they are. -/
def ReopenKeeps (workspace : Tree) (relPath : Str) : Prop :=
  ∀ cap disk disk' text, disk.workspace = workspace →
    readFile workspace relPath = .ok text →
    writeFile cap disk relPath text = (.ok (), disk') →
    ∀ q, disk'.workspace.fileAt q = workspace.fileAt q

/-- After an accepted write the same text is read, and opening and saving the file changes
nothing, exactly when the text has no carriage return. -/
theorem editorRoundTrip_iff (h : writeFile cap disk relPath content = (.ok (), disk')) :
    (readFile disk'.workspace relPath = .ok content ∧ ReopenKeeps disk'.workspace relPath) ↔
      (13 : CodePoint) ∉ content := by
  obtain ⟨path, encoded, hacc⟩ := writeFile_ok h
  rw [readFile_after_write hacc, Except.ok.injEq, universalNewlines_eq_self_iff]
  refine ⟨And.left, fun hcr => ⟨hcr, ?_⟩⟩
  rintro cap₁ disk₁ disk₂ text hworkspace hread hwrite q
  rw [← hworkspace] at hread ⊢
  have hpath := containedFile_after_write hacc
  have hdata := Dir.fileAt_write_self hacc.written
  rw [← hworkspace] at hpath hdata
  exact (saveUnmodified_iff hpath hdata hread hwrite).mpr ⟨content, hacc.encode, hcr⟩ q

end

/-- A text without a carriage return. -/
theorem editorRoundTrip_of_newline :
    let result := writeFile roomyCapacity (singleFileDisk "a.py" "x") (lit "a.py") (lit "a\n")
    result.1 = .ok () ∧ readFile result.2.workspace (lit "a.py") = .ok (lit "a\n") := by
  have hok : (writeFile roomyCapacity (singleFileDisk "a.py" "x") (lit "a.py") (lit "a\n")).1 =
      .ok () := by
    decide +kernel
  exact ⟨hok, ((editorRoundTrip_iff (Prod.ext hok rfl)).mpr (by decide)).1⟩

/-- The content `a`, CR, LF comes back without the carriage return. -/
theorem editorRoundTrip_drops_cr :
    let content := lit "a\r\n"
    let result := writeFile roomyCapacity (singleFileDisk "a.py" "x") (lit "a.py") content
    result.1 = .ok () ∧ readFile result.2.workspace (lit "a.py") = .ok (lit "a\n") ∧
      lit "a\n" ≠ content := by
  refine ⟨?_, ?_, ?_⟩
  · decide +kernel
  · decide +kernel
  · decide

end PromptCode
