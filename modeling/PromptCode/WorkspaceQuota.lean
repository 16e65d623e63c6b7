import PromptCode.FileTree.Names
import PromptCode.Py.Err
import PromptCode.Py.Path
import PromptCode.Py.Utf8
import PromptCode.StorageLedger

/-!
# Source quota of a workspace

`workspace_quota.py` measures one workspace on disk and admits an upload by the
ledger's entry for it.  The ledger is measured again as a whole by
`refresh_ledger`, in two steps: first the walk, then the transaction that stores
what the walk found.
-/

namespace PromptCode

open Py FileTree

/-- A directory tree on a host: names are strings, files are bytes. -/
abbrev Tree := Dir Str Bytes

/-- What every directory satisfies: entries in name order, each name one that a
directory can hold. -/
structure ValidTree (t : Tree) : Prop where
  sorted : t.Sorted
  names : t.AllNames IsComponent

instance : DecidablePred ValidTree := fun t =>
  decidable_of_iff (t.Sorted ∧ t.AllNames IsComponent)
    ⟨fun h => ⟨h.1, h.2⟩, fun h => ⟨h.sorted, h.names⟩⟩

theorem ValidTree.write {t t' : Tree} (ht : ValidTree t) {p : List Str}
    {b : Bytes} (hp : ∀ n ∈ p, IsComponent n) (h : t.write p b = some t') :
    ValidTree t' :=
  ⟨ht.sorted.write h, ht.names.write hp h⟩

theorem validTree_nil : ValidTree Dir.nil := ⟨trivial, trivial⟩

def sourceBytes : ℕ := 20 * 1024 * 1024

def sourceFileLimit : ℕ := 1000

def dependencyDirs : List Str := [lit "node_modules", lit ".venv", lit "venv"]

def ledgerName : Str := lit ".storage-ledger.db"

def capacityMessage : String :=
  "Interview storage capacity reached. Please try again later."

def reservationKey : Str := lit ".reservations"

/-! ## Measuring -/

/-- `stat().st_size` of an entry that is not a link or a directory. -/
def nodeSize : Node Str Bytes → ℕ
  | .file b => b.length
  | _ => 0

def isLink : Node Str Bytes → Bool
  | .link _ => true
  | _ => false

def isDependencyDir (name : Str) : Bool := decide (name ∈ dependencyDirs)

/-- The entries `measure_workspace` counts: no links, nothing below a
dependency directory, and not the ledger database at the root. -/
def countedEntries (root : Tree) : List (List Str × Node Str Bytes) :=
  (root.walkPaths fun n => !isDependencyDir n).filter
    fun e => !isLink e.2 && !decide (e.1 = [ledgerName])

def measureWorkspace (root : Tree) : ℕ × ℕ :=
  (((countedEntries root).map fun e => nodeSize e.2).sum,
    (countedEntries root).length)

/-- What `ledger.measure` counts of one artifact: dependency directories are
not left out. -/
def measureEntry (root : Tree) : ℕ × ℕ :=
  let counted := (root.walkPaths fun _ => true).filter fun e => !isLink e.2
  ((counted.map fun e => nodeSize e.2).sum, counted.length)

/-- `ledger.measure`: the artifacts of a storage root, by name. -/
def measure (artifacts : List (Str × Tree)) : List (Str × ℕ × ℕ) :=
  artifacts.map fun a => (a.1, measureEntry a.2)

/-! ## Measuring after a write -/

theorem mem_countedEntries_iff {t : Tree} (ht : t.Sorted)
    {e : List Str × Node Str Bytes} :
    e ∈ countedEntries t ↔
      Dir.OnWalk (fun n => !isDependencyDir n) t e.1 e.2 ∧ isLink e.2 = false ∧
        e.1 ≠ [ledgerName] := by
  rw [countedEntries, List.mem_filter, Dir.mem_walkPaths_iff ht]
  simp

theorem countedEntries_nodup {t : Tree} (ht : t.Sorted) :
    ((countedEntries t).map Prod.fst).Nodup :=
  (Dir.walkPaths_nodup _ ht).sublist (List.filter_sublist.map _)

theorem perm_cons_filter_of_mem {α β : Type} [DecidableEq α] {l : List (α × β)}
    (hnodup : (l.map Prod.fst).Nodup) {p : α} {x : β} (h : (p, x) ∈ l) :
    l.Perm ((p, x) :: l.filter fun e => e.1 ≠ p) := by
  induction l with
  | nil => simp at h
  | cons e l ih =>
      rw [List.map_cons, List.nodup_cons] at hnodup
      rcases List.mem_cons.mp h with rfl | h
      · have hrest : l.filter (fun e => e.1 ≠ p) = l :=
          List.filter_eq_self.mpr fun e he => by
            have : e.1 ≠ p := fun heq =>
              hnodup.1 (List.mem_map.mpr ⟨e, he, heq⟩)
            simpa using this
        rw [List.filter_cons_of_neg (by simp), hrest]
      · have hne : e.1 ≠ p := fun heq =>
          hnodup.1 (List.mem_map.mpr ⟨(p, x), h, heq.symm⟩)
        rw [List.filter_cons_of_pos (by simpa using hne)]
        exact ((ih hnodup.2 h).cons e).trans (List.Perm.swap _ _ _)

/-- The entries counted after a write to a counted place. -/
theorem countedEntries_write_perm {t t' : Tree} (ht : t.Sorted) {p : List Str}
    {b : Bytes} (h : t.write p b = some t') (hledger : p ≠ [ledgerName])
    (hkeep : ∀ n ∈ p.dropLast, isDependencyDir n = false) :
    (countedEntries t').Perm
      ((p, .file b) :: (countedEntries t).filter fun e => e.1 ≠ p) := by
  have hperm := (Dir.walkPaths_write_perm (fun n => !isDependencyDir n) ht h
    (fun n hn => by simp [hkeep n hn])).filter
      fun e => !isLink e.2 && !decide (e.1 = [ledgerName])
  rw [List.filter_cons_of_pos (by simp [isLink, hledger]), List.filter_comm] at hperm
  unfold countedEntries
  convert hperm

/-- What a write does to the measurement: nothing below a dependency directory,
else it puts the new file in the place of an older one. -/
theorem measureWorkspace_write {t t' : Tree} (ht : t.Sorted) {p : List Str}
    {b : Bytes} (h : t.write p b = some t') (hledger : p ≠ [ledgerName]) :
    measureWorkspace t' = measureWorkspace t ∨
      ((measureWorkspace t').1 + ((t.fileAt p).getD []).length =
          (measureWorkspace t).1 + b.length ∧
        (measureWorkspace t').2 =
          (measureWorkspace t).2 + if (t.fileAt p).isSome then 0 else 1) := by
  by_cases hkeep : ∀ n ∈ p.dropLast, isDependencyDir n = false
  · refine Or.inr ?_
    have hperm := countedEntries_write_perm ht h hledger hkeep
    simp only [measureWorkspace, (hperm.map _).sum_eq, hperm.length_eq, List.map_cons,
      List.sum_cons, List.length_cons, nodeSize]
    cases hold : t.fileAt p with
    | none =>
        have hall : (countedEntries t).filter (fun e => e.1 ≠ p) =
            countedEntries t := by
          refine List.filter_eq_self.mpr fun e he => ?_
          have hwalk := ((mem_countedEntries_iff ht).mp he).1
          have hne : e.1 ≠ p := by
            rintro rfl
            rcases (Dir.writable_of_write h).place with hnone | ⟨c, hfile⟩
            · rw [hwalk.2.1] at hnone
              simp at hnone
            · rw [Dir.fileAt_eq_some_iff.mpr hfile] at hold
              simp at hold
          simpa using hne
        rw [hall]
        simp [add_comm]
    | some c =>
        have hmem : (p, Node.file c) ∈ countedEntries t :=
          (mem_countedEntries_iff ht).mpr
            ⟨⟨(Dir.writable_of_write h).ne_nil, Dir.fileAt_eq_some_iff.mp hold, rfl,
              fun n hn => by simp [hkeep n hn]⟩, rfl, hledger⟩
        have hsplit := perm_cons_filter_of_mem (countedEntries_nodup ht) hmem
        have hsum := (hsplit.map fun e => nodeSize e.2).sum_eq
        have hlen := hsplit.length_eq
        simp only [List.map_cons, List.sum_cons, List.length_cons, nodeSize] at hsum hlen
        simp only [Option.getD_some, Option.isSome_some, if_true]
        omega
  · push Not at hkeep
    obtain ⟨n, hn, hdep⟩ := hkeep
    have hperm := (Dir.walkPaths_write_perm_of_skip
      (fun n => !isDependencyDir n) ht h hn (by simpa using hdep)).filter
        fun e => !isLink e.2 && !decide (e.1 = [ledgerName])
    refine Or.inl ?_
    have hsum := (hperm.map fun e => nodeSize e.2).sum_eq
    have hlen := hperm.length_eq
    simp only [measureWorkspace, countedEntries, hsum, hlen]

/-! ## Admission -/

/-- `check_upload`: the source quota, by the ledger's entry.  A workspace the
ledger does not know is measured and recorded first. -/
def checkUpload (l : Ledger) (key : Str) (root : Tree) (path : List Str)
    (contentBytes : ℕ) : Except PyErr Unit × Ledger :=
  let exists_ := (root.fileAt path).isSome
  let oldSize := ((root.fileAt path).getD []).length
  let known := l.workspaceUsage key
  let fresh := measureWorkspace root
  let l' := if known.isSome then l else l.write key fresh.1 fresh.2 0
  let used := known.getD { bytes := fresh.1, files := fresh.2 }
  if (used.bytes : ℤ) - oldSize + contentBytes > sourceBytes ∨
      used.files + (if exists_ then 0 else 1) > sourceFileLimit then
    (.error (.value "Session source quota exceeded"), l')
  else (.ok (), l')

/-- The settings `storage_capacity` reads and the free space of the disk. -/
structure Capacity where
  storageMaxBytes : ℕ
  storageMinFreeBytes : ℕ
  freeDiskBytes : ℕ

/-- `storage_capacity` on entry: reserve, or HTTP 507. -/
def reserveCapacity (cap : Capacity) (l : Ledger) (additionalBytes : ℕ) :
    Except PyErr Ledger :=
  match l.reserve reservationKey
      { workspaceBytes := 0, workspaceFiles := 0,
        globalBytes := cap.storageMaxBytes,
        minFreeBytes := cap.storageMinFreeBytes }
      additionalBytes 0 cap.freeDiskBytes with
  | some l' => .ok l'
  | none => .error (.http 507 capacityMessage)

/-! ## Rows under admission -/

/-- The ledger after `check_upload`: a workspace it did not know is recorded. -/
theorem checkUpload_ledger (l : Ledger) (key : Str) (root : Tree)
    (path : List Str) (n : ℕ) :
    (checkUpload l key root path n).2 =
      if (l.workspaceUsage key).isSome then l
      else l.write key (measureWorkspace root).1 (measureWorkspace root).2 0 := by
  unfold checkUpload
  dsimp only
  split_ifs <;> rfl

theorem row_checkUpload (l : Ledger) (key k : Str) (root : Tree)
    (path : List Str) (n : ℕ) (hk : k ≠ key) :
    (checkUpload l key root path n).2.row k = l.row k := by
  rw [checkUpload_ledger]
  split_ifs
  · rfl
  · rw [Ledger.row_write, if_neg hk]

/-- The ledger's entry for a workspace, if it has one, is no smaller than the
workspace. -/
def Covers (l : Ledger) (key : Str) (root : Tree) : Prop :=
  ∀ r, l.row key = some r →
    (measureWorkspace root).1 ≤ r.totalBytes ∧ (measureWorkspace root).2 ≤ r.fileCount

/-- What `check_upload` and the walk of a freeze both bound. -/
structure WithinQuota (root : Tree) : Prop where
  bytes : (measureWorkspace root).1 ≤ sourceBytes
  files : (measureWorkspace root).2 ≤ sourceFileLimit

section Covers

variable {l l' : Ledger} {key : Str} {root root' : Tree} {path : List Str}

theorem Covers.of_row_eq (h : Covers l key root) (hrow : l'.row key = l.row key) :
    Covers l' key root := fun r hr => h r (hrow ▸ hr)

theorem covers_write (l : Ledger) (key : Str) (root : Tree) (n : ℕ) :
    Covers (l.write key (measureWorkspace root).1 (measureWorkspace root).2 n) key
      root := by
  intro r hr
  rw [Ledger.row_write, if_pos rfl] at hr
  obtain rfl := Option.some.inj hr
  exact ⟨le_rfl, le_rfl⟩

theorem Covers.checkUpload (h : Covers l key root) (path : List Str) (n : ℕ) :
    Covers (PromptCode.checkUpload l key root path n).2 key root := by
  rw [checkUpload_ledger]
  split_ifs
  · exact h
  · exact covers_write l key root 0

theorem Covers.reconcile {measured : List (Str × ℕ × ℕ)} (hl : l.Unreserved key)
    (h : ∀ b f, measured.lookup key = some (b, f) →
      (measureWorkspace root).1 ≤ b ∧ (measureWorkspace root).2 ≤ f) :
    Covers (l.reconcile measured) key root := by
  intro r hr
  rw [Ledger.row_reconcile hl] at hr
  obtain ⟨m, hm, rfl⟩ := Option.map_eq_some_iff.mp hr
  exact h m.1 m.2 hm

theorem unreserved_checkUpload (h : l.Unreserved key) (path : List Str) (n : ℕ) :
    (PromptCode.checkUpload l key root path n).2.Unreserved key := by
  rw [checkUpload_ledger]
  split_ifs
  · exact h
  · exact Ledger.Unreserved.write h _ _ _ _

/-- An admitted upload leaves room for itself in the workspace as it is. -/
theorem checkUpload_ok {n : ℕ} (hcov : Covers l key root)
    (h : (PromptCode.checkUpload l key root path n).1 = .ok ()) :
    (measureWorkspace root).1 + n ≤
        sourceBytes + ((root.fileAt path).getD []).length ∧
      (measureWorkspace root).2 + (if (root.fileAt path).isSome then 0 else 1) ≤
        sourceFileLimit := by
  have hknown : (measureWorkspace root).1 ≤ ((l.workspaceUsage key).getD
      ⟨(measureWorkspace root).1, (measureWorkspace root).2⟩).bytes ∧
      (measureWorkspace root).2 ≤ ((l.workspaceUsage key).getD
        ⟨(measureWorkspace root).1, (measureWorkspace root).2⟩).files := by
    unfold Ledger.workspaceUsage
    cases hrow : l.row key with
    | none => simp
    | some r =>
        obtain ⟨hb, hf⟩ := hcov r hrow
        exact ⟨le_trans hb (Nat.le_add_right _ _), hf⟩
  unfold PromptCode.checkUpload at h
  dsimp only at h
  generalize (l.workspaceUsage key).getD
    ⟨(measureWorkspace root).1, (measureWorkspace root).2⟩ = used at h hknown
  by_cases hover : (used.bytes : ℤ) - ((root.fileAt path).getD []).length + n >
      sourceBytes ∨
    used.files + (if (root.fileAt path).isSome then 0 else 1) > sourceFileLimit
  · simp [hover] at h
  · push Not at hover
    obtain ⟨hbytes, hfiles⟩ := hover
    exact ⟨by omega, by omega⟩

/-- A write that was admitted keeps the workspace within the quota. -/
theorem WithinQuota.write (hroot : WithinQuota root) (hsorted : root.Sorted)
    {b : Bytes} (hwrite : root.write path b = some root')
    (hledger : path ≠ [ledgerName])
    (hroom : (measureWorkspace root).1 + b.length ≤
        sourceBytes + ((root.fileAt path).getD []).length ∧
      (measureWorkspace root).2 + (if (root.fileAt path).isSome then 0 else 1) ≤
        sourceFileLimit) : WithinQuota root' := by
  rcases measureWorkspace_write hsorted hwrite hledger with hsame | ⟨hbytes, hfiles⟩
  · exact ⟨hsame ▸ hroot.bytes, hsame ▸ hroot.files⟩
  · exact ⟨by omega, by omega⟩

end Covers

end PromptCode
