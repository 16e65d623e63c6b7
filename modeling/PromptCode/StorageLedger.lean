import PromptCode.Py.Str

/-!
# The storage ledger

`storage_ledger.py` keeps one row for each retained artifact and a global row.
Every mutation is one transaction, so each is a function on the whole ledger.
-/

namespace PromptCode

open Py

/-- A row of `workspace_usage`. -/
structure UsageRow where
  totalBytes : ℕ
  fileCount : ℕ
  reservedBytes : ℕ
deriving DecidableEq

/-- The tables `workspace_usage` and `global_usage`. -/
structure Ledger where
  rows : List (Str × UsageRow)
  totalBytes : ℕ
  reservedBytes : ℕ
deriving DecidableEq

/-- `WorkspaceUsage`. -/
structure WorkspaceUsage where
  bytes : ℕ
  files : ℕ
deriving DecidableEq

namespace Ledger

def empty : Ledger where
  rows := []
  totalBytes := 0
  reservedBytes := 0

def row (l : Ledger) (workspace : Str) : Option UsageRow :=
  l.rows.lookup workspace

/-- `UPDATE` of an existing row, else `INSERT`. -/
def setRow (l : Ledger) (workspace : Str) (r : UsageRow) : Ledger :=
  if (l.row workspace).isSome then
    { l with rows := l.rows.map fun e => if e.1 = workspace then (e.1, r) else e }
  else { l with rows := l.rows ++ [(workspace, r)] }

def workspaceUsage (l : Ledger) (workspace : Str) : Option WorkspaceUsage :=
  (l.row workspace).map fun r =>
    { bytes := r.totalBytes + r.reservedBytes, files := r.fileCount }

/-- The limits one `reserve` call is given. -/
structure Limits where
  workspaceBytes : ℕ
  workspaceFiles : ℕ
  globalBytes : ℕ
  minFreeBytes : ℕ

/-- `reserve`; `none` is `InsufficientStorage`. -/
def reserve (l : Ledger) (key : Str) (limits : Limits)
    (wanted wantedFiles freeDiskBytes : ℕ) : Option Ledger :=
  let r := l.row key
  let used := (r.map fun r => r.totalBytes + r.reservedBytes).getD 0
  let usedFiles := (r.map fun r => r.fileCount).getD 0
  if limits.workspaceBytes ≠ 0 ∧ limits.workspaceBytes < used + wanted then none
  else if limits.workspaceFiles ≠ 0 ∧
      limits.workspaceFiles < usedFiles + wantedFiles then none
  else if limits.globalBytes ≠ 0 ∧
      limits.globalBytes < l.totalBytes + l.reservedBytes + wanted then none
  else if freeDiskBytes < limits.minFreeBytes + wanted then none
  else
    let l' := match r with
      | some r => l.setRow key { r with reservedBytes := r.reservedBytes + wanted }
      | none => l.setRow key
          { totalBytes := 0, fileCount := 0, reservedBytes := wanted }
    some { l' with reservedBytes := l'.reservedBytes + wanted }

/-- `_settle_reservation`, reached through `release`. -/
def release (l : Ledger) (key : Str) (reserved : ℕ) : Ledger :=
  if reserved = 0 then l
  else
    let l' := match l.row key with
      | some r => l.setRow key { r with reservedBytes := r.reservedBytes - reserved }
      | none => l
    { l' with reservedBytes := l'.reservedBytes - reserved }

/-- `write`: record one measured entry and settle a reservation. -/
def write (l : Ledger) (entry : Str) (measured files settle : ℕ) : Ledger :=
  let r := l.row entry
  let previous := (r.map fun r => r.totalBytes).getD 0
  let l' := match r with
    | some r => l.setRow entry { r with totalBytes := measured, fileCount := files }
    | none => l.setRow entry
        { totalBytes := measured, fileCount := files, reservedBytes := 0 }
  { l' with
    totalBytes := l'.totalBytes + measured - previous
    reservedBytes := l'.reservedBytes - settle }

/-- `forget`: remove an entry with its bytes and any reservation. -/
def forget (l : Ledger) (key : Str) : Ledger :=
  match l.row key with
  | none => l
  | some r =>
      { rows := l.rows.filter fun e => e.1 ≠ key
        totalBytes := l.totalBytes - r.totalBytes
        reservedBytes := l.reservedBytes - r.reservedBytes }

/-- The reservations of the rows that hold any. -/
def reservations (l : Ledger) : List (Str × ℕ) :=
  (l.rows.filter fun e => decide (0 < e.2.reservedBytes)).map
    fun e => (e.1, e.2.reservedBytes)

/-- `reconcile`: the rows become the measured entries, with the outstanding
reservations kept. -/
def reconcile (l : Ledger) (measured : List (Str × ℕ × ℕ)) : Ledger :=
  let reservations := l.reservations
  let measuredRows := measured.map fun m =>
    (m.1, ({ totalBytes := m.2.1, fileCount := m.2.2,
             reservedBytes := (reservations.lookup m.1).getD 0 } : UsageRow))
  let leftRows := (reservations.filter
    fun e => decide (e.1 ∉ measured.map Prod.fst)).map fun e =>
      (e.1, ({ totalBytes := 0, fileCount := 0, reservedBytes := e.2 } : UsageRow))
  let rows := measuredRows ++ leftRows
  { rows := rows
    totalBytes := (measured.map fun m => m.2.1).sum
    reservedBytes := (rows.map fun e => e.2.reservedBytes).sum }

/-! ## Rows after a mutation -/

theorem lookup_map_update (rows : List (Str × UsageRow)) (k w : Str)
    (r : UsageRow) :
    (rows.map fun e => if e.1 = w then (e.1, r) else e).lookup k =
      if k = w then (rows.lookup k).map fun _ => r else rows.lookup k := by
  induction rows with
  | nil => simp
  | cons e rows ih =>
      obtain ⟨n, x⟩ := e
      by_cases hk : k = n
      · subst hk
        by_cases hw : k = w <;> simp [hw]
      · have hbeq : (k == n) = false := by simpa using hk
        by_cases hn : n = w
        · simp [hn, List.lookup_cons, ih, show (k == w) = false by simpa [hn] using hk]
        · simp [hn, List.lookup_cons, ih, hbeq]

theorem row_setRow (l : Ledger) (w k : Str) (r : UsageRow) :
    (l.setRow w r).row k = if k = w then some r else l.row k := by
  unfold setRow
  by_cases hsome : (l.row w).isSome
  · rw [if_pos hsome]
    simp only [row, lookup_map_update]
    by_cases hk : k = w
    · subst hk
      obtain ⟨x, hx⟩ := Option.isSome_iff_exists.mp hsome
      simp only [row] at hx
      simp [hx]
    · simp [hk]
  · rw [if_neg hsome]
    have hnone : l.rows.lookup w = none :=
      Option.not_isSome_iff_eq_none.mp hsome
    simp only [row, List.lookup_append]
    by_cases hk : k = w
    · subst hk
      simp [hnone]
    · have hbeq : (k == w) = false := by simpa using hk
      simp [hk, List.lookup_cons, hbeq]

theorem row_write (l : Ledger) (entry k : Str) (measured files settle : ℕ) :
    (l.write entry measured files settle).row k =
      if k = entry then
        some { totalBytes := measured, fileCount := files,
               reservedBytes := ((l.row entry).map (·.reservedBytes)).getD 0 }
      else l.row k := by
  have hrow : ∀ l' : Ledger, ∀ a b : ℕ,
      ({ l' with totalBytes := a, reservedBytes := b } : Ledger).row k = l'.row k :=
    fun _ _ _ => rfl
  simp only [write, hrow]
  cases h : l.row entry with
  | none => simp [row_setRow]
  | some r => simp [row_setRow]

theorem row_reserve {l l' : Ledger} {key k : Str} {limits : Limits}
    {wanted wantedFiles free : ℕ}
    (h : l.reserve key limits wanted wantedFiles free = some l') (hk : k ≠ key) :
    l'.row k = l.row k := by
  have hrow : ∀ l' : Ledger, ∀ a : ℕ,
      ({ l' with reservedBytes := a } : Ledger).row k = l'.row k := fun _ _ => rfl
  unfold reserve at h
  dsimp only at h
  split_ifs at h
  obtain rfl := Option.some.inj h
  rw [hrow]
  cases l.row key with
  | none | some r => rw [row_setRow, if_neg hk]

theorem row_release (l : Ledger) {key k : Str} (reserved : ℕ) (hk : k ≠ key) :
    (l.release key reserved).row k = l.row k := by
  have hrow : ∀ l' : Ledger, ∀ a : ℕ,
      ({ l' with reservedBytes := a } : Ledger).row k = l'.row k := fun _ _ => rfl
  unfold release
  split_ifs
  · rfl
  · dsimp only
    rw [hrow]
    cases l.row key with
    | none => rfl
    | some r => rw [row_setRow, if_neg hk]

theorem lookup_map_snd {β γ : Type} (g : Str → β → γ) (l : List (Str × β))
    (k : Str) :
    (l.map fun e => (e.1, g e.1 e.2)).lookup k = (l.lookup k).map (g k) := by
  induction l with
  | nil => rfl
  | cons e l ih =>
      rw [List.map_cons, List.lookup_cons, List.lookup_cons, ih]
      by_cases hk : k = e.1
      · simp [hk]
      · simp [show (k == e.1) = false by simpa using hk]

/-- No reservation is held under a key. -/
def Unreserved (l : Ledger) (k : Str) : Prop :=
  ∀ e ∈ l.rows, e.1 = k → e.2.reservedBytes = 0

theorem unreserved_setRow {l : Ledger} {k w : Str} {r : UsageRow}
    (h : l.Unreserved k) (hr : w = k → r.reservedBytes = 0) :
    (l.setRow w r).Unreserved k := by
  unfold setRow
  split_ifs
  · intro e he hek
    obtain ⟨e₀, he₀, rfl⟩ := List.mem_map.mp he
    split_ifs at hek ⊢ with hw
    · exact hr (hw.symm.trans hek)
    · exact h e₀ he₀ hek
  · intro e he hek
    rcases List.mem_append.mp he with he | he
    · exact h e he hek
    · obtain rfl := List.mem_singleton.mp he
      exact hr hek

theorem mem_rows_of_row {l : Ledger} {k : Str} {r : UsageRow}
    (h : l.row k = some r) : (k, r) ∈ l.rows := by
  obtain ⟨l₁, l₂, hsplit, -⟩ := List.lookup_eq_some_iff.mp h
  simp [hsplit]

theorem Unreserved.write {l : Ledger} {k : Str} (h : l.Unreserved k)
    (entry : Str) (measured files settle : ℕ) :
    (l.write entry measured files settle).Unreserved k := by
  unfold Ledger.write
  dsimp only
  cases hrow : l.row entry with
  | none => exact unreserved_setRow h fun _ => rfl
  | some r =>
      exact unreserved_setRow h fun heq => h _ (mem_rows_of_row hrow) heq

theorem Unreserved.reserve {l l' : Ledger} {key k : Str} {limits : Limits}
    {wanted wantedFiles free : ℕ} (hl : l.Unreserved k)
    (h : l.reserve key limits wanted wantedFiles free = some l') (hk : k ≠ key) :
    l'.Unreserved k := by
  unfold Ledger.reserve at h
  dsimp only at h
  split_ifs at h
  obtain rfl := Option.some.inj h
  cases l.row key with
  | none | some r => exact unreserved_setRow hl fun heq => absurd heq.symm hk

theorem Unreserved.release {l : Ledger} {key k : Str} (hl : l.Unreserved k)
    (reserved : ℕ) (hk : k ≠ key) : (l.release key reserved).Unreserved k := by
  unfold Ledger.release
  split_ifs
  · exact hl
  · cases l.row key with
    | none => exact hl
    | some r => exact unreserved_setRow hl fun heq => absurd heq.symm hk

theorem Unreserved.lookup_reservations {l : Ledger} {k : Str}
    (h : l.Unreserved k) (q : Str × ℕ → Bool) :
    (l.reservations.filter q).lookup k = none := by
  rw [List.lookup_eq_none_iff]
  intro e he
  obtain ⟨r, hr, rfl⟩ := List.mem_map.mp (List.mem_filter.mp he).1
  obtain ⟨hmem, hpos⟩ := List.mem_filter.mp hr
  have hne : r.1 ≠ k := fun heq => by
    simp [h r hmem heq] at hpos
  simpa using Ne.symm hne

theorem Unreserved.reconcile {l : Ledger} {k : Str} (h : l.Unreserved k)
    (measured : List (Str × ℕ × ℕ)) : (l.reconcile measured).Unreserved k := by
  intro e he hek
  have hnone := h.lookup_reservations
  rcases List.mem_append.mp he with he | he
  · obtain ⟨m, -, rfl⟩ := List.mem_map.mp he
    have := hnone fun _ => true
    simp only [List.filter_true] at this
    simp only at hek
    simp [hek, this]
  · obtain ⟨r, hr, rfl⟩ := List.mem_map.mp he
    have hlookup := List.lookup_eq_none_iff.mp (hnone _) r hr
    simp only at hek
    simp [hek] at hlookup

/-- A row without a reservation becomes what was measured, or goes. -/
theorem row_reconcile {l : Ledger} {k : Str} (h : l.Unreserved k)
    (measured : List (Str × ℕ × ℕ)) :
    (l.reconcile measured).row k = (measured.lookup k).map fun m =>
      ⟨m.1, m.2, 0⟩ := by
  have hnone := h.lookup_reservations
  have hres : l.reservations.lookup k = none := by
    simpa using hnone fun _ => true
  have hmeasured := lookup_map_snd (fun n (m : ℕ × ℕ) =>
    (⟨m.1, m.2, (l.reservations.lookup n).getD 0⟩ : UsageRow)) measured k
  have hleft := lookup_map_snd (fun _ b => (⟨0, 0, b⟩ : UsageRow))
    (l.reservations.filter fun e => decide (e.1 ∉ measured.map Prod.fst)) k
  rw [hnone] at hleft
  rw [hres] at hmeasured
  simp only [Ledger.reconcile, row, List.lookup_append]
  rw [hmeasured, hleft]
  simp

end Ledger

end PromptCode
