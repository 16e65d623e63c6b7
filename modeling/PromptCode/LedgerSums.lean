import PromptCode.StorageLedger
import Mathlib.Data.List.Nodup
import Mathlib.Data.List.Perm.Basic
import Mathlib.Algebra.BigOperators.Group.List.Basic

/-!
# Sums over the rows of the ledger

`workspace` is the primary key of `workspace_usage`, so a mutation of one entry moves a
sum over all rows by what it does to that entry.
-/

namespace PromptCode

open Py

/-! ## Association lists -/

section

variable {β : Type} {l : List (Str × β)} {k : Str}

theorem lookup_eq_none_of_not_mem (h : k ∉ l.map Prod.fst) : l.lookup k = none := by
  rw [List.lookup_eq_none_iff]
  intro e he
  have hne : k ≠ e.1 := fun heq => h (heq ▸ List.mem_map_of_mem he)
  simpa using hne

theorem mem_keys_of_lookup {v : β} (h : l.lookup k = some v) : k ∈ l.map Prod.fst := by
  by_contra hk
  rw [lookup_eq_none_of_not_mem hk] at h
  exact nomatch h

/-- The sum without the entry of one key. -/
theorem sum_filter_ne (hnodup : (l.map Prod.fst).Nodup) (f : β → ℕ) :
    ((l.filter fun e => e.1 ≠ k).map fun e => f e.2).sum + ((l.lookup k).map f).getD 0 =
      (l.map fun e => f e.2).sum := by
  induction l with
  | nil => rfl
  | cons e l ih =>
      obtain ⟨n, x⟩ := e
      rw [List.map_cons, List.nodup_cons] at hnodup
      have hrest := ih hnodup.2
      by_cases hk : n = k
      · subst hk
        rw [lookup_eq_none_of_not_mem hnodup.1, Option.map_none, Option.getD_none] at hrest
        rw [List.filter_cons_of_neg (by simp), List.lookup_cons_self, Option.map_some,
          Option.getD_some, List.map_cons, List.sum_cons, ← hrest]
        exact Nat.add_comm ..
      · have hbeq : (k == n) = false := by simpa using Ne.symm hk
        rw [List.filter_cons_of_pos (by simpa using hk), List.lookup_cons, hbeq]
        simp only [List.map_cons, List.sum_cons]
        omega

theorem lookup_filter_ne {w : Str} (h : w ≠ k) :
    (l.filter fun e => e.1 ≠ k).lookup w = l.lookup w := by
  induction l with
  | nil => rfl
  | cons e l ih =>
      by_cases hk : e.1 = k
      · have hbeq : (w == e.1) = false := by simpa [hk] using h
        rw [List.filter_cons_of_neg (by simpa using hk), ih, List.lookup_cons, hbeq]
      · rw [List.filter_cons_of_pos (by simpa using hk), List.lookup_cons, List.lookup_cons, ih]

/-- Every value is either taken by one of the keys or left. -/
theorem sum_lookup_add_rest {keys : List Str} (hkeys : keys.Nodup) {l : List (Str × ℕ)}
    (hnodup : (l.map Prod.fst).Nodup) :
    (keys.map fun k => (l.lookup k).getD 0).sum +
        ((l.filter fun e => e.1 ∉ keys).map Prod.snd).sum =
      (l.map Prod.snd).sum := by
  induction keys generalizing l with
  | nil => simp
  | cons k keys ih =>
      obtain ⟨hk, hkeys⟩ := List.nodup_cons.mp hkeys
      have hone := sum_filter_ne (k := k) hnodup id
      have hfiltered : ((l.filter fun e => e.1 ≠ k).map Prod.fst).Nodup :=
        hnodup.sublist (List.filter_sublist.map _)
      have hrest := ih hkeys hfiltered
      have hsame : keys.map (fun w => ((l.filter fun e => e.1 ≠ k).lookup w).getD 0) =
          keys.map fun w => (l.lookup w).getD 0 := by
        apply List.map_congr_left
        intro w hw
        rw [lookup_filter_ne (by rintro rfl; exact hk hw)]
      have hboth : (l.filter fun e => e.1 ≠ k).filter (fun e => e.1 ∉ keys) =
          l.filter fun e => e.1 ∉ k :: keys := by
        rw [List.filter_filter]
        apply List.filter_congr
        intro e _
        simp [Bool.and_comm]
      rw [hsame, hboth] at hrest
      have hsnd : ∀ m : List (Str × ℕ), (m.map fun e => id e.2).sum = (m.map Prod.snd).sum :=
        fun _ => rfl
      rw [hsnd, hsnd, Option.map_id, id_eq] at hone
      rw [List.map_cons, List.sum_cons]
      omega

end

namespace Ledger

/-- The primary key holds. -/
def KeysNodup (l : Ledger) : Prop := (l.rows.map Prod.fst).Nodup

/-- A sum over all rows. -/
def rowSum (l : Ledger) (f : UsageRow → ℕ) : ℕ := (l.rows.map fun e => f e.2).sum

section

variable {l : Ledger} {k : Str} {r : UsageRow} (f : UsageRow → ℕ)

theorem map_fst_update (rows : List (Str × UsageRow)) (k : Str) (r : UsageRow) :
    (rows.map fun e => if e.1 = k then (e.1, r) else e).map Prod.fst = rows.map Prod.fst := by
  rw [List.map_map]
  apply List.map_congr_left
  intro e _
  simp only [Function.comp_apply]
  split_ifs <;> rfl

theorem KeysNodup.setRow (h : l.KeysNodup) : (l.setRow k r).KeysNodup := by
  rw [KeysNodup, Ledger.setRow]
  split_ifs with hrow
  · rw [map_fst_update]
    exact h
  · have hnone : l.rows.lookup k = none := Option.not_isSome_iff_eq_none.mp hrow
    simp only [List.map_append, List.map_cons, List.map_nil]
    refine List.nodup_append.mpr ⟨h, by simp, ?_⟩
    intro a ha b hb
    obtain rfl := List.mem_singleton.mp hb
    rintro rfl
    obtain ⟨e, he, rfl⟩ := List.mem_map.mp ha
    exact absurd (List.lookup_eq_none_iff.mp hnone e he) (by simp)

/-- A row that is set replaces what the key had. -/
theorem rowSum_setRow (h : l.KeysNodup) :
    (l.setRow k r).rowSum f + ((l.row k).map f).getD 0 = l.rowSum f + f r := by
  have hnodup : (l.setRow k r).KeysNodup := h.setRow
  have hbefore := sum_filter_ne (k := k) h f
  have hafter := sum_filter_ne (k := k) hnodup f
  have hrow : (l.setRow k r).rows.lookup k = some r := by
    have := row_setRow l k k r
    rwa [if_pos rfl] at this
  have hrest : (l.setRow k r).rows.filter (fun e => e.1 ≠ k) =
      l.rows.filter fun e => e.1 ≠ k := by
    rw [Ledger.setRow]
    split_ifs
    · rw [List.filter_map]
      have hcomp : ((fun e : Str × UsageRow => decide (e.1 ≠ k)) ∘
          fun e => if e.1 = k then (e.1, r) else e) = fun e => decide (e.1 ≠ k) := by
        funext e
        simp only [Function.comp_apply]
        split_ifs with hk <;> simp [hk]
      rw [hcomp]
      conv_rhs => rw [← List.map_id (l.rows.filter fun e => decide (e.1 ≠ k))]
      apply List.map_congr_left
      intro e he
      have hk : e.1 ≠ k := by simpa using (List.mem_filter.mp he).2
      rw [if_neg hk, id_eq]
    · simp
  rw [hrest, hrow, Option.map_some, Option.getD_some] at hafter
  rw [rowSum, rowSum, Ledger.row]
  omega

theorem rowSum_write (h : l.KeysNodup) (entry : Str) (measured files settle : ℕ) :
    (l.write entry measured files settle).rowSum f + ((l.row entry).map f).getD 0 =
      l.rowSum f +
        f ⟨measured, files, ((l.row entry).map UsageRow.reservedBytes).getD 0⟩ := by
  have hrow : ∀ (l : Ledger) a b,
      ({ l with totalBytes := a, reservedBytes := b } : Ledger).rowSum f = l.rowSum f :=
    fun _ _ _ => rfl
  rw [Ledger.write, hrow]
  rcases hentry : l.row entry with _ | r
  · have hset := rowSum_setRow (k := entry) (r := ⟨measured, files, 0⟩) f h
    rw [hentry] at hset
    exact hset
  · have hset := rowSum_setRow (k := entry)
      (r := { r with totalBytes := measured, fileCount := files }) f h
    rw [hentry] at hset
    exact hset

/-- A write keeps the reservations of the rows, also the one that it settles. -/
theorem rowSum_reserved_write (h : l.KeysNodup) (entry : Str) (measured files settle : ℕ) :
    (l.write entry measured files settle).rowSum UsageRow.reservedBytes =
      l.rowSum UsageRow.reservedBytes :=
  Nat.add_right_cancel (rowSum_write UsageRow.reservedBytes h entry measured files settle)

theorem setRow_totals : (l.setRow k r).totalBytes = l.totalBytes ∧
    (l.setRow k r).reservedBytes = l.reservedBytes := by
  rw [Ledger.setRow]
  split_ifs <;> exact ⟨rfl, rfl⟩

theorem write_totals (l : Ledger) (entry : Str) (measured files settle : ℕ) :
    (l.write entry measured files settle).totalBytes =
        l.totalBytes + measured - ((l.row entry).map UsageRow.totalBytes).getD 0 ∧
      (l.write entry measured files settle).reservedBytes = l.reservedBytes - settle := by
  rw [Ledger.write]
  rcases l.row entry with _ | r
  · obtain ⟨htotal, hreserved⟩ := setRow_totals (l := l) (k := entry)
      (r := ⟨measured, files, 0⟩)
    exact ⟨by simp only [htotal, Option.map_none, Option.getD_none], by simp only [hreserved]⟩
  · obtain ⟨htotal, hreserved⟩ := setRow_totals (l := l) (k := entry)
      (r := { r with totalBytes := measured, fileCount := files })
    exact ⟨by simp only [htotal, Option.map_some, Option.getD_some], by simp only [hreserved]⟩

/-- What an admitted reservation has checked and books. -/
structure Reserved (l l' : Ledger) (limits : Limits) (wanted : ℕ) : Prop where
  within : limits.globalBytes ≠ 0 →
    l.totalBytes + l.reservedBytes + wanted ≤ limits.globalBytes
  keys : l.KeysNodup → l'.KeysNodup
  totalBytes : l'.totalBytes = l.totalBytes
  reservedBytes : l'.reservedBytes = l.reservedBytes + wanted
  rowTotal : l.KeysNodup → l'.rowSum UsageRow.totalBytes = l.rowSum UsageRow.totalBytes
  rowReserved : l.KeysNodup →
    l'.rowSum UsageRow.reservedBytes = l.rowSum UsageRow.reservedBytes + wanted

theorem reserve_eq_some {l' : Ledger} {limits : Limits} {wanted wantedFiles free : ℕ}
    (h : l.reserve k limits wanted wantedFiles free = some l') :
    Reserved l l' limits wanted := by
  rw [Ledger.reserve] at h
  dsimp only at h
  split_ifs at h with _ _ hglobal _
  obtain rfl := Option.some.inj h
  have hwithin : limits.globalBytes ≠ 0 →
      l.totalBytes + l.reservedBytes + wanted ≤ limits.globalBytes := by
    intro hne
    exact Nat.le_of_not_lt fun hlt => hglobal ⟨hne, hlt⟩
  rcases hrow : l.row k with _ | r
  · obtain ⟨htotal, hreserved⟩ := setRow_totals (l := l) (k := k) (r := ⟨0, 0, wanted⟩)
    refine ⟨hwithin, fun hkeys => hkeys.setRow, htotal, by simp only [hreserved],
      fun hkeys => ?_, fun hkeys => ?_⟩
    · have hset := rowSum_setRow (k := k) (r := ⟨0, 0, wanted⟩) UsageRow.totalBytes hkeys
      rw [hrow] at hset
      exact hset
    · have hset := rowSum_setRow (k := k) (r := ⟨0, 0, wanted⟩) UsageRow.reservedBytes hkeys
      rw [hrow] at hset
      exact hset
  · obtain ⟨htotal, hreserved⟩ := setRow_totals (l := l) (k := k)
      (r := { r with reservedBytes := r.reservedBytes + wanted })
    refine ⟨hwithin, fun hkeys => hkeys.setRow, htotal, by simp only [hreserved],
      fun hkeys => ?_, fun hkeys => ?_⟩
    · have hset := rowSum_setRow (k := k)
        (r := { r with reservedBytes := r.reservedBytes + wanted }) UsageRow.totalBytes hkeys
      rw [hrow] at hset
      exact Nat.add_right_cancel hset
    · have hset := rowSum_setRow (k := k)
        (r := { r with reservedBytes := r.reservedBytes + wanted }) UsageRow.reservedBytes hkeys
      rw [hrow] at hset
      simp only [Option.map_some, Option.getD_some] at hset
      change (l.setRow k _).rowSum _ = _
      omega

theorem release_totals (l : Ledger) (k : Str) (reserved : ℕ) :
    (l.release k reserved).totalBytes = l.totalBytes ∧
      (l.release k reserved).reservedBytes = l.reservedBytes - reserved := by
  rw [Ledger.release]
  split_ifs with hzero
  · exact ⟨rfl, by rw [hzero, Nat.sub_zero]⟩
  · rcases l.row k with _ | r
    · exact ⟨rfl, rfl⟩
    · obtain ⟨htotal, hreserved⟩ := setRow_totals (l := l) (k := k)
        (r := { r with reservedBytes := r.reservedBytes - reserved })
      exact ⟨htotal, by simp only [hreserved]⟩

/-- A release gives back what the row holds. -/
theorem rowSum_reserved_release (h : l.KeysNodup) (reserved : ℕ)
    (hle : reserved ≤ ((l.row k).map UsageRow.reservedBytes).getD 0) :
    (l.release k reserved).rowSum UsageRow.reservedBytes + reserved =
      l.rowSum UsageRow.reservedBytes := by
  rw [Ledger.release]
  split_ifs with hzero
  · rw [hzero]
    rfl
  · rcases hrow : l.row k with _ | r
    · rw [hrow, Option.map_none, Option.getD_none] at hle
      exact absurd (Nat.le_zero.mp hle) hzero
    · rw [hrow, Option.map_some, Option.getD_some] at hle
      have hset := rowSum_setRow (k := k)
        (r := { r with reservedBytes := r.reservedBytes - reserved }) UsageRow.reservedBytes h
      rw [hrow, Option.map_some, Option.getD_some] at hset
      change (l.setRow k _).rowSum _ + _ = _
      dsimp only at hset
      omega

theorem KeysNodup.write (h : l.KeysNodup) (entry : Str) (measured files settle : ℕ) :
    (l.write entry measured files settle).KeysNodup := by
  rw [Ledger.write]
  rcases l.row entry with _ | r <;> exact h.setRow

theorem KeysNodup.release (h : l.KeysNodup) (reserved : ℕ) :
    (l.release k reserved).KeysNodup := by
  rw [Ledger.release]
  split_ifs
  · exact h
  · rcases l.row k with _ | r
    · exact h
    · exact h.setRow

theorem KeysNodup.forget (h : l.KeysNodup) : (l.forget k).KeysNodup := by
  rw [Ledger.forget]
  split
  · exact h
  · exact h.sublist (List.filter_sublist.map _)

theorem rowSum_forget (h : l.KeysNodup) :
    (l.forget k).rowSum f + ((l.row k).map f).getD 0 = l.rowSum f := by
  rw [Ledger.forget]
  rcases hrow : l.row k with _ | r
  · rfl
  · have hfilter := sum_filter_ne (k := k) h f
    rw [Ledger.row] at hrow
    rw [hrow] at hfilter
    exact hfilter

theorem nodup_reservations (h : l.KeysNodup) : (l.reservations.map Prod.fst).Nodup := by
  have hmap : l.reservations.map Prod.fst =
      (l.rows.filter fun e => decide (0 < e.2.reservedBytes)).map Prod.fst := by
    rw [reservations, List.map_map]
    rfl
  rw [hmap]
  exact h.sublist (List.filter_sublist.map _)

/-- Rows without a reservation do not count. -/
theorem sum_reservations (l : Ledger) :
    (l.reservations.map Prod.snd).sum = l.rowSum UsageRow.reservedBytes := by
  rw [reservations, rowSum, List.map_map]
  induction l.rows with
  | nil => rfl
  | cons e rows ih =>
      by_cases hpos : 0 < e.2.reservedBytes
      · rw [List.filter_cons_of_pos (by simpa using hpos)]
        simp only [List.map_cons, List.sum_cons, ih, Function.comp_apply]
      · rw [List.filter_cons_of_neg (by simpa using hpos), ih]
        simp only [List.map_cons, List.sum_cons]
        omega

theorem KeysNodup.reconcile (h : l.KeysNodup) {measured : List (Str × ℕ × ℕ)}
    (hm : (measured.map Prod.fst).Nodup) : (l.reconcile measured).KeysNodup := by
  simp only [KeysNodup, Ledger.reconcile, List.map_append, List.map_map]
  refine List.nodup_append.mpr ⟨hm, ?_, ?_⟩
  · exact (nodup_reservations h).sublist (List.filter_sublist.map _)
  · intro a ha b hb
    obtain ⟨e, he, rfl⟩ := List.mem_map.mp hb
    rintro rfl
    exact absurd ha (by simpa using (List.mem_filter.mp he).2)

/-- A reconcile keeps all reservations. -/
theorem rowSum_reserved_reconcile (h : l.KeysNodup) {measured : List (Str × ℕ × ℕ)}
    (hm : (measured.map Prod.fst).Nodup) :
    (l.reconcile measured).rowSum UsageRow.reservedBytes = l.rowSum UsageRow.reservedBytes := by
  have hsplit := sum_lookup_add_rest hm (nodup_reservations h)
  rw [sum_reservations] at hsplit
  rw [← hsplit]
  simp only [rowSum, Ledger.reconcile, List.map_append, List.map_map, List.sum_append]
  rfl

theorem reservedBytes_reconcile (l : Ledger) (measured : List (Str × ℕ × ℕ)) :
    (l.reconcile measured).reservedBytes =
      (l.reconcile measured).rowSum UsageRow.reservedBytes := rfl

/-! ## Recorded bytes -/

/-- The bytes that are recorded under a key. -/
def recorded (l : Ledger) (k : Str) : ℕ := ((l.row k).map UsageRow.totalBytes).getD 0

/-- The global row holds the bytes of the rows. -/
structure Totalled (l : Ledger) : Prop where
  keys : l.KeysNodup
  total : l.totalBytes = l.rowSum UsageRow.totalBytes

theorem recorded_le (h : l.KeysNodup) (k : Str) :
    l.recorded k ≤ l.rowSum UsageRow.totalBytes := by
  have hsplit := sum_filter_ne (k := k) h UsageRow.totalBytes
  rw [recorded, Ledger.row, rowSum]
  omega

theorem totalled_empty : Totalled empty := ⟨List.nodup_nil, rfl⟩

theorem recorded_write (l : Ledger) (entry : Str) (measured files settle : ℕ) (k : Str) :
    (l.write entry measured files settle).recorded k =
      if k = entry then measured else l.recorded k := by
  rw [recorded, row_write]
  split_ifs <;> rfl

/-- A write moves the total by what it does to its entry. -/
theorem Totalled.write (h : Totalled l) (entry : Str) (measured files settle : ℕ) :
    Totalled (l.write entry measured files settle) ∧
      (l.write entry measured files settle).totalBytes + l.recorded entry =
        l.totalBytes + measured := by
  have hsum := rowSum_write UsageRow.totalBytes h.keys entry measured files settle
  obtain ⟨htotal, -⟩ := write_totals l entry measured files settle
  have hle := recorded_le h.keys entry
  have heq := h.total
  rw [recorded] at hle ⊢
  refine ⟨⟨h.keys.write .., ?_⟩, ?_⟩
  · dsimp only at hsum
    omega
  · omega

theorem recorded_reserve {l' : Ledger} {limits : Limits} {wanted wantedFiles free : ℕ}
    (h : l.reserve k limits wanted wantedFiles free = some l') (w : Str) :
    l'.recorded w = l.recorded w := by
  have hrow : ∀ (l : Ledger) a, ({ l with reservedBytes := a } : Ledger).recorded w =
      l.recorded w := fun _ _ => rfl
  rw [Ledger.reserve] at h
  dsimp only at h
  split_ifs at h
  obtain rfl := Option.some.inj h
  rcases hentry : l.row k with _ | r <;>
  · rw [hrow, recorded, row_setRow]
    split_ifs with hw
    · rw [hw, recorded, hentry]
      rfl
    · rfl

theorem Totalled.reserve {l' : Ledger} {limits : Limits} {wanted wantedFiles free : ℕ}
    (h : Totalled l) (hreserve : l.reserve k limits wanted wantedFiles free = some l') :
    Totalled l' := by
  have hreserved := reserve_eq_some hreserve
  refine ⟨hreserved.keys h.keys, ?_⟩
  rw [hreserved.totalBytes, hreserved.rowTotal h.keys, h.total]

theorem recorded_release (l : Ledger) (k : Str) (reserved : ℕ) (w : Str) :
    (l.release k reserved).recorded w = l.recorded w := by
  have hrow : ∀ (l : Ledger) a, ({ l with reservedBytes := a } : Ledger).recorded w =
      l.recorded w := fun _ _ => rfl
  rw [Ledger.release]
  split_ifs
  · rfl
  rcases hentry : l.row k with _ | r
  · rfl
  · rw [hrow, recorded, row_setRow]
    split_ifs with hw
    · rw [hw, recorded, hentry]
      rfl
    · rfl

theorem Totalled.release (h : Totalled l) (k : Str) (reserved : ℕ) :
    Totalled (l.release k reserved) := by
  refine ⟨h.keys.release reserved, ?_⟩
  rw [(release_totals l k reserved).1, h.total, Ledger.release]
  split_ifs
  · rfl
  rcases hrow : l.row k with _ | r
  · rfl
  · have hset := rowSum_setRow (k := k)
      (r := { r with reservedBytes := r.reservedBytes - reserved }) UsageRow.totalBytes h.keys
    rw [hrow] at hset
    exact (Nat.add_right_cancel hset).symm

theorem recorded_forget (l : Ledger) (k w : Str) :
    (l.forget k).recorded w = if w = k then 0 else l.recorded w := by
  rw [Ledger.forget]
  rcases hrow : l.row k with _ | r
  · split_ifs with hw
    · rw [hw, recorded, hrow]
      rfl
    · rfl
  · change (((l.rows.filter fun e => e.1 ≠ k).lookup w).map UsageRow.totalBytes).getD 0 = _
    split_ifs with hw
    · subst hw
      rw [lookup_eq_none_of_not_mem]
      · rfl
      · intro hmem
        obtain ⟨e, he, rfl⟩ := List.mem_map.mp hmem
        simpa using (List.mem_filter.mp he).2
    · rw [lookup_filter_ne hw]
      rfl

theorem Totalled.forget (h : Totalled l) (k : Str) :
    Totalled (l.forget k) ∧ (l.forget k).totalBytes + l.recorded k = l.totalBytes := by
  have hsum := rowSum_forget (k := k) UsageRow.totalBytes h.keys
  have hle := recorded_le h.keys k
  have heq := h.total
  have htotal : (l.forget k).totalBytes = l.totalBytes - l.recorded k := by
    rw [Ledger.forget, recorded]
    rcases l.row k with _ | r <;> rfl
  rw [← recorded] at hsum
  exact ⟨⟨h.keys.forget, by omega⟩, by omega⟩

theorem recorded_reconcile (l : Ledger) (measured : List (Str × ℕ × ℕ)) (k : Str) :
    (l.reconcile measured).recorded k = ((measured.lookup k).map Prod.fst).getD 0 := by
  have hmeasured := lookup_map_snd (fun n (m : ℕ × ℕ) =>
    (⟨m.1, m.2, (l.reservations.lookup n).getD 0⟩ : UsageRow)) measured k
  have hleft := lookup_map_snd (fun _ b => (⟨0, 0, b⟩ : UsageRow))
    (l.reservations.filter fun e => decide (e.1 ∉ measured.map Prod.fst)) k
  simp only [recorded, Ledger.reconcile, row, List.lookup_append]
  rw [hmeasured, hleft]
  rcases measured.lookup k with _ | m
  · have hzero : ∀ o : Option ℕ, ((o.map fun b => (⟨0, 0, b⟩ : UsageRow)).map
        UsageRow.totalBytes).getD 0 = 0 := by
      rintro (_ | b) <;> rfl
    exact hzero _
  · rfl

theorem Totalled.reconcile (h : Totalled l) {measured : List (Str × ℕ × ℕ)}
    (hm : (measured.map Prod.fst).Nodup) : Totalled (l.reconcile measured) := by
  refine ⟨h.keys.reconcile hm, ?_⟩
  simp only [rowSum, Ledger.reconcile, List.map_append, List.map_map, List.sum_append]
  have hzero : ((l.reservations.filter fun e => decide (e.1 ∉ measured.map Prod.fst)).map
      ((fun e : Str × UsageRow => e.2.totalBytes) ∘
        fun e => (e.1, (⟨0, 0, e.2⟩ : UsageRow)))).sum = 0 := by
    rw [List.sum_eq_zero_iff]
    intro n hn
    obtain ⟨e, -, rfl⟩ := List.mem_map.mp hn
    rfl
  rw [hzero]
  rfl

end

end Ledger

end PromptCode
