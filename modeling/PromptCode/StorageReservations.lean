import PromptCode.LedgerSums
import PromptCode.Transition
import PromptCode.WorkspaceQuota

/-!
# Reservations of storage

The bodies of `storage_capacity` in flight beside the ledger, with each ledger call one
step.  A body that records something, or returns without, settles its reservation in the
global row only.
-/

namespace PromptCode

open Py Transition

/-- A body of `storage_capacity` that has not ended. -/
structure StorageBody where
  reservation : ℕ
  committed : Bool
  deriving DecidableEq

structure StorageHost where
  ledger : Ledger
  bodies : List StorageBody

inductive StorageAction where
  | enter (cap : Capacity) (additionalBytes : ℤ)
  | commit (body : StorageBody) (entry : Str) (totalBytes fileCount : ℤ)
  /-- The body ends without an exception. -/
  | leave (body : StorageBody)
  | throw (body : StorageBody)
  | write (entry : Str) (totalBytes fileCount : ℤ)
  | forget (artifact : Str)
  | reconcile (measured : List (Str × ℕ × ℕ))

namespace StorageHost

def start : StorageHost := ⟨Ledger.empty, []⟩

variable (h : StorageHost)

def enter (cap : Capacity) (additionalBytes : ℤ) : StorageHost :=
  match reserveCapacity cap h.ledger additionalBytes.toNat with
  | .error _ => h
  | .ok ledger => ⟨ledger, ⟨additionalBytes.toNat, false⟩ :: h.bodies⟩

/-- The callable that the body is given. -/
def commit (body : StorageBody) (entry : Str) (totalBytes fileCount : ℤ) : StorageHost where
  ledger := h.ledger.write entry totalBytes.toNat fileCount.toNat body.reservation
  bodies := { body with committed := true } :: h.bodies.erase body

def leave (body : StorageBody) : StorageHost where
  ledger :=
    if body.committed then h.ledger
    else h.ledger.write reservationKey body.reservation 0 body.reservation
  bodies := h.bodies.erase body

def throw (body : StorageBody) : StorageHost where
  ledger :=
    if body.committed then h.ledger else h.ledger.release reservationKey body.reservation
  bodies := h.bodies.erase body

end StorageHost

/-- An artifact is not named like the key of the reservations, and what a reconcile has
measured is a dictionary. -/
def storageAct (h : StorageHost) : StorageAction → StorageHost
  | .enter cap additionalBytes => h.enter cap additionalBytes
  | .commit body entry totalBytes fileCount =>
      if body ∈ h.bodies ∧ body.committed = false then
        h.commit body entry totalBytes fileCount
      else h
  | .leave body => if body ∈ h.bodies then h.leave body else h
  | .throw body => if body ∈ h.bodies then h.throw body else h
  | .write entry totalBytes fileCount =>
      { h with ledger := h.ledger.write entry totalBytes.toNat fileCount.toNat 0 }
  | .forget artifact =>
      if artifact = reservationKey then h else { h with ledger := h.ledger.forget artifact }
  | .reconcile measured =>
      if (measured.map Prod.fst).Nodup then { h with ledger := h.ledger.reconcile measured }
      else h

/-- What a body still holds. -/
def StorageBody.outstanding (body : StorageBody) : ℕ :=
  if body.committed then 0 else body.reservation

/-- The reservations that are still outstanding. -/
def outstanding (bodies : List StorageBody) : ℕ := (bodies.map StorageBody.outstanding).sum

/-- The global row holds what the rows and what the bodies in flight hold. -/
structure ReservationsConserved (h : StorageHost) : Prop where
  rows : h.ledger.reservedBytes = h.ledger.rowSum UsageRow.reservedBytes
  bodies : h.ledger.reservedBytes = outstanding h.bodies
  idle : h.bodies = [] →
    h.ledger.reservedBytes = 0 ∧ ∀ e ∈ h.ledger.rows, e.2.reservedBytes = 0

/-- No body with a positive reservation commits, or ends without an exception before it
has committed. -/
def NothingSettled (h : StorageHost) (a : StorageAction) : Prop :=
  ∀ body ∈ h.bodies, body.committed = false →
    (a = .leave body ∨ ∃ entry totalBytes fileCount,
      a = .commit body entry totalBytes fileCount) → body.reservation = 0

/-! ## What the steps keep -/

/-- Without a body in flight nothing is reserved. -/
theorem ReservationsConserved.of_sums {h : StorageHost}
    (hrows : h.ledger.reservedBytes = h.ledger.rowSum UsageRow.reservedBytes)
    (hbodies : h.ledger.reservedBytes = outstanding h.bodies) : ReservationsConserved h := by
  refine ⟨hrows, hbodies, fun hidle => ?_⟩
  have hzero : h.ledger.reservedBytes = 0 := by
    rw [hbodies, hidle]
    rfl
  refine ⟨hzero, ?_⟩
  have hsum : h.ledger.rowSum UsageRow.reservedBytes = 0 := hrows.symm.trans hzero
  rw [Ledger.rowSum, List.sum_eq_zero_iff] at hsum
  exact fun e he => hsum _ (List.mem_map_of_mem he)

/-- Only the key of the reservations holds any. -/
structure StorageOk (h : StorageHost) : Prop where
  keys : h.ledger.KeysNodup
  unreserved : ∀ k ≠ reservationKey, h.ledger.Unreserved k
  conserved : ReservationsConserved h

section

variable {h : StorageHost} {body : StorageBody}

theorem outstanding_erase (hbody : body ∈ h.bodies) :
    outstanding h.bodies = body.outstanding + outstanding (h.bodies.erase body) := by
  have hperm := List.perm_cons_erase hbody
  rw [outstanding, (hperm.map StorageBody.outstanding).sum_eq, List.map_cons, List.sum_cons]
  rfl

theorem storageOk_start : StorageOk .start where
  keys := List.nodup_nil
  unreserved := fun _ _ _ he => nomatch he
  conserved := .of_sums rfl rfl

theorem Ledger.KeysNodup.reserved_row {l : Ledger} (hkeys : l.KeysNodup)
    (hunreserved : ∀ k ≠ reservationKey, l.Unreserved k) :
    ((l.row reservationKey).map UsageRow.reservedBytes).getD 0 =
      l.rowSum UsageRow.reservedBytes := by
  have hsplit := sum_filter_ne (k := reservationKey) hkeys UsageRow.reservedBytes
  have hzero : ((l.rows.filter fun e => e.1 ≠ reservationKey).map
      fun e => e.2.reservedBytes).sum = 0 := by
    rw [List.sum_eq_zero_iff]
    intro n hn
    obtain ⟨e, he, rfl⟩ := List.mem_map.mp hn
    obtain ⟨hmem, hne⟩ := List.mem_filter.mp he
    exact hunreserved e.1 (by simpa using hne) e hmem rfl
  rw [hzero, Nat.zero_add] at hsplit
  exact hsplit

/-- A ledger call that no body takes part in. -/
theorem StorageOk.of_ledger (hok : StorageOk h) {l : Ledger} (hkeys : l.KeysNodup)
    (hunreserved : ∀ k ≠ reservationKey, l.Unreserved k)
    (hrows : l.rowSum UsageRow.reservedBytes = h.ledger.rowSum UsageRow.reservedBytes)
    (hglobal : l.reservedBytes = h.ledger.reservedBytes) :
    StorageOk { h with ledger := l } :=
  ⟨hkeys, hunreserved, .of_sums (hglobal.trans (hok.conserved.rows.trans hrows.symm))
    (hglobal.trans hok.conserved.bodies)⟩

theorem StorageOk.enter (hok : StorageOk h) (cap : Capacity) (additionalBytes : ℤ) :
    StorageOk (h.enter cap additionalBytes) := by
  rw [StorageHost.enter]
  split
  · exact hok
  · rename_i l hl
    rw [reserveCapacity] at hl
    split at hl
    · rename_i l' hreserve
      obtain rfl := Except.ok.inj hl
      have hreserved := Ledger.reserve_eq_some hreserve
      have hrows := hok.conserved.rows
      have hbodies := hok.conserved.bodies
      refine ⟨hreserved.keys hok.keys, ?_, .of_sums ?_ ?_⟩
      · intro k hk
        exact (hok.unreserved k hk).reserve hreserve hk
      · rw [hreserved.reservedBytes, hreserved.rowReserved hok.keys, hrows]
      · rw [hreserved.reservedBytes, hbodies, Nat.add_comm]
        rfl
    · exact nomatch hl

theorem StorageOk.write (hok : StorageOk h) (entry : Str) (measured files : ℕ) :
    StorageOk { h with ledger := h.ledger.write entry measured files 0 } := by
  obtain ⟨-, hreserved⟩ := Ledger.write_totals h.ledger entry measured files 0
  refine hok.of_ledger (hok.keys.write ..) ?_ (Ledger.rowSum_reserved_write hok.keys ..)
    hreserved
  intro k hk
  exact (hok.unreserved k hk).write entry measured files 0

theorem StorageOk.forget (hok : StorageOk h) {artifact : Str}
    (hname : artifact ≠ reservationKey) :
    StorageOk { h with ledger := h.ledger.forget artifact } := by
  have hzero : ((h.ledger.row artifact).map UsageRow.reservedBytes).getD 0 = 0 := by
    rcases hrow : h.ledger.row artifact with _ | r
    · rfl
    · exact hok.unreserved artifact hname _ (Ledger.mem_rows_of_row hrow) rfl
  refine hok.of_ledger hok.keys.forget ?_ ?_ ?_
  · intro k hk e he hek
    rw [Ledger.forget] at he
    split at he
    · exact hok.unreserved k hk e he hek
    · exact hok.unreserved k hk e (List.mem_of_mem_filter he) hek
  · have hsum := Ledger.rowSum_forget (k := artifact) UsageRow.reservedBytes hok.keys
    rw [hzero] at hsum
    exact hsum
  · rw [Ledger.forget]
    rcases hrow : h.ledger.row artifact with _ | r
    · rfl
    · rw [hrow] at hzero
      change h.ledger.reservedBytes - r.reservedBytes = _
      rw [show r.reservedBytes = 0 from hzero, Nat.sub_zero]

theorem StorageOk.reconcile (hok : StorageOk h) {measured : List (Str × ℕ × ℕ)}
    (hm : (measured.map Prod.fst).Nodup) :
    StorageOk { h with ledger := h.ledger.reconcile measured } := by
  have hrows := Ledger.rowSum_reserved_reconcile hok.keys hm
  refine hok.of_ledger (hok.keys.reconcile hm) ?_ hrows (hrows.trans hok.conserved.rows.symm)
  exact fun k hk => (hok.unreserved k hk).reconcile measured

/-- A body without a reservation, or one that has committed, ends. -/
theorem StorageOk.settle {l : Ledger} {bodies : List StorageBody}
    (hl : StorageOk { h with ledger := l }) (hbody : body ∈ h.bodies)
    (hzero : body.outstanding = 0)
    (hbodies : outstanding bodies = outstanding (h.bodies.erase body)) :
    StorageOk ⟨l, bodies⟩ := by
  have hout := outstanding_erase hbody
  refine ⟨hl.keys, hl.unreserved, .of_sums hl.conserved.rows (hl.conserved.bodies.trans ?_)⟩
  change outstanding h.bodies = outstanding bodies
  omega

theorem StorageOk.throw (hok : StorageOk h) (hbody : body ∈ h.bodies) :
    StorageOk (h.throw body) := by
  rw [StorageHost.throw]
  have hout := outstanding_erase hbody
  have hglobal := hok.conserved.bodies
  split_ifs with hcommitted
  · exact hok.settle hbody (by rw [StorageBody.outstanding, if_pos hcommitted]) rfl
  · rw [StorageBody.outstanding, if_neg hcommitted] at hout
    have hrow := hok.keys.reserved_row hok.unreserved
    have hsum := Ledger.rowSum_reserved_release (k := reservationKey) hok.keys body.reservation
      (by rw [hrow, ← hok.conserved.rows]; omega)
    obtain ⟨-, hreserved⟩ :=
      Ledger.release_totals h.ledger reservationKey body.reservation
    have hrows := hok.conserved.rows
    refine ⟨hok.keys.release _, ?_, .of_sums ?_ ?_⟩
    · exact fun k hk => (hok.unreserved k hk).release _ hk
    · change (h.ledger.release _ _).reservedBytes = (h.ledger.release _ _).rowSum _
      omega
    · change (h.ledger.release _ _).reservedBytes = outstanding (h.bodies.erase body)
      omega

/-- Everything but a settlement in the global row alone keeps the reservations. -/
theorem StorageOk.act (hok : StorageOk h) {a : StorageAction} (ha : NothingSettled h a) :
    StorageOk (storageAct h a) := by
  rcases a with ⟨cap, n⟩ | ⟨body, entry, n, m⟩ | body | body | ⟨entry, n, m⟩ | artifact |
    measured <;> rw [storageAct]
  case enter => exact hok.enter cap n
  case commit =>
    split_ifs with hbody
    · have hzero := ha body hbody.1 hbody.2 (.inr ⟨entry, n, m, rfl⟩)
      rw [StorageHost.commit, hzero]
      refine (hok.write entry n.toNat m.toNat).settle hbody.1 ?_ ?_
      · rw [StorageBody.outstanding, hzero, ite_self]
      · exact Nat.zero_add _
    · exact hok
  case leave =>
    split_ifs with hbody
    · rw [StorageHost.leave]
      split_ifs with hcommitted
      · exact hok.settle hbody (by rw [StorageBody.outstanding, if_pos hcommitted]) rfl
      · have hzero := ha body hbody (Bool.eq_false_iff.mpr hcommitted) (.inl rfl)
        rw [hzero]
        refine (hok.write reservationKey 0 0).settle hbody ?_ rfl
        rw [StorageBody.outstanding, hzero, ite_self]
    · exact hok
  case throw =>
    split_ifs with hbody
    · exact hok.throw hbody
    · exact hok
  case write => exact hok.write entry n.toNat m.toNat
  case forget =>
    split_ifs with hname
    · exact hok
    · exact hok.forget hname
  case reconcile =>
    split_ifs with hm
    · exact hok.reconcile hm
    · exact hok

/-- A write that settles a positive reservation leaves it in its row. -/
theorem StorageOk.not_conserved (hok : StorageOk h) (hbody : body ∈ h.bodies)
    (hopen : body.committed = false) (hpos : body.reservation ≠ 0) (entry : Str)
    (measured files : ℕ) {bodies : List StorageBody} :
    ¬ ReservationsConserved
      ⟨h.ledger.write entry measured files body.reservation, bodies⟩ := by
  intro hconserved
  obtain ⟨-, hreserved⟩ :=
    Ledger.write_totals h.ledger entry measured files body.reservation
  have hrows : _ = (h.ledger.write entry measured files body.reservation).rowSum _ :=
    hconserved.rows
  rw [Ledger.rowSum_reserved_write hok.keys, hreserved] at hrows
  have hbefore := hok.conserved.rows
  have hglobal := hok.conserved.bodies
  have hout := outstanding_erase hbody
  rw [StorageBody.outstanding, if_neg (by rw [hopen]; exact Bool.false_ne_true)] at hout
  omega

theorem StorageOk.settled_iff (hok : StorageOk h) (a : StorageAction) :
    NothingSettled h a ↔ ReservationsConserved (storageAct h a) := by
  refine ⟨fun ha => (hok.act ha).conserved, ?_⟩
  rintro hafter body hbody hopen (rfl | ⟨entry, n, m, rfl⟩)
  · by_contra hpos
    rw [storageAct, if_pos hbody, StorageHost.leave, if_neg (by simp [hopen])] at hafter
    exact hok.not_conserved hbody hopen hpos reservationKey _ 0 hafter
  · by_contra hpos
    rw [storageAct, if_pos ⟨hbody, hopen⟩, StorageHost.commit] at hafter
    exact hok.not_conserved hbody hopen hpos entry _ _ hafter

end

/-- The reservations are conserved in exactly the runs that settle none with a write. -/
theorem reservations_conserved_iff (actions : List StorageAction) :
    Throughout storageAct (fun h a => ReservationsConserved (storageAct h a)) .start actions ↔
      Throughout storageAct NothingSettled .start actions :=
  (throughout_iff_of_invariant StorageOk (fun _ _ hok ha => hok.act ha)
    (fun _ a hok => hok.settled_iff a) storageOk_start).symm

/-- One body commits one byte: its reservation stays in its row. -/
theorem committed_reservation_stays :
    ¬ ∀ actions : List StorageAction,
      Throughout storageAct (fun h a => ReservationsConserved (storageAct h a)) .start
        actions := by
  intro h
  have hrun := h [.enter ⟨10, 0, 10⟩ 1, .commit ⟨1, false⟩ (lit "a") 1 1]
  have hrows := hrun.2.1.rows
  revert hrows
  decide +kernel

end PromptCode
