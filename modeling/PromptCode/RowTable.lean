import PromptCode.RowLock
import Mathlib.Data.List.Basic

/-!
# Tables of rows under locks

The rows of a table in the order of their insertion, each under what identifies it.  A row
that no committed transaction has inserted is stored as `none`.  The load of a property
counts the rows some version of which has it, so no commit and no rollback can raise it.
-/

namespace PromptCode

/-- A table with its rows under their keys. -/
abbrev Table (τ κ α : Type) := List (κ × Row τ (Option α))

namespace Row

variable {τ α : Type}

/-- The stored version or the one under the lock has the property. -/
def hasVersion (r : Row τ (Option α)) (p : α → Bool) : Bool :=
  r.stored.any p || r.held.any fun h => h.2.any p

section

variable {r : Row τ (Option α)} {t : τ} {v : Option α} {p : α → Bool}

@[simp] theorem hasVersion_put :
    (r.put t v).hasVersion p = (r.stored.any p || v.any p) := rfl

theorem hasVersion_of_stored (h : r.stored.any p = true) : r.hasVersion p = true := by
  simp [hasVersion, h]

theorem hasVersion_of_held (h : r.held = some (t, v)) (hv : v.any p = true) :
    r.hasVersion p = true := by
  simp [hasVersion, h, hv]

end

variable [DecidableEq τ]

/-- `UPDATE .. WHERE` of an inserted row; nothing happens while the statement waits. -/
def change (r : Row τ (Option α)) (t : τ) (p : α → Bool) (f : α → α) : Row τ (Option α) :=
  match r.update t (·.any p) (·.map f) with
  | some (r', _) => r'
  | none => r

section

variable {r : Row τ (Option α)} {t : τ} {p : α → Bool} {f : α → α}

theorem change_cases (r : Row τ (Option α)) (t : τ) (p : α → Bool) (f : α → α) :
    r.change t p f = r ∨ ∃ v, r.visible t = some v ∧ p v = true ∧ r.free t = true ∧
      r.change t p f = r.put t (some (f v)) := by
  rw [change]
  rcases hupdate : r.update t (·.any p) (·.map f) with _ | ⟨r', hit⟩
  · exact Or.inl rfl
  · rcases update_eq_some hupdate with ⟨-, rfl, -⟩ | ⟨-, rfl, hp, hfree⟩
    · exact Or.inl rfl
    · obtain ⟨v, hv, hpv⟩ := (Option.any_eq_true p _).mp hp
      exact Or.inr ⟨v, hv, hpv, hfree, by rw [hv]; rfl⟩

theorem hasVersion_of_visible (h : (r.visible t).any p = true) : r.hasVersion p = true := by
  rw [visible] at h
  split at h
  · exact hasVersion_of_stored h
  · rename_i u v hheld
    split_ifs at h
    · exact hasVersion_of_held hheld h
    · exact hasVersion_of_stored h

theorem hasVersion_of_commit (h : (r.commit t).hasVersion p = true) :
    r.hasVersion p = true := by
  rcases r.commit_cases t with ⟨-, heq⟩ | ⟨v, hv, heq⟩
  · rwa [heq] at h
  · rw [heq] at h
    exact hasVersion_of_held hv (by simpa [hasVersion] using h)

theorem hasVersion_of_rollback (h : (r.rollback t).hasVersion p = true) :
    r.hasVersion p = true := by
  rcases r.rollback_cases t with ⟨-, heq⟩ | heq
  · rwa [heq] at h
  · rw [heq] at h
    exact hasVersion_of_stored (by simpa [hasVersion] using h)

end

end Row

namespace Table

variable {τ κ α : Type}

/-- The rows with such a key some version of which has the property. -/
def load (T : Table τ κ α) (q : κ → Bool) (p : α → Bool) : ℕ :=
  T.countP fun e => q e.1 && e.2.hasVersion p

/-- The committed rows with such a key and the property. -/
def storedCount (T : Table τ κ α) (q : κ → Bool) (p : α → Bool) : ℕ :=
  T.countP fun e => q e.1 && e.2.stored.any p

def insertRow (T : Table τ κ α) (t : τ) (k : κ) (v : α) : Table τ κ α :=
  T ++ [(k, ⟨none, some (t, some v)⟩)]

section

variable {T : Table τ κ α} {t : τ} {q : κ → Bool} {p : α → Bool}

theorem storedCount_le_load : T.storedCount q p ≤ T.load q p := by
  apply List.countP_mono_left
  intro e _ h
  rw [Bool.and_eq_true] at h ⊢
  exact ⟨h.1, Row.hasVersion_of_stored h.2⟩

theorem load_insertRow (k : κ) (v : α) :
    (T.insertRow t k v).load q p ≤ T.load q p + if q k then 1 else 0 := by
  rw [load, load, insertRow, List.countP_append, List.countP_singleton]
  apply Nat.add_le_add_left
  split_ifs with hboth hq
  · exact Nat.le_refl _
  · simp [hq] at hboth
  · exact Nat.zero_le 1
  · exact Nat.le_refl _

theorem countP_modify_le {f : κ × Row τ (Option α) → κ × Row τ (Option α)}
    {r : κ × Row τ (Option α) → Bool} {i : ℕ}
    (h : ∀ e ∈ T, T[i]? = some e → r (f e) = true → r e = true) :
    (T.modify i f).countP r ≤ T.countP r := by
  induction T generalizing i with
  | nil => simp
  | cons e T ih =>
      cases i with
      | zero =>
          have he := h e List.mem_cons_self rfl
          rw [List.modify_zero_cons, List.countP_cons, List.countP_cons]
          apply Nat.add_le_add_left
          split_ifs with hfe hre
          · exact Nat.le_refl _
          · exact absurd (he hfe) hre
          · exact Nat.zero_le 1
          · exact Nat.le_refl _
      | succ i =>
          rw [List.modify_succ_cons, List.countP_cons, List.countP_cons]
          exact Nat.add_le_add_right
            (ih fun d hd hi => h d (List.mem_cons_of_mem e hd) (by simpa using hi)) _

theorem countP_modify_le_succ {f : κ × Row τ (Option α) → κ × Row τ (Option α)}
    {r : κ × Row τ (Option α) → Bool} (i : ℕ) :
    (T.modify i f).countP r ≤ T.countP r + 1 := by
  induction T generalizing i with
  | nil => simp
  | cons e T ih =>
      cases i with
      | zero =>
          rw [List.modify_zero_cons, List.countP_cons, List.countP_cons]
          split_ifs <;> omega
      | succ i =>
          rw [List.modify_succ_cons, List.countP_cons, List.countP_cons]
          have := ih i
          omega

theorem mem_modify {f : κ × Row τ (Option α) → κ × Row τ (Option α)} {i : ℕ}
    {e : κ × Row τ (Option α)} (h : e ∈ T.modify i f) :
    e ∈ T ∨ ∃ d ∈ T, T[i]? = some d ∧ e = f d := by
  obtain ⟨j, hj⟩ := List.mem_iff_getElem?.mp h
  rw [List.getElem?_modify] at hj
  split_ifs at hj with hij
  · obtain ⟨d, hd, rfl⟩ := Option.map_eq_some_iff.mp hj
    exact Or.inr ⟨d, List.mem_of_getElem? hd, hij ▸ hd, rfl⟩
  · exact Or.inl (List.mem_of_getElem? (by simpa using hj))

end

variable [DecidableEq τ]

/-- The rows that a client's `SELECT count(..)` counts. -/
def count (T : Table τ κ α) (t : τ) (q : κ → Bool) (p : α → Bool) : ℕ :=
  T.countP fun e => q e.1 && (e.2.visible t).any p

def changeRow (T : Table τ κ α) (i : ℕ) (t : τ) (p : α → Bool) (f : α → α) : Table τ κ α :=
  T.modify i fun e => (e.1, e.2.change t p f)

def commitRows (T : Table τ κ α) (t : τ) : Table τ κ α :=
  T.map fun e => (e.1, e.2.commit t)

def rollbackRows (T : Table τ κ α) (t : τ) : Table τ κ α :=
  T.map fun e => (e.1, e.2.rollback t)

section

variable {T : Table τ κ α} {t : τ} {q : κ → Bool} {p : α → Bool}

theorem load_commitRows : (T.commitRows t).load q p ≤ T.load q p := by
  rw [load, load, commitRows, List.countP_map]
  apply List.countP_mono_left
  intro e _ h
  simp only [Function.comp_apply, Bool.and_eq_true] at h
  rw [Bool.and_eq_true]
  exact ⟨h.1, Row.hasVersion_of_commit h.2⟩

theorem load_rollbackRows : (T.rollbackRows t).load q p ≤ T.load q p := by
  rw [load, load, rollbackRows, List.countP_map]
  apply List.countP_mono_left
  intro e _ h
  simp only [Function.comp_apply, Bool.and_eq_true] at h
  rw [Bool.and_eq_true]
  exact ⟨h.1, Row.hasVersion_of_rollback h.2⟩

/-- What a client counts is all there is, where it sees every row that has such a version. -/
theorem load_le_count (h : ∀ e ∈ T, e.2.hasVersion p = true → (e.2.visible t).any p = true) :
    T.load q p ≤ T.count t q p := by
  apply List.countP_mono_left
  intro e he hload
  rw [Bool.and_eq_true] at hload ⊢
  exact ⟨hload.1, h e he hload.2⟩

/-- An update does not add to the load where it only changes rows that are in it. -/
theorem load_changeRow {p' : α → Bool} {i : ℕ} {f : α → α}
    (h : ∀ e ∈ T, T[i]? = some e → ∀ v, e.2.visible t = some v → p' v = true →
      p (f v) = true → e.2.hasVersion p = true) :
    (T.changeRow i t p' f).load q p ≤ T.load q p := by
  apply countP_modify_le
  intro e he hi hpe
  rw [Bool.and_eq_true] at hpe ⊢
  refine ⟨hpe.1, ?_⟩
  rcases e.2.change_cases t p' f with heq | ⟨v, hv, hp, -, heq⟩
  · rw [← heq]
    exact hpe.2
  · have hput := hpe.2
    rw [heq, Row.hasVersion_put, Bool.or_eq_true] at hput
    rcases hput with hput | hput
    · exact Row.hasVersion_of_stored hput
    · exact h e he hi v hv hp hput

/-- An update adds at most its own row, and only where the key is counted. -/
theorem load_changeRow_le {p' : α → Bool} {i : ℕ} {f : α → α} :
    (T.changeRow i t p' f).load q p ≤
      T.load q p + if (T[i]?).any (fun e => q e.1) then 1 else 0 := by
  split_ifs with hq
  · exact countP_modify_le_succ i
  · apply countP_modify_le
    intro e _ hi hpe
    rw [hi] at hq
    simp only [Option.any_some] at hq
    simp [hq] at hpe

end

end Table

end PromptCode
