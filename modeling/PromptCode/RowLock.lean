import Mathlib.Logic.Function.Basic
import Mathlib.Tactic.SplitIfs

/-!
# Rows under locks

A row of a table as the transactions of several clients see it at the isolation
level `READ COMMITTED`.  The client that holds the lock sees the version that it has
written, everybody else sees the stored one.  A statement that needs the lock of
another client waits.
-/

namespace PromptCode

/-- The stored version, and the client that holds the lock with its own version. -/
structure Row (τ α : Type) where
  stored : α
  held : Option (τ × α)

namespace Row

variable {τ α : Type}

/-- The client holds the lock, with this version. -/
def put (r : Row τ α) (t : τ) (v : α) : Row τ α := { r with held := some (t, v) }

/-- The client does not hold the lock. -/
def Released (r : Row τ α) (t : τ) : Prop := ∀ v, r.held ≠ some (t, v)

/-- The stored version and the one under the lock have the property. -/
structure All (P : α → Prop) (r : Row τ α) : Prop where
  stored : P r.stored
  held : ∀ t v, r.held = some (t, v) → P v

section

variable {r : Row τ α} {t u : τ} {v : α} {P : α → Prop}

@[simp] theorem put_stored : (r.put t v).stored = r.stored := rfl

@[simp] theorem put_held : (r.put t v).held = some (t, v) := rfl

theorem All.put (h : r.All P) (hv : P v) : (r.put t v).All P := by
  refine ⟨h.stored, ?_⟩
  intro u w hw
  obtain ⟨rfl, rfl⟩ := Prod.mk.inj (Option.some.inj hw)
  exact hv

theorem released_of_held_ne (h : r.held = some (u, v)) (hne : u ≠ t) : r.Released t :=
  fun _ hw => hne (Prod.mk.inj (Option.some.inj (h.symm.trans hw))).1

end

variable [DecidableEq τ]

/-- No other client holds the lock. -/
def free (r : Row τ α) (t : τ) : Bool :=
  match r.held with
  | none => true
  | some (u, _) => u = t

/-- The version that a client reads. -/
def visible (r : Row τ α) (t : τ) : α :=
  match r.held with
  | none => r.stored
  | some (u, v) => if u = t then v else r.stored

def commit (r : Row τ α) (t : τ) : Row τ α :=
  match r.held with
  | none => r
  | some (u, v) => if u = t then ⟨v, none⟩ else r

def rollback (r : Row τ α) (t : τ) : Row τ α :=
  match r.held with
  | none => r
  | some (u, _) => if u = t then ⟨r.stored, none⟩ else r

/-- `UPDATE .. WHERE`: whether the row was hit, or `none` while the statement waits. -/
def update (r : Row τ α) (t : τ) (p : α → Bool) (f : α → α) : Option (Row τ α × Bool) :=
  if p (r.visible t) then
    if r.free t then some (r.put t (f (r.visible t)), true) else none
  else some (r, false)

/-- `SELECT .. FOR UPDATE`. -/
def lock (r : Row τ α) (t : τ) : Option (Row τ α) :=
  if r.free t then some (r.put t (r.visible t)) else none

section

variable {r r' : Row τ α} {t u : τ} {v : α} {P : α → Prop}

@[simp] theorem rollback_stored : (r.rollback t).stored = r.stored := by
  rw [rollback]
  split
  · rfl
  · split_ifs <;> rfl

theorem visible_of_held (h : r.held = some (t, v)) : r.visible t = v := by
  simp [visible, h]

theorem visible_of_released (h : r.Released t) : r.visible t = r.stored := by
  rw [visible]
  split
  · rfl
  · rename_i u v hheld
    have hne : u ≠ t := by
      rintro rfl
      exact h v hheld
    rw [if_neg hne]

theorem released_of_free_ne (h : r.free t = true) (hu : u ≠ t) : r.Released u := by
  intro v hheld
  simp [free, hheld, hu] at h

theorem commit_of_held (h : r.held = some (t, v)) : r.commit t = ⟨v, none⟩ := by
  simp [commit, h]

theorem commit_of_released (h : r.Released t) : r.commit t = r := by
  rw [commit]
  split
  · rfl
  · rename_i u v hheld
    have hne : u ≠ t := by
      rintro rfl
      exact h v hheld
    rw [if_neg hne]

theorem rollback_of_released (h : r.Released t) : r.rollback t = r := by
  rw [rollback]
  split
  · rfl
  · rename_i u v hheld
    have hne : u ≠ t := by
      rintro rfl
      exact h v hheld
    rw [if_neg hne]

/-- A commit stores the version under the client's lock, or changes nothing. -/
theorem commit_cases (r : Row τ α) (t : τ) :
    r.Released t ∧ r.commit t = r ∨
      ∃ v, r.held = some (t, v) ∧ r.commit t = ⟨v, none⟩ := by
  by_cases h : r.Released t
  · exact Or.inl ⟨h, commit_of_released h⟩
  · simp only [Released, not_forall, not_not] at h
    obtain ⟨v, hv⟩ := h
    exact Or.inr ⟨v, hv, commit_of_held hv⟩

theorem rollback_cases (r : Row τ α) (t : τ) :
    r.Released t ∧ r.rollback t = r ∨ r.rollback t = ⟨r.stored, none⟩ := by
  rw [rollback]
  rcases hheld : r.held with _ | ⟨u, v⟩
  · exact Or.inl ⟨by simp [Released, hheld], rfl⟩
  · by_cases hu : u = t
    · exact Or.inr (by simp [hu])
    · exact Or.inl ⟨by simp [Released, hheld, hu], by simp [hu]⟩

theorem held_of_rollback (h : (r.rollback t).held = some (u, v)) : r.held = some (u, v) := by
  rcases r.rollback_cases t with ⟨-, heq⟩ | heq
  · rwa [heq] at h
  · exact nomatch (congrArg Row.held heq).symm.trans h

theorem held_of_commit (h : (r.commit t).held = some (u, v)) : r.held = some (u, v) := by
  rcases r.commit_cases t with ⟨-, heq⟩ | ⟨_, -, heq⟩
  · rwa [heq] at h
  · exact nomatch (congrArg Row.held heq).symm.trans h

theorem released_commit (r : Row τ α) (t : τ) : (r.commit t).Released t := by
  rcases r.commit_cases t with ⟨h, heq⟩ | ⟨v, -, heq⟩
  · rw [heq]
    exact h
  · rw [heq]
    exact fun w hw => nomatch hw

theorem released_rollback (r : Row τ α) (t : τ) : (r.rollback t).Released t := by
  rcases r.rollback_cases t with ⟨h, heq⟩ | heq
  · rw [heq]
    exact h
  · rw [heq]
    exact fun w hw => nomatch hw

theorem Released.commit (h : r.Released u) : (r.commit t).Released u := by
  rcases r.commit_cases t with ⟨-, heq⟩ | ⟨v, -, heq⟩
  · rwa [heq]
  · rw [heq]
    exact fun w hw => nomatch hw

theorem Released.rollback (h : r.Released u) : (r.rollback t).Released u := by
  rcases r.rollback_cases t with ⟨-, heq⟩ | heq
  · rwa [heq]
  · rw [heq]
    exact fun w hw => nomatch hw

theorem All.visible (h : r.All P) : P (r.visible t) := by
  rw [Row.visible]
  split
  · exact h.stored
  · rename_i u v hheld
    split_ifs
    · exact h.held u v hheld
    · exact h.stored

theorem All.commit (h : r.All P) : (r.commit t).All P := by
  rcases r.commit_cases t with ⟨-, heq⟩ | ⟨v, hv, heq⟩
  · rwa [heq]
  · rw [heq]
    exact ⟨h.held t v hv, fun u w hw => nomatch hw⟩

theorem All.rollback (h : r.All P) : (r.rollback t).All P := by
  rcases r.rollback_cases t with ⟨-, heq⟩ | heq
  · rwa [heq]
  · rw [heq]
    exact ⟨h.stored, fun u w hw => nomatch hw⟩

/-- An update either misses the row or takes its lock. -/
theorem update_eq_some {p : α → Bool} {f : α → α} {hit : Bool}
    (h : r.update t p f = some (r', hit)) :
    hit = false ∧ r' = r ∧ p (r.visible t) = false ∨
      hit = true ∧ r' = r.put t (f (r.visible t)) ∧ p (r.visible t) = true ∧
        r.free t = true := by
  rw [update] at h
  split_ifs at h with hp hfree
  · obtain ⟨rfl, rfl⟩ := Prod.mk.inj (Option.some.inj h)
    exact Or.inr ⟨rfl, rfl, hp, hfree⟩
  · obtain ⟨rfl, rfl⟩ := Prod.mk.inj (Option.some.inj h)
    exact Or.inl ⟨rfl, rfl, by simpa using hp⟩

/-- A row on which no client but this one may have acted. -/
def OnlyBy (t : τ) (r r' : Row τ α) : Prop :=
  r' = r ∨ ∀ u, u ≠ t → r.Released u ∧ r'.Released u

theorem onlyBy_put (h : r.free t = true) (v : α) : OnlyBy t r (r.put t v) := by
  refine Or.inr fun u hu => ⟨released_of_free_ne h hu, ?_⟩
  intro w hw
  exact hu (Prod.mk.inj (Option.some.inj hw)).1.symm

theorem onlyBy_commit (r : Row τ α) (t : τ) : OnlyBy t r (r.commit t) := by
  rcases r.commit_cases t with ⟨-, heq⟩ | ⟨v, hv, heq⟩
  · exact Or.inl heq
  · refine Or.inr fun u hu => ⟨?_, by rw [heq]; exact fun w hw => nomatch hw⟩
    intro w hw
    exact hu (Prod.mk.inj (Option.some.inj (hw.symm.trans hv))).1

theorem onlyBy_rollback (r : Row τ α) (t : τ) : OnlyBy t r (r.rollback t) := by
  by_cases h : r.Released t
  · rcases r.rollback_cases t with ⟨-, heq⟩ | heq
    · exact Or.inl heq
    · rcases hheld : r.held with _ | ⟨u, v⟩
      · exact Or.inl (by simp [Row.rollback, hheld])
      · have hne : u ≠ t := by
          rintro rfl
          exact h v hheld
        exact Or.inl (by simp [Row.rollback, hheld, hne])
  · simp only [Released, not_forall, not_not] at h
    obtain ⟨v, hv⟩ := h
    refine Or.inr fun u hu => ⟨?_, ?_⟩
    · intro w hw
      exact hu (Prod.mk.inj (Option.some.inj (hw.symm.trans hv))).1
    · simp [Row.rollback, hv, Released]

theorem lock_eq_some (h : r.lock t = some r') :
    r' = r.put t (r.visible t) ∧ r.free t = true := by
  rw [lock] at h
  split_ifs at h with hfree
  exact ⟨(Option.some.inj h).symm, hfree⟩

end

end Row

end PromptCode
