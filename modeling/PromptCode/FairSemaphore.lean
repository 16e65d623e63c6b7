import Mathlib.Data.List.Basic

/-!
# Fair semaphores

A counting semaphore whose waiters are woken in the order in which they came.  A
woken waiter has its permit although it has not run yet, and one that gives up after
it was woken hands the permit on.
-/

namespace PromptCode

/-- The free permits, and the waiters with a flag that says who has been woken. -/
structure Semaphore (τ : Type) where
  value : ℕ
  waiters : List (τ × Bool)
  deriving DecidableEq

theorem length_erase_add_one {α : Type} [BEq α] [LawfulBEq α] {l : List α} {a : α}
    (h : a ∈ l) : (l.erase a).length + 1 = l.length := by
  have hpos := List.length_pos_of_mem h
  rw [List.length_erase_of_mem h]
  omega

namespace Semaphore

variable {τ : Type}

def ofSlots (n : ℕ) : Semaphore τ := ⟨n, []⟩

/-- A newcomer has to wait, also for waiters that are woken and have not run. -/
def locked (s : Semaphore τ) : Bool := s.value = 0 || !s.waiters.isEmpty

/-- The first waiter that is not woken gets a permit. -/
def wakeFirst : List (τ × Bool) → Option (List (τ × Bool))
  | [] => none
  | (t, true) :: ws => (wakeFirst ws).map ((t, true) :: ·)
  | (t, false) :: ws => some ((t, true) :: ws)

/-- `while value > 0: wake_up_next()`. -/
def wakeAll : ℕ → List (τ × Bool) → Semaphore τ
  | 0, ws => ⟨0, ws⟩
  | n + 1, ws =>
      match wakeFirst ws with
      | none => ⟨n + 1, ws⟩
      | some ws => wakeAll n ws

/-- A permit without waiting. -/
def take (s : Semaphore τ) : Semaphore τ := { s with value := s.value - 1 }

def enqueue (s : Semaphore τ) (t : τ) : Semaphore τ :=
  { s with waiters := s.waiters ++ [(t, false)] }

def release (s : Semaphore τ) : Semaphore τ :=
  match wakeFirst s.waiters with
  | none => { s with value := s.value + 1 }
  | some ws => { s with waiters := ws }

/-- The woken waiters. -/
def woken (ws : List (τ × Bool)) : ℕ := ws.countP Prod.snd

/-- The permits that are free or belong to a woken waiter. -/
def permits (s : Semaphore τ) : ℕ := s.value + woken s.waiters

section

variable {s : Semaphore τ} {ws ws' : List (τ × Bool)} {t : τ} {n : ℕ}

theorem wakeFirst_eq_some (h : wakeFirst ws = some ws') :
    ws'.length = ws.length ∧ woken ws' = woken ws + 1 := by
  induction ws generalizing ws' with
  | nil => exact nomatch h
  | cons w ws ih =>
      obtain ⟨t, _ | _⟩ := w
      · obtain rfl := Option.some.inj h
        exact ⟨rfl, by simp [woken]⟩
      · obtain ⟨rest, hrest, rfl⟩ := Option.map_eq_some_iff.mp h
        obtain ⟨hlength, hwoken⟩ := ih hrest
        refine ⟨by simp [hlength], ?_⟩
        simp only [woken, List.countP_cons_of_pos] at hwoken ⊢
        omega

theorem wakeAll_spec (n : ℕ) (ws : List (τ × Bool)) :
    (wakeAll n ws).waiters.length = ws.length ∧ (wakeAll n ws).permits = n + woken ws := by
  induction n generalizing ws with
  | zero => exact ⟨rfl, rfl⟩
  | succ n ih =>
      rw [wakeAll]
      split
      · exact ⟨rfl, rfl⟩
      · rename_i ws' h
        obtain ⟨hlength, hwoken⟩ := wakeFirst_eq_some h
        obtain ⟨hlength', hpermits⟩ := ih ws'
        exact ⟨hlength'.trans hlength, by omega⟩

theorem release_spec (s : Semaphore τ) :
    s.release.waiters.length = s.waiters.length ∧ s.release.permits = s.permits + 1 := by
  rw [release]
  split
  · exact ⟨rfl, by simp only [permits]; omega⟩
  · rename_i ws h
    obtain ⟨hlength, hwoken⟩ := wakeFirst_eq_some h
    exact ⟨hlength, by simp only [permits]; omega⟩

theorem permits_take (h : s.locked = false) : s.take.permits + 1 = s.permits := by
  simp only [locked, Bool.or_eq_false_iff, decide_eq_false_iff_not] at h
  simp only [permits, take]
  omega

theorem enqueue_spec (s : Semaphore τ) (t : τ) :
    (s.enqueue t).waiters.length = s.waiters.length + 1 ∧
      (s.enqueue t).permits = s.permits := by
  simp [enqueue, permits, woken]

end

variable [DecidableEq τ]

/-- A woken waiter runs on with its permit. -/
def resume (s : Semaphore τ) (t : τ) : Semaphore τ :=
  wakeAll s.value (s.waiters.erase (t, true))

/-- A woken waiter gives up and its permit back. -/
def abandon (s : Semaphore τ) (t : τ) : Semaphore τ :=
  wakeAll (s.value + 1) (s.waiters.erase (t, true))

/-- A waiter that is not woken gives up. -/
def cancel (s : Semaphore τ) (t : τ) : Semaphore τ :=
  { s with waiters := s.waiters.erase (t, false) }

section

variable {s : Semaphore τ} {ws : List (τ × Bool)} {t : τ}

theorem woken_erase {b : Bool} (h : (t, b) ∈ ws) :
    woken ws = woken (ws.erase (t, b)) + if b then 1 else 0 := by
  have hperm := (List.perm_cons_erase h).countP_eq Prod.snd
  rw [List.countP_cons] at hperm
  exact hperm

theorem resume_spec (h : (t, true) ∈ s.waiters) :
    (s.resume t).waiters.length + 1 = s.waiters.length ∧
      (s.resume t).permits + 1 = s.permits := by
  obtain ⟨hlength, hpermits⟩ := wakeAll_spec s.value (s.waiters.erase (t, true))
  have hwoken := woken_erase h
  rw [if_pos rfl] at hwoken
  have herase := length_erase_add_one h
  rw [resume, permits]
  exact ⟨by omega, by simp only [permits] at hpermits ⊢; omega⟩

theorem abandon_spec (h : (t, true) ∈ s.waiters) :
    (s.abandon t).waiters.length + 1 = s.waiters.length ∧
      (s.abandon t).permits = s.permits := by
  obtain ⟨hlength, hpermits⟩ := wakeAll_spec (s.value + 1) (s.waiters.erase (t, true))
  have hwoken := woken_erase h
  rw [if_pos rfl] at hwoken
  have herase := length_erase_add_one h
  rw [abandon, permits]
  exact ⟨by omega, by simp only [permits] at hpermits ⊢; omega⟩

theorem cancel_spec (h : (t, false) ∈ s.waiters) :
    (s.cancel t).waiters.length + 1 = s.waiters.length ∧
      (s.cancel t).permits = s.permits := by
  have hwoken := woken_erase h
  rw [if_neg Bool.false_ne_true, Nat.add_zero] at hwoken
  refine ⟨length_erase_add_one h, ?_⟩
  rw [permits, permits, hwoken]
  rfl

end

end Semaphore

end PromptCode
