import Mathlib.Data.List.Basic

/-!
# Runs of a transition function

A machine takes one action after another.  A condition on the single steps of a
run, and an invariant that such steps keep, give the invariant in every state
the run reaches.
-/

namespace PromptCode.Transition

variable {σ α : Type}

/-- The state after a list of actions. -/
def run (step : σ → α → σ) (s : σ) (actions : List α) : σ :=
  actions.foldl step s

/-- Every action meets the condition in the state it is taken in. -/
def Throughout (step : σ → α → σ) (cond : σ → α → Prop) : σ → List α → Prop
  | _, [] => True
  | s, a :: actions => cond s a ∧ Throughout step cond (step s a) actions

section

variable {step : σ → α → σ} {cond cond' : σ → α → Prop} {s : σ}
  {actions more : List α}

@[simp] theorem run_nil : run step s [] = s := rfl

@[simp] theorem run_cons {a : α} :
    run step s (a :: actions) = run step (step s a) actions := rfl

theorem run_append :
    run step s (actions ++ more) = run step (run step s actions) more :=
  List.foldl_append

theorem throughout_append :
    Throughout step cond s (actions ++ more) ↔
      Throughout step cond s actions ∧
        Throughout step cond (run step s actions) more := by
  induction actions generalizing s with
  | nil => simp [Throughout]
  | cons a actions ih => simp [Throughout, ih, and_assoc]

theorem Throughout.mono (h : Throughout step cond s actions)
    (himp : ∀ s a, cond s a → cond' s a) : Throughout step cond' s actions := by
  induction actions generalizing s with
  | nil => trivial
  | cons a actions ih => exact ⟨himp s a h.1, ih h.2⟩

/-- A condition on the actions alone. -/
theorem throughout_of_forall {p : α → Prop} (h : ∀ a ∈ actions, p a) :
    Throughout step (fun _ a => p a) s actions := by
  induction actions generalizing s with
  | nil => trivial
  | cons a actions ih =>
      exact ⟨h a List.mem_cons_self, ih fun b hb => h b (List.mem_cons_of_mem a hb)⟩

/-- An invariant kept by every step that meets the condition holds after a run
all of whose steps meet it. -/
theorem invariant_run (Inv : σ → Prop)
    (hstep : ∀ s a, Inv s → cond s a → Inv (step s a)) (hs : Inv s)
    (h : Throughout step cond s actions) : Inv (run step s actions) := by
  induction actions generalizing s with
  | nil => exact hs
  | cons a actions ih => exact ih (hstep s a hs h.1) h.2

/-- An invariant that every step keeps holds after every run. -/
theorem invariant_run_of_step (Inv : σ → Prop)
    (hstep : ∀ s a, Inv s → Inv (step s a)) (hs : Inv s) :
    Inv (run step s actions) := by
  induction actions generalizing s with
  | nil => exact hs
  | cons a actions ih => exact ih (hstep s a hs)

/-- Every step meets what an invariant that all steps keep implies. -/
theorem throughout_of_step (Inv : σ → Prop)
    (hstep : ∀ s a, Inv s → Inv (step s a)) (himp : ∀ s a, Inv s → cond s a)
    (hs : Inv s) : Throughout step cond s actions := by
  induction actions generalizing s with
  | nil => trivial
  | cons a actions ih => exact ⟨himp s a hs, ih (hstep s a hs)⟩

/-- What every step of a run preserves, the run preserves. -/
theorem run_eq_of_throughout {β : Type} (f : σ → β) (P : σ → Prop)
    (hstep : ∀ s a, cond s a → P s → f (step s a) = f s ∧ P (step s a))
    (h : Throughout step cond s actions) (hs : P s) :
    f (run step s actions) = f s := by
  induction actions generalizing s with
  | nil => rfl
  | cons a actions ih =>
      obtain ⟨hsame, hnext⟩ := hstep s a h.1 hs
      exact (ih h.2 hnext).trans hsame

/-- Steps that meet the condition in the states of an invariant meet whatever the
invariant and the condition imply. -/
theorem throughout_of_invariant (Inv : σ → Prop)
    (hstep : ∀ s a, Inv s → cond s a → Inv (step s a))
    (himp : ∀ s a, Inv s → cond s a → cond' s a) (hs : Inv s)
    (h : Throughout step cond s actions) : Throughout step cond' s actions := by
  induction actions generalizing s with
  | nil => trivial
  | cons a actions ih =>
      exact ⟨himp s a hs h.1, ih (hstep s a hs h.1) h.2⟩

/-- Where one step meets the one condition exactly when it meets the other, so does a
run. -/
theorem throughout_iff_of_invariant (Inv : σ → Prop)
    (hstep : ∀ s a, Inv s → cond s a → Inv (step s a))
    (hiff : ∀ s a, Inv s → (cond s a ↔ cond' s a)) (hs : Inv s) :
    Throughout step cond s actions ↔ Throughout step cond' s actions := by
  induction actions generalizing s with
  | nil => rfl
  | cons a actions ih =>
      rw [Throughout, Throughout, ← hiff s a hs]
      exact and_congr_right fun ha => ih (hstep s a hs ha)

/-- Where a step keeps a property exactly when it meets the condition, a run has it exactly
when all its steps do. -/
theorem run_iff_throughout (Inv P : σ → Prop) (hstep : ∀ s a, Inv s → Inv (step s a))
    (hiff : ∀ s a, Inv s → (P (step s a) ↔ P s ∧ cond s a)) (hs : Inv s) :
    P (run step s actions) ↔ P s ∧ Throughout step cond s actions := by
  induction actions generalizing s with
  | nil => exact (and_iff_left trivial).symm
  | cons a actions ih =>
      calc P (run step s (a :: actions))
          ↔ P (step s a) ∧ Throughout step cond (step s a) actions := ih (hstep s a hs)
        _ ↔ (P s ∧ cond s a) ∧ Throughout step cond (step s a) actions := by
            rw [hiff s a hs]
        _ ↔ P s ∧ Throughout step cond s (a :: actions) := and_assoc

end

end PromptCode.Transition
