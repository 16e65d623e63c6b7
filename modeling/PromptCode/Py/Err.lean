import PromptCode.Py.Str

/-!
# Python exceptions

The exceptions that the modelled functions raise, with the texts they carry.
-/

namespace PromptCode.Py

inductive PyErr where
  | permission (msg : String)
  | value (msg : String)
  | unicodeEncode
  | fileNotFound
  | os
  | integrity
  | objectNotFound
  | objectTooLarge
  | http (status : ℕ) (detail : String)
  | type
  | zeroDivision
deriving DecidableEq

/-- `isinstance(exc, ValueError)`: `UnicodeEncodeError` is one. -/
def PyErr.isValueError : PyErr → Bool
  | .value _ => true
  | .unicodeEncode => true
  | _ => false

/-- A sequence of two steps succeeds when both do. -/
theorem bind_eq_ok {ε α β : Type} {x : Except ε α} {f : α → Except ε β} {b : β} :
    (x >>= f) = .ok b ↔ ∃ a, x = .ok a ∧ f a = .ok b := by
  rcases x with e | a
  · simp [bind, Except.bind]
  · simp [bind, Except.bind]

/-- A check that raises. -/
theorem ite_error_eq_ok {α : Type} {c : Prop} [Decidable c] {e : PyErr}
    {x : Except PyErr α} {b : α} :
    (if c then .error e else x) = .ok b ↔ ¬ c ∧ x = .ok b := by
  by_cases hc : c <;> simp [hc]

/-- What a loop that appends one result for each item yields. -/
theorem mapM_ok_iff_forall {α β : Type} {g : α → Except PyErr β} {l : List α}
    {l' : List β} :
    l.mapM g = .ok l' ↔ List.Forall₂ (fun a b => g a = .ok b) l l' := by
  induction l generalizing l' with
  | nil =>
      rw [List.mapM_nil]
      constructor
      · intro h
        obtain rfl := Except.ok.inj h
        exact List.Forall₂.nil
      · intro h
        cases h
        rfl
  | cons a l ih =>
      rw [List.mapM_cons]
      constructor
      · intro h
        cases ha : g a with
        | error e => simp [ha, bind, Except.bind] at h
        | ok b =>
            cases hl : l.mapM g with
            | error e => simp [ha, hl, bind, Except.bind] at h
            | ok bs =>
                rw [ha, hl] at h
                obtain rfl := Except.ok.inj h
                exact List.Forall₂.cons ha (ih.mp hl)
      · intro h
        cases h with
        | cons ha hl =>
            rw [ha, ih.mpr hl]
            rfl

theorem mem_of_mapM_ok {α β : Type} {g : α → Except PyErr β} {l : List α}
    {l' : List β} (h : l.mapM g = .ok l') {b : β} (hb : b ∈ l') :
    ∃ a ∈ l, g a = .ok b := by
  rw [mapM_ok_iff_forall] at h
  induction h with
  | nil => simp at hb
  | @cons a c l l' ha _ ih =>
      rcases List.mem_cons.mp hb with rfl | hb
      · exact ⟨a, by simp, ha⟩
      · obtain ⟨a', ha', h'⟩ := ih hb
        exact ⟨a', by simp [ha'], h'⟩

/-- A loop whose results show their items. -/
theorem map_of_mapM_ok {α β : Type} {g : α → Except PyErr β} {f : β → α} {l : List α}
    {l' : List β} (h : l.mapM g = .ok l') (hf : ∀ a b, g a = .ok b → f b = a) :
    l'.map f = l := by
  rw [mapM_ok_iff_forall] at h
  induction h with
  | nil => rfl
  | cons ha _ ih => rw [List.map_cons, hf _ _ ha, ih]

theorem exists_mapM_ok {α β : Type} {g : α → Except PyErr β} {l : List α}
    (h : ∀ a ∈ l, ∃ b, g a = .ok b) : ∃ l', l.mapM g = .ok l' := by
  induction l with
  | nil => exact ⟨[], rfl⟩
  | cons a l ih =>
      obtain ⟨b, hb⟩ := h a (by simp)
      obtain ⟨l', hl⟩ := ih fun c hc => h c (by simp [hc])
      exact ⟨b :: l', mapM_ok_iff_forall.mpr
        (List.Forall₂.cons hb (mapM_ok_iff_forall.mp hl))⟩

end PromptCode.Py
