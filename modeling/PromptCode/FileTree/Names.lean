import PromptCode.FileTree.Walk

/-!
# Names in a directory tree

A condition on every name of a tree.  A write keeps it when the names on its
path meet it, and every path to an entry is made of such names.
-/

namespace PromptCode.FileTree

variable {ν β : Type}

namespace Dir

/-- Every name of the tree meets a condition. -/
def AllNames (P : ν → Prop) : Dir ν β → Prop
  | nil => True
  | file n _ rest => P n ∧ rest.AllNames P
  | link n _ rest => P n ∧ rest.AllNames P
  | special n rest => P n ∧ rest.AllNames P
  | sub n e rest => P n ∧ e.AllNames P ∧ rest.AllNames P

def decidableAllNames (P : ν → Prop) [DecidablePred P] :
    (d : Dir ν β) → Decidable (d.AllNames P)
  | nil => inferInstanceAs (Decidable True)
  | file n _ rest =>
      have := decidableAllNames P rest
      inferInstanceAs (Decidable (P n ∧ rest.AllNames P))
  | link n _ rest =>
      have := decidableAllNames P rest
      inferInstanceAs (Decidable (P n ∧ rest.AllNames P))
  | special n rest =>
      have := decidableAllNames P rest
      inferInstanceAs (Decidable (P n ∧ rest.AllNames P))
  | sub n e rest =>
      have := decidableAllNames P e
      have := decidableAllNames P rest
      inferInstanceAs (Decidable (P n ∧ e.AllNames P ∧ rest.AllNames P))

instance (P : ν → Prop) [DecidablePred P] (d : Dir ν β) :
    Decidable (d.AllNames P) :=
  decidableAllNames P d

section

variable [LinearOrder ν] {P : ν → Prop}

omit [LinearOrder ν] in
theorem AllNames.of_mem_names {d : Dir ν β} (hd : d.AllNames P) {n : ν}
    (hn : n ∈ d.names) : P n := by
  induction d with
  | nil => simp [names] at hn
  | file k b rest ih | link k b rest ih | special k rest ih =>
      rcases List.mem_cons.mp hn with rfl | hn
      · exact hd.1
      · exact ih hd.2 hn
  | sub k e rest _ ih =>
      rcases List.mem_cons.mp hn with rfl | hn
      · exact hd.1
      · exact ih hd.2.2 hn

theorem AllNames.of_find {d : Dir ν β} (hd : d.AllNames P) {n : ν}
    {x : Node ν β} (h : d.find n = some x) : P n := by
  refine hd.of_mem_names ?_
  by_contra hn
  rw [find_eq_none_of_notMem hn] at h
  simp at h

theorem AllNames.of_find_dir {d e : Dir ν β} (hd : d.AllNames P) {n : ν}
    (h : d.find n = some (.dir e)) : e.AllNames P := by
  induction d with
  | nil => simp at h
  | file k b rest ih | link k b rest ih | special k rest ih =>
      simp only [find] at h
      split_ifs at h with hn
      · simp at h
      · exact ih hd.2 h
  | sub k e' rest _ ih =>
      simp only [find] at h
      split_ifs at h with hn
      · obtain rfl : e' = e := by simpa using h
        exact hd.2.1
      · exact ih hd.2.2 h

/-- The names on the way to an entry. -/
theorem AllNames.of_get {d : Dir ν β} (hd : d.AllNames P) {p : List ν}
    {x : Node ν β} (h : d.get p = some x) : ∀ n ∈ p, P n := by
  induction p generalizing d with
  | nil => simp
  | cons n ns ih =>
      intro m hm
      cases hf : d.find n with
      | none => simp [get, hf] at h
      | some y =>
          rcases List.mem_cons.mp hm with rfl | hm
          · exact hd.of_find hf
          · cases y with
            | dir e =>
                rw [get_cons_of_find_dir hf] at h
                exact ih (hd.of_find_dir hf) h m hm
            | file b | link t | special =>
                have hns : ns ≠ [] := List.ne_nil_of_mem hm
                simp [get, hf, hns] at h

omit [LinearOrder ν] in
theorem AllNames.consNode {d : Dir ν β} (hd : d.AllNames P) {n : ν}
    {x : Node ν β} (hn : P n)
    (hx : ∀ e : Dir ν β, x = .dir e → e.AllNames P) :
    (d.consNode n x).AllNames P := by
  cases x with
  | dir e => exact ⟨hn, hx e rfl, hd⟩
  | file b | link t | special => exact ⟨hn, hd⟩

theorem AllNames.set {d : Dir ν β} (hd : d.AllNames P) {n : ν} {x : Node ν β}
    (hn : P n) (hx : ∀ e : Dir ν β, x = .dir e → e.AllNames P) :
    (d.set n x).AllNames P := by
  induction d with
  | nil => exact AllNames.consNode (d := nil) trivial hn hx
  | file k b rest ih | link k b rest ih | special k rest ih =>
      simp only [Dir.set]
      split_ifs
      · exact AllNames.consNode hd.2 hn hx
      · exact AllNames.consNode hd hn hx
      · exact ⟨hd.1, ih hd.2⟩
  | sub k e rest _ ih =>
      simp only [Dir.set]
      split_ifs
      · exact AllNames.consNode hd.2.2 hn hx
      · exact AllNames.consNode hd hn hx
      · exact ⟨hd.1, hd.2.1, ih hd.2.2⟩

theorem AllNames.entered {d e : Dir ν β} (hd : d.AllNames P) {n : ν}
    (h : d.entered n = some e) : e.AllNames P := by
  unfold Dir.entered at h
  cases hf : d.find n with
  | none =>
      obtain rfl : nil = e := by simpa [hf] using h
      trivial
  | some x =>
      cases x with
      | dir e' =>
          obtain rfl : e' = e := by simpa [hf] using h
          exact hd.of_find_dir hf
      | file b | link t | special => simp [hf] at h

theorem AllNames.write {d d' : Dir ν β} (hd : d.AllNames P) {p : List ν} {b : β}
    (hp : ∀ n ∈ p, P n) (h : d.write p b = some d') : d'.AllNames P := by
  induction p generalizing d d' with
  | nil => simp [Dir.write] at h
  | cons n ns ih =>
      have hn : P n := hp n (by simp)
      rcases write_cons_cases h with ⟨-, -, rfl⟩ | ⟨-, e, e', hent, he, rfl⟩
      · exact hd.set hn (by simp)
      · refine hd.set hn fun e₁ heq => ?_
        obtain rfl : e' = e₁ := by simpa using heq
        exact ih (hd.entered hent) (fun m hm => hp m (by simp [hm])) he

theorem AllNames.writeAll {d d' : Dir ν β} (hd : d.AllNames P)
    {fs : List (List ν × β)} (hfs : ∀ w ∈ fs, ∀ n ∈ w.1, P n)
    (h : d.writeAll fs = some d') : d'.AllNames P := by
  induction fs generalizing d with
  | nil =>
      obtain rfl : d = d' := by simpa [Dir.writeAll] using h
      exact hd
  | cons w fs ih =>
      obtain ⟨d₁, hw, hrest⟩ : ∃ d₁, d.write w.1 w.2 = some d₁ ∧
          d₁.writeAll fs = some d' := by
        simpa [Dir.writeAll, Option.bind_eq_some_iff] using h
      exact ih (hd.write (hfs w (by simp)) hw)
        (fun v hv => hfs v (by simp [hv])) hrest

end

end Dir

end PromptCode.FileTree
