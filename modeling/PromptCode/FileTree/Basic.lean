import Mathlib

/-!
# Directory trees

A directory is a list of named entries: regular files, symbolic links, special
files and subdirectories.  Reading follows a list of names downwards; writing a
file creates the missing directories on its way.  Nothing here depends on what
names and file contents are.
-/

namespace PromptCode.FileTree

/-- What a symbolic link resolves to. -/
inductive LinkTarget (β : Type) where
  | dir
  | file (data : β)
  | broken
deriving DecidableEq

/-- The entries of one directory. -/
inductive Dir (ν β : Type) where
  | nil
  | file (name : ν) (data : β) (rest : Dir ν β)
  | link (name : ν) (target : LinkTarget β) (rest : Dir ν β)
  | special (name : ν) (rest : Dir ν β)
  | sub (name : ν) (entries : Dir ν β) (rest : Dir ν β)
deriving DecidableEq

/-- One directory entry without its name. -/
inductive Node (ν β : Type) where
  | file (data : β)
  | link (target : LinkTarget β)
  | special
  | dir (entries : Dir ν β)
deriving DecidableEq

variable {ν β : Type}

namespace Dir

def names : Dir ν β → List ν
  | nil => []
  | file n _ rest => n :: rest.names
  | link n _ rest => n :: rest.names
  | special n rest => n :: rest.names
  | sub n _ rest => n :: rest.names

/-- An entry put in front of a directory. -/
def consNode (n : ν) (x : Node ν β) (d : Dir ν β) : Dir ν β :=
  match x with
  | .file b => file n b d
  | .link t => link n t d
  | .special => special n d
  | .dir e => sub n e d

section Lookup

variable [LinearOrder ν]

/-- The entry with a given name. -/
def find : Dir ν β → ν → Option (Node ν β)
  | nil, _ => none
  | file n b rest, m => if m = n then some (.file b) else rest.find m
  | link n t rest, m => if m = n then some (.link t) else rest.find m
  | special n rest, m => if m = n then some .special else rest.find m
  | sub n e rest, m => if m = n then some (.dir e) else rest.find m

/-- The entry a list of names leads to, links not followed. -/
def get (d : Dir ν β) : List ν → Option (Node ν β)
  | [] => some (.dir d)
  | n :: ns =>
      match d.find n with
      | some (.dir e) => e.get ns
      | some x => if ns = [] then some x else none
      | none => none

/-- The contents of the regular file at a path. -/
def fileAt (d : Dir ν β) (p : List ν) : Option β :=
  match d.get p with
  | some (.file b) => some b
  | _ => none

def isDirAt (d : Dir ν β) (p : List ν) : Bool :=
  match d.get p with
  | some (.dir _) => true
  | _ => false

def isLinkAt (d : Dir ν β) (p : List ν) : Bool :=
  match d.get p with
  | some (.link _) => true
  | _ => false

end Lookup

section Write

variable [LinearOrder ν]

/-- Replace an entry, or insert it at its place in the name order. -/
def set : Dir ν β → ν → Node ν β → Dir ν β
  | nil, m, x => nil.consNode m x
  | file n b rest, m, x =>
      if m = n then rest.consNode m x
      else if m < n then (file n b rest).consNode m x
      else file n b (rest.set m x)
  | link n t rest, m, x =>
      if m = n then rest.consNode m x
      else if m < n then (link n t rest).consNode m x
      else link n t (rest.set m x)
  | special n rest, m, x =>
      if m = n then rest.consNode m x
      else if m < n then (special n rest).consNode m x
      else special n (rest.set m x)
  | sub n e rest, m, x =>
      if m = n then rest.consNode m x
      else if m < n then (sub n e rest).consNode m x
      else sub n e (rest.set m x)

/-- Write a regular file, creating the directories above it.  A link, a special
file or a directory in the place of the file, and anything but a directory in
the place of a directory above it, make the write fail. -/
def write (d : Dir ν β) : List ν → β → Option (Dir ν β)
  | [], _ => none
  | n :: ns, b =>
      if ns = [] then
        match d.find n with
        | none => some (d.set n (.file b))
        | some (.file _) => some (d.set n (.file b))
        | _ => none
      else
        match d.find n with
        | none => (nil.write ns b).map fun e => d.set n (.dir e)
        | some (.dir e) => (e.write ns b).map fun e' => d.set n (.dir e')
        | _ => none

/-- Write files one after another. -/
def writeAll (d : Dir ν β) (fs : List (List ν × β)) : Option (Dir ν β) :=
  fs.foldlM (fun t f => t.write f.1 f.2) d

end Write

/-! ## Entries by name -/

section FindSet

variable [LinearOrder ν]

@[simp] theorem find_nil (m : ν) : (nil : Dir ν β).find m = none := rfl

theorem find_consNode (d : Dir ν β) (n m : ν) (x : Node ν β) :
    (d.consNode n x).find m = if m = n then some x else d.find m := by
  cases x <;> rfl

theorem find_set (d : Dir ν β) (n m : ν) (x : Node ν β) :
    (d.set n x).find m = if m = n then some x else d.find m := by
  induction d with
  | nil => simp [set, find_consNode]
  | file k b rest ih | link k b rest ih | special k rest ih
  | sub k b rest _ ih =>
      by_cases hn : n = k
      · subst hn
        by_cases hm : m = n <;> simp [set, find_consNode, find, hm]
      · by_cases hlt : n < k
        · simp [set, hn, hlt, find_consNode]
        · simp only [set, hn, hlt, if_false, find, ih]
          by_cases hm : m = k
          · subst hm
            simp [Ne.symm hn]
          · simp [hm]

end FindSet

/-! ## Entries by path -/

section GetWrite

variable [LinearOrder ν]

@[simp] theorem get_root (d : Dir ν β) : d.get [] = some (.dir d) := rfl

theorem get_cons_of_find_dir {d e : Dir ν β} {n : ν} (h : d.find n = some (.dir e))
    (ns : List ν) : d.get (n :: ns) = e.get ns := by
  simp [get, h]

theorem get_cons_of_find_none {d : Dir ν β} {n : ν} (h : d.find n = none)
    (ns : List ν) : d.get (n :: ns) = none := by
  simp [get, h]

theorem get_singleton (d : Dir ν β) (n : ν) : d.get [n] = d.find n := by
  cases h : d.find n with
  | none => simp [get, h]
  | some x => cases x <;> simp [get, h]

theorem get_nil_cons (n : ν) (ns : List ν) :
    (nil : Dir ν β).get (n :: ns) = none := rfl

/-- Everything above an existing entry is a directory. -/
theorem exists_dir_of_get_append {d : Dir ν β} {p q : List ν} {x : Node ν β}
    (hq : q ≠ []) (h : d.get (p ++ q) = some x) :
    ∃ e : Dir ν β, d.get p = some (.dir e) ∧ e.get q = some x := by
  induction p generalizing d with
  | nil => exact ⟨d, rfl, h⟩
  | cons n p ih =>
      cases hf : d.find n with
      | none => simp [get, hf] at h
      | some y =>
          cases y with
          | dir e =>
              have he : e.get (p ++ q) = some x := by
                simpa [get, hf] using h
              obtain ⟨e', hp, hq'⟩ := ih he
              exact ⟨e', by simpa [get, hf] using hp, hq'⟩
          | file b => simp [get, hf, hq] at h
          | link t => simp [get, hf, hq] at h
          | special => simp [get, hf, hq] at h

theorem get_append_of_dir {d e : Dir ν β} {p : List ν}
    (h : d.get p = some (.dir e)) (q : List ν) : d.get (p ++ q) = e.get q := by
  induction p generalizing d with
  | nil =>
      obtain rfl : d = e := by simpa using h
      rfl
  | cons n p ih =>
      cases hf : d.find n with
      | none => simp [get, hf] at h
      | some y =>
          cases y with
          | dir e' =>
              rw [get_cons_of_find_dir hf] at h
              rw [List.cons_append, get_cons_of_find_dir hf, ih h]
          | file b | link t | special => simp [get, hf] at h

theorem fileAt_eq_some_iff {d : Dir ν β} {p : List ν} {b : β} :
    d.fileAt p = some b ↔ d.get p = some (.file b) := by
  unfold fileAt
  cases h : d.get p with
  | none => simp
  | some x => cases x <;> simp

theorem exists_dir_of_prefix {d : Dir ν β} {p q : List ν} {x : Node ν β}
    (hpq : p <+: q) (hne : p ≠ q) (h : d.get q = some x) :
    ∃ e : Dir ν β, d.get p = some (.dir e) := by
  obtain ⟨r, rfl⟩ := hpq
  have hr : r ≠ [] := by
    rintro rfl
    simp at hne
  obtain ⟨e, he, -⟩ := exists_dir_of_get_append hr h
  exact ⟨e, he⟩

/-- What a write needs: directories above the file, and no more than an older
file in its place. -/
structure Writable (d : Dir ν β) (p : List ν) : Prop where
  ne_nil : p ≠ []
  above : ∀ q, q <+: p → q ≠ p →
    d.get q = none ∨ ∃ e : Dir ν β, d.get q = some (.dir e)
  place : d.get p = none ∨ ∃ b, d.get p = some (.file b)

/-- The subdirectory a write enters: the one that is there, or a new one. -/
def entered (d : Dir ν β) (n : ν) : Option (Dir ν β) :=
  match d.find n with
  | none => some nil
  | some (.dir e) => some e
  | _ => none

theorem get_cons_of_entered {d e : Dir ν β} {n : ν} (h : d.entered n = some e)
    {ns : List ν} (hns : ns ≠ []) : d.get (n :: ns) = e.get ns := by
  unfold entered at h
  cases hf : d.find n with
  | none =>
      obtain rfl : nil = e := by simpa [hf] using h
      obtain ⟨m, ms, rfl⟩ := List.exists_cons_of_ne_nil hns
      rw [get_cons_of_find_none hf, get_nil_cons]
  | some x =>
      cases x with
      | dir e' =>
          obtain rfl : e' = e := by simpa [hf] using h
          exact get_cons_of_find_dir hf ns
      | file b | link t | special => simp [hf] at h

/-- What a successful write does at the first name of its path. -/
theorem write_cons_cases {d d' : Dir ν β} {n : ν} {ns : List ν} {b : β}
    (h : d.write (n :: ns) b = some d') :
    (ns = [] ∧ (d.find n = none ∨ ∃ b', d.find n = some (.file b')) ∧
        d' = d.set n (.file b)) ∨
      (ns ≠ [] ∧ ∃ e e', d.entered n = some e ∧ e.write ns b = some e' ∧
        d' = d.set n (.dir e')) := by
  by_cases hns : ns = []
  · subst hns
    refine Or.inl ⟨rfl, ?_⟩
    cases hf : d.find n with
    | none => exact ⟨Or.inl rfl, by simpa [write, hf, eq_comm] using h⟩
    | some x =>
        cases x with
        | file b' => exact ⟨Or.inr ⟨b', rfl⟩, by simpa [write, hf, eq_comm] using h⟩
        | link t | special | dir e => simp [write, hf] at h
  · refine Or.inr ⟨hns, ?_⟩
    cases hf : d.find n with
    | none =>
        obtain ⟨e', he, rfl⟩ : ∃ e', nil.write ns b = some e' ∧
            d.set n (.dir e') = d' := by
          simpa [write, hns, hf] using h
        exact ⟨nil, e', by simp [entered, hf], he, rfl⟩
    | some x =>
        cases x with
        | dir e =>
            obtain ⟨e', he, rfl⟩ : ∃ e', e.write ns b = some e' ∧
                d.set n (.dir e') = d' := by
              simpa [write, hns, hf] using h
            exact ⟨e, e', by simp [entered, hf], he, rfl⟩
        | file b' | link t | special => simp [write, hns, hf] at h

theorem write_cons_of_entered {d e e' : Dir ν β} {n : ν} {ns : List ν} {b : β}
    (hns : ns ≠ []) (h : d.entered n = some e) (he : e.write ns b = some e') :
    d.write (n :: ns) b = some (d.set n (.dir e')) := by
  unfold entered at h
  cases hf : d.find n with
  | none =>
      obtain rfl : nil = e := by simpa [hf] using h
      simp only [write, hns, if_false, hf, he, Option.map_some]
  | some x =>
      cases x with
      | dir e₀ =>
          obtain rfl : e₀ = e := by simpa [hf] using h
          simp only [write, hns, if_false, hf, he, Option.map_some]
      | file b' | link t | special => simp [hf] at h

/-- Nothing but missing names and directories lies above a written file, and
nothing but an older file in its place. -/
theorem writable_of_write {d d' : Dir ν β} {p : List ν} {b : β}
    (h : d.write p b = some d') : d.Writable p := by
  induction p generalizing d d' with
  | nil => simp [write] at h
  | cons n ns ih =>
      have habove {e : Dir ν β} (hent : d.entered n = some e) :
          d.get [n] = none ∨ ∃ e', d.get [n] = some (.dir e') := by
        rw [get_singleton]
        unfold entered at hent
        cases hf : d.find n with
        | none => exact Or.inl rfl
        | some x => cases x <;> simp_all
      rcases write_cons_cases h with ⟨rfl, hfind, -⟩ | ⟨hns, e, e', hent, he, -⟩
      · refine ⟨by simp, ?_, by rwa [get_singleton]⟩
        intro q hq hne
        cases q with
        | nil => exact Or.inr ⟨d, rfl⟩
        | cons m q =>
            obtain ⟨rfl, hq'⟩ := List.cons_prefix_cons.mp hq
            exact absurd (by rw [List.prefix_nil.mp hq']) hne
      · have hw := ih he
        refine ⟨by simp, ?_, ?_⟩
        · intro q hq hne
          cases q with
          | nil => exact Or.inr ⟨d, rfl⟩
          | cons m q =>
              obtain ⟨rfl, hq'⟩ := List.cons_prefix_cons.mp hq
              by_cases hqnil : q = []
              · subst hqnil
                exact habove hent
              · rw [get_cons_of_entered hent hqnil]
                exact hw.above q hq' (by simpa using hne)
        · rw [get_cons_of_entered hent hns]
          exact hw.place

/-- A write succeeds wherever the tree leaves room for the file. -/
theorem Writable.exists_write {d : Dir ν β} {p : List ν} (hw : d.Writable p)
    (b : β) : ∃ d', d.write p b = some d' := by
  induction p generalizing d with
  | nil => exact absurd rfl hw.ne_nil
  | cons n ns ih =>
      by_cases hns : ns = []
      · subst hns
        have hplace := hw.place
        rw [get_singleton] at hplace
        rcases hplace with hf | ⟨b', hf⟩ <;> simp [write, hf]
      · have hab := hw.above [n]
          (List.cons_prefix_cons.mpr ⟨rfl, List.nil_prefix⟩)
          (by simpa using Ne.symm hns)
        rw [get_singleton] at hab
        have hent : ∃ e, d.entered n = some e := by
          rcases hab with hf | ⟨e, hf⟩ <;> simp [entered, hf]
        obtain ⟨e, hent⟩ := hent
        have hwe : e.Writable ns := by
          refine ⟨hns, ?_, ?_⟩
          · intro q hq hne
            cases q with
            | nil => exact Or.inr ⟨e, rfl⟩
            | cons m q =>
                rw [← get_cons_of_entered hent (by simp)]
                exact hw.above _ (List.cons_prefix_cons.mpr ⟨rfl, hq⟩)
                  (by simpa using hne)
          · rw [← get_cons_of_entered hent hns]
            exact hw.place
        obtain ⟨e', he⟩ := ih hwe
        exact ⟨_, write_cons_of_entered hns hent he⟩

theorem get_write_self {d d' : Dir ν β} {p : List ν} {b : β}
    (h : d.write p b = some d') : d'.get p = some (.file b) := by
  induction p generalizing d d' with
  | nil => simp [write] at h
  | cons n ns ih =>
      rcases write_cons_cases h with ⟨rfl, -, rfl⟩ | ⟨-, e, e', -, he, rfl⟩
      · simp [get_singleton, find_set]
      · rw [get_cons_of_find_dir (e := e') (by simp [find_set])]
        exact ih he

/-- A write changes nothing off the way to its file. -/
theorem get_write_of_not_below {d d' : Dir ν β} {p q : List ν} {b : β}
    (h : d.write p b = some d') (hq : ¬ q <+: p) : d'.get q = d.get q := by
  induction p generalizing d d' q with
  | nil => simp [write] at h
  | cons n ns ih =>
      cases q with
      | nil => exact absurd List.nil_prefix hq
      | cons m ms =>
          by_cases hmn : m = n
          · subst hmn
            have hms : ¬ ms <+: ns := fun hp =>
              hq (List.cons_prefix_cons.mpr ⟨rfl, hp⟩)
            have hmsne : ms ≠ [] := by
              rintro rfl
              exact hms List.nil_prefix
            rcases write_cons_cases h with
              ⟨rfl, hfind, rfl⟩ | ⟨-, e, e', hent, he, rfl⟩
            · rcases hfind with hf | ⟨b', hf⟩ <;>
                simp [get, find_set, hf, hmsne]
            · rw [get_cons_of_find_dir (e := e') (by simp [find_set]),
                ih he hms, get_cons_of_entered hent hmsne]
          · obtain ⟨x, rfl⟩ : ∃ x, d' = d.set n x := by
              rcases write_cons_cases h with ⟨-, -, rfl⟩ | ⟨-, e, e', -, -, rfl⟩
              · exact ⟨_, rfl⟩
              · exact ⟨_, rfl⟩
            simp [get, find_set, hmn]

/-- The contents of the files after a write: a function update. -/
theorem fileAt_write {d d' : Dir ν β} {p : List ν} {b : β}
    (h : d.write p b = some d') :
    d'.fileAt = Function.update d.fileAt p (some b) := by
  funext q
  by_cases hqp : q = p
  · subst hqp
    simp [fileAt, get_write_self h]
  · rw [Function.update_of_ne hqp]
    by_cases hbelow : q <+: p
    · obtain ⟨e, he⟩ := exists_dir_of_prefix hbelow hqp (get_write_self h)
      rcases (writable_of_write h).above q hbelow hqp with hold | ⟨e', hold⟩ <;>
        simp [fileAt, he, hold]
    · simp [fileAt, get_write_of_not_below h hbelow]

theorem fileAt_write_self {d d' : Dir ν β} {p : List ν} {b : β}
    (h : d.write p b = some d') : d'.fileAt p = some b :=
  fileAt_eq_some_iff.mpr (get_write_self h)

theorem fileAt_write_of_ne {d d' : Dir ν β} {p q : List ν} {b : β}
    (h : d.write p b = some d') (hq : q ≠ p) : d'.fileAt q = d.fileAt q := by
  rw [fileAt_write h, Function.update_of_ne hq]

/-- Every file of a tree has a path and contents of a kind. -/
def FilesAt (P : List ν → β → Prop) (d : Dir ν β) : Prop :=
  ∀ p b, d.fileAt p = some b → P p b

theorem FilesAt.write {P : List ν → β → Prop} {d d' : Dir ν β} {p : List ν} {b : β}
    (hd : d.FilesAt P) (h : d.write p b = some d') (hp : P p b) : d'.FilesAt P := by
  intro q c hq
  by_cases hqp : q = p
  · subst hqp
    rw [fileAt_write_self h] at hq
    exact Option.some.inj hq ▸ hp
  · exact hd q c (fileAt_write_of_ne h hqp ▸ hq)

/-- A tree of regular files and directories only. -/
def Plain (d : Dir ν β) : Prop :=
  ∀ p x, d.get p = some x → (∃ b, x = .file b) ∨ ∃ e : Dir ν β, x = .dir e

theorem Plain.write {d d' : Dir ν β} {p : List ν} {b : β} (hd : d.Plain)
    (h : d.write p b = some d') : d'.Plain := by
  intro q x hx
  by_cases hqp : q = p
  · subst hqp
    rw [get_write_self h] at hx
    exact Or.inl ⟨b, (Option.some.inj hx).symm⟩
  · by_cases hbelow : q <+: p
    · obtain ⟨e, he⟩ := exists_dir_of_prefix hbelow hqp (get_write_self h)
      rw [he] at hx
      exact Or.inr ⟨e, (Option.some.inj hx).symm⟩
    · exact hd q x (get_write_of_not_below h hbelow ▸ hx)

/-- File contents by path, with some files replaced in order. -/
def updateAll (f : List ν → Option β) (fs : List (List ν × β)) :
    List ν → Option β :=
  fs.foldl (fun g w => Function.update g w.1 (some w.2)) f

theorem fileAt_writeAll {d d' : Dir ν β} {fs : List (List ν × β)}
    (h : d.writeAll fs = some d') : d'.fileAt = updateAll d.fileAt fs := by
  induction fs generalizing d with
  | nil =>
      obtain rfl : d = d' := by simpa [writeAll] using h
      rfl
  | cons w fs ih =>
      obtain ⟨d₁, hw, hrest⟩ : ∃ d₁, d.write w.1 w.2 = some d₁ ∧
          d₁.writeAll fs = some d' := by
        simpa [writeAll, Option.bind_eq_some_iff] using h
      rw [ih hrest, updateAll, updateAll, List.foldl_cons, fileAt_write hw]

theorem updateAll_of_notMem {f : List ν → Option β} {fs : List (List ν × β)}
    {p : List ν} (hp : p ∉ fs.map Prod.fst) : updateAll f fs p = f p := by
  induction fs generalizing f with
  | nil => rfl
  | cons w fs ih =>
      simp only [List.map_cons, List.mem_cons, not_or] at hp
      have hstep : updateAll f (w :: fs) p =
          updateAll (Function.update f w.1 (some w.2)) fs p := rfl
      rw [hstep, ih hp.2, Function.update_of_ne hp.1]

/-- With each path replaced at most once, the order does not matter. -/
theorem updateAll_of_mem {f : List ν → Option β} {fs : List (List ν × β)}
    {p : List ν} {b : β} (hnodup : (fs.map Prod.fst).Nodup)
    (hp : (p, b) ∈ fs) : updateAll f fs p = some b := by
  induction fs generalizing f with
  | nil => simp at hp
  | cons w fs ih =>
      rw [List.map_cons, List.nodup_cons] at hnodup
      have hstep : updateAll f (w :: fs) p =
          updateAll (Function.update f w.1 (some w.2)) fs p := rfl
      rw [hstep]
      rcases List.mem_cons.mp hp with rfl | hp
      · rw [updateAll_of_notMem hnodup.1, Function.update_self]
      · exact ih hnodup.2 hp

theorem updateAll_eq_some_iff {fs : List (List ν × β)} {p : List ν} {b : β}
    (hnodup : (fs.map Prod.fst).Nodup) :
    updateAll (fun _ => none) fs p = some b ↔ (p, b) ∈ fs := by
  constructor
  · intro h
    by_cases hmem : p ∈ fs.map Prod.fst
    · obtain ⟨w, hw, rfl⟩ := List.mem_map.mp hmem
      rw [updateAll_of_mem hnodup (b := w.2) hw] at h
      obtain rfl := Option.some.inj h
      exact hw
    · rw [updateAll_of_notMem hmem] at h
      simp at h
  · exact updateAll_of_mem hnodup

/-! ## Trees that fit inside another -/

/-- Every file of the first tree is a file of the second, every directory a
directory, and the first holds no link or special file. -/
def FitsIn (d t : Dir ν β) : Prop :=
  ∀ p x, d.get p = some x →
    (∃ b b', x = .file b ∧ t.get p = some (.file b')) ∨
      (∃ e e' : Dir ν β, x = .dir e ∧ t.get p = some (.dir e'))

theorem Plain.fitsIn_self {d : Dir ν β} (hd : d.Plain) : d.FitsIn d := by
  intro p x hx
  rcases hd p x hx with ⟨b, rfl⟩ | ⟨e, rfl⟩
  · exact Or.inl ⟨b, b, rfl, hx⟩
  · exact Or.inr ⟨e, e, rfl, hx⟩

theorem fitsIn_nil (t : Dir ν β) : (nil : Dir ν β).FitsIn t := by
  intro p x h
  cases p with
  | nil => exact Or.inr ⟨nil, t, by simpa using h.symm, rfl⟩
  | cons n ns => simp [get_nil_cons] at h

/-- A file of the larger tree can be written into the smaller one. -/
theorem FitsIn.exists_write {d t : Dir ν β} (hfits : d.FitsIn t) {p : List ν}
    {b₀ : β} (ht : t.get p = some (.file b₀)) (hp : p ≠ []) (b : β) :
    ∃ d', d.write p b = some d' ∧ d'.FitsIn t := by
  have hw : d.Writable p := by
    refine ⟨hp, ?_, ?_⟩
    · intro q hq hne
      obtain ⟨e, he⟩ := exists_dir_of_prefix hq hne ht
      cases hx : d.get q with
      | none => exact Or.inl rfl
      | some x =>
          rcases hfits q x hx with ⟨c, c', -, htq⟩ | ⟨e₁, e₂, rfl, -⟩
          · simp [he] at htq
          · exact Or.inr ⟨e₁, rfl⟩
    · cases hx : d.get p with
      | none => exact Or.inl rfl
      | some x =>
          rcases hfits p x hx with ⟨c, c', rfl, -⟩ | ⟨e₁, e₂, -, htp⟩
          · exact Or.inr ⟨c, rfl⟩
          · simp [ht] at htp
  obtain ⟨d', hd'⟩ := hw.exists_write b
  refine ⟨d', hd', ?_⟩
  intro q x hx
  by_cases hqp : q = p
  · subst hqp
    rw [get_write_self hd'] at hx
    exact Or.inl ⟨b, b₀, by simpa using hx.symm, ht⟩
  · by_cases hbelow : q <+: p
    · obtain ⟨e, he⟩ := exists_dir_of_prefix hbelow hqp (get_write_self hd')
      obtain ⟨e', he'⟩ := exists_dir_of_prefix hbelow hqp ht
      rw [he] at hx
      exact Or.inr ⟨e, e', by simpa using hx.symm, he'⟩
    · rw [get_write_of_not_below hd' hbelow] at hx
      exact hfits q x hx

theorem FitsIn.exists_writeAll {d t : Dir ν β} (hfits : d.FitsIn t)
    {fs : List (List ν × β)}
    (hfs : ∀ w ∈ fs, w.1 ≠ [] ∧ ∃ b, t.get w.1 = some (.file b)) :
    ∃ d', d.writeAll fs = some d' ∧ d'.FitsIn t := by
  induction fs generalizing d with
  | nil => exact ⟨d, rfl, hfits⟩
  | cons w fs ih =>
      obtain ⟨hne, b₀, hb₀⟩ := hfs w (by simp)
      obtain ⟨d₁, hw, hfits₁⟩ := hfits.exists_write hb₀ hne w.2
      obtain ⟨d', hrest, hfits'⟩ := ih hfits₁ fun v hv => hfs v (by simp [hv])
      refine ⟨d', ?_, hfits'⟩
      simpa [writeAll, Option.bind_eq_some_iff] using ⟨d₁, hw, hrest⟩

end GetWrite

end Dir

end PromptCode.FileTree
