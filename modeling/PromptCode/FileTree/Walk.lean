import PromptCode.FileTree.Basic

/-!
# Walking a directory tree

`os.walk` from the top, with the names of a directory in order.  Each step
reports the subdirectories and the other entries of one directory; the walk
descends only into the subdirectories that are kept.
-/

namespace PromptCode.FileTree

variable {ν β : Type}

/-- One step of a walk: a directory, its subdirectories (a flag marks links to
directories) and its other entries. -/
structure Step (ν β : Type) where
  dirpath : List ν
  dirs : List (ν × Bool)
  files : List (ν × Node ν β)

def Step.under (n : ν) (s : Step ν β) : Step ν β :=
  { s with dirpath := n :: s.dirpath }

/-- The entries of a step that are not directories, with their paths. -/
def Step.paths (s : Step ν β) : List (List ν × Node ν β) :=
  s.files.map fun e => (s.dirpath ++ [e.1], e.2)

/-- The entries that `os.walk` lists among the files of a directory. -/
def Node.isFileEntry : Node ν β → Bool
  | .file _ => true
  | .link .dir => false
  | .link _ => true
  | .special => true
  | .dir _ => false

namespace Dir

def dirEntries : Dir ν β → List (ν × Bool)
  | nil => []
  | file _ _ rest => rest.dirEntries
  | link n .dir rest => (n, true) :: rest.dirEntries
  | link _ (.file _) rest => rest.dirEntries
  | link _ .broken rest => rest.dirEntries
  | special _ rest => rest.dirEntries
  | sub n _ rest => (n, false) :: rest.dirEntries

def fileEntries : Dir ν β → List (ν × Node ν β)
  | nil => []
  | file n b rest => (n, .file b) :: rest.fileEntries
  | link _ .dir rest => rest.fileEntries
  | link n (.file b) rest => (n, .link (.file b)) :: rest.fileEntries
  | link n .broken rest => (n, .link .broken) :: rest.fileEntries
  | special n rest => (n, .special) :: rest.fileEntries
  | sub _ _ rest => rest.fileEntries

/-- The step of a walk at one directory. -/
def step (d : Dir ν β) : Step ν β where
  dirpath := []
  dirs := d.dirEntries
  files := d.fileEntries

/-- The steps of a walk below one directory. -/
def walkBelow (keep : ν → Bool) : Dir ν β → List (Step ν β)
  | nil => []
  | file _ _ rest => rest.walkBelow keep
  | link _ _ rest => rest.walkBelow keep
  | special _ rest => rest.walkBelow keep
  | sub n e rest =>
      (if keep n then (e.step :: e.walkBelow keep).map (Step.under n) else []) ++
        rest.walkBelow keep

/-- `os.walk(d)` from the top, descending into the kept subdirectories. -/
def osWalk (keep : ν → Bool) (d : Dir ν β) : List (Step ν β) :=
  d.step :: d.walkBelow keep

/-- The entries other than directories that a walk meets, with their paths. -/
def walkPaths (keep : ν → Bool) (d : Dir ν β) : List (List ν × Node ν β) :=
  (d.osWalk keep).flatMap Step.paths

end Dir

section Sorted

variable [LinearOrder ν]

/-- The names of every directory of the tree are in strict order. -/
def Dir.Sorted : Dir ν β → Prop
  | .nil => True
  | .file n _ rest => (∀ m ∈ rest.names, n < m) ∧ rest.Sorted
  | .link n _ rest => (∀ m ∈ rest.names, n < m) ∧ rest.Sorted
  | .special n rest => (∀ m ∈ rest.names, n < m) ∧ rest.Sorted
  | .sub n e rest => (∀ m ∈ rest.names, n < m) ∧ e.Sorted ∧ rest.Sorted

def Dir.decidableSorted : (d : Dir ν β) → Decidable d.Sorted
  | .nil => inferInstanceAs (Decidable True)
  | .file n _ rest =>
      have := rest.decidableSorted
      inferInstanceAs (Decidable ((∀ m ∈ rest.names, n < m) ∧ rest.Sorted))
  | .link n _ rest =>
      have := rest.decidableSorted
      inferInstanceAs (Decidable ((∀ m ∈ rest.names, n < m) ∧ rest.Sorted))
  | .special n rest =>
      have := rest.decidableSorted
      inferInstanceAs (Decidable ((∀ m ∈ rest.names, n < m) ∧ rest.Sorted))
  | .sub n e rest =>
      have := e.decidableSorted
      have := rest.decidableSorted
      inferInstanceAs
        (Decidable ((∀ m ∈ rest.names, n < m) ∧ e.Sorted ∧ rest.Sorted))

instance (d : Dir ν β) : Decidable d.Sorted := d.decidableSorted

def Node.Sorted : Node ν β → Prop
  | .dir e => e.Sorted
  | _ => True

end Sorted

namespace Dir

/-! ## Names in order -/

theorem names_consNode (d : Dir ν β) (n : ν) (x : Node ν β) :
    (d.consNode n x).names = n :: d.names := by
  cases x <;> rfl

section Names

variable [LinearOrder ν]

theorem find_eq_none_of_notMem {d : Dir ν β} {n : ν} (h : n ∉ d.names) :
    d.find n = none := by
  induction d with
  | nil => rfl
  | file m b rest ih | link m b rest ih | special m rest ih
  | sub m b rest _ ih =>
      simp only [names, List.mem_cons, not_or] at h
      simp [find, h.1, ih h.2]

theorem mem_names_set {d : Dir ν β} {n m : ν} {x : Node ν β}
    (h : m ∈ (d.set n x).names) : m = n ∨ m ∈ d.names := by
  induction d with
  | nil => simpa [set, names_consNode] using h
  | file k b rest ih | link k b rest ih | special k rest ih
  | sub k b rest _ ih =>
      simp only [set] at h
      split_ifs at h with hn hlt
      · simp only [names_consNode, List.mem_cons] at h
        simp only [names, List.mem_cons]
        tauto
      · simpa [names_consNode, names] using h
      · simp only [names, List.mem_cons] at h ⊢
        rcases h with h | h
        · exact Or.inr (Or.inl h)
        · rcases ih h with h | h
          · exact Or.inl h
          · exact Or.inr (Or.inr h)

theorem sorted_consNode {d : Dir ν β} {n : ν} {x : Node ν β}
    (hn : ∀ m ∈ d.names, n < m) (hd : d.Sorted) (hx : x.Sorted) :
    (d.consNode n x).Sorted := by
  cases x with
  | dir e => exact ⟨hn, hx, hd⟩
  | file b | link t | special => exact ⟨hn, hd⟩

theorem Sorted.set {d : Dir ν β} (hd : d.Sorted) {n : ν} {x : Node ν β}
    (hx : x.Sorted) : (d.set n x).Sorted := by
  have hbelow {k : ν} {rest : Dir ν β} (hk : ∀ m ∈ rest.names, k < m)
      (hlt : ¬ n < k) (hne : n ≠ k) : ∀ m ∈ (rest.set n x).names, k < m := by
    intro m hm
    rcases mem_names_set hm with rfl | hm
    · exact lt_of_le_of_ne (not_lt.mp hlt) (Ne.symm hne)
    · exact hk m hm
  induction d with
  | nil => exact sorted_consNode (by simp [names]) trivial hx
  | file k b rest ih | link k b rest ih | special k rest ih =>
      simp only [Dir.set]
      split_ifs with hn hlt
      · exact sorted_consNode (hn ▸ hd.1) hd.2 hx
      · refine sorted_consNode ?_ hd hx
        intro m hm
        rcases List.mem_cons.mp hm with rfl | hm
        · exact hlt
        · exact hlt.trans (hd.1 m hm)
      · exact ⟨hbelow hd.1 hlt hn, ih hd.2⟩
  | sub k e rest _ ih =>
      simp only [Dir.set]
      split_ifs with hn hlt
      · exact sorted_consNode (hn ▸ hd.1) hd.2.2 hx
      · refine sorted_consNode ?_ hd hx
        intro m hm
        rcases List.mem_cons.mp hm with rfl | hm
        · exact hlt
        · exact hlt.trans (hd.1 m hm)
      · exact ⟨hbelow hd.1 hlt hn, hd.2.1, ih hd.2.2⟩

theorem Sorted.of_find_dir {d e : Dir ν β} {n : ν} (hd : d.Sorted)
    (h : d.find n = some (.dir e)) : e.Sorted := by
  induction d with
  | nil => simp at h
  | file k b rest ih | link k b rest ih | special k rest ih =>
      simp only [find] at h
      split_ifs at h with hn
      · simp at h
      · exact ih hd.2 h
  | sub k e' rest _ ih =>
      simp only [find] at h
      split_ifs at h with hn
      · obtain rfl : e' = e := by simpa using h
        exact hd.2.1
      · exact ih hd.2.2 h

theorem Sorted.entered {d e : Dir ν β} {n : ν} (hd : d.Sorted)
    (h : d.entered n = some e) : e.Sorted := by
  unfold Dir.entered at h
  cases hf : d.find n with
  | none =>
      obtain rfl : nil = e := by simpa [hf] using h
      trivial
  | some x =>
      cases x with
      | dir e' =>
          obtain rfl : e' = e := by simpa [hf] using h
          exact hd.of_find_dir hf
      | file b | link t | special => simp [hf] at h

theorem Sorted.write {d d' : Dir ν β} (hd : d.Sorted) {p : List ν} {b : β}
    (h : d.write p b = some d') : d'.Sorted := by
  induction p generalizing d d' with
  | nil => simp [Dir.write] at h
  | cons n ns ih =>
      rcases write_cons_cases h with ⟨-, -, rfl⟩ | ⟨-, e, e', hent, he, rfl⟩
      · exact hd.set trivial
      · exact hd.set (ih (hd.entered hent) he)

theorem Sorted.writeAll {d d' : Dir ν β} (hd : d.Sorted)
    {fs : List (List ν × β)} (h : d.writeAll fs = some d') : d'.Sorted := by
  induction fs generalizing d with
  | nil =>
      obtain rfl : d = d' := by simpa [Dir.writeAll] using h
      exact hd
  | cons w fs ih =>
      obtain ⟨d₁, hw, hrest⟩ : ∃ d₁, d.write w.1 w.2 = some d₁ ∧
          d₁.writeAll fs = some d' := by
        simpa [Dir.writeAll, Option.bind_eq_some_iff] using h
      exact ih (hd.write hw) hrest

end Names

/-! ## What a walk meets -/

/-- The entries below a directory's own level. -/
def pathsBelow (keep : ν → Bool) (d : Dir ν β) : List (List ν × Node ν β) :=
  (d.walkBelow keep).flatMap Step.paths

theorem walkPaths_eq (keep : ν → Bool) (d : Dir ν β) :
    d.walkPaths keep =
      d.fileEntries.map (fun e => ([e.1], e.2)) ++ d.pathsBelow keep := by
  simp [walkPaths, osWalk, pathsBelow, Step.paths, step]

theorem pathsBelow_sub (keep : ν → Bool) (n : ν) (e rest : Dir ν β) :
    (sub n e rest).pathsBelow keep =
      (if keep n then (e.walkPaths keep).map (fun w => (n :: w.1, w.2)) else []) ++
        rest.pathsBelow keep := by
  have hunder (s : Step ν β) :
      (s.under n).paths = s.paths.map (fun w => (n :: w.1, w.2)) := by
    simp [Step.paths, Step.under]
  by_cases hk : keep n = true
  · simp only [pathsBelow, walkBelow, hk, if_true, List.flatMap_append,
      walkPaths, osWalk, List.flatMap_map, hunder, List.map_flatMap]
  · simp [pathsBelow, walkBelow, hk]

section WalkPaths

variable [LinearOrder ν] {keep : ν → Bool}

theorem mem_names_of_mem_fileEntries {d : Dir ν β} {n : ν} {x : Node ν β}
    (h : (n, x) ∈ d.fileEntries) : n ∈ d.names := by
  induction d with
  | nil => simp [fileEntries] at h
  | file k b rest ih | special k rest ih | sub k b rest _ ih =>
      simp only [fileEntries, List.mem_cons, Prod.mk.injEq, names] at h ⊢
      tauto
  | link k t rest ih =>
      cases t <;>
        simp only [fileEntries, List.mem_cons, Prod.mk.injEq, names] at h ⊢ <;>
        tauto

theorem mem_fileEntries_iff {d : Dir ν β} (hd : d.Sorted) {n : ν}
    {x : Node ν β} :
    (n, x) ∈ d.fileEntries ↔ d.find n = some x ∧ x.isFileEntry = true := by
  have hhead {k : ν} {rest : Dir ν β} (hk : ∀ m ∈ rest.names, k < m)
      (y : Node ν β) : (k, y) ∉ rest.fileEntries := fun hmem =>
    lt_irrefl k (hk k (mem_names_of_mem_fileEntries hmem))
  induction d with
  | nil => simp [fileEntries]
  | file k b rest ih | special k rest ih =>
      by_cases hn : n = k
      · subst hn
        simp only [fileEntries, List.mem_cons, hhead hd.1, or_false, find,
          if_true, Prod.mk.injEq, true_and, Option.some.injEq]
        constructor
        · rintro rfl
          exact ⟨rfl, rfl⟩
        · rintro ⟨rfl, -⟩
          rfl
      · simp [fileEntries, find, hn, ih hd.2]
  | link k t rest ih =>
      by_cases hn : n = k
      · subst hn
        cases t <;> simp only [fileEntries, List.mem_cons, hhead hd.1, or_false,
          find, if_true, Prod.mk.injEq, true_and, Option.some.injEq, false_iff]
        · rintro ⟨rfl, hfile⟩
          simp [Node.isFileEntry] at hfile
        all_goals
          constructor
          · rintro rfl
            exact ⟨rfl, rfl⟩
          · rintro ⟨rfl, -⟩
            rfl
      · cases t <;> simp [fileEntries, find, hn, ih hd.2]
  | sub k e rest _ ih =>
      by_cases hn : n = k
      · subst hn
        simp only [fileEntries, hhead hd.1, find, if_true, Option.some.injEq,
          false_iff]
        rintro ⟨rfl, hfile⟩
        simp [Node.isFileEntry] at hfile
      · simp [fileEntries, find, hn, ih hd.2.2]

/-- The entries a walk should meet: off the root, not a directory, below kept
directories only. -/
def OnWalk (keep : ν → Bool) (d : Dir ν β) (p : List ν) (x : Node ν β) : Prop :=
  p ≠ [] ∧ d.get p = some x ∧ x.isFileEntry = true ∧
    ∀ n ∈ p.dropLast, keep n = true

theorem onWalk_congr {d d' : Dir ν β} {p : List ν} {x : Node ν β}
    (h : d.get p = d'.get p) : OnWalk keep d p x ↔ OnWalk keep d' p x := by
  rw [OnWalk, OnWalk, h]

/-- Entries one level down and entries further down make up the walk. -/
theorem mem_walkPaths_iff_of_below (keep : ν → Bool) {d : Dir ν β} (hd : d.Sorted)
    (hbelow : ∀ p x, (p, x) ∈ d.pathsBelow keep ↔
      2 ≤ p.length ∧ OnWalk keep d p x) (p : List ν) (x : Node ν β) :
    (p, x) ∈ d.walkPaths keep ↔ OnWalk keep d p x := by
  rw [walkPaths_eq, List.mem_append, hbelow]
  constructor
  · rintro (hmem | ⟨-, h⟩)
    · obtain ⟨⟨n, y⟩, hny, heq⟩ := List.mem_map.mp hmem
      obtain ⟨rfl, rfl⟩ := Prod.mk.inj heq
      obtain ⟨hfind, hfile⟩ := (mem_fileEntries_iff hd).mp hny
      exact ⟨by simp, by rw [get_singleton]; exact hfind, hfile, by simp⟩
    · exact h
  · rintro ⟨hne, hget, hfile, hkeep⟩
    match p with
    | [] => exact absurd rfl hne
    | [n] =>
        rw [get_singleton] at hget
        exact Or.inl (List.mem_map.mpr
          ⟨(n, x), (mem_fileEntries_iff hd).mpr ⟨hget, hfile⟩, rfl⟩)
    | n :: m :: q =>
        exact Or.inr ⟨by simp, hne, hget, hfile, hkeep⟩

/-- Below its own level a directory is the same with any entry that is not a
subdirectory left out. -/
theorem get_eq_of_skip {d rest : Dir ν β} {k : ν}
    (hk : ∀ m ∈ rest.names, k < m)
    (hfind : ∀ m, m ≠ k → d.find m = rest.find m)
    (hnotdir : ∀ e, d.find k ≠ some (.dir e)) {p : List ν}
    (hlen : 2 ≤ p.length) : d.get p = rest.get p := by
  match p with
  | n :: m :: q =>
      by_cases hn : n = k
      · subst hn
        have hrest : rest.find n = none :=
          find_eq_none_of_notMem fun hmem => lt_irrefl n (hk n hmem)
        rw [get_cons_of_find_none hrest]
        cases hf : d.find n with
        | none => exact get_cons_of_find_none hf _
        | some y =>
            cases y with
            | dir e => exact absurd hf (hnotdir e)
            | file b | link t | special => simp [get, hf]
      · simp only [get, hfind n hn]

theorem mem_pathsBelow_iff {d : Dir ν β} (hd : d.Sorted) (p : List ν)
    (x : Node ν β) :
    (p, x) ∈ d.pathsBelow keep ↔ 2 ≤ p.length ∧ OnWalk keep d p x := by
  induction d generalizing p x with
  | nil =>
      refine iff_of_false (by simp [pathsBelow, walkBelow]) ?_
      rintro ⟨hlen, -, hget, -⟩
      rcases p with _ | ⟨n, q⟩
      · simp at hlen
      · simp [get_nil_cons] at hget
  | file k b rest ih | link k b rest ih | special k rest ih =>
      refine (ih hd.2 p x).trans (and_congr_right fun hlen => ?_)
      exact onWalk_congr (get_eq_of_skip hd.1 (fun m hm => by simp [find, hm])
        (by simp [find]) hlen).symm
  | sub k e rest ihe ih =>
      have hwalk := mem_walkPaths_iff_of_below keep hd.2.1 (ihe hd.2.1)
      rw [pathsBelow_sub, List.mem_append, ih hd.2.2]
      rcases p with _ | ⟨n, _ | ⟨m, q⟩⟩
      case nil => simp [OnWalk]
      case cons.nil =>
          refine iff_of_false ?_ (by simp)
          rintro (hmem | ⟨hlen, -⟩)
          · by_cases hkk : keep k = true
            · simp only [hkk, if_true, List.mem_map, Prod.mk.injEq, Prod.exists] at hmem
              obtain ⟨q, y, hq, heq, rfl⟩ := hmem
              obtain ⟨-, hnil⟩ := List.cons.inj heq
              exact ((hwalk q y).mp hq).1 hnil
            · simp [hkk] at hmem
          · simp at hlen
      case cons.cons =>
          by_cases hn : n = k
          · subst hn
            have hrest : rest.get (n :: m :: q) = none :=
              get_cons_of_find_none (find_eq_none_of_notMem fun hmem =>
                lt_irrefl n (hd.1 n hmem)) _
            have hget : (sub n e rest).get (n :: m :: q) = e.get (m :: q) :=
              get_cons_of_find_dir (by simp [find]) _
            by_cases hkn : keep n = true
            · simp [hkn, hwalk, OnWalk, hrest, hget]
            · simp [hkn, OnWalk, hrest]
          · have hget : (sub k e rest).get (n :: m :: q) =
                rest.get (n :: m :: q) := by
              simp [get, find, hn]
            by_cases hkk : keep k = true
            · simp [hkk, OnWalk, hget, Ne.symm hn]
            · simp [hkk, OnWalk, hget]

/-- A walk meets exactly the entries that are not directories and lie below
kept directories only. -/
theorem mem_walkPaths_iff {d : Dir ν β} (hd : d.Sorted) {p : List ν}
    {x : Node ν β} :
    (p, x) ∈ d.walkPaths keep ↔ OnWalk keep d p x :=
  mem_walkPaths_iff_of_below keep hd (mem_pathsBelow_iff hd) p x

theorem fileEntries_names_nodup {d : Dir ν β} (hd : d.Sorted) :
    (d.fileEntries.map Prod.fst).Nodup := by
  have hhead {k : ν} {rest : Dir ν β} (hk : ∀ m ∈ rest.names, k < m) :
      k ∉ rest.fileEntries.map Prod.fst := by
    intro hmem
    obtain ⟨⟨n, x⟩, hnx, rfl⟩ := List.mem_map.mp hmem
    exact lt_irrefl n (hk n (mem_names_of_mem_fileEntries hnx))
  induction d with
  | nil => simp [fileEntries]
  | file k b rest ih | special k rest ih =>
      simpa [fileEntries] using And.intro (by simpa using hhead hd.1) (ih hd.2)
  | link k t rest ih =>
      cases t with
      | dir => simpa [fileEntries] using ih hd.2
      | file b | broken =>
          simpa [fileEntries] using And.intro (by simpa using hhead hd.1) (ih hd.2)
  | sub k e rest _ ih => simpa [fileEntries] using ih hd.2.2

theorem walkPaths_nodup_of_below {d : Dir ν β} (hd : d.Sorted)
    (hbelow : ((d.pathsBelow keep).map Prod.fst).Nodup) :
    ((d.walkPaths keep).map Prod.fst).Nodup := by
  rw [walkPaths_eq, List.map_append, List.nodup_append]
  refine ⟨?_, hbelow, ?_⟩
  · have hcomp : (d.fileEntries.map (fun e => ([e.1], e.2))).map Prod.fst =
        (d.fileEntries.map Prod.fst).map (fun n => [n]) := by
      simp [Function.comp_def]
    rw [hcomp]
    exact (fileEntries_names_nodup hd).map fun _ _ h => by simpa using h
  · intro p hp q hq hpq
    subst hpq
    obtain ⟨⟨p', x⟩, hmem, rfl⟩ := List.mem_map.mp hq
    have hlen := ((mem_pathsBelow_iff hd p' x).mp hmem).1
    simp only [List.map_map, List.mem_map, Function.comp_apply] at hp
    obtain ⟨e, -, he⟩ := hp
    rw [← he] at hlen
    simp at hlen

theorem pathsBelow_nodup {d : Dir ν β} (hd : d.Sorted) :
    ((d.pathsBelow keep).map Prod.fst).Nodup := by
  induction d with
  | nil => simp [pathsBelow, walkBelow]
  | file k b rest ih | link k b rest ih | special k rest ih => exact ih hd.2
  | sub k e rest ihe ih =>
      rw [pathsBelow_sub, List.map_append, List.nodup_append]
      refine ⟨?_, ih hd.2.2, ?_⟩
      · by_cases hkk : keep k = true
        · have hcomp : ((e.walkPaths keep).map (fun w => (k :: w.1, w.2))).map
              Prod.fst = ((e.walkPaths keep).map Prod.fst).map (List.cons k) := by
            simp [Function.comp_def]
          rw [if_pos hkk, hcomp]
          exact (walkPaths_nodup_of_below hd.2.1 (ihe hd.2.1)).map
            (List.cons_injective)
        · simp [hkk]
      · intro p hp q hq hpq
        subst hpq
        obtain ⟨⟨p', x⟩, hmem, rfl⟩ := List.mem_map.mp hq
        obtain ⟨-, -, hget, -⟩ := (mem_pathsBelow_iff hd.2.2 p' x).mp hmem
        by_cases hkk : keep k = true
        · simp only [hkk, if_true, List.map_map, List.mem_map,
            Function.comp_apply] at hp
          obtain ⟨w, -, rfl⟩ := hp
          have hrest : rest.get (k :: w.1) = none :=
            get_cons_of_find_none (find_eq_none_of_notMem fun hmem =>
              lt_irrefl k (hd.1 k hmem)) _
          simp [hrest] at hget
        · simp [hkk] at hp

theorem walkPaths_nodup (keep : ν → Bool) {d : Dir ν β} (hd : d.Sorted) :
    ((d.walkPaths keep).map Prod.fst).Nodup :=
  walkPaths_nodup_of_below hd (pathsBelow_nodup hd)

/-! ## The directories of a walk -/

theorem mem_names_of_find {d : Dir ν β} {n : ν} {x : Node ν β}
    (h : d.find n = some x) : n ∈ d.names := by
  by_contra hn
  rw [find_eq_none_of_notMem hn] at h
  simp at h

/-- A name found further down a directory is found in the whole of it. -/
theorem get_of_get_rest {d rest : Dir ν β} {k : ν}
    (hk : ∀ m ∈ rest.names, k < m)
    (hfind : ∀ m, m ≠ k → d.find m = rest.find m) {p : List ν} {x : Node ν β}
    (hp : p ≠ []) (h : rest.get p = some x) : d.get p = some x := by
  obtain ⟨n, ns, rfl⟩ := List.exists_cons_of_ne_nil hp
  have hn : n ≠ k := by
    rintro rfl
    rw [get_cons_of_find_none (find_eq_none_of_notMem fun hmem =>
      lt_irrefl n (hk n hmem))] at h
    simp at h
  rw [← h]
  simp only [get, hfind n hn]

theorem exists_dir_of_mem_walkBelow {d : Dir ν β} (hd : d.Sorted)
    {s : Step ν β} (hs : s ∈ d.walkBelow keep) :
    ∃ e : Dir ν β, s.dirpath ≠ [] ∧ d.get s.dirpath = some (.dir e) ∧
      e.Sorted ∧ s.dirs = e.dirEntries := by
  induction d generalizing s with
  | nil => simp [walkBelow] at hs
  | file k b rest ih | link k b rest ih | special k rest ih =>
      obtain ⟨e, hne, hget, hsorted, hdirs⟩ := ih hd.2 hs
      exact ⟨e, hne, get_of_get_rest hd.1 (fun m hm => by simp [find, hm]) hne hget,
        hsorted, hdirs⟩
  | sub k e rest ihe ih =>
      simp only [walkBelow, List.mem_append] at hs
      rcases hs with hs | hs
      · by_cases hkeep : keep k = true
        · rw [if_pos hkeep] at hs
          obtain ⟨s₀, hs₀, rfl⟩ := List.mem_map.mp hs
          have hfind : (sub k e rest).find k = some (.dir e) := by simp [find]
          rcases List.mem_cons.mp hs₀ with rfl | hs₀
          · exact ⟨e, by simp [Step.under], by
              rw [Step.under, step, get_singleton, hfind], hd.2.1, rfl⟩
          · obtain ⟨e', -, hget, hsorted, hdirs⟩ := ihe hd.2.1 hs₀
            exact ⟨e', by simp [Step.under], by
              rw [Step.under, get_cons_of_find_dir hfind, hget], hsorted, hdirs⟩
        · simp [hkeep] at hs
      · obtain ⟨e', hne, hget, hsorted, hdirs⟩ := ih hd.2.2 hs
        exact ⟨e', hne, get_of_get_rest hd.1 (fun m hm => by simp [find, hm]) hne
          hget, hsorted, hdirs⟩

/-- Each step of a walk lists a directory of the tree. -/
theorem exists_dir_of_mem_osWalk {d : Dir ν β} (hd : d.Sorted) {s : Step ν β}
    (hs : s ∈ d.osWalk keep) :
    ∃ e : Dir ν β, d.get s.dirpath = some (.dir e) ∧ e.Sorted ∧
      s.dirs = e.dirEntries := by
  rcases List.mem_cons.mp hs with rfl | hs
  · exact ⟨d, rfl, hd, rfl⟩
  · obtain ⟨e, -, h⟩ := exists_dir_of_mem_walkBelow hd hs
    exact ⟨e, h⟩

theorem find_of_mem_dirEntries {d : Dir ν β} (hd : d.Sorted) {n : ν}
    (h : (n, true) ∈ d.dirEntries) : d.find n = some (.link .dir) := by
  have hrest {k : ν} {rest : Dir ν β} (hk : ∀ m ∈ rest.names, k < m)
      (hfind : rest.find n = some (.link .dir)) : n ≠ k := by
    rintro rfl
    exact lt_irrefl n (hk n (mem_names_of_find hfind))
  induction d with
  | nil => simp [dirEntries] at h
  | file k b rest ih | special k rest ih =>
      have hfind := ih hd.2 h
      simp [find, hrest hd.1 hfind, hfind]
  | link k t rest ih =>
      cases t with
      | dir =>
          rcases List.mem_cons.mp h with heq | h
          · obtain ⟨rfl, -⟩ := Prod.mk.inj heq
            simp [find]
          · have hfind := ih hd.2 h
            simp [find, hrest hd.1 hfind, hfind]
      | file b | broken =>
          have hfind := ih hd.2 h
          simp [find, hrest hd.1 hfind, hfind]
  | sub k e rest _ ih =>
      rcases List.mem_cons.mp h with heq | h
      · simp at heq
      · have hfind := ih hd.2.2 h
        simp [find, hrest hd.1 hfind, hfind]

/-- A write leaves the entries of other paths as they were, directories apart. -/
theorem get_write_file_iff {d d' : Dir ν β} {p q : List ν} {b : β}
    (h : d.write p b = some d') (hqp : q ≠ p) {x : Node ν β}
    (hfile : x.isFileEntry = true) : d'.get q = some x ↔ d.get q = some x := by
  by_cases hbelow : q <+: p
  · obtain ⟨e, he⟩ := exists_dir_of_prefix hbelow hqp (get_write_self h)
    have hnotdir (e' : Dir ν β) : Node.dir e' ≠ x := by
      rintro rfl
      simp [Node.isFileEntry] at hfile
    rcases (writable_of_write h).above q hbelow hqp with hold | ⟨e', hold⟩ <;>
      simp [he, hold, hnotdir]
  · rw [get_write_of_not_below h hbelow]

theorem onWalk_write_iff {d d' : Dir ν β} {p q : List ν} {b : β}
    (h : d.write p b = some d') (hqp : q ≠ p) {x : Node ν β} :
    OnWalk keep d' q x ↔ OnWalk keep d q x := by
  constructor
  · rintro ⟨hne, hg, hf, hk⟩
    exact ⟨hne, (get_write_file_iff h hqp hf).mp hg, hf, hk⟩
  · rintro ⟨hne, hg, hf, hk⟩
    exact ⟨hne, (get_write_file_iff h hqp hf).mpr hg, hf, hk⟩

/-- After a write a walk meets the new file and the other entries as before. -/
theorem walkPaths_write_perm (keep : ν → Bool) {d d' : Dir ν β} (hd : d.Sorted) {p : List ν}
    {b : β} (h : d.write p b = some d')
    (hkeep : ∀ n ∈ p.dropLast, keep n = true) :
    (d'.walkPaths keep).Perm
      ((p, .file b) :: (d.walkPaths keep).filter (fun w => w.1 ≠ p)) := by
  have hd' := hd.write h
  have hnodup := walkPaths_nodup keep hd
  rw [List.perm_ext_iff_of_nodup (List.Nodup.of_map _ (walkPaths_nodup keep hd'))]
  · rintro ⟨q, x⟩
    rw [List.mem_cons, List.mem_filter, mem_walkPaths_iff hd',
      mem_walkPaths_iff hd]
    by_cases hqp : q = p
    · subst hqp
      simp only [OnWalk, get_write_self h, Option.some.injEq, Prod.mk.injEq,
        true_and, ne_eq, not_true_eq_false, decide_false, Bool.false_eq_true,
        and_false, or_false]
      constructor
      · rintro ⟨-, rfl, -⟩
        rfl
      · rintro rfl
        exact ⟨(writable_of_write h).ne_nil, rfl, rfl, hkeep⟩
    · simp [onWalk_write_iff h hqp, hqp]
  · rw [List.nodup_cons]
    refine ⟨by simp, (List.Nodup.of_map _ hnodup).filter _⟩

/-- A write below a directory that a walk leaves out is not met by it. -/
theorem walkPaths_write_perm_of_skip (keep : ν → Bool) {d d' : Dir ν β} (hd : d.Sorted)
    {p : List ν} {b : β} (h : d.write p b = some d') {n : ν}
    (hn : n ∈ p.dropLast) (hskip : keep n = false) :
    (d'.walkPaths keep).Perm (d.walkPaths keep) := by
  have hd' := hd.write h
  rw [List.perm_ext_iff_of_nodup (List.Nodup.of_map _ (walkPaths_nodup keep hd'))
    (List.Nodup.of_map _ (walkPaths_nodup keep hd))]
  rintro ⟨q, x⟩
  rw [mem_walkPaths_iff hd', mem_walkPaths_iff hd]
  by_cases hqp : q = p
  · subst hqp
    have hoff (t : Dir ν β) : ¬ OnWalk keep t q x := by
      intro hwalk
      have := hwalk.2.2.2 n hn
      rw [hskip] at this
      simp at this
    exact iff_of_false (hoff d') (hoff d)
  · exact onWalk_write_iff h hqp

end WalkPaths

end Dir

end PromptCode.FileTree
