import PromptCode.FileTree.Basic

/-!
# Histories of revisions

An append-only table of contents, each under its path and the number of its revision.  Where
the numbers of a path have no gap, the rows with the greatest numbers are the last ones, and
they alone, in any order, put back what all rows have written one after another.
-/

namespace PromptCode

structure Revision (κ α : Type) where
  path : κ
  content : α
  revision : ℕ
  deriving DecidableEq

/-- The rows in the order of their commits. -/
abbrev History (κ α : Type) := List (Revision κ α)

/-- An order in which a query may return its rows. -/
structure RowOrder (α : Type) where
  sort : List α → List α
  perm : ∀ l, (sort l).Perm l

namespace History

variable {κ α : Type} [DecidableEq κ] (h : History κ α) (path : κ)

def revisionsOf : List ℕ := (h.filter fun r => r.path = path).map Revision.revision

/-- The greatest revision of a path; the starter file is the first. -/
def current : ℕ :=
  match (h.revisionsOf path).max? with
  | some value => if value = 0 then 1 else value
  | none => 1

/-- The rows with the greatest revision of their path. -/
def latest : List (κ × α) :=
  (h.filter fun r => (h.revisionsOf r.path).max? = some r.revision).map
    fun r => (r.path, r.content)

/-- The last content of a path. -/
def lastContent : Option α :=
  ((h.filter fun r => r.path = path).getLast?).map Revision.content

/-- The content of one revision. -/
def contentAt (revision : ℕ) : Option α :=
  (h.find? fun r => decide (r.path = path) && decide (r.revision = revision)).map
    Revision.content

/-- The revisions of each path have no gap. -/
def Numbered : Prop :=
  ∀ path, h.revisionsOf path = List.range' 2 (h.revisionsOf path).length

section

variable {h} {path} {r : Revision κ α}

theorem numbered_nil : Numbered ([] : History κ α) := fun _ => rfl

theorem revisionsOf_append : (h ++ [r] : History κ α).revisionsOf path =
    h.revisionsOf path ++ if r.path = path then [r.revision] else [] := by
  rw [revisionsOf, List.filter_append, List.map_append, List.filter_singleton]
  by_cases hr : r.path = path <;> simp [hr, revisionsOf]

theorem max?_range' (n : ℕ) :
    (List.range' 2 n).max? = if n = 0 then none else some (n + 1) := by
  split_ifs with hn
  · rw [hn]
    rfl
  · rw [List.max?_eq_some_iff]
    refine ⟨List.mem_range'_1.mpr (by omega), fun b hb => ?_⟩
    have := List.mem_range'_1.mp hb
    omega

theorem Numbered.max? (hn : h.Numbered) (path : κ) : (h.revisionsOf path).max? =
    if (h.revisionsOf path).length = 0 then none else some ((h.revisionsOf path).length + 1) := by
  rw [hn path, max?_range', List.length_range']

theorem Numbered.current_eq (hn : h.Numbered) (path : κ) :
    h.current path = (h.revisionsOf path).length + 1 := by
  rw [current, hn.max? path]
  split_ifs with hzero
  · rw [hzero]
  · exact if_neg (Nat.succ_ne_zero _)

/-- A row with the next number. -/
theorem Numbered.append (hn : h.Numbered) (hr : r.revision = h.current r.path + 1) :
    Numbered (h ++ [r]) := by
  intro path
  rw [revisionsOf_append]
  by_cases hpath : r.path = path
  · subst hpath
    rw [if_pos rfl, List.length_append, List.length_singleton, List.range'_1_concat,
      ← hn r.path, hr, hn.current_eq, Nat.add_assoc, Nat.add_comm 2]
  · rw [if_neg hpath, List.append_nil]
    exact hn path

theorem Numbered.of_append (hn : Numbered (h ++ [r])) :
    h.Numbered ∧ r.revision = h.current r.path + 1 := by
  have hold : h.Numbered := by
    intro path
    have hpath := hn path
    rw [revisionsOf_append] at hpath
    split_ifs at hpath with hr
    · rw [List.length_append, List.length_singleton, List.range'_1_concat] at hpath
      exact List.append_inj_left' hpath rfl
    · simpa using hpath
  have hpath := hn r.path
  rw [revisionsOf_append, if_pos rfl, List.length_append, List.length_singleton,
    List.range'_1_concat, ← hold r.path] at hpath
  have hlast := List.singleton_inj.mp (List.append_cancel_left hpath)
  refine ⟨hold, ?_⟩
  rw [hlast, hold.current_eq]
  omega

/-- A new row takes the place of the latest one of its path. -/
theorem Numbered.latest_append (hn : Numbered (h ++ [r])) : (h ++ [r] : History κ α).latest =
    (h.latest.filter fun w => w.1 ≠ r.path) ++ [(r.path, r.content)] := by
  obtain ⟨hold, hrevision⟩ := hn.of_append
  have hmax := hn.max? r.path
  rw [revisionsOf_append, if_pos rfl, List.length_append, List.length_singleton,
    if_neg (Nat.succ_ne_zero _)] at hmax
  have hnew : ((h ++ [r] : History κ α).revisionsOf r.path).max? = some r.revision := by
    rw [revisionsOf_append, if_pos rfl, hmax, hrevision, hold.current_eq]
  rw [latest, List.filter_append, List.map_append, latest, List.filter_map, List.filter_filter]
  congr 1
  · congr 1
    apply List.filter_congr
    intro f hf
    by_cases hpath : f.path = r.path
    · have hle : f.revision < r.revision := by
        have hmem : f.revision ∈ h.revisionsOf r.path :=
          List.mem_map_of_mem (List.mem_filter.mpr ⟨hf, by simpa using hpath⟩)
        rw [hold r.path, List.mem_range'_1] at hmem
        rw [hrevision, hold.current_eq]
        omega
      rw [hpath, hnew]
      simp [hpath, Nat.ne_of_gt hle]
    · rw [revisionsOf_append, if_neg (Ne.symm hpath), List.append_nil]
      simp [hpath]
  · simp [hnew]

theorem lastContent_append : (h ++ [r] : History κ α).lastContent path =
    if r.path = path then some r.content else h.lastContent path := by
  rw [lastContent, List.filter_append, List.filter_singleton]
  by_cases hr : r.path = path <;> simp [hr, lastContent]

/-- A revision keeps its content. -/
theorem contentAt_append {revision : ℕ} {c : α} (hc : h.contentAt path revision = some c) :
    (h ++ [r] : History κ α).contentAt path revision = some c := by
  obtain ⟨f, hf, rfl⟩ := Option.map_eq_some_iff.mp hc
  rw [contentAt, List.find?_append, hf]
  rfl

theorem Numbered.revision_le (hn : h.Numbered) (hr : r ∈ h) :
    2 ≤ r.revision ∧ r.revision ≤ h.current r.path := by
  have hmem : r.revision ∈ h.revisionsOf r.path :=
    List.mem_map_of_mem (List.mem_filter.mpr ⟨hr, by simp⟩)
  rw [hn r.path, List.mem_range'_1] at hmem
  rw [hn.current_eq]
  omega

theorem current_append (hn : Numbered (h ++ [r])) : (h ++ [r] : History κ α).current path =
    if r.path = path then r.revision else h.current path := by
  obtain ⟨hold, hrevision⟩ := hn.of_append
  rw [hn.current_eq, revisionsOf_append]
  split_ifs with hr
  · rw [← hr, hrevision, hold.current_eq, List.length_append, List.length_singleton]
  · rw [List.append_nil, hold.current_eq]

/-- The current revision has the last content. -/
theorem Numbered.contentAt_current (hn : h.Numbered) :
    h.contentAt path (h.current path) = h.lastContent path := by
  induction h using List.reverseRecOn with
  | nil => rfl
  | append_singleton h r ih =>
      obtain ⟨hold, hrevision⟩ := hn.of_append
      rw [current_append hn, lastContent_append]
      by_cases hr : r.path = path
      · have hnone : (h.find? fun f => decide (f.path = path) &&
            decide (f.revision = r.revision)) = none := by
          rw [List.find?_eq_none]
          intro f hf hfound
          simp only [Bool.and_eq_true, decide_eq_true_eq] at hfound
          have hle := (hold.revision_le hf).2
          rw [hfound.1, hfound.2, hrevision, hr] at hle
          omega
        rw [if_pos hr, if_pos hr, contentAt, List.find?_append, hnone, Option.none_or]
        simp [hr]
      · rw [if_neg hr, if_neg hr, ← ih hold, contentAt, contentAt, List.find?_append]
        simp [hr]

theorem Numbered.latest_nodup (hn : h.Numbered) : (h.latest.map Prod.fst).Nodup := by
  induction h using List.reverseRecOn with
  | nil => simp [latest]
  | append_singleton h r ih =>
      rw [hn.latest_append, List.map_append, List.map_singleton]
      apply List.Nodup.append
      · exact (ih hn.of_append.1).sublist (List.filter_sublist.map _)
      · exact List.nodup_singleton _
      · simp [List.disjoint_singleton]

theorem Numbered.mem_latest (hn : h.Numbered) {w : κ × α} :
    w ∈ h.latest ↔ h.lastContent w.1 = some w.2 := by
  induction h using List.reverseRecOn with
  | nil => simp [latest, lastContent]
  | append_singleton h r ih =>
      rw [hn.latest_append, lastContent_append, List.mem_append, List.mem_filter,
        ih hn.of_append.1, List.mem_singleton]
      by_cases hr : r.path = w.1
      · simp [← hr, Prod.ext_iff, eq_comm]
      · simp [hr, Prod.ext_iff, Ne.symm hr]

end

/-! ## Replays -/

open FileTree

variable {ν β : Type} [LinearOrder ν]

/-- What each row writes. -/
def writes (location : κ → List ν) (encode : α → β) : List (List ν × β) :=
  h.map fun r => (location r.path, encode r.content)

section

variable {h} {location : κ → List ν} {encode : α → β} {f : List ν → Option β}

theorem updateAll_append {l : List (List ν × β)} {w : List ν × β} :
    Dir.updateAll f (l ++ [w]) = Function.update (Dir.updateAll f l) w.1 (some w.2) := by
  rw [Dir.updateAll, Dir.updateAll, List.foldl_append]
  rfl

/-- No other path of the rows has the location. -/
def Apart (location : κ → List ν) (h : History κ α) (path : κ) : Prop :=
  ∀ r ∈ h, location r.path = location path → r.path = path

theorem updateAll_writes {path : κ} (hapart : Apart location h path) :
    Dir.updateAll f (h.writes location encode) (location path) =
      ((h.lastContent path).map encode).or (f (location path)) := by
  induction h using List.reverseRecOn with
  | nil => rfl
  | append_singleton h r ih =>
      have hwrites : writes (h ++ [r] : History κ α) location encode =
          writes h location encode ++ [(location r.path, encode r.content)] :=
        List.map_append
      rw [hwrites, updateAll_append, lastContent_append]
      by_cases hr : r.path = path
      · rw [hr, Function.update_self, if_pos rfl]
        rfl
      · have hne : location path ≠ location r.path :=
          fun heq => hr (hapart r (by simp) heq.symm)
        rw [Function.update_of_ne hne, if_neg hr]
        exact ih fun r' hr' => hapart r' (by simp [hr'])

/-- The latest rows alone, in any order, write what all rows have written. -/
theorem Numbered.updateAll_latest (hn : h.Numbered)
    (hapart : ∀ r ∈ h, Apart location h r.path) {l : List (κ × α)} (hl : l.Perm h.latest) :
    Dir.updateAll f (l.map fun w => (location w.1, encode w.2)) =
      Dir.updateAll f (h.writes location encode) := by
  have hmem : ∀ {w : κ × α}, w ∈ l ↔ h.lastContent w.1 = some w.2 :=
    fun {w} => hl.mem_iff.trans hn.mem_latest
  have hrow : ∀ {w : κ × α}, w ∈ l → ∃ r ∈ h, r.path = w.1 := by
    intro w hw
    obtain ⟨r, hr, -⟩ := Option.map_eq_some_iff.mp (hmem.mp hw)
    obtain ⟨hmem, hpath⟩ := List.mem_filter.mp (List.mem_of_getLast? hr)
    exact ⟨r, hmem, by simpa using hpath⟩
  have hnodup : ((l.map fun w => (location w.1, encode w.2)).map Prod.fst).Nodup := by
    have hpaths : (l.map Prod.fst).Nodup := (hl.map Prod.fst).nodup_iff.mpr hn.latest_nodup
    rw [List.map_map, List.nodup_map_iff_inj_on hpaths.of_map]
    intro w hw w' hw' heq
    obtain ⟨r, hr, hpath⟩ := hrow hw
    obtain ⟨r', hr', hpath'⟩ := hrow hw'
    have hsame : w.1 = w'.1 := by
      rw [← hpath, ← hpath']
      apply hapart r' hr' r hr
      rw [hpath, hpath']
      exact heq
    have hcontent := hmem.mp hw
    rw [hsame, hmem.mp hw'] at hcontent
    exact Prod.ext hsame (Option.some.inj hcontent).symm
  funext q
  by_cases hq : ∃ r ∈ h, location r.path = q
  · obtain ⟨r, hr, rfl⟩ := hq
    rw [updateAll_writes (hapart r hr)]
    obtain ⟨c, hc⟩ : ∃ c, h.lastContent r.path = some c := by
      rw [lastContent]
      have hne : (h.filter fun r' => r'.path = r.path) ≠ [] :=
        List.ne_nil_of_mem (List.mem_filter.mpr ⟨hr, by simp⟩)
      rw [List.getLast?_eq_some_getLast hne]
      exact ⟨_, rfl⟩
    rw [hc]
    exact Dir.updateAll_of_mem hnodup (List.mem_map.mpr ⟨(r.path, c), hmem.mpr hc, rfl⟩)
  · rw [Dir.updateAll_of_notMem, Dir.updateAll_of_notMem]
    · intro hmem'
      obtain ⟨w, hw, rfl⟩ := List.mem_map.mp hmem'
      obtain ⟨r, hr, rfl⟩ := List.mem_map.mp hw
      exact hq ⟨r, hr, rfl⟩
    · intro hmem'
      obtain ⟨w, hw, rfl⟩ := List.mem_map.mp hmem'
      obtain ⟨v, hv, rfl⟩ := List.mem_map.mp hw
      obtain ⟨r, hr, hpath⟩ := hrow hv
      exact hq ⟨r, hr, congrArg location hpath⟩

end

end History

end PromptCode
