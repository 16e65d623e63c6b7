import PromptCode.Py.Path
import PromptCode.Py.Utf8

/-!
# Symbolic links

A file system in which any name below the root may be a symbolic link, and
`Path.resolve` on it.  A resolved path has no link and no dots in it.  Directories are
created and files are opened as the operating system does it, through the links on the
way.
-/

namespace PromptCode.Py

/-- What `os.lstat` finds.  Pipes and devices count as files. -/
inductive Entry where
  | file (data : Bytes)
  | dir
  | link (target : Str)
deriving DecidableEq

/-- The names of an absolute path. -/
abbrev AbsPath := List Str

/-- What stands at a path, no link on the way being followed.  Only a directory has
something below it. -/
structure FileSystem where
  entry : AbsPath → Option Entry
  entry_root : entry [] = some .dir
  parent_dir : ∀ path name, (entry (path ++ [name])).isSome = true → entry path = some .dir

def isDots (name : Str) : Bool :=
  decide (name = [] ∨ name = lit "." ∨ name = lit "..")

/-- Where the target of a link in this directory starts. -/
def targetStart (path : AbsPath) (target : Str) : AbsPath :=
  if target.head? = some slash then [] else path

namespace FileSystem

variable (fs : FileSystem)

def isLink (path : AbsPath) : Bool :=
  match fs.entry path with
  | some (.link _) => true
  | _ => false

/-- `posixpath._joinrealpath`, where `follow` gives the place of a link's target. -/
def walkReal (follow : AbsPath → Str → Option AbsPath) : AbsPath → List Str → Option AbsPath
  | path, [] => some path
  | path, name :: rest =>
      if name = [] ∨ name = lit "." then walkReal follow path rest
      else if name = lit ".." then walkReal follow path.dropLast rest
      else
        match fs.entry (path ++ [name]) with
        | some (.link target) => (follow path target).bind fun p => walkReal follow p rest
        | _ => walkReal follow (path ++ [name]) rest

/-- `_joinrealpath` with at most `depth` links inside one another. -/
def joinReal : ℕ → AbsPath → List Str → Option AbsPath
  | 0 => fs.walkReal fun _ _ => none
  | depth + 1 => fs.walkReal fun path target =>
      joinReal depth (targetStart path target) (split slash target)

/-- `path.resolve()`.  A loop of links exceeds every depth, and then the call raises. -/
def resolve (depth : ℕ) (path : AbsPath) : Option AbsPath := fs.joinReal depth [] path

/-- Neither a link nor dots up to the end of the path. -/
structure Real (path : AbsPath) : Prop where
  not_link : ∀ q, q <+: path → fs.isLink q = false
  no_dots : ∀ name ∈ path, isDots name = false

/-! ## Changes -/

/-- A new entry in a directory, in place of a file or of nothing. -/
def create (path : AbsPath) (name : Str) (x : Entry) : Option FileSystem :=
  if h : fs.entry path = some .dir ∧ fs.entry (path ++ [name]) ≠ some .dir then
    some {
      entry := fun q => if q = path ++ [name] then some x else fs.entry q
      entry_root := by simp [fs.entry_root]
      parent_dir := by
        intro q n hsome
        have hne : q ≠ path ++ [name] := by
          rintro rfl
          rw [if_neg (by simp)] at hsome
          exact h.2 (fs.parent_dir _ n hsome)
        rw [if_neg hne]
        by_cases heq : q ++ [n] = path ++ [name]
        · rw [(List.append_inj' heq rfl).1]
          exact h.1
        · rw [if_neg heq] at hsome
          exact fs.parent_dir q n hsome }
  else none

/-- `mkdir(exist_ok=True)` of one name in a directory, and where the directory is. -/
def enter (depth : ℕ) (path : AbsPath) (name : Str) : Option (FileSystem × AbsPath) :=
  match fs.entry (path ++ [name]) with
  | none => (fs.create path name .dir).map fun fs' => (fs', path ++ [name])
  | some .dir => some (fs, path ++ [name])
  | some (.file _) => none
  | some (.link _) =>
      (fs.resolve depth (path ++ [name])).bind fun p =>
        if fs.entry p = some .dir then some (fs, p) else none

/-- `mkdir(parents=True, exist_ok=True)`, from a directory on. -/
def makeDirs (fs : FileSystem) (depth : ℕ) : AbsPath → List Str → Option (FileSystem × AbsPath)
  | path, [] => some (fs, path)
  | path, name :: rest => (fs.enter depth path name).bind fun r => makeDirs r.1 depth r.2 rest

/-- `open("wb")` and the write, and where the file is: a link is followed. -/
def writeBytes (depth : ℕ) (path : AbsPath) (name : Str) (data : Bytes) :
    Option (FileSystem × AbsPath) :=
  (fs.resolve depth (path ++ [name])).bind fun p =>
    if fs.entry p = some .dir then none
    else (fs.create p.dropLast (p.getLastD []) (.file data)).map fun fs' => (fs', p)

/-- `open("xb")` and the write: nothing may be there, not even a link. -/
def writeNew (path : AbsPath) (name : Str) (data : Bytes) : Option (FileSystem × AbsPath) :=
  if (fs.entry (path ++ [name])).isSome then none
  else (fs.create path name (.file data)).map fun fs' => (fs', path ++ [name])

end FileSystem

namespace FileSystem

/-! ## Resolved paths -/

section

variable {fs : FileSystem} {path : AbsPath} {name : Str} {rest : List Str}

theorem isDots_eq_false_iff :
    isDots name = false ↔ name ≠ [] ∧ name ≠ lit "." ∧ name ≠ lit ".." := by
  simp [isDots]

theorem isLink_eq_true_iff :
    fs.isLink path = true ↔ ∃ target, fs.entry path = some (.link target) := by
  unfold isLink
  split
  · next target h => simp [h]
  · next h => simpa using h

theorem isLink_root (fs : FileSystem) : fs.isLink [] = false := by
  rw [isLink, fs.entry_root]

theorem real_nil (fs : FileSystem) : fs.Real [] := by
  refine ⟨?_, by simp⟩
  intro q hq
  rw [List.prefix_nil.mp hq]
  exact fs.isLink_root

theorem Real.dropLast (h : fs.Real path) : fs.Real path.dropLast :=
  ⟨fun q hq => h.not_link q (hq.trans (List.dropLast_prefix path)),
    fun n hn => h.no_dots n (List.mem_of_mem_dropLast hn)⟩

theorem Real.of_append {q : List Str} (h : fs.Real (path ++ q)) : fs.Real path :=
  ⟨fun p hp => h.not_link p (hp.trans (List.prefix_append path q)),
    fun n hn => h.no_dots n (List.mem_append_left q hn)⟩

theorem Real.concat (h : fs.Real path) (hdots : isDots name = false)
    (hlink : fs.isLink (path ++ [name]) = false) : fs.Real (path ++ [name]) := by
  refine ⟨?_, ?_⟩
  · intro q hq
    obtain heq | hq := List.prefix_concat_iff.mp hq
    · rwa [heq]
    · exact h.not_link q hq
  · intro n hn
    obtain hn | hn := List.mem_append.mp hn
    · exact h.no_dots n hn
    · rwa [List.mem_singleton.mp hn]

theorem walkReal_cons_of_dots (fs : FileSystem) (path : AbsPath) (rest : List Str)
    (follow : AbsPath → Str → Option AbsPath) (h : isDots name = true) :
    fs.walkReal follow path (name :: rest) = fs.walkReal follow path rest ∨
      fs.walkReal follow path (name :: rest) = fs.walkReal follow path.dropLast rest := by
  by_cases hdot : name = [] ∨ name = lit "."
  · exact .inl (by rw [walkReal, if_pos hdot])
  · have hdotdot : name = lit ".." := by
      simp only [isDots, decide_eq_true_eq, ← or_assoc] at h
      exact h.resolve_left hdot
    exact .inr (by rw [walkReal, if_neg hdot, if_pos hdotdot])

theorem walkReal_cons_of_link (follow : AbsPath → Str → Option AbsPath) {target : Str}
    (hdots : isDots name = false) (hlink : fs.entry (path ++ [name]) = some (.link target)) :
    fs.walkReal follow path (name :: rest) =
      (follow path target).bind fun p => fs.walkReal follow p rest := by
  obtain ⟨hne, hdot, hdotdot⟩ := isDots_eq_false_iff.mp hdots
  rw [walkReal, if_neg (not_or.mpr ⟨hne, hdot⟩), if_neg hdotdot, hlink]

theorem walkReal_cons_of_not_link (follow : AbsPath → Str → Option AbsPath)
    (hdots : isDots name = false) (hlink : fs.isLink (path ++ [name]) = false) :
    fs.walkReal follow path (name :: rest) = fs.walkReal follow (path ++ [name]) rest := by
  obtain ⟨hne, hdot, hdotdot⟩ := isDots_eq_false_iff.mp hdots
  rw [walkReal, if_neg (not_or.mpr ⟨hne, hdot⟩), if_neg hdotdot]
  split
  · next target h =>
      have htrue : fs.isLink (path ++ [name]) = true := isLink_eq_true_iff.mpr ⟨target, h⟩
      rw [hlink] at htrue
      exact absurd htrue Bool.false_ne_true
  · rfl

/-- A walk from a resolved path that takes links to resolved paths ends in one. -/
theorem walkReal_real {follow : AbsPath → Str → Option AbsPath}
    (hfollow : ∀ path target p, fs.Real path → follow path target = some p → fs.Real p)
    {p : AbsPath} (hpath : fs.Real path) (h : fs.walkReal follow path rest = some p) :
    fs.Real p := by
  induction rest generalizing path with
  | nil => rwa [← Option.some.inj h]
  | cons name rest ih =>
      by_cases hdots : isDots name = true
      · obtain heq | heq := fs.walkReal_cons_of_dots path rest follow hdots
        · exact ih hpath (heq ▸ h)
        · exact ih hpath.dropLast (heq ▸ h)
      · rw [Bool.not_eq_true] at hdots
        by_cases hlink : fs.isLink (path ++ [name]) = true
        · obtain ⟨target, hentry⟩ := isLink_eq_true_iff.mp hlink
          rw [walkReal_cons_of_link follow hdots hentry, Option.bind_eq_some_iff] at h
          obtain ⟨p', hp', h⟩ := h
          exact ih (hfollow path target p' hpath hp') h
        · rw [Bool.not_eq_true] at hlink
          rw [walkReal_cons_of_not_link follow hdots hlink] at h
          exact ih (hpath.concat hdots hlink) h

theorem joinReal_real {depth : ℕ} {p : AbsPath} (hpath : fs.Real path)
    (h : fs.joinReal depth path rest = some p) : fs.Real p := by
  induction depth generalizing path rest p with
  | zero =>
      refine walkReal_real ?_ hpath h
      intro q target p' hq hp'
      exact absurd hp' (by simp)
  | succ depth ih =>
      refine walkReal_real ?_ hpath h
      intro q target p' hq hp'
      have hstart : fs.Real (targetStart q target) := by
        unfold targetStart
        split_ifs
        · exact fs.real_nil
        · exact hq
      exact ih hstart hp'

/-- A resolved path has no link and no dots in it. -/
theorem resolve_real {depth : ℕ} {p : AbsPath} (h : fs.resolve depth path = some p) :
    fs.Real p :=
  joinReal_real fs.real_nil h

theorem walkReal_mono {follow follow' : AbsPath → Str → Option AbsPath}
    (hfollow : ∀ path target p, follow path target = some p → follow' path target = some p)
    {p : AbsPath} (h : fs.walkReal follow path rest = some p) :
    fs.walkReal follow' path rest = some p := by
  induction rest generalizing path with
  | nil => exact h
  | cons name rest ih =>
      rw [walkReal] at h ⊢
      split_ifs at h ⊢
      · exact ih h
      · exact ih h
      · split at h
        · rw [Option.bind_eq_some_iff] at h ⊢
          obtain ⟨p', hp', h⟩ := h
          exact ⟨p', hfollow _ _ _ hp', ih h⟩
        · exact ih h

/-- The depth is a bound only: a path that resolves under it resolves to the same path
under every larger one. -/
theorem resolve_mono {depth depth' : ℕ} (hle : depth ≤ depth') {p : AbsPath}
    (h : fs.resolve depth path = some p) : fs.resolve depth' path = some p := by
  have hsucc : ∀ (d : ℕ) (path : AbsPath) (rest : List Str) (p : AbsPath),
      fs.joinReal d path rest = some p → fs.joinReal (d + 1) path rest = some p := by
    intro d
    induction d with
    | zero =>
        intro path rest p
        apply walkReal_mono
        intro q target p' hp'
        exact absurd hp' (by simp)
    | succ d ih =>
        intro path rest p
        apply walkReal_mono
        intro q target p' hp'
        exact ih _ _ _ hp'
  induction hle with
  | refl => exact h
  | step _ ih => exact hsucc _ _ _ _ ih

theorem joinReal_eq (fs : FileSystem) (depth : ℕ) :
    ∃ follow, fs.joinReal depth = fs.walkReal follow := by
  cases depth with
  | zero => exact ⟨_, rfl⟩
  | succ depth => exact ⟨_, rfl⟩

/-- With no link on the way the walk keeps every name. -/
theorem walkReal_of_real (follow : AbsPath → Str → Option AbsPath)
    (h : fs.Real (path ++ rest)) : fs.walkReal follow path rest = some (path ++ rest) := by
  induction rest generalizing path with
  | nil => rw [walkReal, List.append_nil]
  | cons name rest ih =>
      rw [← List.singleton_append, ← List.append_assoc] at h ⊢
      rw [List.singleton_append, walkReal_cons_of_not_link follow
        (h.no_dots name (by simp)) (h.not_link _ (List.prefix_append _ _))]
      exact ih h

theorem joinReal_of_real (depth : ℕ) (h : fs.Real (path ++ rest)) :
    fs.joinReal depth path rest = some (path ++ rest) := by
  obtain ⟨follow, heq⟩ := fs.joinReal_eq depth
  rw [heq]
  exact walkReal_of_real follow h

theorem resolve_of_real (depth : ℕ) (h : fs.Real path) : fs.resolve depth path = some path :=
  joinReal_of_real depth h

theorem walkReal_append (follow : AbsPath → Str → Option AbsPath) (a b : List Str) :
    fs.walkReal follow path (a ++ b) =
      (fs.walkReal follow path a).bind fun p => fs.walkReal follow p b := by
  induction a generalizing path with
  | nil => rfl
  | cons name a ih =>
      rw [List.cons_append, walkReal, walkReal]
      split_ifs
      · exact ih
      · exact ih
      · split
        · rw [Option.bind_assoc]
          congr 1
          funext p
          exact ih
        · exact ih

/-- Resolving goes on from a resolved path. -/
theorem resolve_append {base : AbsPath} (depth : ℕ) (h : fs.Real base) (rest : List Str) :
    fs.resolve depth (base ++ rest) = fs.joinReal depth base rest := by
  have hbase := resolve_of_real depth h
  obtain ⟨follow, heq⟩ := fs.joinReal_eq depth
  unfold resolve at hbase ⊢
  rw [heq] at hbase ⊢
  rw [walkReal_append, hbase, Option.bind_some]

/-- Something below a path makes the path a directory. -/
theorem entry_of_below {q : List Str} (hne : q ≠ [])
    (h : (fs.entry (path ++ q)).isSome = true) : fs.entry path = some .dir := by
  induction q using List.reverseRecOn with
  | nil => exact absurd rfl hne
  | append_singleton q n ih =>
      rw [← List.append_assoc] at h
      have hdir := fs.parent_dir _ n h
      by_cases hq : q = []
      · rwa [hq, List.append_nil] at hdir
      · exact ih hq (by rw [hdir]; rfl)

/-- A walk over names either meets no link or there is something below its start. -/
theorem walkReal_eq_or_below (follow : AbsPath → Str → Option AbsPath) {p : AbsPath}
    (hnames : ∀ name ∈ rest, isDots name = false)
    (h : fs.walkReal follow path rest = some p) :
    p = path ++ rest ∨ ∃ q ≠ [], (fs.entry (path ++ q)).isSome = true := by
  induction rest generalizing path with
  | nil => exact .inl (by rw [← Option.some.inj h, List.append_nil])
  | cons name rest ih =>
      rw [List.forall_mem_cons] at hnames
      by_cases hlink : fs.isLink (path ++ [name]) = true
      · obtain ⟨target, hentry⟩ := isLink_eq_true_iff.mp hlink
        exact .inr ⟨[name], by simp, by rw [hentry]; rfl⟩
      · rw [Bool.not_eq_true] at hlink
        rw [walkReal_cons_of_not_link follow hnames.1 hlink] at h
        obtain heq | ⟨q, -, hsome⟩ := ih hnames.2 h
        · exact .inl (by rw [heq, List.append_assoc, List.singleton_append])
        · rw [List.append_assoc] at hsome
          exact .inr ⟨[name] ++ q, by simp, hsome⟩

/-- A resolved path is a directory when some names below it lead back to it. -/
theorem entry_of_joinReal_self {depth : ℕ} (hnames : ∀ name ∈ rest, isDots name = false)
    (hne : rest ≠ []) (h : fs.joinReal depth path rest = some path) :
    fs.entry path = some .dir := by
  obtain ⟨follow, heq⟩ := fs.joinReal_eq depth
  rw [heq] at h
  obtain hself | ⟨q, hq, hsome⟩ := walkReal_eq_or_below follow hnames h
  · exact absurd (List.self_eq_append_right.mp hself) hne
  · exact entry_of_below hq hsome

end

/-! ## What changes keep -/

/-- Directories stay and no link is made. -/
structure Grows (fs fs' : FileSystem) : Prop where
  keeps_dir : ∀ q, fs.entry q = some .dir → fs'.entry q = some .dir
  no_new_link : ∀ q, fs.isLink q = false → fs'.isLink q = false

section

variable {fs fs' fs'' : FileSystem} {path loc : AbsPath} {name : Str} {depth : ℕ}

theorem Grows.refl (fs : FileSystem) : Grows fs fs := ⟨fun _ h => h, fun _ h => h⟩

theorem Grows.trans (h : Grows fs fs') (h' : Grows fs' fs'') : Grows fs fs'' :=
  ⟨fun q hq => h'.keeps_dir q (h.keeps_dir q hq),
    fun q hq => h'.no_new_link q (h.no_new_link q hq)⟩

theorem Grows.real (h : Grows fs fs') (hpath : fs.Real path) : fs'.Real path :=
  ⟨fun q hq => h.no_new_link q (hpath.not_link q hq), hpath.no_dots⟩

theorem entry_create {x : Entry} (h : fs.create path name x = some fs') (q : AbsPath) :
    fs'.entry q = if q = path ++ [name] then some x else fs.entry q := by
  unfold create at h
  split_ifs at h
  rw [← Option.some.inj h]

theorem create_grows {x : Entry} (hx : ∀ target, x ≠ .link target)
    (h : fs.create path name x = some fs') : Grows fs fs' := by
  have hentry := entry_create h
  unfold create at h
  split_ifs at h with hplace
  refine ⟨?_, ?_⟩
  · intro q hq
    rw [hentry, if_neg]
    · exact hq
    · rintro rfl
      exact hplace.2 hq
  · intro q hq
    by_contra hlink
    rw [Bool.not_eq_false, isLink_eq_true_iff] at hlink
    obtain ⟨target, hlink⟩ := hlink
    rw [hentry] at hlink
    split_ifs at hlink
    · exact hx target (Option.some.inj hlink)
    · rw [isLink_eq_true_iff.mpr ⟨target, hlink⟩] at hq
      exact Bool.true_eq_false_eq_False hq

/-- Where one `mkdir` ends: a resolved path, the name itself when it is no link. -/
theorem enter_spec (hpath : fs.Real path) (hdots : isDots name = false)
    (h : fs.enter depth path name = some (fs', loc)) :
    Grows fs fs' ∧ fs'.Real loc ∧ fs'.entry loc = some .dir ∧
      (fs.isLink (path ++ [name]) = false → loc = path ++ [name]) := by
  unfold enter at h
  split at h
  · next hnone =>
      rw [Option.map_eq_some_iff] at h
      obtain ⟨fs₁, hcreate, heq⟩ := h
      obtain ⟨rfl, rfl⟩ := Prod.mk.inj heq
      have hgrows := create_grows (fun _ => Entry.noConfusion) hcreate
      have hlink : fs₁.isLink (path ++ [name]) = false := by
        rw [isLink, entry_create hcreate, if_pos rfl]
      refine ⟨hgrows, (hgrows.real hpath).concat hdots hlink, ?_, fun _ => rfl⟩
      rw [entry_create hcreate, if_pos rfl]
  · next hdir =>
      obtain ⟨rfl, rfl⟩ := Prod.mk.inj (Option.some.inj h)
      have hlink : fs.isLink (path ++ [name]) = false := by rw [isLink, hdir]
      exact ⟨.refl fs, hpath.concat hdots hlink, hdir, fun _ => rfl⟩
  · exact nomatch h
  · next target hlink =>
      rw [Option.bind_eq_some_iff] at h
      obtain ⟨p, hp, h⟩ := h
      split_ifs at h with hdir
      obtain ⟨rfl, rfl⟩ := Prod.mk.inj (Option.some.inj h)
      refine ⟨.refl fs, resolve_real hp, hdir, ?_⟩
      intro hfalse
      rw [isLink_eq_true_iff.mpr ⟨target, hlink⟩] at hfalse
      exact absurd hfalse (by decide)

/-- Where `mkdir` with parents ends: a resolved directory, the path itself when there is
no link on the way. -/
theorem makeDirs_spec {rest : List Str} (hpath : fs.Real path)
    (hdir : fs.entry path = some .dir) (hnames : ∀ n ∈ rest, isDots n = false)
    (h : fs.makeDirs depth path rest = some (fs', loc)) :
    Grows fs fs' ∧ fs'.Real loc ∧ fs'.entry loc = some .dir ∧
      (fs.Real (path ++ rest) → loc = path ++ rest) := by
  induction rest generalizing fs path with
  | nil =>
      obtain ⟨rfl, rfl⟩ := Prod.mk.inj (Option.some.inj h)
      exact ⟨.refl fs, hpath, hdir, fun _ => (List.append_nil path).symm⟩
  | cons name rest ih =>
      rw [makeDirs, Option.bind_eq_some_iff] at h
      obtain ⟨⟨fs₁, p⟩, henter, h⟩ := h
      rw [List.forall_mem_cons] at hnames
      obtain ⟨hgrows, hreal, hdir₁, hplace⟩ := enter_spec hpath hnames.1 henter
      obtain ⟨hgrows', hreal', hdir', hplace'⟩ := ih hreal hdir₁ hnames.2 h
      refine ⟨hgrows.trans hgrows', hreal', hdir', ?_⟩
      intro hwhole
      rw [← List.singleton_append, ← List.append_assoc] at hwhole ⊢
      obtain rfl := hplace (hwhole.not_link _ (List.prefix_append _ _))
      exact hplace' (hgrows.real hwhole)

/-- A file is written at a resolved path that is no directory. -/
theorem writeBytes_spec {data : Bytes}
    (h : fs.writeBytes depth path name data = some (fs', loc)) :
    Grows fs fs' ∧ fs.resolve depth (path ++ [name]) = some loc ∧
      fs.entry loc ≠ some .dir := by
  unfold writeBytes at h
  rw [Option.bind_eq_some_iff] at h
  obtain ⟨p, hp, h⟩ := h
  split_ifs at h with hdir
  rw [Option.map_eq_some_iff] at h
  obtain ⟨fs₁, hcreate, heq⟩ := h
  obtain ⟨rfl, rfl⟩ := Prod.mk.inj heq
  exact ⟨create_grows (fun _ => Entry.noConfusion) hcreate, hp, hdir⟩

/-- A new file is written at the name itself. -/
theorem writeNew_spec {data : Bytes} (h : fs.writeNew path name data = some (fs', loc)) :
    Grows fs fs' ∧ loc = path ++ [name] ∧ fs.entry loc = none := by
  unfold writeNew at h
  split_ifs at h with hsome
  rw [Option.map_eq_some_iff] at h
  obtain ⟨fs₁, hcreate, heq⟩ := h
  obtain ⟨rfl, rfl⟩ := Prod.mk.inj heq
  exact ⟨create_grows (fun _ => Entry.noConfusion) hcreate, rfl,
    Option.not_isSome_iff_eq_none.mp hsome⟩

end

end FileSystem

end PromptCode.Py
