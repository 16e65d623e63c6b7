import PromptCode.Lifecycle
import PromptCode.ObjectStore
import PromptCode.Transition

/-!
# Sweeps of the workspaces

`cleanup_interview_resources` against the sessions that are started, graded and rebuilt
meanwhile.  A sweep reads the tables one after another and then removes directories of the
workspace root, those of expired and failed sessions and those of no session.  A start makes
its directories before it commits the session.
-/

namespace PromptCode

open Py Transition

/-! ## The directories of the root -/

/-- A session id, a UUID. -/
structure SessionUuid where
  text : Str
  isId : IsSessionId text
  deriving DecidableEq

/-- `starter_snapshot_path` -/
def SessionUuid.starter (id : SessionUuid) : Str := id.text ++ lit ".starter"

/-- The directories of a session. -/
def SessionUuid.names (id : SessionUuid) : List Str := [id.text, id.starter]

structure WorkspaceDir where
  name : Str
  isSymlink : Bool
  mtime : ℕ

/-- `str.removesuffix` -/
def removeSuffix (s suffix : Str) : Str :=
  if suffix.isSuffixOf s then s.take (s.length - suffix.length) else s

/-- The name without `.starter`. -/
def dirBase (name : Str) : Str := removeSuffix name (lit ".starter")

/-- How long a directory without a session is left alone, in microseconds. -/
def orphanGrace : ℕ := 3600000000

/-- The tables whose sessions keep their source. -/
inductive GradeTable where
  | job
  | review
  | appeal
  deriving DecidableEq

/-! ## The sweeps -/

/-- The statement that a sweep comes to next. -/
inductive SweepPhase where
  | idle
  /-- It has selected the sessions to remove and reads the tables of the grading. -/
  | retaining (sessions : List SessionUuid) (models : List GradeTable)
      (protectedIds : List Str)
  /-- It reads the statuses of all sessions. -/
  | loading (sessions : List SessionUuid) (protectedIds : List Str)
  | removing (rest : List SessionUuid) (protectedIds known : List Str) (readAt : ℕ)
  /-- It goes through the directories of the root. -/
  | sweeping (rest : List Str) (protectedIds known : List Str) (readAt : ℕ)

structure CleanupHost where
  now : ℕ
  sessions : List (SessionUuid × SessionStatus)
  rows : GradeTable → List SessionUuid
  /-- The starts that have made their directories and not committed, and since when. -/
  starting : List (SessionUuid × ℕ)
  dirs : List WorkspaceDir
  sweeps : ℕ → SweepPhase

namespace CleanupHost

variable (h : CleanupHost)

def goto (w : ℕ) (p : SweepPhase) : CleanupHost :=
  { h with sweeps := Function.update h.sweeps w p }

/-- `_safe_rmtree` -/
def rmtree (name : Str) : CleanupHost :=
  { h with dirs := h.dirs.filter fun d => d.name ≠ name }

/-- Both directories of a session are made now. -/
def makeDirs (id : SessionUuid) : CleanupHost :=
  { h with dirs := (h.dirs.filter fun d => d.name ∉ id.names) ++
      id.names.map fun name => ⟨name, false, h.now⟩ }

def setStatus (id : SessionUuid) (status : SessionStatus) : CleanupHost :=
  { h with sessions := h.sessions.map fun s => if s.1 = id then (id, status) else s }

def isOpen (id : SessionUuid) : Bool :=
  h.sessions.any fun s => decide (s.1 = id) && s.2.isMutable

/-- The ids of all sessions. -/
def ids : List SessionUuid := h.sessions.map Prod.fst

end CleanupHost

/-- The statuses whose workspaces are removed. -/
def removeWorkspacesFor : List SessionStatus := [.expired, .failed]

/-- The statuses whose workspaces are protected. -/
def protectedStatuses : List SessionStatus := [.created, .active, .submitted]

section

variable (isUuid : Str → Bool) (misplaced : SessionUuid → Bool)

/-- The next statement of a sweep. -/
def sweepNext (h : CleanupHost) (w : ℕ) : CleanupHost :=
  match h.sweeps w with
  | .idle =>
      let sessions := (h.sessions.filter fun s => s.2 ∈ removeWorkspacesFor).map Prod.fst
      h.goto w (.retaining sessions [.job, .review, .appeal] [])
  | .retaining sessions [] protectedIds => h.goto w (.loading sessions protectedIds)
  | .retaining sessions (model :: models) protectedIds =>
      h.goto w (.retaining sessions models
        (protectedIds ++ (h.rows model).flatMap SessionUuid.names))
  | .loading sessions protectedIds =>
      let held := h.sessions.filter fun s => s.2 ∈ protectedStatuses
      h.goto w (.removing sessions (protectedIds ++ held.flatMap fun s => s.1.names)
        (h.ids.map SessionUuid.text) h.now)
  | .removing [] protectedIds known readAt =>
      h.goto w (.sweeping (h.dirs.map WorkspaceDir.name) protectedIds known readAt)
  | .removing (id :: rest) protectedIds known readAt =>
      let next := h.goto w (.removing rest protectedIds known readAt)
      if id.text ∈ protectedIds ∨ misplaced id ∨
          h.dirs.any fun d => decide (d.name = id.text) && d.isSymlink then next
      else (next.rmtree id.text).rmtree id.starter
  | .sweeping [] _ _ _ => h.goto w .idle
  | .sweeping (name :: rest) protectedIds known readAt =>
      let next := h.goto w (.sweeping rest protectedIds known readAt)
      if dirBase name ∈ known ∨ name ∈ protectedIds then next
      else
        match h.dirs.find? fun d => d.name = name with
        -- `stat` raises
        | none => h.goto w .idle
        | some d =>
            if d.isSymlink ∨ h.now < d.mtime + orphanGrace ∨ ¬isUuid (dirBase name) then next
            else next.rmtree name

end

inductive CleanupAction where
  | tick (d : ℕ)
  /-- `create_workspace` of a start with a new id. -/
  | create (id : SessionUuid)
  | commitStart (id : SessionUuid)
  | failStart (id : SessionUuid)
  /-- The status and the grading job are committed together. -/
  | submit (id : SessionUuid)
  | abandon (id : SessionUuid)
  | expire (id : SessionUuid)
  /-- A review or an appeal of a session that has a job. -/
  | record (id : SessionUuid) (table : GradeTable)
  /-- `ensure_workspace` of a session whose directory is gone or empty. -/
  | rebuild (id : SessionUuid)
  /-- An entry of the directory is made or removed. -/
  | touch (name : Str)
  | sweep (w : ℕ)
  | crash (w : ℕ)

def cleanupAct (isUuid : Str → Bool) (misplaced : SessionUuid → Bool) (h : CleanupHost) :
    CleanupAction → CleanupHost
  | .tick d => { h with now := h.now + d }
  | .create id =>
      if id ∈ h.ids ∨ id ∈ h.starting.map Prod.fst then h
      else { h.makeDirs id with starting := (id, h.now) :: h.starting }
  | .commitStart id =>
      if id ∈ h.starting.map Prod.fst then
        { h with
          sessions := h.sessions ++ [(id, .active)]
          starting := h.starting.filter fun s => s.1 ≠ id }
      else h
  | .failStart id => { h with starting := h.starting.filter fun s => s.1 ≠ id }
  | .submit id =>
      if h.isOpen id then
        { h.setStatus id .submitted with
          rows := Function.update h.rows .job (id :: h.rows .job) }
      else h
  | .abandon id =>
      if h.isOpen id then h.setStatus id .abandoned else h
  | .expire id =>
      if h.isOpen id then h.setStatus id .expired else h
  | .record id table =>
      if id ∈ h.rows .job then { h with rows := Function.update h.rows table (id :: h.rows table) }
      else h
  | .rebuild id => if id ∈ h.ids then h.makeDirs id else h
  | .touch name =>
      { h with dirs := h.dirs.map fun d => if d.name = name then { d with mtime := h.now } else d }
  | .sweep w => sweepNext isUuid misplaced h w
  | .crash w => h.goto w .idle

def freshCleanup : CleanupHost where
  now := 0
  sessions := []
  rows := fun _ => []
  starting := []
  dirs := []
  sweeps := fun _ => .idle

/-! ## What must stay -/

/-- A directory of a session that is being started, is open or submitted, or has a row of the
grading. -/
def CleanupHost.Needed (h : CleanupHost) (name : Str) : Prop :=
  ∃ id : SessionUuid, name ∈ id.names ∧ ((∃ t, (id, t) ∈ h.starting) ∨
    (∃ status ∈ protectedStatuses, (id, status) ∈ h.sessions) ∨ ∃ table, id ∈ h.rows table)

/-- No directory that is needed goes. -/
def KeepsNeeded (h h' : CleanupHost) : Prop :=
  ∀ d ∈ h.dirs, h.Needed d.name → ∃ d' ∈ h'.dirs, d'.name = d.name

/-- Starts commit, and sweeps end after they have read the sessions, in these times. -/
def Timely (startLimit sweepLimit : ℕ) (h : CleanupHost) : CleanupAction → Prop
  | .tick d => (∀ s ∈ h.starting, h.now + d < s.2 + startLimit) ∧
      ∀ w, match h.sweeps w with
        | .removing _ _ _ readAt | .sweeping _ _ _ readAt => h.now + d < readAt + sweepLimit
        | _ => True
  | _ => True

section

variable {id id' : SessionUuid} {name : Str}

theorem dot_notMem_text (id : SessionUuid) : dot ∉ id.text := by
  intro hdot
  rcases id.isId.chars dot hdot with hhex | hdash
  · exact absurd hhex (by decide)
  · exact absurd hdash (by decide)

theorem dirBase_text (id : SessionUuid) : dirBase id.text = id.text := by
  rw [dirBase, removeSuffix, if_neg]
  intro hsuffix
  have hmem : dot ∈ id.text :=
    (List.isSuffixOf_iff_suffix.mp hsuffix).subset (by decide)
  exact dot_notMem_text id hmem

theorem dirBase_starter (id : SessionUuid) : dirBase id.starter = id.text := by
  rw [dirBase, removeSuffix, SessionUuid.starter,
    if_pos (List.isSuffixOf_iff_suffix.mpr (List.suffix_append _ _))]
  simp

theorem dirBase_of_mem_names (h : name ∈ id.names) : dirBase name = id.text := by
  rcases List.mem_cons.mp h with rfl | h
  · exact dirBase_text id
  · rw [List.mem_singleton.mp h]
    exact dirBase_starter id

/-- A directory belongs to one session. -/
theorem eq_of_mem_names (h : name ∈ id.names) (h' : name ∈ id'.names) : id = id' := by
  have htext : id.text = id'.text := by
    rw [← dirBase_of_mem_names h, dirBase_of_mem_names h']
  cases id
  cases id'
  cases htext
  rfl

end

/-! ## The invariant -/

/-- The session has ended without a submission. -/
def Over (h : CleanupHost) (id : SessionUuid) : Prop :=
  id ∈ h.ids ∧ ∀ s ∈ h.sessions, s.1 = id → s.2 ∉ protectedStatuses

/-- A session that a sweep has not seen has new directories. -/
def Known (startLimit sweepLimit : ℕ) (h : CleanupHost) (known : List Str) (readAt : ℕ) :
    Prop :=
  readAt ≤ h.now ∧ h.now < readAt + sweepLimit ∧
    ∀ id ∈ h.ids, id.text ∈ known ∨
      ∀ d ∈ h.dirs, d.name ∈ id.names → readAt < d.mtime + startLimit

/-- What a sweep has found out. -/
def SweepOk (startLimit sweepLimit : ℕ) (h : CleanupHost) : SweepPhase → Prop
  | .idle => True
  | .retaining sessions models protectedIds => ∀ id ∈ sessions, Over h id ∧
      (id ∈ h.rows .job → .job ∈ models ∨ id.text ∈ protectedIds)
  | .loading sessions protectedIds => ∀ id ∈ sessions, Over h id ∧
      (id ∈ h.rows .job → id.text ∈ protectedIds)
  | .removing rest protectedIds known readAt => (∀ id ∈ rest, Over h id ∧
      (id ∈ h.rows .job → id.text ∈ protectedIds)) ∧
      Known startLimit sweepLimit h known readAt
  | .sweeping _ _ known readAt => Known startLimit sweepLimit h known readAt

structure CleanupInv (startLimit sweepLimit : ℕ) (h : CleanupHost) : Prop where
  unique : h.ids.Nodup
  apart : ∀ s ∈ h.starting, s.1 ∉ h.ids
  graded : ∀ table, ∀ id ∈ h.rows table, id ∈ h.rows .job
  jobs : ∀ id ∈ h.rows .job, id ∈ h.ids
  starting : ∀ s ∈ h.starting, h.now < s.2 + startLimit ∧ s.2 ≤ h.now ∧
    ∀ d ∈ h.dirs, d.name ∈ s.1.names → s.2 ≤ d.mtime
  sweeps : ∀ w, SweepOk startLimit sweepLimit h (h.sweeps w)

/-- What a step may change that the sweeps have read. -/
structure SweepGrows (startLimit : ℕ) (h h' : CleanupHost) : Prop where
  now : h'.now = h.now
  ended : ∀ id, Over h id → Over h' id
  jobs : ∀ id, Over h id → id ∈ h'.rows .job → id ∈ h.rows .job
  ids : ∀ id ∈ h'.ids, id ∈ h.ids ∨
    ∀ d ∈ h'.dirs, d.name ∈ id.names → h.now < d.mtime + startLimit
  dirs : ∀ d' ∈ h'.dirs, (∃ d ∈ h.dirs, d.name = d'.name ∧ d.mtime ≤ d'.mtime) ∨
    h.now ≤ d'.mtime

section

variable {startLimit sweepLimit : ℕ} {h h' : CleanupHost} {p : SweepPhase} {w : ℕ}
  {id : SessionUuid}

theorem Known.grows (hg : SweepGrows startLimit h h') (hstart : 0 < startLimit) {known : List Str}
    {readAt : ℕ} (hk : Known startLimit sweepLimit h known readAt) :
    Known startLimit sweepLimit h' known readAt := by
  obtain ⟨hread, hend, hids⟩ := hk
  refine ⟨hg.now ▸ hread, hg.now ▸ hend, fun id hid => ?_⟩
  rcases hg.ids id hid with hold | hnew
  · refine (hids id hold).imp_right fun hdirs d hd hname => ?_
    rcases hg.dirs d hd with ⟨e, he, hsame, hle⟩ | hle
    · exact (hdirs e he (hsame ▸ hname)).trans_le (Nat.add_le_add_right hle _)
    · omega
  · exact Or.inr fun d hd hname => hread.trans_lt (hnew d hd hname)

theorem SweepOk.grows (hg : SweepGrows startLimit h h') (hstart : 0 < startLimit)
    (hp : SweepOk startLimit sweepLimit h p) : SweepOk startLimit sweepLimit h' p := by
  cases p with
  | idle => trivial
  | retaining sessions models protectedIds =>
      exact fun id hid => ⟨hg.ended id (hp id hid).1,
        fun hjob => (hp id hid).2 (hg.jobs id (hp id hid).1 hjob)⟩
  | loading sessions protectedIds =>
      exact fun id hid => ⟨hg.ended id (hp id hid).1,
        fun hjob => (hp id hid).2 (hg.jobs id (hp id hid).1 hjob)⟩
  | removing rest protectedIds known readAt =>
      exact ⟨fun id hid => ⟨hg.ended id (hp.1 id hid).1,
        fun hjob => (hp.1 id hid).2 (hg.jobs id (hp.1 id hid).1 hjob)⟩, hp.2.grows hg hstart⟩
  | sweeping rest protectedIds known readAt => exact Known.grows hg hstart hp

/-- The directories of the starts that a step leaves alone. -/
theorem SweepGrows.startedAt (hg : SweepGrows startLimit h h') {t : ℕ} (ht : t ≤ h.now)
    (hdirs : ∀ d ∈ h.dirs, d.name ∈ id.names → t ≤ d.mtime) :
    ∀ d ∈ h'.dirs, d.name ∈ id.names → t ≤ d.mtime := by
  intro d hd hname
  rcases hg.dirs d hd with ⟨e, he, hsame, hle⟩ | hle
  · exact (hdirs e he (hsame ▸ hname)).trans hle
  · exact ht.trans hle

/-- A step that only moves one sweep or removes directories. -/
theorem CleanupInv.of_sweep (hi : CleanupInv startLimit sweepLimit h) (hstart : 0 < startLimit)
    {dirs : List WorkspaceDir} (hdirs : ∀ d ∈ dirs, d ∈ h.dirs)
    (hp : SweepOk startLimit sweepLimit h p) :
    CleanupInv startLimit sweepLimit { h.goto w p with dirs := dirs } := by
  have hg : SweepGrows startLimit h { h.goto w p with dirs := dirs } :=
    { now := rfl
      ended := fun _ => id
      jobs := fun _ _ => id
      ids := fun id hid => Or.inl hid
      dirs := fun d hd => Or.inl ⟨d, hdirs d hd, rfl, Nat.le_refl _⟩ }
  refine ⟨hi.unique, hi.apart, hi.graded, hi.jobs, fun s hs => ?_, fun v => ?_⟩
  · obtain ⟨hnow, hle, hmtime⟩ := hi.starting s hs
    exact ⟨hnow, hle, hg.startedAt hle hmtime⟩
  · by_cases hv : v = w
    · subst hv
      have hself : (h.goto v p).sweeps v = p := Function.update_self ..
      change SweepOk startLimit sweepLimit _ ((h.goto v p).sweeps v)
      rw [hself]
      exact hp.grows hg hstart
    · have hother : (h.goto w p).sweeps v = h.sweeps v := Function.update_of_ne hv ..
      change SweepOk startLimit sweepLimit _ ((h.goto w p).sweeps v)
      rw [hother]
      exact (hi.sweeps v).grows hg hstart

/-- Any other step. -/
theorem CleanupInv.grows (hi : CleanupInv startLimit sweepLimit h) (hstart : 0 < startLimit)
    (hg : SweepGrows startLimit h h') (hsweeps : h'.sweeps = h.sweeps) (hunique : h'.ids.Nodup)
    (hgraded : ∀ table, ∀ id ∈ h'.rows table, id ∈ h'.rows .job)
    (hjobs : ∀ id ∈ h'.rows .job, id ∈ h'.ids)
    (hstarting : ∀ s ∈ h'.starting, s.1 ∉ h'.ids ∧ (s ∈ h.starting ∨ s.2 = h.now ∧
      ∀ d ∈ h'.dirs, d.name ∈ s.1.names → s.2 ≤ d.mtime)) :
    CleanupInv startLimit sweepLimit h' where
  unique := hunique
  apart s hs := (hstarting s hs).1
  graded := hgraded
  jobs := hjobs
  starting s hs := by
    rw [hg.now]
    rcases (hstarting s hs).2 with hold | ⟨hnow, hmtime⟩
    · obtain ⟨hlt, hle, hmtime⟩ := hi.starting s hold
      exact ⟨hlt, hle, hg.startedAt hle hmtime⟩
    · exact ⟨by omega, by omega, hmtime⟩
  sweeps w := by
    rw [hsweeps]
    exact (hi.sweeps w).grows hg hstart

end

/-! ## The sweeps -/

section

variable {isUuid : Str → Bool} {misplaced : SessionUuid → Bool} {startLimit sweepLimit : ℕ}
  {h : CleanupHost} {w : ℕ}

/-- A session that is selected has ended. -/
theorem CleanupInv.over_of_selected (hi : CleanupInv startLimit sweepLimit h) {id : SessionUuid}
    (hid : id ∈ (h.sessions.filter fun s => s.2 ∈ removeWorkspacesFor).map Prod.fst) :
    Over h id := by
  obtain ⟨s, hs, rfl⟩ := List.mem_map.mp hid
  obtain ⟨hmem, hstatus⟩ := List.mem_filter.mp hs
  refine ⟨List.mem_map_of_mem hmem, fun s' hs' heq => ?_⟩
  have hsame : s' = s := List.inj_on_of_nodup_map hi.unique hs' hmem heq
  rw [hsame]
  have hremoved : s.2 ∈ removeWorkspacesFor := by simpa using hstatus
  revert hremoved
  rcases s.2 with _ | _ | _ | _ | _ | _ <;> decide

theorem Over.not_needed (hi : CleanupInv startLimit sweepLimit h) {id : SessionUuid}
    (hover : Over h id) (hjob : id ∉ h.rows .job) {name : Str} (hname : name ∈ id.names) :
    ¬h.Needed name := by
  rintro ⟨id', hname', hneeded⟩
  obtain rfl := eq_of_mem_names hname hname'
  rcases hneeded with ⟨t, ht⟩ | ⟨status, hstatus, hmem⟩ | ⟨table, htable⟩
  · exact hi.apart _ ht hover.1
  · exact hover.2 _ hmem rfl hstatus
  · exact hjob (hi.graded table id htable)

/-- The step of a sweep that removes the directories of a session. -/
theorem keepsNeeded_rmtree {name : Str} {h' : CleanupHost} (hdirs : h'.dirs = h.dirs)
    (hname : ¬h.Needed name) : KeepsNeeded h (h'.rmtree name) := by
  intro d hd hneeded
  refine ⟨d, List.mem_filter.mpr ⟨hdirs ▸ hd, ?_⟩, rfl⟩
  have hne : d.name ≠ name := by
    rintro rfl
    exact hname hneeded
  simpa using hne

/-- A directory that is needed belongs to a session the sweep knows, or it is new. -/
theorem CleanupInv.fresh_of_needed (hi : CleanupInv startLimit sweepLimit h)
    (hlimits : startLimit + sweepLimit ≤ orphanGrace) {known : List Str} {readAt : ℕ}
    (hknown : Known startLimit sweepLimit h known readAt) {d : WorkspaceDir} (hd : d ∈ h.dirs)
    (hneeded : h.Needed d.name) :
    dirBase d.name ∈ known ∨ h.now < d.mtime + orphanGrace := by
  obtain ⟨id, hname, hneeded⟩ := hneeded
  rw [dirBase_of_mem_names hname]
  have hids : id ∈ h.ids → id.text ∈ known ∨ h.now < d.mtime + orphanGrace := by
    intro hid
    refine (hknown.2.2 id hid).imp_right fun hdirs => ?_
    have hmtime := hdirs d hd hname
    have hend := hknown.2.1
    omega
  rcases hneeded with ⟨t, ht⟩ | ⟨status, -, hmem⟩ | ⟨table, htable⟩
  · obtain ⟨hnow, -, hmtime⟩ := hi.starting _ ht
    have hle := hmtime d hd hname
    dsimp only at hnow hle
    exact Or.inr (by omega)
  · exact hids (List.mem_map_of_mem hmem)
  · exact hids (hi.jobs id (hi.graded table id htable))

theorem KeepsNeeded.refl (h : CleanupHost) : KeepsNeeded h h := fun d hd _ => ⟨d, hd, rfl⟩

theorem sweepNext_spec (hi : CleanupInv startLimit sweepLimit h) (hstart : 0 < startLimit)
    (hsweep : 0 < sweepLimit) (hlimits : startLimit + sweepLimit ≤ orphanGrace) (w : ℕ) :
    CleanupInv startLimit sweepLimit (sweepNext isUuid misplaced h w) ∧
      KeepsNeeded h (sweepNext isUuid misplaced h w) := by
  have hp := hi.sweeps w
  have hgoto : ∀ {p : SweepPhase}, SweepOk startLimit sweepLimit h p →
      CleanupInv startLimit sweepLimit (h.goto w p) ∧ KeepsNeeded h (h.goto w p) :=
    fun hok => ⟨hi.of_sweep hstart (fun _ => id) hok, .refl h⟩
  rw [sweepNext]
  rcases hphase : h.sweeps w with _ | ⟨sessions, models, protectedIds⟩ |
    ⟨sessions, protectedIds⟩ | ⟨rest, protectedIds, known, readAt⟩ |
    ⟨rest, protectedIds, known, readAt⟩ <;> rw [hphase] at hp <;> dsimp only
  case idle =>
    exact hgoto fun id hid => ⟨hi.over_of_selected hid, fun _ => Or.inl List.mem_cons_self⟩
  case retaining =>
    rcases models with _ | ⟨model, models⟩ <;> dsimp only
    · refine hgoto fun id hid => ⟨(hp id hid).1, fun hjob => ?_⟩
      exact ((hp id hid).2 hjob).resolve_left List.not_mem_nil
    · refine hgoto fun id hid => ⟨(hp id hid).1, fun hjob => ?_⟩
      rcases (hp id hid).2 hjob with hmodel | hmem
      · rcases List.mem_cons.mp hmodel with rfl | hmodel
        · refine Or.inr (List.mem_append_right _ ?_)
          exact List.mem_flatMap.mpr ⟨id, hjob, List.mem_cons_self⟩
        · exact Or.inl hmodel
      · exact Or.inr (List.mem_append_left _ hmem)
  case loading =>
    refine hgoto ⟨fun id hid => ⟨(hp id hid).1, fun hjob => ?_⟩, Nat.le_refl _, by omega,
      fun id hid => Or.inl (List.mem_map_of_mem hid)⟩
    exact List.mem_append_left _ ((hp id hid).2 hjob)
  case removing =>
    rcases rest with _ | ⟨id, rest⟩ <;> dsimp only
    · exact hgoto hp.2
    · have hok : SweepOk startLimit sweepLimit h (.removing rest protectedIds known readAt) :=
        ⟨fun id hid => hp.1 id (List.mem_cons_of_mem _ hid), hp.2⟩
      obtain ⟨hover, hjob⟩ := hp.1 id List.mem_cons_self
      split_ifs with hkept
      · exact hgoto hok
      · push Not at hkept
        have hgone : ∀ name ∈ id.names, ¬h.Needed name := fun name hname =>
          hover.not_needed hi (fun hmem => hkept.1 (hjob hmem)) hname
        refine ⟨hi.of_sweep hstart (fun d hd => ?_) hok, fun d hd hneeded => ?_⟩
        · exact (List.mem_filter.mp (List.mem_filter.mp hd).1).1
        · have hfirst : KeepsNeeded h
              ((h.goto w (.removing rest protectedIds known readAt)).rmtree id.text) :=
            keepsNeeded_rmtree rfl (hgone id.text (by simp [SessionUuid.names]))
          obtain ⟨d₁, hd₁, hname₁⟩ := hfirst d hd hneeded
          refine ⟨d₁, List.mem_filter.mpr ⟨hd₁, ?_⟩, hname₁⟩
          have hne : d₁.name ≠ id.starter := by
            rw [hname₁]
            rintro heq
            exact hgone id.starter (by simp [SessionUuid.names]) (heq ▸ hneeded)
          simpa using hne
  case sweeping =>
    rcases rest with _ | ⟨name, rest⟩ <;> dsimp only
    · exact hgoto trivial
    · have hok : SweepOk startLimit sweepLimit h (.sweeping rest protectedIds known readAt) := hp
      split_ifs with hknown
      · exact hgoto hok
      · split
        · exact hgoto trivial
        · rename_i d hfind
          split_ifs with hleft
          · exact hgoto hok
          · push Not at hknown hleft
            have hname : d.name = name := by simpa using List.find?_some hfind
            have hgone : ¬h.Needed name := by
              intro hneeded
              rcases hi.fresh_of_needed hlimits hp (List.mem_of_find?_eq_some hfind)
                (hname ▸ hneeded) with hbase | hfresh
              · exact hknown.1 (hname ▸ hbase)
              · exact absurd hfresh (Nat.not_lt.mpr hleft.2.1)
            exact ⟨hi.of_sweep hstart (fun d hd => (List.mem_filter.mp hd).1) hok,
              keepsNeeded_rmtree rfl hgone⟩

end

/-! ## The other steps -/

section

variable {isUuid : Str → Bool} {misplaced : SessionUuid → Bool} {startLimit sweepLimit : ℕ}
  {h : CleanupHost} {id : SessionUuid} {status : SessionStatus}

/-- A session that is open has not ended. -/
theorem Over.ne_of_isOpen {ended : SessionUuid} (hover : Over h ended)
    (hopen : h.isOpen id = true) : ended ≠ id := by
  rintro rfl
  obtain ⟨s, hs, hmutable⟩ := List.any_eq_true.mp hopen
  obtain ⟨hid, hstatus⟩ := (Bool.and_eq_true_iff.mp hmutable).imp_left of_decide_eq_true
  refine hover.2 s hs hid ?_
  revert hstatus
  rcases s.2 with _ | _ | _ | _ | _ | _ <;> decide

@[simp] theorem ids_setStatus : (h.setStatus id status).ids = h.ids := by
  simp only [CleanupHost.ids, CleanupHost.setStatus, List.map_map]
  refine List.map_congr_left fun s _ => ?_
  by_cases hid : s.1 = id <;> simp [hid]

theorem Over.setStatus {ended : SessionUuid} (hover : Over h ended)
    (hopen : h.isOpen id = true) : Over (h.setStatus id status) ended := by
  refine ⟨ids_setStatus.symm ▸ hover.1, fun s hs heq => ?_⟩
  obtain ⟨s₀, hs₀, rfl⟩ := List.mem_map.mp hs
  by_cases hid : s₀.1 = id
  · rw [if_pos hid] at heq
    exact absurd heq.symm (hover.ne_of_isOpen hopen)
  · rw [if_neg hid] at heq ⊢
    exact hover.2 s₀ hs₀ heq

/-- An open session gets another status. -/
theorem SweepGrows.setStatus (hopen : h.isOpen id = true) :
    SweepGrows startLimit h (h.setStatus id status) where
  now := rfl
  ended _ hover := hover.setStatus hopen
  jobs _ _ hjob := hjob
  ids _ hid := Or.inl (ids_setStatus ▸ hid)
  dirs d hd := Or.inl ⟨d, hd, rfl, Nat.le_refl _⟩

theorem CleanupInv.setStatus (hi : CleanupInv startLimit sweepLimit h) (hstart : 0 < startLimit)
    (hopen : h.isOpen id = true) :
    CleanupInv startLimit sweepLimit (h.setStatus id status) := by
  have hids : (h.setStatus id status).ids = h.ids := ids_setStatus
  refine hi.grows hstart (SweepGrows.setStatus hopen) rfl ?_ hi.graded ?_
    fun s hs => ⟨?_, Or.inl hs⟩
  · rw [hids]
    exact hi.unique
  · rw [hids]
    exact hi.jobs
  · rw [hids]
    exact hi.apart s hs

/-- The row of the submission is added with the status. -/
theorem CleanupInv.submit (hi : CleanupInv startLimit sweepLimit h) (hstart : 0 < startLimit)
    (hopen : h.isOpen id = true) :
    CleanupInv startLimit sweepLimit
      { h.setStatus id .submitted with
        rows := Function.update h.rows .job (id :: h.rows .job) } := by
  have hmem : id ∈ h.ids := by
    obtain ⟨s, hs, hmutable⟩ := List.any_eq_true.mp hopen
    have hid : s.1 = id := of_decide_eq_true (Bool.and_eq_true_iff.mp hmutable).1
    exact hid ▸ List.mem_map_of_mem hs
  have hrow : Function.update h.rows .job (id :: h.rows .job) .job = id :: h.rows .job :=
    Function.update_self ..
  have hg : SweepGrows startLimit h { h.setStatus id .submitted with
      rows := Function.update h.rows .job (id :: h.rows .job) } :=
    { SweepGrows.setStatus hopen with
      ended := fun ended hover => Over.setStatus hover hopen
      jobs := fun ended hover hjob => by
        change ended ∈ Function.update h.rows .job (id :: h.rows .job) .job at hjob
        rw [hrow] at hjob
        exact (List.mem_cons.mp hjob).resolve_left (hover.ne_of_isOpen hopen) }
  have hids : (h.setStatus id .submitted).ids = h.ids := ids_setStatus
  refine hi.grows hstart hg rfl ?_ ?_ ?_ fun s hs => ⟨?_, Or.inl hs⟩
  · change (h.setStatus id .submitted).ids.Nodup
    rw [hids]
    exact hi.unique
  · intro table other hother
    change other ∈ Function.update h.rows .job (id :: h.rows .job) table at hother
    change other ∈ Function.update h.rows .job (id :: h.rows .job) .job
    rw [hrow]
    by_cases htable : table = .job
    · subst htable
      rwa [hrow] at hother
    · rw [Function.update_of_ne htable] at hother
      exact List.mem_cons_of_mem _ (hi.graded table other hother)
  · intro other hother
    change other ∈ (h.setStatus id .submitted).ids
    change other ∈ Function.update h.rows .job (id :: h.rows .job) .job at hother
    rw [hrow] at hother
    rw [hids]
    rcases List.mem_cons.mp hother with rfl | hold
    · exact hmem
    · exact hi.jobs other hold
  · change s.1 ∉ (h.setStatus id .submitted).ids
    rw [hids]
    exact hi.apart s hs

theorem CleanupInv.record (hi : CleanupInv startLimit sweepLimit h) (hstart : 0 < startLimit)
    (hjob : id ∈ h.rows .job) (table : GradeTable) :
    CleanupInv startLimit sweepLimit
      { h with rows := Function.update h.rows table (id :: h.rows table) } := by
  have hrows : ∀ t other, other ∈ Function.update h.rows table (id :: h.rows table) t →
      other ∈ h.rows .job := by
    intro t other hother
    by_cases ht : t = table
    · subst ht
      rw [Function.update_self] at hother
      rcases List.mem_cons.mp hother with rfl | hold
      · exact hjob
      · exact hi.graded t other hold
    · rw [Function.update_of_ne ht] at hother
      exact hi.graded t other hother
  have hmore : ∀ other ∈ h.rows .job,
      other ∈ Function.update h.rows table (id :: h.rows table) .job := by
    intro other hother
    by_cases ht : .job = table
    · subst ht
      rw [Function.update_self]
      exact List.mem_cons_of_mem _ hother
    · rwa [Function.update_of_ne ht]
  have hg : SweepGrows startLimit h
      { h with rows := Function.update h.rows table (id :: h.rows table) } :=
    { now := rfl
      ended := fun _ hover => hover
      jobs := fun other _ hother => hrows .job other hother
      ids := fun _ hid => Or.inl hid
      dirs := fun d hd => Or.inl ⟨d, hd, rfl, Nat.le_refl _⟩ }
  exact hi.grows hstart hg rfl hi.unique (fun t other hother => hmore other (hrows t other hother))
    (fun other hother => hi.jobs other (hrows .job other hother))
    fun s hs => ⟨hi.apart s hs, Or.inl hs⟩

theorem dirs_makeDirs {d : WorkspaceDir} (hd : d ∈ (h.makeDirs id).dirs) :
    (d ∈ h.dirs ∧ d.name ∉ id.names) ∨ d.name ∈ id.names ∧ d.mtime = h.now := by
  rcases List.mem_append.mp hd with hold | hnew
  · obtain ⟨hmem, hname⟩ := List.mem_filter.mp hold
    exact Or.inl ⟨hmem, by simpa using hname⟩
  · obtain ⟨name, hname, rfl⟩ := List.mem_map.mp hnew
    exact Or.inr ⟨hname, rfl⟩

theorem SweepGrows.makeDirs : SweepGrows startLimit h (h.makeDirs id) where
  now := rfl
  ended _ hover := hover
  jobs _ _ hjob := hjob
  ids _ hid := Or.inl hid
  dirs d hd := (dirs_makeDirs hd).imp (fun hold => ⟨d, hold.1, rfl, Nat.le_refl _⟩)
    fun hnew => hnew.2.ge

/-- The directories of a new start are new. -/
theorem CleanupInv.create (hi : CleanupInv startLimit sweepLimit h) (hstart : 0 < startLimit)
    (hnew : id ∉ h.ids) :
    CleanupInv startLimit sweepLimit
      { h.makeDirs id with starting := (id, h.now) :: h.starting } := by
  have hg : SweepGrows startLimit h { h.makeDirs id with starting := (id, h.now) :: h.starting } :=
    { (SweepGrows.makeDirs : SweepGrows startLimit h (h.makeDirs id)) with
      ended := fun _ hover => hover }
  refine hi.grows hstart hg rfl hi.unique hi.graded hi.jobs fun s hs => ?_
  rcases List.mem_cons.mp hs with rfl | hold
  · refine ⟨hnew, Or.inr ⟨rfl, fun d hd hname => ?_⟩⟩
    rcases dirs_makeDirs hd with ⟨-, hother⟩ | ⟨-, htime⟩
    · exact absurd hname hother
    · exact htime.ge
  · exact ⟨hi.apart s hold, Or.inl hold⟩

theorem CleanupInv.failStart (hi : CleanupInv startLimit sweepLimit h) (hstart : 0 < startLimit) :
    CleanupInv startLimit sweepLimit
      { h with starting := h.starting.filter fun s => s.1 ≠ id } := by
  have hg : SweepGrows startLimit h { h with starting := h.starting.filter fun s => s.1 ≠ id } :=
    { now := rfl
      ended := fun _ hover => hover
      jobs := fun _ _ hjob => hjob
      ids := fun _ hid => Or.inl hid
      dirs := fun d hd => Or.inl ⟨d, hd, rfl, Nat.le_refl _⟩ }
  refine hi.grows hstart hg rfl hi.unique hi.graded hi.jobs fun s hs => ?_
  have hold := (List.mem_filter.mp hs).1
  exact ⟨hi.apart s hold, Or.inl hold⟩

theorem CleanupInv.commitStart (hi : CleanupInv startLimit sweepLimit h)
    (hstart : 0 < startLimit) (hstarting : id ∈ h.starting.map Prod.fst) :
    CleanupInv startLimit sweepLimit
      { h with
        sessions := h.sessions ++ [(id, .active)]
        starting := h.starting.filter fun s => s.1 ≠ id } := by
  obtain ⟨s₀, hs₀, rfl⟩ := List.mem_map.mp hstarting
  obtain ⟨hnow, hle, hmtime⟩ := hi.starting s₀ hs₀
  have happart := hi.apart s₀ hs₀
  have hids : (h.sessions ++ [(s₀.1, SessionStatus.active)]).map Prod.fst = h.ids ++ [s₀.1] :=
    List.map_append
  have hg : SweepGrows startLimit h
      { h with
        sessions := h.sessions ++ [(s₀.1, .active)]
        starting := h.starting.filter fun s => s.1 ≠ s₀.1 } :=
    { now := rfl
      ended := fun ended hover => by
        refine ⟨?_, fun s hs heq => ?_⟩
        · change ended ∈ (h.sessions ++ [(s₀.1, SessionStatus.active)]).map Prod.fst
          rw [hids]
          exact List.mem_append_left _ hover.1
        · rcases List.mem_append.mp hs with hold | hnew
          · exact hover.2 s hold heq
          · rw [List.mem_singleton.mp hnew] at heq
            exact absurd (heq ▸ hover.1) happart
      jobs := fun _ _ hjob => hjob
      ids := fun other hother => by
        change other ∈ (h.sessions ++ [(s₀.1, SessionStatus.active)]).map Prod.fst at hother
        rw [hids] at hother
        refine (List.mem_append.mp hother).imp_right fun hsame => ?_
        rw [List.mem_singleton.mp hsame]
        exact fun d hd hname => hnow.trans_le (Nat.add_le_add_right (hmtime d hd hname) _)
      dirs := fun d hd => Or.inl ⟨d, hd, rfl, Nat.le_refl _⟩ }
  refine hi.grows hstart hg rfl ?_ hi.graded ?_ fun s hs => ?_
  · change ((h.sessions ++ [(s₀.1, SessionStatus.active)]).map Prod.fst).Nodup
    rw [hids]
    rw [← List.concat_eq_append]
    exact hi.unique.concat happart
  · intro other hother
    change other ∈ (h.sessions ++ [(s₀.1, SessionStatus.active)]).map Prod.fst
    rw [hids]
    exact List.mem_append_left _ (hi.jobs other hother)
  · obtain ⟨hold, hne⟩ := List.mem_filter.mp hs
    refine ⟨?_, Or.inl hold⟩
    change s.1 ∉ (h.sessions ++ [(s₀.1, SessionStatus.active)]).map Prod.fst
    rw [hids, List.mem_append, List.mem_singleton]
    exact not_or.mpr ⟨hi.apart s hold, by simpa using hne⟩

theorem CleanupInv.touch (hi : CleanupInv startLimit sweepLimit h) (hstart : 0 < startLimit)
    (name : Str) :
    CleanupInv startLimit sweepLimit
      { h with dirs := h.dirs.map fun d =>
          if d.name = name then { d with mtime := h.now } else d } := by
  have hg : SweepGrows startLimit h
      { h with dirs := h.dirs.map fun d =>
          if d.name = name then { d with mtime := h.now } else d } :=
    { now := rfl
      ended := fun _ hover => hover
      jobs := fun _ _ hjob => hjob
      ids := fun _ hid => Or.inl hid
      dirs := fun d hd => by
        obtain ⟨d₀, hd₀, rfl⟩ := List.mem_map.mp hd
        by_cases hname : d₀.name = name
        · rw [if_pos hname]
          exact Or.inr (Nat.le_refl _)
        · rw [if_neg hname]
          exact Or.inl ⟨d₀, hd₀, rfl, Nat.le_refl _⟩ }
  exact hi.grows hstart hg rfl hi.unique hi.graded hi.jobs
    fun s hs => ⟨hi.apart s hs, Or.inl hs⟩

/-- The time passes within the limits. -/
theorem CleanupInv.tick (hi : CleanupInv startLimit sweepLimit h) {d : ℕ}
    (htime : Timely startLimit sweepLimit h (.tick d)) :
    CleanupInv startLimit sweepLimit { h with now := h.now + d } where
  unique := hi.unique
  apart := hi.apart
  graded := hi.graded
  jobs := hi.jobs
  starting s hs := ⟨htime.1 s hs, (hi.starting s hs).2.1.trans (Nat.le_add_right _ _),
    (hi.starting s hs).2.2⟩
  sweeps w := by
    have hp := hi.sweeps w
    have hlimit := htime.2 w
    change SweepOk startLimit sweepLimit { h with now := h.now + d } (h.sweeps w)
    cases hphase : h.sweeps w <;> rw [hphase] at hp hlimit
    case idle => trivial
    case retaining => exact hp
    case loading => exact hp
    case removing =>
      exact ⟨hp.1, hp.2.1.trans (Nat.le_add_right _ _), hlimit, hp.2.2.2⟩
    case sweeping => exact ⟨hp.1.trans (Nat.le_add_right _ _), hlimit, hp.2.2⟩

theorem KeepsNeeded.of_dirs {h' : CleanupHost} (hdirs : h'.dirs = h.dirs) : KeepsNeeded h h' :=
  fun d hd _ => ⟨d, hdirs ▸ hd, rfl⟩

theorem KeepsNeeded.makeDirs {h' : CleanupHost} (hdirs : h'.dirs = (h.makeDirs id).dirs) :
    KeepsNeeded h h' := by
  intro d hd _
  rw [hdirs]
  by_cases hname : d.name ∈ id.names
  · exact ⟨⟨d.name, false, h.now⟩, List.mem_append_right _ (List.mem_map_of_mem hname), rfl⟩
  · exact ⟨d, List.mem_append_left _ (List.mem_filter.mpr ⟨hd, by simpa using hname⟩), rfl⟩

end

/-! ## Runs -/

section

variable {isUuid : Str → Bool} {misplaced : SessionUuid → Bool} {startLimit sweepLimit : ℕ}
  {h : CleanupHost}

theorem cleanupAct_spec (hstart : 0 < startLimit) (hsweep : 0 < sweepLimit)
    (hlimits : startLimit + sweepLimit ≤ orphanGrace) {a : CleanupAction}
    (hi : CleanupInv startLimit sweepLimit h) (htime : Timely startLimit sweepLimit h a) :
    CleanupInv startLimit sweepLimit (cleanupAct isUuid misplaced h a) ∧
      KeepsNeeded h (cleanupAct isUuid misplaced h a) := by
  have hstay : CleanupInv startLimit sweepLimit h ∧ KeepsNeeded h h := ⟨hi, .refl h⟩
  cases a with
  | tick d => exact ⟨hi.tick htime, .of_dirs rfl⟩
  | create id =>
      rw [cleanupAct]
      split_ifs with hold
      · exact hstay
      · exact ⟨hi.create hstart (not_or.mp hold).1, .makeDirs rfl⟩
  | commitStart id =>
      rw [cleanupAct]
      split_ifs with hmem
      · exact ⟨hi.commitStart hstart hmem, .of_dirs rfl⟩
      · exact hstay
  | failStart id => exact ⟨hi.failStart hstart, .of_dirs rfl⟩
  | submit id =>
      rw [cleanupAct]
      split_ifs with hopen
      · exact ⟨hi.submit hstart hopen, .of_dirs rfl⟩
      · exact hstay
  | abandon id =>
      rw [cleanupAct]
      split_ifs with hopen
      · exact ⟨hi.setStatus hstart hopen, .of_dirs rfl⟩
      · exact hstay
  | expire id =>
      rw [cleanupAct]
      split_ifs with hopen
      · exact ⟨hi.setStatus hstart hopen, .of_dirs rfl⟩
      · exact hstay
  | record id table =>
      rw [cleanupAct]
      split_ifs with hjob
      · exact ⟨hi.record hstart hjob table, .of_dirs rfl⟩
      · exact hstay
  | rebuild id =>
      rw [cleanupAct]
      split_ifs with hmem
      · refine ⟨hi.grows hstart .makeDirs rfl hi.unique hi.graded hi.jobs fun s hs => ?_,
          .makeDirs rfl⟩
        exact ⟨hi.apart s hs, Or.inl hs⟩
      · exact hstay
  | touch name =>
      refine ⟨hi.touch hstart name, fun d hd _ => ⟨_, List.mem_map_of_mem hd, ?_⟩⟩
      by_cases hname : d.name = name <;> simp [hname]
  | sweep w => exact sweepNext_spec hi hstart hsweep hlimits w
  | crash w => exact ⟨hi.of_sweep hstart (fun _ => id) trivial, .refl h⟩

theorem cleanupInv_freshCleanup : CleanupInv startLimit sweepLimit freshCleanup where
  unique := List.nodup_nil
  apart _ hs := absurd hs List.not_mem_nil
  graded _ _ hid := absurd hid List.not_mem_nil
  jobs _ hid := absurd hid List.not_mem_nil
  starting _ hs := absurd hs List.not_mem_nil
  sweeps _ := trivial

end

/-- A session id for the run below. -/
def zeroUuid : SessionUuid where
  text := lit "00000000-0000-0000-0000-000000000000"
  isId := by decide +kernel

/-- A start that commits after a sweep has begun. -/
def startDuringSweep : List CleanupAction :=
  [.sweep 0, .create zeroUuid, .tick 1000000, .commitStart zeroUuid, .sweep 0, .sweep 0]

end PromptCode
