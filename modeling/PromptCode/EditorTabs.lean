import PromptCode.EditorRoundTrip
import PromptCode.SavedFiles

/-!
# Editors of one session

The tabs that edit the files of a session, and the saves that they send.  A save names the
revision that its tab has last read or saved; it may come late, more than once or not at
all, and so may its answer.
-/

namespace PromptCode

open Py FileTree Transition

/-! ## The tabs -/

/-- An item of `models`, and the save that it waits for. -/
structure Tab where
  path : Str
  saved : Str
  revision : ℕ
  value : Str
  waiting : Option ℕ

/-- A request of `enqueueSave`, with the text that its tab had as saved. -/
structure SaveRequest where
  path : Str
  content : Str
  baseRevision : ℕ
  seen : Str

structure TabsHost where
  server : SessionFiles
  tabs : ℕ → Option Tab
  requests : List SaveRequest
  /-- The answers to saves that were accepted, by the number of the request. -/
  answers : List (ℕ × FileContent)

namespace TabsHost

variable (h : TabsHost) (n : ℕ)

def setTab (tab : Tab) : TabsHost := { h with tabs := Function.update h.tabs n (some tab) }

end TabsHost

inductive TabsAction where
  /-- Any other request, or another container. -/
  | other (a : FilesAction)
  | openFile (n : ℕ) (env : FilesEnv) (path : Str)
  | setValue (n : ℕ) (value : Str)
  | enqueueSave (n : ℕ)
  /-- The server handles a request that has been sent. -/
  | handle (j : ℕ) (env : FilesEnv) (commits : Bool)
  | deliver (n k : ℕ)
  /-- The save fails, or the connection. -/
  | giveUp (n : ℕ)

def tabsAct (src : ChallengeDir) (h : TabsHost) : TabsAction → TabsHost
  | .other a => { h with server := filesAct src h.server a }
  | .openFile n env path =>
      match getSessionFile src env h.server path with
      | (.error _, server) => { h with server := server }
      | (.ok file, server) =>
          { h.setTab n ⟨path, file.content, file.revision, file.content, none⟩ with
            server := server }
  | .setValue n value =>
      match h.tabs n with
      | none => h
      | some tab => h.setTab n { tab with value := value }
  | .enqueueSave n =>
      match h.tabs n with
      | none => h
      | some tab =>
          if tab.waiting.isSome || tab.value = tab.saved then h
          else
            { h.setTab n { tab with waiting := some h.requests.length } with
              requests := h.requests ++ [⟨tab.path, tab.value, tab.revision, tab.saved⟩] }
  | .handle j env commits =>
      match h.requests[j]? with
      | none => h
      | some q =>
          match saveSessionFile src env h.server q.path q.content (some q.baseRevision)
              commits with
          | (.error _, server) => { h with server := server }
          | (.ok file, server) =>
              { h with
                server := server
                answers := h.answers ++ [(j, file)] }
  | .deliver n k =>
      match h.tabs n, h.answers[k]? with
      | some tab, some (j, file) =>
          match h.requests[j]? with
          | none => h
          | some q =>
              if tab.waiting = some j then
                h.setTab n
                  { tab with
                    saved := q.content
                    revision := file.revision
                    waiting := none }
              else h
      | _, _ => h
  | .giveUp n =>
      match h.tabs n with
      | none => h
      | some tab => h.setTab n { tab with waiting := none }

def freshTabs (sessionId : Str) (ledger : Ledger) : TabsHost where
  server := freshFiles sessionId ledger
  tabs := fun _ => none
  requests := []
  answers := []

/-! ## What a revision reads as -/

/-- The text of the first revision is that of the challenge, or none. -/
def revisionText (src : ChallengeDir) (files : History Str Str) (path : Str)
    (revision : ℕ) : Option Str :=
  if revision = 1 then
    some (((src.copyCandidateTree.fileAt (walkedParts path)).map readText).getD [])
  else (files.contentAt path revision).map universalNewlines

section

variable {src : ChallengeDir} {files : History Str Str} {t : Tree} {path text : Str}

theorem revisionText_append {r : Revision Str Str} {revision : ℕ}
    (h : revisionText src files path revision = some text) :
    revisionText src (files ++ [r]) path revision = some text := by
  rw [revisionText] at h ⊢
  split_ifs at h ⊢ with hone
  · exact h
  · obtain ⟨c, hc, rfl⟩ := Option.map_eq_some_iff.mp h
    rw [History.contentAt_append hc]
    rfl

theorem revisionText_current {c : Str} (hn : files.Numbered)
    (hc : files.lastContent path = some c) :
    revisionText src files path (files.current path) = some (universalNewlines c) := by
  have hne : files.current path ≠ 1 := by
    obtain ⟨r, hr, -⟩ := Option.map_eq_some_iff.mp hc
    obtain ⟨hmem, hpath⟩ := List.mem_filter.mp (List.mem_of_getLast? hr)
    have hle := hn.revision_le hmem
    rw [of_decide_eq_true hpath] at hle
    omega
  rw [revisionText, if_neg hne, hn.contentAt_current, hc]
  rfl

/-- A path without revisions is at the first. -/
theorem current_of_lastContent_none (hn : files.Numbered)
    (hc : files.lastContent path = none) :
    files.current path = 1 ∧ ∀ r ∈ files, r.path ≠ path := by
  rw [History.lastContent, Option.map_eq_none_iff, List.getLast?_eq_none_iff] at hc
  refine ⟨?_, fun r hr hpath => ?_⟩
  · rw [hn.current_eq, History.revisionsOf, hc]
    rfl
  · have hmem : r ∈ files.filter fun r => r.path = path :=
      List.mem_filter.mpr ⟨hr, by simpa using hpath⟩
    rw [hc] at hmem
    cases hmem

/-- What the current revision reads as is what is in the workspace. -/
theorem Mirrors.revisionText_eq (h : Mirrors src files t) (hn : files.Numbered)
    (hrows : ∀ r ∈ files, RowOk r) (happart : History.Apart walkedParts files path) :
    revisionText src files path (files.current path) =
      some (((t.fileAt (walkedParts path)).map readText).getD []) := by
  rcases hc : files.lastContent path with _ | c
  · obtain ⟨hone, hother⟩ := current_of_lastContent_none hn hc
    have hq : ∀ r ∈ files, walkedParts r.path ≠ walkedParts path :=
      fun r hr heq => hother r hr (happart r hr heq)
    rw [hone, revisionText, if_pos rfl, h.fileAt_other hq]
  · obtain ⟨r, hr, hcontent⟩ := Option.map_eq_some_iff.mp hc
    have hencoded := (hrows r (List.mem_filter.mp (List.mem_of_getLast? hr)).1).encoded
    rw [hcontent] at hencoded
    obtain ⟨data, hdata⟩ := Option.ne_none_iff_exists'.mp hencoded
    rw [revisionText_current hn hc, h.fileAt_saved happart hc, encodeText, hdata,
      Option.getD_some, Option.map_some, Option.getD_some, readText_encode hdata]

theorem universalNewlines_idem (s : Str) :
    universalNewlines (universalNewlines s) = universalNewlines s :=
  universalNewlines_of_notMem (cr_notMem_universalNewlines s)

theorem universalNewlines_readText (data : Bytes) :
    universalNewlines (readText data) = readText data :=
  universalNewlines_idem _

end

/-! ## What the answers tell -/

section

variable {src : ChallengeDir} {env : FilesEnv} {s s' : SessionFiles} {path content : Str}
  {file : FileContent} {commits : Bool}

theorem readFile_text {workspace : Tree} {text : Str}
    (h : readFile workspace path = .ok text) :
    text = ((workspace.fileAt (walkedParts path)).map readText).getD [] := by
  obtain ⟨walked, data, hpath, hfile, rfl⟩ := readFile_ok h
  rw [(containedFile_ok hpath).path_eq] at hfile
  rw [hfile]
  rfl

theorem readFile_fileNotFound {workspace : Tree}
    (h : readFile workspace path = .error .fileNotFound) :
    workspace.fileAt (walkedParts path) = none := by
  rw [readFile] at h
  split at h
  · cases h
  rcases hpath : containedFile workspace path with e | walked
  · rw [hpath] at h
    obtain rfl := Except.error.inj h
    rw [containedFile] at hpath
    dsimp only at hpath
    split_ifs at hpath <;> cases hpath
  · rw [hpath] at h
    simp only [bind, Except.bind] at h
    rw [← (containedFile_ok hpath).path_eq]
    split at h
    · assumption
    · split_ifs at h
      cases h

theorem getSessionFile_ok (hi : FilesInv src s) (happart : History.Apart walkedParts s.files path)
    (h : getSessionFile src env s path = (.ok file, s')) :
    s'.files = s.files ∧
      revisionText src s'.files path file.revision = some (universalNewlines file.content) := by
  have hsame : s'.files = s.files := by
    have hfiles : (getSessionFile src env s path).2.files = s.files := getSessionFile_files
    rwa [h] at hfiles
  refine ⟨hsame, ?_⟩
  rw [getSessionFile] at h
  split at h
  · cases (Prod.mk.inj h).1
  · split at h
    · cases (Prod.mk.inj h).1
    · rename_i t hens
      have hready := (hi.ensure hens).2 rfl
      have hfiles := ensureWorkspace_eq_files hens
      split at h
      · cases (Prod.mk.inj h).1
      · cases (Prod.mk.inj h).1
      · rename_i text hread
        obtain ⟨hfile, rfl⟩ := Prod.mk.inj h
        obtain rfl := Except.ok.inj hfile
        have hnumbered : t.files.Numbered := hfiles ▸ hi.numbered
        have hrows : ∀ r ∈ t.files, RowOk r := hfiles ▸ hi.rows
        dsimp only
        rw [hready.revisionText_eq hnumbered hrows (hfiles ▸ happart)]
        obtain ⟨walked, data, -, -, htext⟩ := readFile_ok hread
        rw [htext, universalNewlines_readText, ← htext, ← readFile_text hread]

theorem writeRevision_ok (h : writeRevision env s path content commits = (.ok file, s')) :
    s'.files = s.files ++ [⟨path, content, s.files.current path + 1⟩] ∧
      file = ⟨path, content, s.files.current path + 1⟩ := by
  rw [writeRevision] at h
  split at h
  · cases (Prod.mk.inj h).1
  · dsimp only at h
    split_ifs at h
    · obtain ⟨hfile, rfl⟩ := Prod.mk.inj h
      exact ⟨rfl, (Except.ok.inj hfile).symm⟩
    · cases (Prod.mk.inj h).1

/-- A save that is accepted has added a revision to the one it is based on, or the current
revision reads as what it would save. -/
theorem saveSessionFile_ok {baseRevision : ℕ} (hi : FilesInv src s)
    (happart : History.Apart walkedParts s.files path)
    (h : saveSessionFile src env s path content (some baseRevision) commits = (.ok file, s')) :
    file.path = path ∧
      revisionText src s'.files path file.revision = some (universalNewlines content) := by
  rw [saveSessionFile] at h
  split at h
  · cases (Prod.mk.inj h).1
  · dsimp only at h
    split at h
    · cases (Prod.mk.inj h).1
    · rename_i t hens
      have hready := (hi.ensure hens).2 rfl
      have hfiles := ensureWorkspace_eq_files hens
      have hnumbered : t.files.Numbered := hfiles ▸ hi.numbered
      split at h
      · cases (Prod.mk.inj h).1
      · rename_i prev hprev
        have htext :
            prev = ((t.disk.workspace.fileAt (walkedParts path)).map readText).getD [] := by
          split at hprev
          · rename_i hread
            rw [readFile_fileNotFound hread]
            exact (Except.ok.inj hprev).symm
          · exact readFile_text hprev
        have hlf : universalNewlines prev = prev := by
          rw [htext]
          rcases t.disk.workspace.fileAt (walkedParts path) with _ | data
          · rfl
          · exact universalNewlines_readText data
        split at h
        · split_ifs at h with hcontent
          · obtain ⟨hfile, rfl⟩ := Prod.mk.inj h
            obtain rfl := Except.ok.inj hfile
            refine ⟨rfl, ?_⟩
            dsimp only
            rw [← hfiles, hready.revisionText_eq hnumbered (hfiles ▸ hi.rows)
              (hfiles ▸ happart), ← htext, hcontent, hlf]
          · cases (Prod.mk.inj h).1
          · cases (Prod.mk.inj h).1
        · obtain ⟨hrows, rfl⟩ := writeRevision_ok h
          refine ⟨rfl, ?_⟩
          have hnew : Revision.revision
              (⟨path, content, t.files.current path + 1⟩ : Revision Str Str) =
                t.files.current path + 1 := rfl
          have hnumbered' := hnumbered.append hnew
          have hcurrent : History.current
              (t.files ++ [⟨path, content, t.files.current path + 1⟩]) path =
                t.files.current path + 1 :=
            (History.current_append hnumbered').trans (if_pos rfl)
          have hlast : History.lastContent
              (t.files ++ [⟨path, content, t.files.current path + 1⟩]) path = some content := by
            rw [History.lastContent_append, if_pos rfl]
          have hread : revisionText src _ path _ = _ := revisionText_current hnumbered' hlast
          rw [hcurrent] at hread
          rw [hrows]
          exact hread

end

/-! ## Every run -/

/-- The writes are committed, and no other saved path names the file of a request. -/
def TabsApart (h : TabsHost) : TabsAction → Prop
  | .other a => SavesApart h.server a
  | .openFile _ _ path => History.Apart walkedParts h.server.files path
  | .handle j _ commits => ∀ q ∈ h.requests[j]?, commits = true ∧
      History.Apart walkedParts h.server.files q.path
  | _ => True

/-- Each tab knows what its revision reads as, each request what its base reads as, and what
has been answered for is the text of its revision. -/
structure TabsInv (src : ChallengeDir) (h : TabsHost) : Prop where
  server : FilesInv src h.server
  tabs : ∀ n tab, h.tabs n = some tab →
    revisionText src h.server.files tab.path tab.revision = some (universalNewlines tab.saved)
  waiting : ∀ n tab j, h.tabs n = some tab → tab.waiting = some j →
    ∃ q, h.requests[j]? = some q ∧ q.path = tab.path
  requests : ∀ q ∈ h.requests,
    revisionText src h.server.files q.path q.baseRevision = some (universalNewlines q.seen)
  answers : ∀ a ∈ h.answers, ∃ q, h.requests[a.1]? = some q ∧
    revisionText src h.server.files q.path a.2.revision = some (universalNewlines q.content)

namespace TabsInv

variable {src : ChallengeDir} {h : TabsHost} {s : SessionFiles}

/-- The text of a revision stays. -/
theorem revisionText_adds {s s' : SessionFiles} {base : Option ℤ} {path named text : Str}
    {revision : ℕ} (hadds : AddsRevision s s' named base)
    (h : revisionText src s.files path revision = some text) :
    revisionText src s'.files path revision = some text := by
  rcases hadds with hsame | ⟨content, hr, -⟩
  · rwa [hsame]
  · rw [hr]
    exact revisionText_append h

/-- A request to the server that no tab has sent. -/
theorem of_server (hi : TabsInv src h) {path : Str} {base : Option ℤ}
    (hadds : AddsRevision h.server s path base) (hs : FilesInv src s) :
    TabsInv src { h with server := s } where
  server := hs
  tabs n tab htab := revisionText_adds hadds (hi.tabs n tab htab)
  waiting := hi.waiting
  requests q hq := revisionText_adds hadds (hi.requests q hq)
  answers a ha := by
    obtain ⟨q, hq, htext⟩ := hi.answers a ha
    exact ⟨q, hq, revisionText_adds hadds htext⟩

theorem tabs_setTab {n m : ℕ} {tab tab' : Tab} (htab : (h.setTab n tab).tabs m = some tab') :
    m = n ∧ tab' = tab ∨ m ≠ n ∧ h.tabs m = some tab' := by
  rw [TabsHost.setTab] at htab
  by_cases hm : m = n
  · subst hm
    exact Or.inl ⟨rfl, by simpa [eq_comm] using htab⟩
  · exact Or.inr ⟨hm, by simpa [hm] using htab⟩

theorem setTab (hi : TabsInv src h) {n : ℕ} {tab : Tab}
    (htext : revisionText src h.server.files tab.path tab.revision =
      some (universalNewlines tab.saved))
    (hwaiting : ∀ j, tab.waiting = some j → ∃ q, h.requests[j]? = some q ∧ q.path = tab.path) :
    TabsInv src (h.setTab n tab) where
  server := hi.server
  tabs m tab' htab := by
    rcases tabs_setTab htab with ⟨-, rfl⟩ | ⟨-, hold⟩
    · exact htext
    · exact hi.tabs m tab' hold
  waiting m tab' j htab hj := by
    rcases tabs_setTab htab with ⟨-, rfl⟩ | ⟨-, hold⟩
    · exact hwaiting j hj
    · exact hi.waiting m tab' j hold hj
  requests := hi.requests
  answers := hi.answers

theorem openFile (hi : TabsInv src h) (n : ℕ) (env : FilesEnv) {path : Str}
    (happart : History.Apart walkedParts h.server.files path) :
    TabsInv src (tabsAct src h (.openFile n env path)) := by
  have hs : FilesInv src (getSessionFile src env h.server path).2 := hi.server.openFile
  have hadds : AddsRevision h.server (getSessionFile src env h.server path).2 path none :=
    Or.inl getSessionFile_files
  simp only [tabsAct]
  rcases hget : getSessionFile src env h.server path with ⟨e | file, server⟩ <;>
    rw [hget] at hs hadds <;> dsimp only at hs hadds ⊢
  · exact hi.of_server hadds hs
  · have htext := (getSessionFile_ok hi.server happart hget).2
    refine (hi.of_server hadds hs).setTab htext fun j hj => ?_
    cases hj

theorem enqueueSave (hi : TabsInv src h) (n : ℕ) :
    TabsInv src (tabsAct src h (.enqueueSave n)) := by
  simp only [tabsAct]
  rcases htab : h.tabs n with _ | tab <;> dsimp only
  · exact hi
  · split_ifs
    · exact hi
    · have hlonger : ∀ {j : ℕ} {q : SaveRequest}, h.requests[j]? = some q →
          (h.requests ++ [⟨tab.path, tab.value, tab.revision, tab.saved⟩])[j]? = some q := by
        intro j q hq
        rw [List.getElem?_append_left (List.getElem?_eq_some_iff.mp hq).1]
        exact hq
      have hsent : TabsInv src { h with requests :=
          h.requests ++ [⟨tab.path, tab.value, tab.revision, tab.saved⟩] } :=
        { server := hi.server
          tabs := hi.tabs
          waiting := fun m tab' j htab' hj => by
            obtain ⟨q, hq, hpath⟩ := hi.waiting m tab' j htab' hj
            exact ⟨q, hlonger hq, hpath⟩
          requests := fun q hq => by
            rcases List.mem_append.mp hq with hq | hq
            · exact hi.requests q hq
            · rw [List.mem_singleton.mp hq]
              exact hi.tabs n tab htab
          answers := fun a ha => by
            obtain ⟨q, hq, htext⟩ := hi.answers a ha
            exact ⟨q, hlonger hq, htext⟩ }
      refine hsent.setTab (hi.tabs n tab htab) fun j hj => ?_
      obtain rfl := Option.some.inj hj
      exact ⟨_, List.getElem?_concat_length, rfl⟩

theorem handle (hi : TabsInv src h) (j : ℕ) (env : FilesEnv) {commits : Bool}
    (happart : ∀ q ∈ h.requests[j]?, commits = true ∧
      History.Apart walkedParts h.server.files q.path) :
    TabsInv src (tabsAct src h (.handle j env commits)) := by
  simp only [tabsAct]
  rcases hq : h.requests[j]? with _ | q <;> dsimp only
  · exact hi
  · obtain ⟨rfl, hpath⟩ := happart q hq
    have hs : FilesInv src (saveSessionFile src env h.server q.path q.content
        (some q.baseRevision) true).2 := hi.server.save hpath
    have hadds : AddsRevision h.server (saveSessionFile src env h.server q.path q.content
        (some q.baseRevision) true).2 q.path _ := saveSessionFile_adds (some q.baseRevision)
    rcases hsave : saveSessionFile src env h.server q.path q.content (some q.baseRevision) true
      with ⟨e | file, server⟩ <;> rw [hsave] at hs hadds <;> dsimp only at hs hadds ⊢
    · exact hi.of_server hadds hs
    · have hnew := hi.of_server hadds hs
      refine ⟨hnew.server, hnew.tabs, hnew.waiting, hnew.requests, fun a ha => ?_⟩
      rcases List.mem_append.mp ha with ha | ha
      · exact hnew.answers a ha
      · rw [List.mem_singleton.mp ha]
        exact ⟨q, hq, (saveSessionFile_ok hi.server hpath hsave).2⟩

theorem deliver (hi : TabsInv src h) (n k : ℕ) :
    TabsInv src (tabsAct src h (.deliver n k)) := by
  simp only [tabsAct]
  rcases htab : h.tabs n with _ | tab
  · exact hi
  · rcases hk : h.answers[k]? with _ | ⟨j, file⟩ <;> dsimp only
    · exact hi
    · obtain ⟨q, hq, htext⟩ := hi.answers _ (List.mem_of_getElem? hk)
      rw [hq]
      dsimp only
      split_ifs with hwaiting
      · obtain ⟨q', hq', hpath⟩ := hi.waiting n tab j htab hwaiting
        obtain rfl := Option.some.inj (hq.symm.trans hq')
        rw [hpath] at htext
        refine hi.setTab htext fun i hnone => ?_
        cases hnone
      · exact hi

theorem act (hi : TabsInv src h) {a : TabsAction} (ha : TabsApart h a) :
    TabsInv src (tabsAct src h a) := by
  cases a with
  | other a => exact hi.of_server (filesAct_adds h.server a) (filesAct_inv hi.server ha)
  | openFile n env path => exact hi.openFile n env ha
  | setValue n value =>
      simp only [tabsAct]
      rcases htab : h.tabs n with _ | tab <;> dsimp only
      · exact hi
      · exact hi.setTab (hi.tabs n tab htab) fun j hj => hi.waiting n tab j htab hj
  | enqueueSave n => exact hi.enqueueSave n
  | handle j env commits => exact hi.handle j env ha
  | deliver n k => exact hi.deliver n k
  | giveUp n =>
      simp only [tabsAct]
      rcases htab : h.tabs n with _ | tab <;> dsimp only
      · exact hi
      · refine hi.setTab (hi.tabs n tab htab) fun j hj => ?_
        cases hj

theorem fresh (src : ChallengeDir) (sessionId : Str) (ledger : Ledger) :
    TabsInv src (freshTabs sessionId ledger) where
  server := freshFiles_inv src sessionId ledger
  tabs n tab htab := by cases htab
  waiting n tab j htab := by cases htab
  requests q hq := by cases hq
  answers a ha := by cases ha

end TabsInv

/-- What a handled request writes over is what its tab had read or saved. -/
def ReplacesSeen (src : ChallengeDir) (h h' : TabsHost) : TabsAction → Prop
  | .handle j _ _ => ∀ q ∈ h.requests[j]?, h'.server.files ≠ h.server.files →
      revisionText src h.server.files q.path (h.server.files.current q.path) =
        some (universalNewlines q.seen)
  | _ => True

theorem replacesSeen {src : ChallengeDir} {h : TabsHost} (hi : TabsInv src h) (a : TabsAction) :
    ReplacesSeen src h (tabsAct src h a) a := by
  cases a with
  | handle j env commits =>
      intro q hq hne
      have hadds : AddsRevision h.server (saveSessionFile src env h.server q.path q.content
          (some q.baseRevision) commits).2 q.path _ := saveSessionFile_adds (some q.baseRevision)
      have hfiles : (tabsAct src h (.handle j env commits)).server.files =
          (saveSessionFile src env h.server q.path q.content (some q.baseRevision)
            commits).2.files := by
        simp only [tabsAct, Option.mem_def.mp hq]
        split <;> rename_i hsave <;> rw [hsave]
      rw [hfiles] at hne
      rcases hadds with hsame | ⟨content, -, hbase⟩
      · exact absurd hsame hne
      · have hcurrent := Int.ofNat.inj (hbase q.baseRevision rfl)
        rw [← hcurrent]
        exact hi.requests q (List.mem_of_getElem? hq)
  | _ => trivial

/-- A tab opens a file, changes it and saves it. -/
def savedOnce : List TabsAction :=
  [.openFile 0 roomyEnv (lit "a.py"), .setValue 0 (lit "x"), .enqueueSave 0,
    .handle 0 roomyEnv true, .deliver 0 0]

end PromptCode
