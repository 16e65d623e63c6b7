import PromptCode.ProposalEditor

/-!
# What becomes of a proposal

Until a proposal is accepted its text stays out of every save, an acceptance sends what
was proposed or what the candidate made of its preview, a rejection leaves everything as
it was before the previews, and an undo brings back what an acceptance wrote over.  This
holds in the runs that keep away from four defects of the page.
-/

namespace PromptCode.ProposalEditor

open Py

/-! ## The law -/

/-- No save sends a file whose preview is not decided. -/
def SavesNoProposal (s : Editor) (requests : List Request) : Prop :=
  ∀ path content revision, Request.saveFile path content revision ∈ requests →
    s.history.before path = none

/-- What an acceptance should send for an edit: the text that the candidate made of its
preview, and otherwise what was proposed. -/
def properRequest (s : Editor) (e : Edit) : Request :=
  match s.history.before e.path, s.models e.path with
  | some _, some item =>
      if item.value ≠ e.content then
        .applyAiEdit e.path item.value .modified e.content e.baseRevision
      else .applyAiEdit e.path e.content .accepted e.content e.baseRevision
  | _, _ => .applyAiEdit e.path e.content .accepted e.content e.baseRevision

/-- An acceptance sends the proper request for one edit after another, and for each of
them when no request fails. -/
def SendsProperly (s : Editor) (net : ℕ → Replies) (requests : List Request) : Prop :=
  ∃ n, requests = ((proposalPlan s.pendingEdits).take n).map (properRequest s) ∧
    ((∀ i, (net i).write.isOk = true) → (proposalPlan s.pendingEdits).length ≤ n)

/-- After a rejection the previewed files are what they were, and so are all others. -/
structure RestoresPreviews (s t : Editor) : Prop where
  previewed : ∀ path text stored, s.history.before path = some (text, stored) →
    (t.models path).map Item.value = some text ∧ t.stored path = stored
  others : ∀ path, s.history.before path = none → t.models path = s.models path
  stored : t.stored = s.stored

/-- After an undo each file that the acceptance wrote has the text it had before it, on
the page and on the server. -/
def UndoesAcceptance (s t : Editor) : Prop :=
  ∀ path text, s.history.written path = some text →
    t.stored path = some text ∧ (t.models path).map Item.value = some text

/-- What the law says of one action. -/
structure Lawful (s : Editor) (a : Action) : Prop where
  saves : SavesNoProposal s (perform s a).2
  accepts : ∀ net, a = .accept net → SendsProperly s net (perform s a).2
  rejects : a = .reject → RestoresPreviews s (perform s a).1
  undoes : ∀ net, a = .undo net → UndoesAcceptance s (perform s a).1

/-! ## When it holds -/

/-- Saving the file sends no undecided preview. -/
def Decided (s : Editor) (path : Str) : Prop :=
  s.history.before path = none ∨ ∀ item, s.models path = some item → item.value = item.saved

/-- The file of an edit is closed, or was previewed, or holds what is proposed in a model
that agrees with the server. -/
def ReadyToAccept (s : Editor) (e : Edit) : Prop :=
  ∀ item, s.models e.path = some item → s.history.before e.path ≠ none ∨
    (item.value = e.content ∧ s.stored e.path = some item.saved)

/-- No request for the edit is done by the server and reported as failed, and a closed
file can be read. -/
def GoodReplies (s : Editor) (e : Edit) (r : Replies) : Prop :=
  r.write ≠ .failed true ∧ (s.models e.path = none →
    r.opening.isOk = true ∧ (s.stored e.path ≠ none → r.read.isOk = true))

/-- The step keeps away from the defects. -/
def KeepsAway (s : Editor) : Action → Prop
  | .save _ => ∀ path, s.currentPath = some path → Decided s path
  | .runTests _ => ∀ path ∈ s.dirtyPaths, Decided s path
  | .accept net => proposalPlan s.pendingEdits ≠ [] → s.undoAi = [] ∧
      ∀ i e, (proposalPlan s.pendingEdits)[i]? = some e →
        ReadyToAccept s e ∧ GoodReplies s e (net i)
  | .undo net => ∀ i item, s.undoAi[i]? = some item →
      s.history.before item.path = none ∧ (net i).write.isOk = true ∧
        (s.models item.path = none → (net i).opening.isOk = true)
  | _ => True

/-- The states of the runs whose steps all keep away from the defects. -/
inductive Reaches (start : Editor) : Editor → Prop where
  | start : Reaches start start
  | step {s : Editor} {a : Action} : Reaches start s → KeepsAway s a →
      Reaches start (perform s a).1

/-! ## The invariant -/

/-- What is known while the edits `todo` are open and `items` can be undone. -/
structure Holds (todo : List Edit) (s : Editor) (items : List UndoItem) : Prop where
  nodup : (todo.map Edit.path).Nodup
  pending : ∀ path, s.history.before path ≠ none → path ∈ todo.map Edit.path
  backup : ∀ path ∈ todo.map Edit.path,
    s.previewBackup path = (s.history.before path).map Prod.fst
  kept : ∀ path text stored, s.history.before path = some (text, stored) →
    s.stored path = stored ∧ (s.models path).isSome = true
  undo : ∀ path text, s.history.written path = some text → ⟨path, text⟩ ∈ items ∧
    pathUnsafe path = false ∧ ∀ item ∈ items, item.path = path → item.before = text

def Inv (s : Editor) : Prop := Holds (proposalPlan s.pendingEdits) s s.undoAi

section

variable {s t : Editor} {todo : List Edit} {items : List UndoItem}

/-- An action that keeps the proposals, the files under preview and the open models keeps
what is known. -/
theorem Holds.frame (h : Holds todo s items) (hbackup : t.previewBackup = s.previewBackup)
    (hhistory : t.history = s.history)
    (hstored : ∀ path, s.history.before path ≠ none → t.stored path = s.stored path)
    (hmodels : ∀ path, (s.models path).isSome = true → (t.models path).isSome = true) :
    Holds todo t items := by
  refine ⟨h.nodup, ?_, ?_, ?_, ?_⟩
  · rw [hhistory]
    exact h.pending
  · rw [hbackup, hhistory]
    exact h.backup
  · intro path text stored hbefore
    rw [hhistory] at hbefore
    obtain ⟨hkept, hopen⟩ := h.kept path text stored hbefore
    refine ⟨?_, hmodels path hopen⟩
    rw [hstored path (by rw [hbefore]; simp), hkept]
  · rw [hhistory]
    exact h.undo

/-- The parts of the state that only proposals change. -/
structure SameProposals (s t : Editor) : Prop where
  backup : t.previewBackup = s.previewBackup
  pending : t.pendingEdits = s.pendingEdits
  undo : t.undoAi = s.undoAi
  history : t.history = s.history

theorem SameProposals.refl (s : Editor) : SameProposals s s := ⟨rfl, rfl, rfl, rfl⟩

theorem SameProposals.trans {u : Editor} (h : SameProposals s t) (h' : SameProposals t u) :
    SameProposals s u :=
  ⟨h'.backup.trans h.backup, h'.pending.trans h.pending, h'.undo.trans h.undo,
    h'.history.trans h.history⟩

/-- The server and the open models stay, undecided files included. -/
structure KeepsFiles (s t : Editor) : Prop where
  stored : ∀ path, s.history.before path ≠ none → t.stored path = s.stored path
  models : ∀ path, (s.models path).isSome = true → (t.models path).isSome = true

theorem Inv.frame (h : Inv s) (hsame : SameProposals s t) (hkeeps : KeepsFiles s t) : Inv t := by
  unfold Inv
  rw [hsame.pending, hsame.undo]
  exact Holds.frame h hsame.backup hsame.history hkeeps.stored hkeeps.models

/-! ## Planned edits -/

theorem trim_idem (x : Str) : trim (trim x) = trim x := by
  unfold trim
  have hhead : ∀ y : Str, (∀ c ∈ y.head?, isTrimmed c = false) → lstrip isTrimmed y = y := by
    intro y hy
    cases y with
    | nil => rfl
    | cons c y =>
        have hc : isTrimmed c = false := hy c rfl
        rw [lstrip, List.dropWhile_cons_of_neg (by simp [hc])]
  have hkeep : lstrip isTrimmed (rstrip isTrimmed (lstrip isTrimmed x)) =
      rstrip isTrimmed (lstrip isTrimmed x) := by
    apply hhead
    intro c hc
    have hprefix : rstrip isTrimmed (lstrip isTrimmed x) <+: lstrip isTrimmed x :=
      List.rdropWhile_prefix _ _
    have hfirst : (lstrip isTrimmed x).head? = some c := by
      obtain ⟨rest, hrest⟩ := hprefix
      rw [← hrest, List.head?_append, Option.mem_def.mp hc]
      rfl
    have hnot := List.head?_dropWhile_not isTrimmed x
    rw [lstrip] at hfirst
    rw [hfirst] at hnot
    simpa using hnot
  rw [hkeep]
  exact List.rdropWhile_idempotent isTrimmed _

/-- An edit as a plan has it. -/
def Planned (e : Edit) : Prop := plannedEdit e = some e

theorem planned_of_mem {edits : List Edit} {e : Edit} (h : e ∈ proposalPlan edits) :
    Planned e := by
  obtain ⟨raw, -, hraw⟩ := List.mem_filterMap.mp h
  unfold plannedEdit at hraw
  split_ifs at hraw with hunsafe
  obtain rfl := Option.some.inj hraw
  unfold Planned plannedEdit
  rw [trim_idem, if_neg hunsafe]

theorem Planned.safe {e : Edit} (h : Planned e) : pathUnsafe e.path = false := by
  unfold Planned plannedEdit at h
  split_ifs at h with hunsafe
  rw [← Option.some.inj h]
  exact Bool.eq_false_of_not_eq_true hunsafe

theorem proposalPlan_eq_self {edits : List Edit} (h : ∀ e ∈ edits, Planned e) :
    proposalPlan edits = edits := by
  induction edits with
  | nil => rfl
  | cons e edits ih =>
      rw [List.forall_mem_cons] at h
      rw [proposalPlan, List.filterMap_cons_some h.1]
      exact congrArg (e :: ·) (ih h.2)

/-! ## Opening and saving -/

/-- Opening a file changes nothing but what is open. -/
theorem openFile_spec {r : Replies} {path : Str} (h : s.openFile r path = some t) :
    SameProposals s t ∧ t.stored = s.stored ∧ (t.models path).isSome = true ∧
      (∀ q item, s.models q = some item → t.models q = some item) ∧
      ∀ q, q ≠ path → t.models q = s.models q := by
  unfold Editor.openFile at h
  split at h
  · next item hitem =>
      obtain rfl := Option.some.inj h
      refine ⟨⟨rfl, rfl, rfl, rfl⟩, rfl, ?_, fun _ _ hq => hq, fun _ _ => rfl⟩
      simp [Editor.setCurrent, hitem]
  · next hnone =>
      split at h
      · obtain rfl := Option.some.inj h
        refine ⟨⟨rfl, rfl, rfl, rfl⟩, rfl, by simp [Editor.setCurrent, Editor.setItem], ?_, ?_⟩
        · intro q item hq
          have hne : q ≠ path := by
            rintro rfl
            rw [hnone] at hq
            exact nomatch hq
          simpa [Editor.setCurrent, Editor.setItem, Function.update_of_ne hne] using hq
        · intro q hne
          simp [Editor.setCurrent, Editor.setItem, Function.update_of_ne hne]
      · exact nomatch h

theorem openFile_keeps {r : Replies} {path : Str} (h : s.openFile r path = some t) :
    KeepsFiles s t := by
  obtain ⟨-, hstored, -, hmodels, -⟩ := openFile_spec h
  refine ⟨fun _ _ => by rw [hstored], ?_⟩
  intro q hq
  obtain ⟨item, hitem⟩ := Option.isSome_iff_exists.mp hq
  rw [hmodels q item hitem]
  rfl

/-- A file that can be read is open afterwards. -/
theorem exists_openIfClosed (s : Editor) (r : Replies) {path content : Str}
    (hstored : s.stored path = some content)
    (hopening : s.models path = none → r.opening.isOk = true) :
    ∃ t, s.openIfClosed r path = some t := by
  unfold Editor.openIfClosed
  cases hmodel : s.models path with
  | some item => exact ⟨s, rfl⟩
  | none =>
      dsimp only
      unfold Editor.openFile
      rw [hmodel, hstored]
      cases hreply : r.opening with
      | ok revision => exact ⟨_, rfl⟩
      | failed landed =>
          have hok := hopening hmodel
          rw [hreply] at hok
          exact absurd hok (by simp [Reply.isOk])

theorem openIfClosed_spec {r : Replies} {path : Str} (h : s.openIfClosed r path = some t) :
    SameProposals s t ∧ t.stored = s.stored ∧ ∀ q, q ≠ path → t.models q = s.models q := by
  unfold Editor.openIfClosed at h
  split at h
  · obtain rfl := Option.some.inj h
    exact ⟨.refl s, rfl, fun _ _ => rfl⟩
  · obtain ⟨hsame, hstored, -, -, hothers⟩ := openFile_spec h
    exact ⟨hsame, hstored, hothers⟩

theorem closeTab_spec (r : Replies) (path : Str) :
    SameProposals s (s.closeTab r path) ∧ KeepsFiles s (s.closeTab r path) := by
  unfold Editor.closeTab
  split
  · exact ⟨.refl s, fun _ _ => rfl, fun _ h => h⟩
  · next idx _ =>
      dsimp only
      split_ifs
      · exact ⟨⟨rfl, rfl, rfl, rfl⟩, fun _ _ => rfl, fun _ h => h⟩
      · split
        · next next _ =>
            cases hopen : Editor.openFile { s with openTabs := s.openTabs.eraseIdx idx } r next with
            | none => exact ⟨⟨rfl, rfl, rfl, rfl⟩, fun _ _ => rfl, fun _ h => h⟩
            | some t =>
                obtain ⟨hsame, -⟩ := openFile_spec hopen
                have hkeeps := openFile_keeps hopen
                exact ⟨⟨hsame.backup, hsame.pending, hsame.undo, hsame.history⟩,
                  hkeeps.stored, hkeeps.models⟩
        · exact ⟨⟨rfl, rfl, rfl, rfl⟩, fun _ _ => rfl, fun _ h => h⟩

theorem isSome_setItem {path : Str} {item : Item} {q : Str}
    (h : (s.models q).isSome = true) : ((s.setItem path item).models q).isSome = true := by
  by_cases heq : q = path
  · simp [Editor.setItem, heq]
  · simpa [Editor.setItem, Function.update_of_ne heq] using h

theorem typeText_spec (text : Str) :
    SameProposals s (s.typeText text) ∧ KeepsFiles s (s.typeText text) := by
  unfold Editor.typeText
  split
  · exact ⟨.refl s, fun _ _ => rfl, fun _ h => h⟩
  · split
    · exact ⟨.refl s, fun _ _ => rfl, fun _ h => h⟩
    · exact ⟨⟨rfl, rfl, rfl, rfl⟩, fun _ _ => rfl, fun _ h => isSome_setItem h⟩

/-- What one save does when it sends no undecided preview. -/
theorem enqueueSave_spec {r : Replies} {path : Str} {requests : List Request} {ok : Bool}
    (hdecided : Decided s path) (h : s.enqueueSave r path = (t, requests, ok)) :
    SameProposals s t ∧ KeepsFiles s t ∧ SavesNoProposal s requests ∧
      ∀ q, Decided s q → Decided t q := by
  unfold Editor.enqueueSave at h
  split at h
  · obtain ⟨rfl, rfl, -⟩ : s = t ∧ [] = requests ∧ true = ok := by simpa using h
    exact ⟨.refl s, ⟨fun _ _ => rfl, fun _ h => h⟩, by simp [SavesNoProposal], fun _ h => h⟩
  · next item hitem =>
      split_ifs at h with hclean
      · obtain ⟨rfl, rfl, -⟩ : s = t ∧ [] = requests ∧ true = ok := by simpa using h
        exact ⟨.refl s, ⟨fun _ _ => rfl, fun _ h => h⟩, by simp [SavesNoProposal], fun _ h => h⟩
      · have hnone : s.history.before path = none :=
          hdecided.resolve_right fun hsame => hclean (hsame item hitem)
        have hland : ∀ q, s.history.before q ≠ none →
            (s.land path item.value).stored q = s.stored q := by
          intro q hq
          have hne : q ≠ path := by
            rintro rfl
            exact hq hnone
          simp [Editor.land, Function.update_of_ne hne]
        have hrequests : SavesNoProposal s [.saveFile path item.value item.revision] := by
          intro p c b hmem
          obtain ⟨rfl, -, -⟩ : p = path ∧ c = item.value ∧ b = item.revision := by
            simpa using hmem
          exact hnone
        dsimp only at h
        split at h
        · next revision _ =>
            obtain ⟨rfl, rfl, -⟩ := by simpa using h
            refine ⟨⟨rfl, rfl, rfl, rfl⟩, ⟨hland, fun q hq => isSome_setItem hq⟩, hrequests, ?_⟩
            intro q hq
            by_cases heq : q = path
            · subst heq
              exact .inl hnone
            · obtain hq | hq := hq
              · exact .inl hq
              · refine .inr ?_
                intro i hi
                apply hq i
                simpa [Editor.setItem, Editor.land, Function.update_of_ne heq] using hi
        · next landed _ =>
            obtain ⟨rfl, rfl, -⟩ := by simpa using h
            cases landed with
            | true => exact ⟨⟨rfl, rfl, rfl, rfl⟩, ⟨hland, fun _ h => h⟩, hrequests, fun _ h => h⟩
            | false =>
                exact ⟨.refl s, ⟨fun _ _ => rfl, fun _ h => h⟩, hrequests, fun _ h => h⟩

theorem KeepsFiles.trans {u : Editor} (hhistory : t.history = s.history) (h : KeepsFiles s t)
    (h' : KeepsFiles t u) : KeepsFiles s u := by
  refine ⟨?_, fun q hq => h'.models q (h.models q hq)⟩
  intro q hq
  rw [h'.stored q (by rwa [hhistory]), h.stored q hq]

/-- A run of saves does what its saves do. -/
theorem saveLoop_spec (net : ℕ → Replies) (i : ℕ) (paths : List Str)
    (hdecided : ∀ path ∈ paths, Decided s path) :
    SameProposals s (Editor.saveLoop net i paths s).1 ∧
      KeepsFiles s (Editor.saveLoop net i paths s).1 ∧
      SavesNoProposal s (Editor.saveLoop net i paths s).2 := by
  induction paths generalizing i s with
  | nil =>
      exact ⟨.refl s, ⟨fun _ _ => rfl, fun _ h => h⟩,
        by simp [Editor.saveLoop, SavesNoProposal]⟩
  | cons path rest ih =>
      rw [List.forall_mem_cons] at hdecided
      unfold Editor.saveLoop
      split
      · next t requests heq =>
          obtain ⟨hsame, hkeeps, hsaves, -⟩ := enqueueSave_spec hdecided.1 heq
          exact ⟨hsame, hkeeps, hsaves⟩
      · next t requests heq =>
          obtain ⟨hsame, hkeeps, hsaves, hstill⟩ := enqueueSave_spec hdecided.1 heq
          obtain ⟨hsame', hkeeps', hsaves'⟩ :=
            ih (s := t) (i + 1) fun q hq => hstill q (hdecided.2 q hq)
          refine ⟨hsame.trans hsame', hkeeps.trans hsame.history hkeeps', ?_⟩
          intro p c b hmem
          obtain hmem | hmem := List.mem_append.mp hmem
          · exact hsaves p c b hmem
          · rw [← hsame.history]
            exact hsaves' p c b hmem

/-! ## Previews -/

/-- What a preview knows of a file that was already previewed and of one that was not. -/
theorem previewProposal_inv (h : Inv s) (r : Replies) (path : Str) :
    Inv (s.previewProposal r path) := by
  unfold Editor.previewProposal
  split
  · exact h
  · next edit hfind =>
      split
      · exact h
      · next t hopen =>
          obtain ⟨hsame, -, -, -, -⟩ := openFile_spec hopen
          have ht : Inv t := h.frame hsame (openFile_keeps hopen)
          split
          · exact ht
          · next item hitem =>
              have hpath : path ∈ (proposalPlan t.pendingEdits).map Edit.path := by
                rw [hsame.pending]
                have hmem := List.mem_of_find?_eq_some hfind
                have heq := List.find?_some hfind
                exact List.mem_map.mpr ⟨edit, hmem, of_decide_eq_true heq⟩
              have hbackup := ht.backup path hpath
              refine ⟨ht.nodup, ?_, ?_, ?_, ht.undo⟩
              · intro q hq
                dsimp only at hq
                by_cases heq : q = path
                · rwa [heq]
                · apply ht.pending
                  split_ifs at hq
                  · exact hq
                  · rwa [Function.update_of_ne heq] at hq
              · intro q hq
                dsimp only
                by_cases hseen : (t.history.before path).isSome = true
                · rw [if_pos hseen, hbackup, Option.isSome_map, if_pos hseen]
                  exact ht.backup q hq
                · rw [if_neg hseen, hbackup, Option.isSome_map, if_neg hseen]
                  by_cases heq : q = path
                  · rw [heq, Function.update_self, Function.update_self, Option.map_some]
                  · rw [Function.update_of_ne heq, Function.update_of_ne heq]
                    exact ht.backup q hq
              · intro q text stored hq
                dsimp only at hq
                have hopenq : (t.models q).isSome = true →
                    ((t.setItem path { item with value := edit.content }).models q).isSome =
                      true := isSome_setItem
                split_ifs at hq with hseen
                · obtain ⟨hstored, hmodel⟩ := ht.kept q text stored hq
                  exact ⟨hstored, hopenq hmodel⟩
                · by_cases heq : q = path
                  · rw [heq, Function.update_self] at hq
                    obtain ⟨-, rfl⟩ := Prod.mk.inj (Option.some.inj hq)
                    refine ⟨by rw [heq]; rfl, hopenq ?_⟩
                    rw [heq, hitem]
                    rfl
                  · rw [Function.update_of_ne heq] at hq
                    obtain ⟨hstored, hmodel⟩ := ht.kept q text stored hq
                    exact ⟨hstored, hopenq hmodel⟩

/-! ## Acceptance -/

/-- An edit fits the state when the state is ready for it. -/
theorem acceptRequest_eq {e : Edit} (hready : ReadyToAccept s e) :
    Request.applyAiEdit e.path (s.acceptRequest e).1 (s.acceptRequest e).2 e.content
      e.baseRevision = properRequest s e := by
  unfold Editor.acceptRequest properRequest
  cases hmodel : s.models e.path with
  | none => cases s.history.before e.path <;> rfl
  | some item =>
      cases hbefore : s.history.before e.path with
      | some kept =>
          dsimp only
          by_cases hvalue : item.value ≠ e.content
          · rw [if_pos hvalue, if_pos hvalue]
          · rw [if_neg hvalue, if_neg hvalue]
      | none =>
          obtain hne | ⟨hvalue, -⟩ := hready item hmodel
          · exact absurd hbefore hne
          · dsimp only
            rw [if_neg (not_not.mpr hvalue)]

/-- The text kept for an undo is the text from before. -/
theorem beforeText_eq {e : Edit} {r : Replies} (hready : ReadyToAccept s e)
    (hgood : GoodReplies s e r)
    (hbackup : s.previewBackup e.path = (s.history.before e.path).map Prod.fst) :
    s.beforeText r e.path = s.priorText e.path := by
  unfold Editor.beforeText Editor.priorText
  rw [hbackup]
  cases hbefore : s.history.before e.path with
  | some kept => rfl
  | none =>
      rw [Option.map_none]
      cases hmodel : s.models e.path with
      | some item =>
          obtain hne | ⟨-, hstored⟩ := hready item hmodel
          · exact absurd hbefore hne
          · dsimp only
            rw [hstored, Option.getD_some]
      | none =>
          dsimp only
          cases hstored : s.stored e.path with
          | none => cases r.read <;> rfl
          | some content =>
              have hread := (hgood.2 hmodel).2 (by rw [hstored]; simp)
              cases hreply : r.read with
              | ok revision => rfl
              | failed landed =>
                  rw [hreply] at hread
                  exact absurd hread (by simp [Reply.isOk])

/-- What is left to accept. -/
structure Accepting (net : ℕ → Replies) (i : ℕ) (todo : List Edit) (s : Editor)
    (applied : List UndoItem) : Prop where
  holds : Holds todo s applied
  planned : ∀ e ∈ todo, Planned e
  fresh : ∀ item ∈ applied, item.path ∉ todo.map Edit.path
  ready : ∀ j e, todo[j]? = some e → ReadyToAccept s e ∧ GoodReplies s e (net (i + j))

/-- One accepted edit. -/
theorem Accepting.next {net : ℕ → Replies} {i : ℕ} {e : Edit} {rest : List Edit}
    {applied : List UndoItem} (h : Accepting net i (e :: rest) s applied)
    (hmodels : ∀ q, q ≠ e.path → t.models q = s.models q)
    (hstored : ∀ q, q ≠ e.path → t.stored q = s.stored q)
    (hbackup : t.previewBackup = s.previewBackup)
    (hbefore : t.history.before = Function.update s.history.before e.path none)
    (hwritten : t.history.written =
      Function.update s.history.written e.path (some (s.priorText e.path))) :
    Accepting net (i + 1) rest t
      (applied ++ [⟨e.path, s.beforeText (net i) e.path⟩]) := by
  obtain ⟨hfirst, hnodup⟩ := List.nodup_cons.mp h.holds.nodup
  obtain ⟨hready, hgood⟩ := h.ready 0 e rfl
  have hhead := h.holds.backup e.path List.mem_cons_self
  have htext : s.beforeText (net i) e.path = s.priorText e.path :=
    beforeText_eq hready hgood hhead
  have hne : ∀ q ∈ rest.map Edit.path, q ≠ e.path := by
    rintro q hq rfl
    exact hfirst hq
  refine ⟨⟨hnodup, ?_, ?_, ?_, ?_⟩, ?_, ?_, ?_⟩
  · intro q hq
    rw [hbefore] at hq
    have hqe : q ≠ e.path := by
      rintro rfl
      rw [Function.update_self] at hq
      exact hq rfl
    rw [Function.update_of_ne hqe] at hq
    exact (List.mem_cons.mp (h.holds.pending q hq)).resolve_left hqe
  · intro q hq
    rw [hbackup, hbefore, Function.update_of_ne (hne q hq)]
    exact h.holds.backup q (List.mem_cons_of_mem _ hq)
  · intro q text stored hq
    rw [hbefore] at hq
    have hqe : q ≠ e.path := by
      rintro rfl
      rw [Function.update_self] at hq
      exact nomatch hq
    rw [Function.update_of_ne hqe] at hq
    rw [hstored q hqe, hmodels q hqe]
    exact h.holds.kept q text stored hq
  · intro q text hq
    rw [hwritten] at hq
    by_cases hqe : q = e.path
    · rw [hqe, Function.update_self] at hq
      obtain rfl := Option.some.inj hq
      rw [hqe, htext]
      refine ⟨List.mem_append_right _ (List.mem_singleton_self _),
        (h.planned e List.mem_cons_self).safe, ?_⟩
      intro item hitem heq
      obtain hitem | hitem := List.mem_append.mp hitem
      · exact absurd (heq ▸ List.mem_cons_self) (h.fresh item hitem)
      · rw [List.mem_singleton.mp hitem]
    · rw [Function.update_of_ne hqe] at hq
      obtain ⟨hmem, hsafe, hall⟩ := h.holds.undo q text hq
      refine ⟨List.mem_append_left _ hmem, hsafe, ?_⟩
      intro item hitem heq
      obtain hitem | hitem := List.mem_append.mp hitem
      · exact hall item hitem heq
      · rw [List.mem_singleton.mp hitem] at heq
        exact absurd heq.symm hqe
  · intro e' he'
    exact h.planned e' (List.mem_cons_of_mem _ he')
  · intro item hitem
    obtain hitem | hitem := List.mem_append.mp hitem
    · intro hmem
      exact h.fresh item hitem (List.mem_cons_of_mem _ hmem)
    · rw [List.mem_singleton.mp hitem]
      exact hfirst
  · intro j e' he'
    have hmem : e'.path ∈ rest.map Edit.path :=
      List.mem_map_of_mem (List.mem_of_getElem? he')
    obtain ⟨hready', hgood'⟩ := h.ready (j + 1) e' (by simpa using he')
    rw [show i + (j + 1) = i + 1 + j by omega] at hgood'
    unfold ReadyToAccept GoodReplies at *
    rw [hmodels _ (hne _ hmem), hstored _ (hne _ hmem), hbefore,
      Function.update_of_ne (hne _ hmem)]
    exact ⟨hready', hgood'⟩

/-- The requests of the later rounds do not depend on the first one. -/
theorem Accepting.properRequest_eq {net : ℕ → Replies} {i : ℕ} {e : Edit} {rest : List Edit}
    {applied : List UndoItem} (h : Accepting net i (e :: rest) s applied)
    (hmodels : ∀ q, q ≠ e.path → t.models q = s.models q)
    (hbefore : t.history.before = Function.update s.history.before e.path none) (n : ℕ) :
    (rest.take n).map (properRequest t) = (rest.take n).map (properRequest s) := by
  apply List.map_congr_left
  intro e' he'
  have hne : e'.path ≠ e.path := by
    intro heq
    apply (List.nodup_cons.mp h.holds.nodup).1
    rw [← heq]
    exact List.mem_map_of_mem (List.mem_of_mem_take he')
  rw [properRequest, properRequest, hmodels _ hne, hbefore, Function.update_of_ne hne]

/-- An acceptance leaves what is known, and sends proper requests. -/
theorem acceptLoop_spec {net : ℕ → Replies} {i : ℕ} {applied : List UndoItem}
    (h : Accepting net i todo s applied) :
    Inv (Editor.acceptLoop net i todo s applied).1 ∧
      ∃ n, (Editor.acceptLoop net i todo s applied).2 = (todo.take n).map (properRequest s) ∧
        ((∀ j, (net j).write.isOk = true) → todo.length ≤ n) := by
  induction todo generalizing i s applied with
  | nil =>
      have hnone : ∀ path, s.history.before path = none := by
        intro path
        by_contra hne
        exact List.not_mem_nil (h.holds.pending path hne)
      refine ⟨⟨List.nodup_nil, ?_, ?_, ?_, h.holds.undo⟩, 0, rfl, fun _ => Nat.zero_le _⟩
      · intro path hne
        exact absurd (hnone path) hne
      · intro path hpath
        exact absurd hpath List.not_mem_nil
      · intro path text stored hbefore
        exact absurd ((hnone path).symm.trans hbefore) (by simp)
  | cons e rest ih =>
      obtain ⟨hready, hgood⟩ := h.ready 0 e rfl
      unfold Editor.acceptLoop
      dsimp only
      rw [acceptRequest_eq hready]
      split
      · next landed hreply =>
          -- the round fails: the edits from it on stay pending
          have hlanded : landed = false := by
            by_contra hne
            rw [Bool.not_eq_false] at hne
            apply hgood.1
            rw [← hne, ← hreply]
            rfl
          rw [if_neg (by rw [hlanded]; decide)]
          refine ⟨?_, 1, rfl, ?_⟩
          · unfold Inv
            dsimp only
            rw [proposalPlan_eq_self h.planned]
            exact Holds.frame h.holds rfl rfl (fun _ _ => rfl) (fun _ hopen => hopen)
          · intro hall
            have hok := hall i
            rw [hreply] at hok
            exact absurd hok (by simp [Reply.isOk])
      · next revision hreply =>
          have hlanded : (s.landAccepted e (s.acceptRequest e).1).stored e.path =
              some (s.acceptRequest e).1 := Function.update_self e.path _ s.stored
          obtain ⟨t, hshown⟩ := exists_openIfClosed (s.landAccepted e (s.acceptRequest e).1)
            (net i) hlanded fun hclosed => (hgood.2 hclosed).1
          obtain ⟨hsame, hstored, hmodels⟩ := openIfClosed_spec hshown
          rw [hshown]
          dsimp only
          have hothers : ∀ q, q ≠ e.path →
              (t.setItem e.path ⟨(s.acceptRequest e).1, (s.acceptRequest e).1,
                some revision⟩).models q = s.models q := by
            intro q hq
            exact (Function.update_of_ne hq _ _).trans (hmodels q hq)
          have hbefore : t.history.before = Function.update s.history.before e.path none := by
            rw [hsame.history]
            rfl
          have hnext := h.next hothers
            (fun q hq => (congrFun hstored q).trans (Function.update_of_ne hq _ _))
            hsame.backup hbefore (by rw [Editor.setItem, hsame.history]; rfl)
          obtain ⟨hinv, n, hrequests, hlength⟩ := ih hnext
          refine ⟨hinv, n + 1, ?_, ?_⟩
          · rw [hrequests, h.properRequest_eq hothers hbefore, List.take_succ_cons, List.map_cons]
          · intro hall
            exact Nat.succ_le_succ (hlength hall)

/-! ## Rejection -/

/-- What a rejection leaves of the models: the text from before each preview. -/
theorem rejectLoop_spec (hnodup : (todo.map Edit.path).Nodup) :
    SameProposals s (Editor.rejectLoop todo s).1 ∧
      (Editor.rejectLoop todo s).1.stored = s.stored ∧
      (∀ path, (path ∉ todo.map Edit.path ∨ s.previewBackup path = none) →
        (Editor.rejectLoop todo s).1.models path = s.models path) ∧
      (∀ path text, path ∈ todo.map Edit.path → s.previewBackup path = some text →
        (s.models path).isSome = true →
        ((Editor.rejectLoop todo s).1.models path).map Item.value = some text) ∧
      ∀ request ∈ (Editor.rejectLoop todo s).2, ∀ path content revision,
        request ≠ .saveFile path content revision := by
  induction todo generalizing s with
  | nil =>
      refine ⟨.refl s, rfl, fun _ _ => rfl, ?_, ?_⟩
      · intro path text hpath
        exact absurd hpath List.not_mem_nil
      · intro request hrequest
        exact absurd hrequest List.not_mem_nil
  | cons e rest ih =>
      obtain ⟨hfirst, hrest⟩ := List.nodup_cons.mp hnodup
      have hround : SameProposals s (s.rejectEdit e).1 ∧ (s.rejectEdit e).1.stored = s.stored ∧
          (∀ path, (path ≠ e.path ∨ s.previewBackup path = none) →
            (s.rejectEdit e).1.models path = s.models path) ∧
          ∀ text, s.previewBackup e.path = some text → (s.models e.path).isSome = true →
            ((s.rejectEdit e).1.models e.path).map Item.value = some text := by
        unfold Editor.rejectEdit
        dsimp only
        split
        · next item text hitem hbackup =>
            refine ⟨⟨rfl, rfl, rfl, rfl⟩, rfl, ?_, ?_⟩
            · intro path hpath
              have hne : path ≠ e.path := by
                rintro rfl
                exact hpath.elim (fun hself => hself rfl) fun hnone => by
                  rw [hbackup] at hnone
                  exact nomatch hnone
              exact Function.update_of_ne hne _ _
            · intro text' htext' _
              rw [hbackup] at htext'
              simp [Editor.setItem, Option.some.inj htext']
        · next hnot =>
            refine ⟨.refl s, rfl, fun _ _ => rfl, ?_⟩
            intro text htext hopen
            obtain ⟨item, hitem⟩ := Option.isSome_iff_exists.mp hopen
            exact absurd htext (hnot item text hitem)
      obtain ⟨hsame, hstored, hothers, hrestored⟩ := hround
      obtain ⟨hsame', hstored', hothers', hrestored', hrequests⟩ :=
        ih (s := (s.rejectEdit e).1) hrest
      unfold Editor.rejectLoop
      refine ⟨hsame.trans hsame', hstored'.trans hstored, ?_, ?_, ?_⟩
      · intro path hpath
        rw [List.map_cons, List.mem_cons, not_or] at hpath
        rw [hothers' path (hpath.imp And.right fun hnone => by rwa [hsame.backup]),
          hothers path (hpath.imp And.left id)]
      · intro path text hpath htext hopen
        rw [List.map_cons, List.mem_cons] at hpath
        obtain rfl | hpath := hpath
        · rw [hothers' _ (.inl hfirst)]
          exact hrestored text htext hopen
        · have hne : path ≠ e.path := by
            rintro rfl
            exact hfirst hpath
          apply hrestored' path text hpath
          · rwa [hsame.backup]
          · rwa [hothers path (.inl hne)]
      · intro request hrequest path content revision
        obtain rfl | hrequest := List.mem_cons.mp hrequest
        · exact Request.noConfusion
        · exact hrequests request hrequest path content revision

/-! ## Undo -/

/-- An undo whose requests succeed writes back every text, saves its own files only, and
leaves the others. -/
theorem undoLoop_spec (net : ℕ → Replies) (i : ℕ) (items : List UndoItem) (s : Editor)
    (hok : ∀ j item, items[j]? = some item →
      (net (i + j)).write.isOk = true ∧
        (s.models item.path = none → (net (i + j)).opening.isOk = true)) :
    SameProposals s (Editor.undoLoop net i items s).1 ∧
      (∀ path, (∀ item ∈ items, item.path ≠ path) →
        (Editor.undoLoop net i items s).1.stored path = s.stored path ∧
          (Editor.undoLoop net i items s).1.models path = s.models path) ∧
      (∀ path, (s.models path).isSome = true →
        ((Editor.undoLoop net i items s).1.models path).isSome = true) ∧
      (∀ path text, pathUnsafe path = false →
        (∀ item ∈ items, item.path = path → item.before = text) →
        ((⟨path, text⟩ ∈ items) ∨
          (s.stored path = some text ∧ (s.models path).map Item.value = some text)) →
        (Editor.undoLoop net i items s).1.stored path = some text ∧
          ((Editor.undoLoop net i items s).1.models path).map Item.value = some text) ∧
      ∀ path content revision, Request.saveFile path content revision ∈
        (Editor.undoLoop net i items s).2 → ∃ item ∈ items, item.path = path := by
  induction items generalizing i s with
  | nil =>
      refine ⟨.refl s, fun _ _ => ⟨rfl, rfl⟩, fun _ hopen => hopen, ?_, ?_⟩
      · intro path text _ _ hplace
        exact hplace.resolve_left List.not_mem_nil
      · intro path content revision hmem
        exact absurd hmem List.not_mem_nil
  | cons item rest ih =>
      have hrest : ∀ j item', rest[j]? = some item' →
          (net (i + 1 + j)).write.isOk = true ∧
            (s.models item'.path = none → (net (i + 1 + j)).opening.isOk = true) := by
        intro j item' hitem'
        have hnext := hok (j + 1) item' (by simpa using hitem')
        rwa [show i + (j + 1) = i + 1 + j by omega] at hnext
      obtain ⟨hwrite, hopening⟩ := hok 0 item rfl
      unfold Editor.undoLoop
      split_ifs with hunsafe
      · obtain ⟨hsame, hothers, hopen, hrestored, hrequests⟩ := ih (i + 1) s hrest
        refine ⟨hsame, ?_, hopen, ?_, ?_⟩
        · intro path hpath
          exact hothers path fun item' hitem' => hpath item' (List.mem_cons_of_mem _ hitem')
        · intro path text hsafe hall hplace
          apply hrestored path text hsafe
          · intro item' hitem'
            exact hall item' (List.mem_cons_of_mem _ hitem')
          · refine hplace.imp_left fun hmem => ?_
            refine (List.mem_cons.mp hmem).resolve_left ?_
            rintro rfl
            exact absurd hunsafe (by rw [hsafe]; decide)
        · intro path content revision hmem
          obtain ⟨item', hitem', heq⟩ := hrequests path content revision hmem
          exact ⟨item', List.mem_cons_of_mem _ hitem', heq⟩
      · dsimp only
        split
        · next landed hreply =>
            rw [Nat.add_zero, hreply] at hwrite
            exact absurd hwrite (by simp [Reply.isOk])
        · next revision hreply =>
            have hlanded : (s.land item.path item.before).stored item.path =
                some item.before := Function.update_self item.path _ s.stored
            obtain ⟨t, hshown⟩ :=
              exists_openIfClosed (s.land item.path item.before) (net i) hlanded hopening
            obtain ⟨hsame, hstored, hmodels⟩ := openIfClosed_spec hshown
            rw [hshown]
            dsimp only
            have hclosed : ∀ q, (t.setItem item.path ⟨item.before, item.before,
                some revision⟩).models q = none → s.models q = none := by
              intro q hq
              by_cases heq : q = item.path
              · simp [Editor.setItem, heq] at hq
              · simpa [Editor.setItem, Function.update_of_ne heq, hmodels q heq,
                  Editor.land] using hq
            obtain ⟨hsame', hothers', hopen', hrestored', hrequests'⟩ :=
              ih (i + 1) (t.setItem item.path ⟨item.before, item.before, some revision⟩)
                fun j item' hitem' => (hrest j item' hitem').imp_right fun hopen hnone =>
                  hopen (hclosed _ hnone)
            refine ⟨?_, ?_, ?_, ?_, ?_⟩
            · have hset : SameProposals s (t.setItem item.path
                  ⟨item.before, item.before, some revision⟩) :=
                ⟨hsame.backup, hsame.pending, hsame.undo, hsame.history⟩
              exact hset.trans hsame'
            · intro path hpath
              have hne : path ≠ item.path := (hpath item List.mem_cons_self).symm
              obtain ⟨hs, hm⟩ := hothers' path fun item' hitem' =>
                hpath item' (List.mem_cons_of_mem _ hitem')
              refine ⟨hs.trans ?_, hm.trans ?_⟩
              · exact (congrFun hstored path).trans (Function.update_of_ne hne _ _)
              · exact (Function.update_of_ne hne _ _).trans (hmodels path hne)
            · intro path hpath
              apply hopen'
              by_cases heq : path = item.path
              · simp [Editor.setItem, heq]
              · simpa [Editor.setItem, Function.update_of_ne heq, hmodels path heq,
                  Editor.land] using hpath
            · intro path text hsafe hall hplace
              apply hrestored' path text hsafe
              · intro item' hitem'
                exact hall item' (List.mem_cons_of_mem _ hitem')
              · by_cases heq : path = item.path
                · refine .inr ?_
                  have htext := hall item List.mem_cons_self heq.symm
                  rw [heq]
                  simp [Editor.setItem, hstored, Editor.land, htext]
                · refine hplace.imp (fun hmem => ?_) fun hdone => ?_
                  · refine (List.mem_cons.mp hmem).resolve_left ?_
                    rintro rfl
                    exact heq rfl
                  · simpa [Editor.setItem, Function.update_of_ne heq, hmodels path heq, hstored,
                      Editor.land] using hdone
            · intro path content revision' hmem
              obtain heq | hmem := List.mem_cons.mp hmem
              · obtain ⟨rfl, -, -⟩ := Request.saveFile.inj heq
                exact ⟨item, List.mem_cons_self, rfl⟩
              · obtain ⟨item', hitem', heq⟩ := hrequests' path content revision' hmem
                exact ⟨item', List.mem_cons_of_mem _ hitem', heq⟩

/-! ## Runs -/

theorem inv_receive {edits : List Edit}
    (hdistinct : ((proposalPlan edits).map Edit.path).Nodup) : Inv (s.receive edits) := by
  refine ⟨hdistinct, ?_, fun _ _ => rfl, ?_, ?_⟩
  · intro path hne
    exact absurd rfl hne
  · intro path text stored hbefore
    exact nomatch hbefore
  · intro path text hwritten
    exact nomatch hwritten

theorem saveDirtyModels_spec (net : ℕ → Replies)
    (hdecided : ∀ path ∈ s.dirtyPaths, Decided s path) :
    SameProposals s (s.saveDirtyModels net).1 ∧ KeepsFiles s (s.saveDirtyModels net).1 ∧
      SavesNoProposal s (s.saveDirtyModels net).2 :=
  saveLoop_spec net 0 s.dirtyPaths hdecided

/-- The timer saves while nothing is pending, and then no preview is open. -/
theorem autosave_spec (h : Inv s) (net : ℕ → Replies) :
    SameProposals s (s.autosave net).1 ∧ KeepsFiles s (s.autosave net).1 ∧
      SavesNoProposal s (s.autosave net).2 := by
  unfold Editor.autosave
  split_ifs with hpending
  · apply saveDirtyModels_spec
    intro path _
    refine .inl ?_
    by_contra hne
    have hmem := h.pending path hne
    rw [hpending] at hmem
    exact List.not_mem_nil hmem
  · exact ⟨.refl s, ⟨fun _ _ => rfl, fun _ h => h⟩, by simp [SavesNoProposal]⟩

theorem save_spec (r : Replies) (hdecided : ∀ path, s.currentPath = some path → Decided s path) :
    SameProposals s (s.save r).1 ∧ KeepsFiles s (s.save r).1 ∧
      SavesNoProposal s (s.save r).2 := by
  unfold Editor.save
  split
  · exact ⟨.refl s, ⟨fun _ _ => rfl, fun _ h => h⟩, by simp [SavesNoProposal]⟩
  · next path hpath =>
      split_ifs
      · exact ⟨.refl s, ⟨fun _ _ => rfl, fun _ h => h⟩, by simp [SavesNoProposal]⟩
      · obtain ⟨hsame, hkeeps, hsaves, -⟩ := enqueueSave_spec (hdecided path hpath)
          (rfl : s.enqueueSave r path = (_, _, _))
        exact ⟨hsame, hkeeps, hsaves⟩

theorem accept_spec (h : Inv s) {net : ℕ → Replies} (hkeep : KeepsAway s (.accept net)) :
    Inv (s.accept net).1 ∧ SendsProperly s net (s.accept net).2 := by
  unfold Editor.accept
  split_ifs with hplan
  · exact ⟨h, 0, by rw [List.take_zero]; rfl, fun _ => by rw [hplan]; exact Nat.le_refl 0⟩
  · obtain ⟨hundo, hready⟩ := hkeep hplan
    have hholds : Holds (proposalPlan s.pendingEdits) s [] := by
      rw [← hundo]
      exact h
    have hstart : Accepting net 0 (proposalPlan s.pendingEdits) s [] :=
      ⟨hholds, fun e he => planned_of_mem he, fun item hitem => absurd hitem List.not_mem_nil,
        fun j e he => by rw [Nat.zero_add]; exact hready j e he⟩
    exact acceptLoop_spec hstart

/-- A rejection restores every preview. -/
theorem reject_spec (h : Inv s) :
    Inv s.reject.1 ∧ RestoresPreviews s s.reject.1 ∧ SavesNoProposal s s.reject.2 := by
  unfold Editor.reject
  split_ifs with hplan
  · have hnone : ∀ path, s.history.before path = none := by
      intro path
      by_contra hne
      have hmem := h.pending path hne
      rw [hplan] at hmem
      exact List.not_mem_nil hmem
    refine ⟨h, ⟨?_, fun _ _ => rfl, rfl⟩, by simp [SavesNoProposal]⟩
    intro path text stored hbefore
    exact absurd ((hnone path).symm.trans hbefore) (by simp)
  · obtain ⟨hsame, hstored, hothers, hrestored, hrequests⟩ := rejectLoop_spec (s := s) h.nodup
    dsimp only
    refine ⟨⟨List.nodup_nil, ?_, ?_, ?_, ?_⟩, ⟨?_, ?_, hstored⟩, ?_⟩
    · intro path hne
      exact absurd rfl hne
    · intro path hpath
      exact absurd hpath List.not_mem_nil
    · intro path text stored hbefore
      exact nomatch hbefore
    · intro path text hwritten
      dsimp only at hwritten ⊢
      rw [hsame.history] at hwritten
      rw [hsame.undo]
      exact h.undo path text hwritten
    · intro path text stored hbefore
      have hpath := h.pending path (by rw [hbefore]; simp)
      obtain ⟨hkept, hopen⟩ := h.kept path text stored hbefore
      have hbackup := h.backup path hpath
      rw [hbefore, Option.map_some] at hbackup
      exact ⟨hrestored path text hpath hbackup hopen, (congrFun hstored path).trans hkept⟩
    · intro path hbefore
      apply hothers
      by_cases hpath : path ∈ (proposalPlan s.pendingEdits).map Edit.path
      · refine .inr ?_
        rw [h.backup path hpath, hbefore, Option.map_none]
      · exact .inl hpath
    · intro path content revision hmem
      exact absurd rfl (hrequests _ hmem path content revision)

theorem undo_spec (h : Inv s) {net : ℕ → Replies} (hkeep : KeepsAway s (.undo net)) :
    Inv (s.undoAccepted net).1 ∧ UndoesAcceptance s (s.undoAccepted net).1 ∧
      SavesNoProposal s (s.undoAccepted net).2 := by
  unfold Editor.undoAccepted
  obtain ⟨hsame, hothers, hopen, hrestored, hrequests⟩ := undoLoop_spec net 0 s.undoAi
    { s with undoAi := [], history := { s.history with written := fun _ => none } }
    fun j item hitem => by
      rw [Nat.zero_add]
      exact (hkeep j item hitem).2
  have hdecided : ∀ item ∈ s.undoAi, s.history.before item.path = none := by
    intro item hitem
    obtain ⟨j, hj⟩ := List.getElem?_of_mem hitem
    exact (hkeep j item hj).1
  refine ⟨?_, ?_, ?_⟩
  · unfold Inv
    rw [hsame.pending, hsame.undo]
    have hcleared : Holds (proposalPlan s.pendingEdits)
        { s with undoAi := [], history := { s.history with written := fun _ => none } } [] :=
      ⟨h.nodup, h.pending, h.backup, h.kept, fun path text hwritten => nomatch hwritten⟩
    refine hcleared.frame hsame.backup hsame.history ?_ hopen
    intro path hne
    refine (hothers path ?_).1
    rintro item hitem rfl
    exact hne (hdecided item hitem)
  · intro path text hwritten
    obtain ⟨hmem, hsafe, hall⟩ := h.undo path text hwritten
    exact hrestored path text hsafe hall (.inl hmem)
  · intro path content revision hmem
    obtain ⟨item, hitem, rfl⟩ := hrequests path content revision hmem
    exact hdecided item hitem

/-- A step that keeps away from the defects keeps what is known and is lawful. -/
theorem step_spec (h : Inv s) {a : Action} (hkeep : KeepsAway s a) :
    Inv (perform s a).1 ∧ Lawful s a := by
  cases a with
  | openFile path r =>
      refine ⟨?_, by simp [SavesNoProposal, perform], by simp, by simp, by simp⟩
      show Inv ((s.openFile r path).getD s)
      cases hopen : s.openFile r path with
      | none => exact h
      | some t => exact h.frame (openFile_spec hopen).1 (openFile_keeps hopen)
  | closeTab path r =>
      obtain ⟨hsame, hkeeps⟩ := closeTab_spec (s := s) r path
      exact ⟨h.frame hsame hkeeps, by simp [SavesNoProposal, perform], by simp, by simp, by simp⟩
  | typeText text =>
      obtain ⟨hsame, hkeeps⟩ := typeText_spec (s := s) text
      exact ⟨h.frame hsame hkeeps, by simp [SavesNoProposal, perform], by simp, by simp, by simp⟩
  | preview path r =>
      exact ⟨previewProposal_inv h r path, by simp [SavesNoProposal, perform], by simp, by simp,
        by simp⟩
  | save r =>
      obtain ⟨hsame, hkeeps, hsaves⟩ := save_spec r hkeep
      exact ⟨h.frame hsame hkeeps, hsaves, by simp, by simp, by simp⟩
  | runTests net =>
      obtain ⟨hsame, hkeeps, hsaves⟩ := saveDirtyModels_spec net hkeep
      exact ⟨h.frame hsame hkeeps, hsaves, by simp, by simp, by simp⟩
  | autosave net =>
      obtain ⟨hsame, hkeeps, hsaves⟩ := autosave_spec h net
      exact ⟨h.frame hsame hkeeps, hsaves, by simp, by simp, by simp⟩
  | accept net =>
      obtain ⟨hinv, hsends⟩ := accept_spec h hkeep
      refine ⟨hinv, ?_, ?_, by simp, by simp⟩
      · obtain ⟨n, hrequests, -⟩ := hsends
        intro path content revision hmem
        rw [perform, hrequests] at hmem
        obtain ⟨e, -, he⟩ := List.mem_map.mp hmem
        unfold properRequest at he
        split at he
        · split_ifs at he
        · exact nomatch he
      · intro net' heq
        obtain rfl := Action.accept.inj heq
        exact hsends
  | reject =>
      obtain ⟨hinv, hrestores, hsaves⟩ := reject_spec h
      exact ⟨hinv, hsaves, by simp, fun _ => hrestores, by simp⟩
  | undo net =>
      obtain ⟨hinv, hundoes, hsaves⟩ := undo_spec h hkeep
      refine ⟨hinv, hsaves, by simp, by simp, ?_⟩
      intro net' heq
      obtain rfl := Action.undo.inj heq
      exact hundoes

theorem inv_of_reaches {edits : List Edit}
    (hdistinct : ((proposalPlan edits).map Edit.path).Nodup)
    (hrun : Reaches (s.receive edits) t) : Inv t := by
  induction hrun with
  | start => exact inv_receive hdistinct
  | step _ hkeep ih => exact (step_spec ih hkeep).1

end

/-- In every run whose steps keep away from the defects, with at most one proposal for a
file, each step is lawful. -/
theorem proposals_disposed_lawfully {s t : Editor} {edits : List Edit}
    (hdistinct : ((proposalPlan edits).map Edit.path).Nodup)
    (hrun : Reaches (s.receive edits) t) {a : Action} (hkeep : KeepsAway t a) : Lawful t a :=
  (step_spec (inv_of_reaches hdistinct hrun) hkeep).2
/-- A page with one open file, as it is stored. -/
def openPage : Editor where
  models path := if path = lit "app.py" then some ⟨lit "x = 1", lit "x = 1", some 1⟩ else none
  modelKeys := [lit "app.py"]
  openTabs := [lit "app.py"]
  currentPath := some (lit "app.py")
  previewBackup _ := none
  pendingEdits := []
  undoAi := []
  stored path := if path = lit "app.py" then some (lit "x = 1") else none
  history := ⟨fun _ => none, fun _ => none⟩

def appEdit : Edit := ⟨lit "app.py", lit "x = 2", some 1⟩

/-- Every request succeeds. -/
def goodReplies : Replies := ⟨.ok 2, .ok 2, .ok 2, none⟩

/-- The page after a preview of its proposal. -/
def previewPage : Editor :=
  (perform (openPage.receive [appEdit]) (.preview (lit "app.py") goodReplies)).1

/-- A previewed proposal is accepted. -/
theorem proposals_disposed_lawfully_accept :
    Lawful previewPage (.accept fun _ => goodReplies) := by
  have hrun : Reaches (openPage.receive [appEdit]) previewPage :=
    Reaches.step (a := .preview (lit "app.py") goodReplies) .start trivial
  apply proposals_disposed_lawfully (by decide +kernel) hrun
  intro _
  refine ⟨by decide +kernel, ?_⟩
  intro i e he
  have hplan : proposalPlan previewPage.pendingEdits = [appEdit] := by decide +kernel
  have hmem := List.mem_of_getElem? he
  change e ∈ proposalPlan previewPage.pendingEdits at hmem
  rw [hplan, List.mem_singleton] at hmem
  subst hmem
  have hbefore : (previewPage.history.before (lit "app.py")).isSome = true := by decide +kernel
  have hopen : (previewPage.models (lit "app.py")).isSome = true := by decide +kernel
  refine ⟨fun item _ => .inl ?_, nofun, fun hclosed => ?_⟩
  · exact Option.isSome_iff_ne_none.mp hbefore
  · exact absurd hclosed (Option.isSome_iff_ne_none.mp hopen)

/-- Running the tests during a preview saves the text of the proposal. -/
theorem tests_save_preview : ¬ Lawful previewPage (.runTests fun _ => goodReplies) := by
  intro h
  have hnone := h.saves (lit "app.py") (lit "x = 2") (some 1) (by decide +kernel)
  have hbefore : (previewPage.history.before (lit "app.py")).isSome = true := by decide +kernel
  rw [hnone] at hbefore
  exact Bool.false_ne_true hbefore

/-- An open file that was not previewed is sent as it was, as if it were the candidate's
change of the proposal. -/
example : (perform (openPage.receive [appEdit]) (.accept fun _ => goodReplies)).2 =
    [.applyAiEdit (lit "app.py") (lit "x = 1") .modified (lit "x = 2") (some 1)] := by
  decide +kernel

end PromptCode.ProposalEditor
