import Mathlib.Data.Prod.Lex
import PromptCode.RowLock
import PromptCode.Transition
import PromptCode.Py.Convert

/-!
# The leaderboard

`_upsert_leaderboard` of the evaluation worker: which evaluations count, and the insert that
updates the row of the user when the new score is higher.
-/

namespace PromptCode

open Py Transition
open Py.Json (orDict orInt orFloat orText toFloat getField)

/-! ## What an evaluation offers -/

/-- The columns of a submission that its evaluation has set. -/
structure EvaluatedSubmission where
  id : ℕ
  challengeId : ℕ
  userId : ℕ
  status : Str
  report : Json
  scoreOverall : Option PyFloat
  scoreAccuracy : Option PyFloat
  scorePromptQuality : Option PyFloat
  scoreEfficiency : Option PyFloat
  scoreReliability : Option PyFloat
  scoreOrchestration : Option PyFloat
  scoreCodeQuality : Option PyFloat
  scoreRuleAdherence : Option PyFloat
  scoreEdgeCases : Option PyFloat
  totalCostUsd : Option PyFloat
  totalLlmCalls : Option ℤ

/-- `x or 0.0` -/
def orZero : Option PyFloat → PyFloat
  | some x => if x.eqInt 0 then .zero else x
  | none => .zero

def minLeaderboardTests : ℤ := 6

/-- A positive literal of two decimals. -/
def hundredths (n : ℕ) : PyFloat := .ofNearest false (Double.ofDecimal false n (-2))

def minLeaderboardReliability : PyFloat := hundredths 55

def minLeaderboardCredibility : PyFloat := hundredths 65

def minLeaderboardLeverageGain : PyFloat := .zero

section Offer

variable (conv : TextConversions)

/-- The checks of the report: tests, credibility, the judge of the prompts, and the gain over
the baseline. -/
def reportEligible (report : List (Str × Json)) : Except ValueErr Bool := do
  if (getField report (lit "disqualified")).truthy then return false
  let testsTotal ← (getField report (lit "tests_total")).orInt conv 0
  if testsTotal < minLeaderboardTests then return false
  let credibility ← (getField report (lit "credibility")).orDict
  let score ← (getField credibility (lit "score")).orFloat conv
  if score.lt minLeaderboardCredibility then return false
  let promptDetails ← (getField report (lit "prompt_quality_details")).orDict
  if (getField promptDetails (lit "method")).orText conv [] ≠ lit "llm_judge" then return false
  let aiLeverage ← (getField report (lit "ai_leverage")).orDict
  let signals ← (getField aiLeverage (lit "signals")).orDict
  let counterfactual ← (getField signals (lit "counterfactual")).orDict
  if (getField counterfactual (lit "status")).orText conv [] ≠ lit "ok" then return false
  match getField aiLeverage (lit "leverage_gain") with
  | .null => return false
  | gain =>
      let gain ← gain.toFloat conv
      return !gain.lt minLeaderboardLeverageGain

def eligibleForLeaderboard (submission : EvaluatedSubmission) : Except ValueErr Bool :=
  if submission.status ≠ lit "completed" then .ok false
  else if submission.scoreOverall.isNone then .ok false
  else if (orZero submission.scoreReliability).lt minLeaderboardReliability then .ok false
  else do
    let report ← submission.report.orDict
    reportEligible conv report

/-- What the update sets. -/
structure LeaderboardValues where
  submissionId : ℕ
  scoreOverall : PyFloat
  scoreAccuracy : PyFloat
  scorePromptQuality : PyFloat
  scoreEfficiency : PyFloat
  scoreReliability : PyFloat
  scoreOrchestration : PyFloat
  scoreCodeQuality : PyFloat
  scoreRuleAdherence : PyFloat
  scoreEdgeCases : PyFloat
  totalCostUsd : PyFloat
  totalLlmCalls : ℤ
  updatedAt : ℤ
  deriving DecidableEq

/-- An evaluation that has come to `_upsert_leaderboard`, with its new identifier and the
clock. -/
structure CompletedEvaluation where
  submission : EvaluatedSubmission
  entryId : ℕ
  now : ℤ

namespace CompletedEvaluation

/-- The unique key of the entry. -/
def key (e : CompletedEvaluation) : ℕ × ℕ := (e.submission.challengeId, e.submission.userId)

def values (e : CompletedEvaluation) (scoreOverall : PyFloat) : LeaderboardValues where
  submissionId := e.submission.id
  scoreOverall := scoreOverall
  scoreAccuracy := orZero e.submission.scoreAccuracy
  scorePromptQuality := orZero e.submission.scorePromptQuality
  scoreEfficiency := orZero e.submission.scoreEfficiency
  scoreReliability := orZero e.submission.scoreReliability
  scoreOrchestration := orZero e.submission.scoreOrchestration
  scoreCodeQuality := orZero e.submission.scoreCodeQuality
  scoreRuleAdherence := orZero e.submission.scoreRuleAdherence
  scoreEdgeCases := orZero e.submission.scoreEdgeCases
  totalCostUsd := orZero e.submission.totalCostUsd
  totalLlmCalls := e.submission.totalLlmCalls.getD 0
  updatedAt := e.now

/-- The values that the evaluation would enter, if it is eligible. -/
def offered (e : CompletedEvaluation) : Except ValueErr (Option LeaderboardValues) :=
  (eligibleForLeaderboard conv e.submission).map fun eligible =>
    if eligible then e.submission.scoreOverall.map e.values else none

end CompletedEvaluation

/-! ## The table -/

/-- A row; its `rank` is never set. -/
structure LeaderboardEntry where
  id : ℕ
  values : LeaderboardValues
  deriving DecidableEq

/-- The order of a column of floats: `NaN` is above all numbers. -/
def columnKey : PyFloat → ℤ ×ₗ ℤ
  | .finite x => toLex (0, x.signed)
  | .inf neg => toLex (if neg then -1 else 1, 0)
  | .nan => toLex (2, 0)

def LeaderboardValues.rank (v : LeaderboardValues) : ℤ ×ₗ ℤ := columnKey v.scoreOverall

/-- `INSERT .. ON CONFLICT DO UPDATE .. WHERE excluded.score_overall > score_overall` -/
def upsertEntry (entryId : ℕ) (v : LeaderboardValues) : Option LeaderboardEntry → LeaderboardEntry
  | none => ⟨entryId, v⟩
  | some entry => if entry.values.rank < v.rank then { entry with values := v } else entry

inductive EvaluationPhase where
  | idle
  /-- The statement of `_upsert_leaderboard` comes next. -/
  | upserting (e : CompletedEvaluation)
  /-- The commit comes next. -/
  | committing (e : CompletedEvaluation)

structure LeaderboardState where
  rows : ℕ × ℕ → Row ℕ (Option LeaderboardEntry)
  workers : ℕ → EvaluationPhase
  /-- The completed evaluations, in the order of their commits. -/
  completed : List CompletedEvaluation

inductive LeaderboardAction where
  /-- The worker has evaluated a submission, for the first time or again. -/
  | evaluated (t : ℕ) (e : CompletedEvaluation)
  /-- The statement of the worker; it waits for the lock of the row. -/
  | upsert (t : ℕ)
  | commit (t : ℕ)
  /-- An exception, or the end of the connection. -/
  | fail (t : ℕ)

namespace LeaderboardState

def init : LeaderboardState := ⟨fun _ => ⟨none, none⟩, fun _ => .idle, []⟩

variable (st : LeaderboardState)

def setPhase (t : ℕ) (phase : EvaluationPhase) : LeaderboardState :=
  { st with workers := Function.update st.workers t phase }

def rollback (t : ℕ) : LeaderboardState :=
  { st with rows := fun k => (st.rows k).rollback t }.setPhase t .idle

/-- The worker has the version of the row under its lock. -/
def hold (t : ℕ) (k : ℕ × ℕ) (entry : LeaderboardEntry) : LeaderboardState :=
  { st with rows := Function.update st.rows k ((st.rows k).put t (some entry)) }

def upsert (t : ℕ) (e : CompletedEvaluation) : LeaderboardState :=
  match e.offered conv with
  | .error _ => st.rollback t
  | .ok none => st.setPhase t (.committing e)
  | .ok (some v) =>
      if (st.rows e.key).free t then
        (st.hold t e.key (upsertEntry e.entryId v ((st.rows e.key).visible t))).setPhase t
          (.committing e)
      else st

def commit (t : ℕ) (e : CompletedEvaluation) : LeaderboardState :=
  { st with
    rows := fun k => (st.rows k).commit t
    completed := st.completed ++ [e] }.setPhase t .idle

def step : LeaderboardAction → LeaderboardState
  | .evaluated t e =>
      match st.workers t with
      | .idle => st.setPhase t (.upserting e)
      | _ => st
  | .upsert t =>
      match st.workers t with
      | .upserting e => st.upsert conv t e
      | _ => st
  | .commit t =>
      match st.workers t with
      | .committing e => st.commit t e
      | _ => st
  | .fail t => st.rollback t

end LeaderboardState

end Offer

/-! ## The best of the evaluations -/

section Best

variable {offers : List LeaderboardValues} {entry : Option LeaderboardEntry}

/-- The entry is one of the offers, and none of them is above it. -/
def IsBest (offers : List LeaderboardValues) : Option LeaderboardEntry → Prop
  | none => offers = []
  | some entry => entry.values ∈ offers ∧ ∀ v ∈ offers, v.rank ≤ entry.values.rank

/-- The entry has not gone, and its score has not fallen. -/
def NotWorse (entry entry' : Option LeaderboardEntry) : Prop :=
  ∀ x, entry = some x → ∃ y, entry' = some y ∧ x.values.rank ≤ y.values.rank

theorem NotWorse.refl (entry : Option LeaderboardEntry) : NotWorse entry entry :=
  fun x hx => ⟨x, hx, le_rfl⟩

theorem NotWorse.trans {entry' entry'' : Option LeaderboardEntry} (h : NotWorse entry entry')
    (h' : NotWorse entry' entry'') : NotWorse entry entry'' := by
  intro x hx
  obtain ⟨y, hy, hxy⟩ := h x hx
  obtain ⟨z, hz, hyz⟩ := h' y hy
  exact ⟨z, hz, hxy.trans hyz⟩

theorem isBest_upsert (h : IsBest offers entry) (entryId : ℕ) (v : LeaderboardValues) :
    IsBest (offers ++ [v]) (some (upsertEntry entryId v entry)) := by
  cases entry with
  | none =>
      obtain rfl : offers = [] := h
      exact ⟨List.mem_singleton_self v, fun w hw => (List.mem_singleton.mp hw ▸ le_rfl)⟩
  | some x =>
      obtain ⟨hmem, hmax⟩ := h
      unfold upsertEntry
      dsimp only
      split_ifs with hlt
      · refine ⟨List.mem_append_right _ (List.mem_singleton_self v), fun w hw => ?_⟩
        rcases List.mem_append.mp hw with hw | hw
        · exact (hmax w hw).trans hlt.le
        · rw [List.mem_singleton.mp hw]
      · refine ⟨List.mem_append_left _ hmem, fun w hw => ?_⟩
        rcases List.mem_append.mp hw with hw | hw
        · exact hmax w hw
        · rw [List.mem_singleton.mp hw]
          exact not_lt.mp hlt

theorem notWorse_upsert (entry : Option LeaderboardEntry) (entryId : ℕ) (v : LeaderboardValues) :
    NotWorse entry (some (upsertEntry entryId v entry)) := by
  rintro x rfl
  refine ⟨_, rfl, ?_⟩
  unfold upsertEntry
  dsimp only
  split_ifs with hlt
  · exact hlt.le
  · exact le_rfl

end Best

/-! ## Every interleaving -/

section Runs

variable {conv : TextConversions} {st : LeaderboardState} {k : ℕ × ℕ} {t : ℕ}
  {e : CompletedEvaluation}

/-- What the evaluation offers to the row. -/
def CompletedEvaluation.offers (conv : TextConversions) (k : ℕ × ℕ) (e : CompletedEvaluation) :
    Option LeaderboardValues :=
  match e.offered conv with
  | .ok (some v) => if e.key = k then some v else none
  | _ => none

theorem offers_eq_some {v : LeaderboardValues} :
    e.offers conv k = some v ↔ e.offered conv = .ok (some v) ∧ e.key = k := by
  unfold CompletedEvaluation.offers
  cases hoffered : e.offered conv with
  | error _ => simp
  | ok o =>
      cases o with
      | none => simp
      | some w =>
          dsimp only
          by_cases hk : e.key = k
          · simp [hk]
          · simp [hk]

/-- What the completed evaluations have offered to the row. -/
def offersTo (conv : TextConversions) (k : ℕ × ℕ) (completed : List CompletedEvaluation) :
    List LeaderboardValues :=
  completed.filterMap (·.offers conv k)

theorem offersTo_append :
    offersTo conv k (st.completed ++ [e]) =
      offersTo conv k st.completed ++ (e.offers conv k).toList := by
  unfold offersTo
  rw [List.filterMap_append]
  cases h : e.offers conv k with
  | none => rw [List.filterMap_cons_none h, List.filterMap_nil, Option.toList_none]
  | some v => rw [List.filterMap_cons_some h, List.filterMap_nil, Option.toList_some]

/-- A row under the lock of a worker has the version that its evaluation makes of the stored
row, and who is to commit an offer has the lock. -/
structure LeaderboardInv (conv : TextConversions) (st : LeaderboardState) : Prop where
  stored : ∀ k, IsBest (offersTo conv k st.completed) (st.rows k).stored
  held : ∀ k t entry, (st.rows k).held = some (t, entry) →
    ∃ e v, st.workers t = .committing e ∧ e.offers conv k = some v ∧
      entry = some (upsertEntry e.entryId v (st.rows k).stored)
  offering : ∀ k t e v, st.workers t = .committing e → e.offers conv k = some v →
    ∃ entry, (st.rows k).held = some (t, entry)

theorem leaderboardInv_init : LeaderboardInv conv .init where
  stored _ := rfl
  held _ _ _ h := nomatch h
  offering _ _ _ _ h := nomatch h

/-- A worker that holds no lock comes to a phase in which it offers nothing. -/
theorem LeaderboardInv.setPhase (h : LeaderboardInv conv st) {phase : EvaluationPhase}
    (hreleased : ∀ k, (st.rows k).Released t)
    (hphase : ∀ k e v, phase = .committing e → e.offers conv k ≠ some v) :
    LeaderboardInv conv (st.setPhase t phase) := by
  refine ⟨h.stored, ?_, ?_⟩
  · intro k u entry hheld
    have hu : u ≠ t := by
      rintro rfl
      exact hreleased k entry hheld
    obtain ⟨e, v, hworker, hoffer, hentry⟩ := h.held k u entry hheld
    exact ⟨e, v, (Function.update_of_ne hu _ _).trans hworker, hoffer, hentry⟩
  · intro k u e v hworker hoffer
    by_cases hu : u = t
    · subst hu
      exact absurd hoffer (hphase k e v ((Function.update_self ..).symm.trans hworker))
    · exact h.offering k u e v ((Function.update_of_ne hu _ _).symm.trans hworker) hoffer

theorem LeaderboardInv.rollback (h : LeaderboardInv conv st) (t : ℕ) :
    LeaderboardInv conv (st.rollback t) := by
  refine ⟨?_, ?_, ?_⟩
  · intro k
    change IsBest _ ((st.rows k).rollback t).stored
    rw [Row.rollback_stored]
    exact h.stored k
  · intro k u entry hheld
    have hu : u ≠ t := by
      rintro rfl
      exact Row.released_rollback (st.rows k) u entry hheld
    obtain ⟨e, v, hworker, hoffer, hentry⟩ := h.held k u entry (Row.held_of_rollback hheld)
    refine ⟨e, v, (Function.update_of_ne hu _ _).trans hworker, hoffer, ?_⟩
    rw [hentry]
    exact congrArg some (congrArg _ Row.rollback_stored.symm)
  · intro k u e v hworker hoffer
    by_cases hu : u = t
    · subst hu
      exact nomatch (Function.update_self ..).symm.trans hworker
    · obtain ⟨entry, hheld⟩ :=
        h.offering k u e v ((Function.update_of_ne hu _ _).symm.trans hworker) hoffer
      have hreleased := Row.released_of_held_ne hheld hu
      refine ⟨entry, ?_⟩
      change ((st.rows k).rollback t).held = _
      rw [Row.rollback_of_released hreleased]
      exact hheld

/-- The workers that have not come to their commit hold no lock. -/
theorem LeaderboardInv.released (h : LeaderboardInv conv st)
    (hphase : ∀ e, st.workers t ≠ .committing e)
    (k : ℕ × ℕ) : (st.rows k).Released t := by
  intro entry hheld
  obtain ⟨e, -, hworker, -⟩ := h.held k t entry hheld
  exact hphase e hworker

theorem LeaderboardInv.upsert (h : LeaderboardInv conv st) (hworker : st.workers t = .upserting e) :
    LeaderboardInv conv (st.upsert conv t e) := by
  have hreleased : ∀ k, (st.rows k).Released t :=
    h.released fun e' he' => nomatch hworker.symm.trans he'
  unfold LeaderboardState.upsert
  cases hoffered : e.offered conv with
  | error _ => exact h.rollback t
  | ok o =>
      cases o with
      | none =>
          refine h.setPhase hreleased fun k e' v he' hoffer => ?_
          obtain rfl := EvaluationPhase.committing.inj he'
          exact nomatch hoffered.symm.trans (offers_eq_some.mp hoffer).1
      | some v =>
          dsimp only
          split_ifs with hfree
          · have hoffer : e.offers conv e.key = some v := offers_eq_some.mpr ⟨hoffered, rfl⟩
            have hvisible := Row.visible_of_released (hreleased e.key)
            refine ⟨?_, ?_, ?_⟩
            · intro k
              by_cases hk : k = e.key
              · subst hk
                change IsBest _ (Function.update st.rows _ _ _).stored
                rw [Function.update_self]
                exact h.stored _
              · change IsBest _ (Function.update st.rows _ _ k).stored
                rw [Function.update_of_ne hk]
                exact h.stored k
            · intro k u entry hheld
              by_cases hk : k = e.key
              · subst hk
                change (Function.update st.rows _ _ _).held = _ at hheld
                rw [Function.update_self] at hheld
                obtain ⟨rfl, rfl⟩ := Prod.mk.inj (Option.some.inj hheld)
                refine ⟨e, v, Function.update_self .., hoffer, ?_⟩
                change _ = some (upsertEntry _ _ (Function.update st.rows _ _ _).stored)
                rw [Function.update_self, Row.put_stored, hvisible]
              · change (Function.update st.rows _ _ k).held = _ at hheld
                rw [Function.update_of_ne hk] at hheld
                have hu : u ≠ t := by
                  rintro rfl
                  exact hreleased k entry hheld
                obtain ⟨e', v', hworker', hoffer', hentry⟩ := h.held k u entry hheld
                refine ⟨e', v', (Function.update_of_ne hu _ _).trans hworker', hoffer', ?_⟩
                change _ = some (upsertEntry _ _ (Function.update st.rows _ _ k).stored)
                rwa [Function.update_of_ne hk]
            · intro k u e' v' hworker' hoffer'
              change ∃ entry, (Function.update st.rows _ _ k).held = _
              by_cases hu : u = t
              · subst hu
                obtain rfl :=
                  EvaluationPhase.committing.inj ((Function.update_self ..).symm.trans hworker')
                obtain ⟨-, rfl⟩ := offers_eq_some.mp hoffer'
                rw [Function.update_self]
                exact ⟨_, rfl⟩
              · obtain ⟨entry, hheld⟩ :=
                  h.offering k u e' v' ((Function.update_of_ne hu _ _).symm.trans hworker') hoffer'
                have hk : k ≠ e.key := by
                  rintro rfl
                  exact Row.released_of_free_ne hfree hu entry hheld
                rw [Function.update_of_ne hk]
                exact ⟨entry, hheld⟩
          · exact h

/-- What a commit does to a row: it enters the offer of the evaluation, if there is one. -/
theorem LeaderboardInv.commit_stored (h : LeaderboardInv conv st)
    (hworker : st.workers t = .committing e) (k : ℕ × ℕ) :
    ((st.rows k).commit t).stored =
      match e.offers conv k with
      | none => (st.rows k).stored
      | some v => some (upsertEntry e.entryId v (st.rows k).stored) := by
  cases hoffer : e.offers conv k with
  | none =>
      have hreleased : (st.rows k).Released t := by
        intro entry hheld
        obtain ⟨e', v, hworker', hoffer', -⟩ := h.held k t entry hheld
        obtain rfl := EvaluationPhase.committing.inj (hworker.symm.trans hworker')
        exact nomatch hoffer.symm.trans hoffer'
      dsimp only
      rw [Row.commit_of_released hreleased]
  | some v =>
      obtain ⟨entry, hheld⟩ := h.offering k t e v hworker hoffer
      obtain ⟨e', v', hworker', hoffer', hentry⟩ := h.held k t entry hheld
      obtain rfl := EvaluationPhase.committing.inj (hworker.symm.trans hworker')
      obtain rfl := Option.some.inj (hoffer.symm.trans hoffer')
      dsimp only
      rw [Row.commit_of_held hheld, hentry]

theorem LeaderboardInv.commit (h : LeaderboardInv conv st)
    (hworker : st.workers t = .committing e) :
    LeaderboardInv conv (st.commit t e) := by
  refine ⟨?_, ?_, ?_⟩
  · intro k
    change IsBest (offersTo conv k (st.completed ++ [e])) ((st.rows k).commit t).stored
    rw [h.commit_stored hworker, offersTo_append]
    cases e.offers conv k with
    | none =>
        rw [Option.toList_none, List.append_nil]
        exact h.stored k
    | some v => exact isBest_upsert (h.stored k) e.entryId v
  · intro k u entry hheld
    have hu : u ≠ t := by
      rintro rfl
      exact Row.released_commit (st.rows k) u entry hheld
    have hbefore := Row.held_of_commit hheld
    obtain ⟨e', v, hworker', hoffer, hentry⟩ := h.held k u entry hbefore
    refine ⟨e', v, (Function.update_of_ne hu _ _).trans hworker', hoffer, ?_⟩
    change _ = some (upsertEntry _ _ ((st.rows k).commit t).stored)
    rwa [Row.commit_of_released (Row.released_of_held_ne hbefore hu)]
  · intro k u e' v hworker' hoffer
    by_cases hu : u = t
    · subst hu
      exact nomatch (Function.update_self ..).symm.trans hworker'
    · obtain ⟨entry, hheld⟩ :=
        h.offering k u e' v ((Function.update_of_ne hu _ _).symm.trans hworker') hoffer
      refine ⟨entry, ?_⟩
      change ((st.rows k).commit t).held = _
      rwa [Row.commit_of_released (Row.released_of_held_ne hheld hu)]

theorem LeaderboardInv.step (h : LeaderboardInv conv st) (a : LeaderboardAction) :
    LeaderboardInv conv (st.step conv a) := by
  cases a with
  | evaluated t e =>
      simp only [LeaderboardState.step]
      cases hworker : st.workers t with
      | idle =>
          refine h.setPhase (h.released fun e' he' => nomatch hworker.symm.trans he') ?_
          exact fun _ _ _ hphase => nomatch hphase
      | upserting _ => exact h
      | committing _ => exact h
  | upsert t =>
      simp only [LeaderboardState.step]
      cases hworker : st.workers t with
      | idle => exact h
      | upserting e => exact h.upsert hworker
      | committing _ => exact h
  | commit t =>
      simp only [LeaderboardState.step]
      cases hworker : st.workers t with
      | idle => exact h
      | upserting _ => exact h
      | committing e => exact h.commit hworker
  | fail t => exact h.rollback t

/-- A step does not lower the score of an entry. -/
theorem LeaderboardInv.notWorse_step (h : LeaderboardInv conv st) (a : LeaderboardAction)
    (k : ℕ × ℕ) :
    NotWorse (st.rows k).stored ((st.step conv a).rows k).stored := by
  have hrollback (t : ℕ) :
      NotWorse (st.rows k).stored ((st.rollback t).rows k).stored := by
    change NotWorse _ ((st.rows k).rollback t).stored
    rw [Row.rollback_stored]
    exact NotWorse.refl _
  cases a with
  | evaluated t e =>
      simp only [LeaderboardState.step]
      cases st.workers t <;> exact NotWorse.refl _
  | upsert t =>
      simp only [LeaderboardState.step]
      cases st.workers t with
      | idle => exact NotWorse.refl _
      | committing _ => exact NotWorse.refl _
      | upserting e =>
          simp only [LeaderboardState.upsert]
          cases e.offered conv with
          | error _ => exact hrollback t
          | ok o =>
              cases o with
              | none => exact NotWorse.refl _
              | some v =>
                  dsimp only
                  split_ifs
                  · change NotWorse _ (Function.update st.rows _ _ k).stored
                    by_cases hk : k = e.key
                    · subst hk
                      rw [Function.update_self]
                      exact NotWorse.refl _
                    · rw [Function.update_of_ne hk]
                      exact NotWorse.refl _
                  · exact NotWorse.refl _
  | commit t =>
      simp only [LeaderboardState.step]
      cases hworker : st.workers t with
      | idle => exact NotWorse.refl _
      | upserting _ => exact NotWorse.refl _
      | committing e =>
          change NotWorse _ ((st.rows k).commit t).stored
          rw [h.commit_stored hworker]
          cases e.offers conv k with
          | none => exact NotWorse.refl _
          | some v => exact notWorse_upsert _ e.entryId v
  | fail t => exact hrollback t

theorem leaderboardInv_run (actions : List LeaderboardAction) :
    LeaderboardInv conv (run (LeaderboardState.step conv) .init actions) :=
  invariant_run_of_step (LeaderboardInv conv) (fun _ a h => h.step a) leaderboardInv_init

theorem LeaderboardInv.notWorse_run (h : LeaderboardInv conv st)
    (actions : List LeaderboardAction) (k : ℕ × ℕ) :
    NotWorse (st.rows k).stored ((run (LeaderboardState.step conv) st actions).rows k).stored := by
  induction actions generalizing st with
  | nil => exact NotWorse.refl _
  | cons a actions ih => exact (h.notWorse_step a k).trans (ih (h.step a))

end Runs

end PromptCode
