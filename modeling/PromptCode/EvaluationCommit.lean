import PromptCode.Transition

/-!
# What an evaluation commits

`run_evaluation_pipeline`: one database session carries an attempt, sets the columns of the
submission one after another, adds the rows of the runs and commits once.  The handler of an
exception commits the same session again.  The attempts of one submission, with the retries of
its job, come one after another.
-/

namespace PromptCode

open Transition

inductive SubmissionStatus where
  | pending | running | completed | failed
  deriving DecidableEq

/-- The columns that `_evaluate` sets besides the status. -/
inductive ResultColumn where
  | report | scoreAccuracy | scorePromptQuality | scoreEfficiency | scoreReliability
  | scoreOrchestration | scoreCodeQuality | scoreRuleAdherence | scoreEdgeCases | scoreOverall
  | deltaOverall | deltaAccuracy | deltaRobustness | deltaEfficiency | growthScore
  | masteryState | totalCostUsd | totalLatencyMs | totalLlmCalls | completedAt
  deriving DecidableEq

/-- In the order in which they are set. -/
def ResultColumn.all : List ResultColumn :=
  [.report, .scoreAccuracy, .scorePromptQuality, .scoreEfficiency, .scoreReliability,
    .scoreOrchestration, .scoreCodeQuality, .scoreRuleAdherence, .scoreEdgeCases, .scoreOverall,
    .deltaOverall, .deltaAccuracy, .deltaRobustness, .deltaEfficiency, .growthScore,
    .masteryState, .totalCostUsd, .totalLatencyMs, .totalLlmCalls, .completedAt]

theorem ResultColumn.mem_all (c : ResultColumn) : c ∈ ResultColumn.all := by
  cases c <;> decide

section

variable (Value RunRow : Type)

/-- What an evaluation results in; the report is a dictionary. -/
structure PipelineResult where
  columns : ResultColumn → Option Value
  runs : List RunRow
  report_ne : columns .report ≠ none

/-- A submission with what its evaluations have added: the rows of its runs, and whether
`_upsert_leaderboard` has been through. -/
structure EvaluatedRow where
  status : SubmissionStatus
  columns : ResultColumn → Option Value
  runs : List RunRow
  ranked : Bool

/-- Where an attempt is, with what its session would commit. -/
inductive PipelinePhase where
  | idle
  /-- The submission is loaded and about to be committed as running. -/
  | loaded
  | evaluating
  | assigning (result : PipelineResult Value RunRow) (left : List ResultColumn)
      (row : EvaluatedRow Value RunRow)
  | adding (left : List RunRow) (row : EvaluatedRow Value RunRow)
  | ranking (row : EvaluatedRow Value RunRow)
  | committing (row : EvaluatedRow Value RunRow)
  /-- `_mark_failed` -/
  | marking (row : EvaluatedRow Value RunRow)

structure PipelineHost where
  stored : EvaluatedRow Value RunRow
  phase : PipelinePhase Value RunRow

inductive PipelineAction where
  /-- The job is claimed, for the first time or again. -/
  | start
  /-- The next statement. -/
  | next
  /-- `evaluate_submission` and the computations after it end. -/
  | evaluated (result : PipelineResult Value RunRow)
  /-- An exception, or the timeout of the job at an await without a statement. -/
  | raised
  /-- A statement fails, or is cancelled: the transaction is lost, and what the handler sends
  fails too. -/
  | databaseError
  /-- The answer to a commit is lost. -/
  | commitLost
  | crash

end

section

variable {Value RunRow : Type}

namespace EvaluatedRow

variable (row : EvaluatedRow Value RunRow)

def setStatus (status : SubmissionStatus) : EvaluatedRow Value RunRow :=
  { row with status := status }

def setColumn (c : ResultColumn) (v : Option Value) : EvaluatedRow Value RunRow :=
  { row with columns := Function.update row.columns c v }

/-- Nothing of an evaluation. -/
structure Blank : Prop where
  columns : ∀ c, row.columns c = none
  runs : row.runs = []
  ranked : row.ranked = false

/-- All of one evaluation, and nothing of another. -/
structure Holds (result : PipelineResult Value RunRow) : Prop where
  columns : row.columns = result.columns
  runs : row.runs = result.runs
  ranked : row.ranked = true

/-- A completed submission holds one evaluation, any other nothing. -/
def Atomic : Prop :=
  match row.status with
  | .completed => ∃ result, row.Holds result
  | .pending | .running | .failed => row.Blank

end EvaluatedRow

/-- What the commit in flight would store. -/
def PipelineHost.inCommit (h : PipelineHost Value RunRow) : Option (EvaluatedRow Value RunRow) :=
  match h.phase with
  | .loaded => some (h.stored.setStatus .running)
  | .committing row | .marking row => some row
  | .idle | .evaluating | .assigning _ _ _ | .adding _ _ | .ranking _ => none

/-- The next statement of the attempt. -/
def pipelineNext (h : PipelineHost Value RunRow) : PipelineHost Value RunRow :=
  match h.phase with
  | .idle | .evaluating => h
  | .loaded => ⟨h.stored.setStatus .running, .evaluating⟩
  | .assigning result [] row => { h with phase := .adding result.runs row }
  | .assigning result (c :: left) row =>
      { h with phase := .assigning result left (row.setColumn c (result.columns c)) }
  | .adding [] row => { h with phase := .ranking row }
  | .adding (r :: left) row =>
      { h with phase := .adding left { row with runs := row.runs ++ [r] } }
  | .ranking row => { h with phase := .committing { row with ranked := true } }
  | .committing row | .marking row => ⟨row, .idle⟩

/-- The handler sets the status on the object that the session still holds. -/
def pipelineRaise (h : PipelineHost Value RunRow) : PipelineHost Value RunRow :=
  match h.phase with
  | .idle => h
  | .loaded | .evaluating => { h with phase := .marking (h.stored.setStatus .failed) }
  | .assigning _ _ row | .adding _ row | .ranking row =>
      { h with phase := .marking (row.setStatus .failed) }
  -- only the database can raise here
  | .committing _ | .marking _ => { h with phase := .idle }

def pipelineAct (h : PipelineHost Value RunRow) :
    PipelineAction Value RunRow → PipelineHost Value RunRow
  | .start =>
      match h.phase with
      | .idle => { h with phase := .loaded }
      | _ => h
  | .next => pipelineNext h
  | .evaluated result =>
      match h.phase with
      | .evaluating =>
          { h with
            phase := .assigning result ResultColumn.all (h.stored.setStatus .completed) }
      | _ => h
  | .raised => pipelineRaise h
  | .databaseError =>
      match h.phase with
      | .assigning _ _ _ | .adding _ _ => h
      | _ => { h with phase := .idle }
  | .commitLost =>
      match h.inCommit with
      | some row => ⟨row, .idle⟩
      | none => h
  | .crash => { h with phase := .idle }

/-- A new submission. -/
def freshSubmission : PipelineHost Value RunRow :=
  ⟨⟨.pending, fun _ => none, [], false⟩, .idle⟩

/-! ## What a commit can spoil -/

/-- An attempt on a completed submission goes on, or the handler commits what the attempt had
set before the exception. -/
def Spoils (h : PipelineHost Value RunRow) : PipelineAction Value RunRow → Prop
  | .next | .commitLost =>
      (h.phase = .loaded ∧ h.stored.status = .completed) ∨
        ∃ row, h.phase = .marking row ∧ ¬row.Blank
  | _ => False

/-- What each phase has made sure of. -/
def PipelineHost.PhaseSound (stored : EvaluatedRow Value RunRow) :
    PipelinePhase Value RunRow → Prop
  | .idle | .loaded => True
  | .evaluating => stored.Blank
  | .assigning result left row => row.status = .completed ∧
      (∃ before, ResultColumn.all = before ++ left ∧
        ∀ c, row.columns c = if c ∈ before then result.columns c else none) ∧
      row.runs = [] ∧ row.ranked = false
  | .adding left row => row.status = .completed ∧
      ∃ result : PipelineResult Value RunRow, row.columns = result.columns ∧
        row.runs ++ left = result.runs
  | .ranking row => row.status = .completed ∧
      ∃ result : PipelineResult Value RunRow, row.columns = result.columns ∧
        row.runs = result.runs
  | .committing row => row.status = .completed ∧ ∃ result, row.Holds result
  | .marking row => row.status = .failed

structure PipelineInv (h : PipelineHost Value RunRow) : Prop where
  stored : h.stored.Atomic
  phase : PipelineHost.PhaseSound h.stored h.phase

variable {h : PipelineHost Value RunRow} {row : EvaluatedRow Value RunRow}
  {result : PipelineResult Value RunRow}

theorem EvaluatedRow.Blank.setStatus (hrow : row.Blank) (status : SubmissionStatus) :
    (row.setStatus status).Blank :=
  ⟨hrow.columns, hrow.runs, hrow.ranked⟩

theorem EvaluatedRow.Holds.not_blank (hrow : row.Holds result) : ¬row.Blank := by
  intro hblank
  apply result.report_ne
  rw [← hrow.columns]
  exact hblank.columns .report

theorem EvaluatedRow.atomic_of_ne (hstatus : row.status ≠ .completed) :
    row.Atomic ↔ row.Blank := by
  rw [EvaluatedRow.Atomic]
  cases hrow : row.status with
  | completed => exact absurd hrow hstatus
  | pending | running | failed => rfl

theorem EvaluatedRow.atomic_of_eq (hstatus : row.status = .completed) :
    row.Atomic ↔ ∃ result, row.Holds result := by
  rw [EvaluatedRow.Atomic, hstatus]

theorem EvaluatedRow.atomic_running :
    (row.setStatus .running).Atomic ↔ (row.setStatus .running).Blank :=
  EvaluatedRow.atomic_of_ne (by simp [EvaluatedRow.setStatus])

/-- Taking a submission up keeps it atomic exactly when it is not a completed one. -/
theorem atomic_setStatus_running (hrow : row.Atomic) :
    (row.setStatus .running).Atomic ↔ row.status ≠ .completed := by
  rw [EvaluatedRow.atomic_running]
  constructor
  · intro hblank hstatus
    obtain ⟨result, hholds⟩ := (EvaluatedRow.atomic_of_eq hstatus).mp hrow
    exact hholds.not_blank (hblank.setStatus row.status)
  · intro hstatus
    exact ((EvaluatedRow.atomic_of_ne hstatus).mp hrow).setStatus .running

/-- The row that a commit stores is atomic exactly when the commit does not spoil it. -/
theorem atomic_inCommit (hi : PipelineInv h) (hrow : h.inCommit = some row) :
    row.Atomic ↔ ¬((h.phase = .loaded ∧ h.stored.status = .completed) ∨
      ∃ row, h.phase = .marking row ∧ ¬row.Blank) := by
  have hphase := hi.phase
  rw [PipelineHost.inCommit] at hrow
  cases hp : h.phase with
  | idle | evaluating | assigning | adding | ranking => simp [hp] at hrow
  | loaded =>
      rw [hp] at hrow
      obtain rfl := Option.some.inj hrow
      rw [atomic_setStatus_running hi.stored]
      simp
  | committing pending =>
      rw [hp] at hrow hphase
      obtain rfl := Option.some.inj hrow
      obtain ⟨hstatus, result, hholds⟩ := hphase
      exact iff_of_true ((EvaluatedRow.atomic_of_eq hstatus).mpr ⟨result, hholds⟩) (by simp)
  | marking pending =>
      rw [hp] at hrow hphase
      obtain rfl := Option.some.inj hrow
      have hstatus : pending.status = .failed := hphase
      rw [EvaluatedRow.atomic_of_ne (by simp [hstatus])]
      simp

/-- What a statement stores is what was in commit, or nothing. -/
theorem stored_pipelineNext : (pipelineNext h).stored = h.inCommit.getD h.stored := by
  rw [pipelineNext, PipelineHost.inCommit]
  rcases h with ⟨stored, _ | _ | _ | ⟨result, _ | _, row⟩ | ⟨_ | _, row⟩ | row | row | row⟩ <;> rfl

theorem stored_pipelineRaise : (pipelineRaise h).stored = h.stored := by
  rw [pipelineRaise]
  split <;> rfl

theorem inCommit_ne_none (hp : h.phase = .loaded ∨ ∃ row, h.phase = .marking row) :
    h.inCommit ≠ none := by
  rw [PipelineHost.inCommit]
  rcases hp with hp | ⟨row, hp⟩ <;> simp [hp]

/-- One action keeps the stored submission atomic exactly when it does not spoil it. -/
theorem atomic_pipelineAct_iff (hi : PipelineInv h) (a : PipelineAction Value RunRow) :
    (pipelineAct h a).stored.Atomic ↔ ¬Spoils h a := by
  have hquiet (hnone : h.inCommit = none) : ¬((h.phase = .loaded ∧
      h.stored.status = .completed) ∨ ∃ row, h.phase = .marking row ∧ ¬row.Blank) := by
    rintro (⟨hp, -⟩ | ⟨row, hp, -⟩)
    · exact inCommit_ne_none (.inl hp) hnone
    · exact inCommit_ne_none (.inr ⟨row, hp⟩) hnone
  have hsame (hstored : (pipelineAct h a).stored = h.stored) :
      (pipelineAct h a).stored.Atomic := hstored.symm ▸ hi.stored
  cases a with
  | next =>
      rw [pipelineAct, stored_pipelineNext]
      cases hrow : h.inCommit with
      | some row => exact atomic_inCommit hi hrow
      | none => exact iff_of_true hi.stored (hquiet hrow)
  | commitLost =>
      rw [pipelineAct]
      cases hrow : h.inCommit with
      | some row => exact atomic_inCommit hi hrow
      | none => exact iff_of_true hi.stored (hquiet hrow)
  | raised => exact iff_of_true (hsame stored_pipelineRaise) id
  | start | evaluated result | databaseError =>
      refine iff_of_true (hsame ?_) id
      rw [pipelineAct]
      split <;> rfl
  | crash => exact iff_of_true hi.stored id

theorem phaseSound_pipelineNext (hi : PipelineInv h) (hatomic : (pipelineNext h).stored.Atomic) :
    PipelineHost.PhaseSound (pipelineNext h).stored (pipelineNext h).phase := by
  have hphase := hi.phase
  rcases h with ⟨stored, _ | _ | _ | ⟨result, _ | ⟨c, left⟩, row⟩ | ⟨_ | ⟨r, left⟩, row⟩ | row |
    row | row⟩
  case idle | evaluating => exact hphase
  case loaded => exact EvaluatedRow.atomic_running.mp hatomic
  case assigning.nil =>
    obtain ⟨hstatus, ⟨before, hall, hcolumns⟩, hruns, -⟩ := hphase
    refine ⟨hstatus, result, funext fun c => ?_, by rw [hruns]; rfl⟩
    rw [hcolumns, if_pos]
    rw [List.append_nil] at hall
    exact hall ▸ c.mem_all
  case assigning.cons =>
    obtain ⟨hstatus, ⟨before, hall, hcolumns⟩, hruns, hranked⟩ := hphase
    refine ⟨hstatus, ⟨before ++ [c], by simp [hall], fun d => ?_⟩, hruns, hranked⟩
    by_cases hd : d = c
    · subst hd
      simp [EvaluatedRow.setColumn]
    · simp [EvaluatedRow.setColumn, hd, hcolumns]
  case adding.nil =>
    obtain ⟨hstatus, result, hcolumns, hruns⟩ := hphase
    exact ⟨hstatus, result, hcolumns, by rw [← hruns, List.append_nil]⟩
  case adding.cons =>
    obtain ⟨hstatus, result, hcolumns, hruns⟩ := hphase
    exact ⟨hstatus, result, hcolumns, by rw [← hruns, List.append_assoc]; rfl⟩
  case ranking =>
    obtain ⟨hstatus, result, hcolumns, hruns⟩ := hphase
    exact ⟨hstatus, result, hcolumns, hruns, rfl⟩
  case committing | marking => trivial

theorem phaseSound_pipelineRaise (h : PipelineHost Value RunRow) :
    PipelineHost.PhaseSound (pipelineRaise h).stored (pipelineRaise h).phase := by
  rcases h with ⟨stored, _ | _ | _ | _ | _ | _ | _ | _⟩ <;> trivial

theorem pipelineAct_inv (hi : PipelineInv h) {a : PipelineAction Value RunRow}
    (hatomic : (pipelineAct h a).stored.Atomic) : PipelineInv (pipelineAct h a) := by
  refine ⟨hatomic, ?_⟩
  have hphase := hi.phase
  cases a with
  | next => exact phaseSound_pipelineNext hi hatomic
  | raised => exact phaseSound_pipelineRaise h
  | start =>
      rw [pipelineAct]
      split
      · trivial
      · exact hphase
  | evaluated result =>
      rw [pipelineAct]
      split
      · rename_i hp
        rw [hp] at hphase
        obtain ⟨hcolumns, hruns, hranked⟩ := hphase
        exact ⟨rfl, ⟨[], rfl, fun c => (hcolumns c).trans (if_neg List.not_mem_nil).symm⟩, hruns,
          hranked⟩
      · exact hphase
  | databaseError =>
      rw [pipelineAct]
      split
      · exact hphase
      · exact hphase
      · trivial
  | commitLost =>
      rw [pipelineAct]
      split
      · trivial
      · exact hphase
  | crash => trivial

theorem freshSubmission_inv : PipelineInv (freshSubmission : PipelineHost Value RunRow) :=
  ⟨⟨fun _ => rfl, rfl, rfl⟩, trivial⟩

/-- After every action of a run the stored submission is completed with all of one evaluation, or
holds nothing of any, exactly when the run never takes up a completed submission again and never
commits, in the handler, what an attempt had set before its exception. -/
theorem evaluation_atomic_iff (actions : List (PipelineAction Value RunRow)) :
    Throughout pipelineAct (fun h a => (pipelineAct h a).stored.Atomic) freshSubmission actions ↔
      Throughout pipelineAct (fun h a => ¬Spoils h a) freshSubmission actions :=
  throughout_iff_of_invariant PipelineInv (fun _ _ hi hatomic => pipelineAct_inv hi hatomic)
    (fun _ a hi => atomic_pipelineAct_iff hi a) freshSubmission_inv

/-- An exception after the first column: the submission has failed, and it has the report. -/
example (result : PipelineResult Value RunRow) :
    (run pipelineAct freshSubmission
      [.start, .next, .evaluated result, .next, .raised, .next]).stored.status = .failed ∧
    (run pipelineAct freshSubmission
      [.start, .next, .evaluated result, .next, .raised, .next]).stored.columns .report =
        result.columns .report :=
  ⟨rfl, rfl⟩

end

end PromptCode
