import PromptCode.RowLock
import PromptCode.Transition
import PromptCode.Py.Json
import Mathlib.Algebra.BigOperators.Group.Finset.Basic
import Mathlib.Algebra.Order.Ring.Int

/-!
# Reservations in the budget of AI requests

`reserve_ai_budget` of `services/interview/ai_budget.py`: the rows of all scopes of a
request are incremented one after another, each with its caps, and the first refusal
rolls the transaction back.
-/

namespace PromptCode

open Transition Py

/-- The counters of a row of `ai_budgets`. -/
@[ext]
structure BudgetUse where
  requests : ℤ
  tokens : ℤ
  costMicros : ℤ
  deriving DecidableEq

namespace BudgetUse

instance : Zero BudgetUse := ⟨⟨0, 0, 0⟩⟩

instance : Add BudgetUse :=
  ⟨fun x y => ⟨x.requests + y.requests, x.tokens + y.tokens, x.costMicros + y.costMicros⟩⟩

variable (x y : BudgetUse)

@[simp] theorem zero_requests : (0 : BudgetUse).requests = 0 := rfl

@[simp] theorem zero_tokens : (0 : BudgetUse).tokens = 0 := rfl

@[simp] theorem zero_costMicros : (0 : BudgetUse).costMicros = 0 := rfl

@[simp] theorem add_requests : (x + y).requests = x.requests + y.requests := rfl

@[simp] theorem add_tokens : (x + y).tokens = x.tokens + y.tokens := rfl

@[simp] theorem add_costMicros : (x + y).costMicros = x.costMicros + y.costMicros := rfl

/-- Counters add up one by one. -/
instance : AddCommMonoid BudgetUse where
  add_assoc x y z := by ext <;> simp [add_assoc]
  zero_add x := by ext <;> simp
  add_zero x := by ext <;> simp
  add_comm x y := by ext <;> simp [add_comm]
  nsmul := nsmulRec

/-- All three counters are within the caps. -/
def within (caps : BudgetUse) : Bool :=
  x.requests ≤ caps.requests && x.tokens ≤ caps.tokens && x.costMicros ≤ caps.costMicros

end BudgetUse

/-! ## Scopes -/

inductive BudgetKey where
  | trial
  | global (day : ℕ)
  | user (id : Str) (day : ℕ)
  | session (id : Str)
  | gradingSession (id : Str)
  deriving DecidableEq

namespace BudgetKey

/-- The primary key of the row. -/
def text : BudgetKey → Str
  | trial => lit "trial:all"
  | global day => lit "global:" ++ jsonNat day
  | user id day => lit "user:" ++ id ++ lit ":" ++ jsonNat day
  | session id => lit "session:" ++ id
  | gradingSession id => lit "grading-session:" ++ id

/-- The scope's name in the settings. -/
def scope : BudgetKey → String
  | trial => "TRIAL"
  | global _ => "GLOBAL"
  | user _ _ => "USER"
  | session _ => "SESSION"
  | gradingSession _ => "GRADING_SESSION"

def defaultCaps : BudgetKey → BudgetUse
  | trial => ⟨1000000, 1000000000, 5000000⟩
  | global _ => ⟨1000, 10000000, 20000000⟩
  | user _ _ => ⟨100, 1000000, 5000000⟩
  | session _ => ⟨20, 200000, 2000000⟩
  | gradingSession _ => ⟨12, 600000, 2000000⟩

theorem jsonNat_injective {m n : ℕ} (h : jsonNat m = jsonNat n) : m = n := by
  have hm := @readNat_jsonNat m [] nofun
  have hn := @readNat_jsonNat n [] nofun
  rw [h] at hm
  exact congrArg Prod.fst (hm.symm.trans hn)

/-- What follows the last colon is the day. -/
theorem append_day_injective {u v : Str} {d e : ℕ}
    (h : u ++ lit ":" ++ jsonNat d = v ++ lit ":" ++ jsonNat e) : u = v ∧ d = e := by
  have hcolon : ∀ n, ∀ c ∈ (jsonNat n).reverse, (c != ord ':') = true := by
    intro n c hc
    have hdigit := isDigit_of_mem_jsonNat (List.mem_reverse.mp hc)
    rw [bne_iff_ne]
    rintro rfl
    exact absurd hdigit (by decide)
  have hsplit : ∀ (u : Str) n, (u ++ lit ":" ++ jsonNat n).reverse.takeWhile (· != ord ':') =
      (jsonNat n).reverse := by
    intro u n
    rw [List.reverse_append, List.takeWhile_append_of_pos (hcolon n), List.reverse_append]
    simp [lit]
  have hday : d = e := by
    apply jsonNat_injective
    rw [← List.reverse_inj, ← hsplit u d, ← hsplit v e, h]
  subst hday
  exact ⟨List.append_cancel_right (List.append_cancel_right h), rfl⟩

/-- The first two letters of a key tell its scope. -/
def lead : BudgetKey → Str
  | trial => lit "tr"
  | global _ => lit "gl"
  | user _ _ => lit "us"
  | session _ => lit "se"
  | gradingSession _ => lit "gr"

theorem take_text (k : BudgetKey) : k.text.take 2 = k.lead := by
  rcases k with _ | _ | _ | _ | _ <;> rfl

theorem text_injective {k l : BudgetKey} (h : k.text = l.text) : k = l := by
  have hlead : k.lead = l.lead := by rw [← take_text, ← take_text, h]
  rcases k with _ | d | ⟨u, d⟩ | u | u <;> rcases l with _ | e | ⟨v, e⟩ | v | v
  case trial.trial => rfl
  case global.global => rw [jsonNat_injective (List.append_cancel_left h)]
  case user.user =>
    simp only [text, List.append_assoc, List.append_cancel_left_eq] at h
    simp only [← List.append_assoc] at h
    obtain ⟨rfl, rfl⟩ := append_day_injective h
    rfl
  case session.session => rw [List.append_cancel_left h]
  case gradingSession.gradingSession => rw [List.append_cancel_left h]
  all_goals exact absurd (lit_inj.mp hlead) (by decide)

end BudgetKey

/-! ## Requests -/

/-- The settings as the environment and the configuration give them. -/
structure BudgetEnv where
  enabled : Bool
  trialEnabled : Bool
  /-- The number behind a setting with its default, if it is one. -/
  setting : String → ℤ → Option ℤ

namespace BudgetEnv

variable (env : BudgetEnv)

/-- `positive`; `none` is one of its errors. -/
def positive (name : String) (default : ℤ) : Option ℤ :=
  match env.setting name default with
  | none => none
  | some value => if value ≤ 0 then none else some value

def caps (key : BudgetKey) : Option BudgetUse := do
  let requests ← env.positive ("PROMPTCODE_AI_" ++ key.scope ++ "_REQUESTS")
    key.defaultCaps.requests
  let tokens ← env.positive ("PROMPTCODE_AI_" ++ key.scope ++ "_TOKENS")
    key.defaultCaps.tokens
  let costMicros ← env.positive ("PROMPTCODE_AI_" ++ key.scope ++ "_COST_MICROS")
    key.defaultCaps.costMicros
  return ⟨requests, tokens, costMicros⟩

end BudgetEnv

structure BudgetRequest where
  user : Str
  session : Str
  inputBytes : ℤ
  outputTokens : ℤ
  attempts : ℤ
  purpose : String
  day : ℕ

namespace BudgetRequest

variable (env : BudgetEnv) (req : BudgetRequest)

/-- What the request reserves in every scope. -/
def use : Option BudgetUse :=
  if ¬(0 ≤ req.inputBytes ∧ req.inputBytes ≤ 256000 ∧ 1 ≤ req.outputTokens ∧
      req.outputTokens ≤ 4096 ∧ 1 ≤ req.attempts ∧ req.attempts ≤ 8) then none
  else
    let tokens := (req.inputBytes + 512 + req.outputTokens) * req.attempts
    (env.positive "PROMPTCODE_AI_MAX_MICROS_PER_TOKEN" 100).map fun micros =>
      ⟨1, tokens, tokens * micros⟩

/-- The last scope, by the purpose of the request. -/
def sessionScope : Option BudgetKey :=
  if req.purpose = "grading" then some (.gradingSession req.session)
  else if req.purpose = "assistant" then some (.session req.session)
  else none

def scopes : Option (List BudgetKey) :=
  req.sessionScope.map fun last =>
    (if env.trialEnabled then [.trial] else []) ++
      [.global req.day, .user req.user req.day, last]

end BudgetRequest

/-! ## Transactions -/

inductive BudgetPhase where
  | idle
  /-- The scopes that are incremented, and those that are left. -/
  | reserving (req : BudgetRequest) (use : BudgetUse) (taken left : List BudgetKey)
  | accepted (req : BudgetRequest) (use : BudgetUse)
  | rejected

structure BudgetTable where
  rows : BudgetKey → Row ℕ (Option BudgetUse)
  phase : ℕ → BudgetPhase

inductive BudgetAction where
  | start (t : ℕ) (req : BudgetRequest)
  /-- The upsert of the next scope. -/
  | upsert (t : ℕ)
  | commit (t : ℕ)
  /-- Any exception or a cancellation at an await. -/
  | fail (t : ℕ)

namespace BudgetTable

def start : BudgetTable := ⟨fun _ => ⟨none, none⟩, fun _ => .idle⟩

variable (env : BudgetEnv) (s : BudgetTable)

def setPhase (t : ℕ) (p : BudgetPhase) : BudgetTable :=
  { s with phase := Function.update s.phase t p }

/-- `rollback` and the raise. -/
def reject (t : ℕ) : BudgetTable where
  rows := fun k => (s.rows k).rollback t
  phase := Function.update s.phase t .rejected

/-- The checks before the transaction. -/
def begin (t : ℕ) (req : BudgetRequest) : BudgetTable :=
  if !env.enabled then s.setPhase t .rejected
  else
    match req.use env, req.scopes env with
    | some use, some scopes => s.setPhase t (.reserving req use [] scopes)
    | _, _ => s.setPhase t .rejected

/-- What the upsert writes; `none` when it returns no row. -/
def increment (caps use : BudgetUse) : Option BudgetUse → Option BudgetUse
  | none => some use
  | some row => if (row + use).within caps then some (row + use) else none

/-- One round of the loop; the statement waits for the lock of another client. -/
def upsert (t : ℕ) (req : BudgetRequest) (use : BudgetUse) (taken : List BudgetKey)
    (key : BudgetKey) (left : List BudgetKey) : BudgetTable :=
  match env.caps key with
  | none => s.reject t
  | some caps =>
      if !use.within caps then s.reject t
      else if (s.rows key).free t then
        match increment caps use ((s.rows key).visible t) with
        | none => s.reject t
        | some row =>
            { rows := Function.update s.rows key ((s.rows key).put t (some row))
              phase := Function.update s.phase t
                (.reserving req use (key :: taken) left) }
      else s

def commit (t : ℕ) (req : BudgetRequest) (use : BudgetUse) : BudgetTable where
  rows := fun k => (s.rows k).commit t
  phase := Function.update s.phase t (.accepted req use)

end BudgetTable

def budgetAct (env : BudgetEnv) (s : BudgetTable) : BudgetAction → BudgetTable
  | .start t req =>
      match s.phase t with
      | .idle => s.begin env t req
      | _ => s
  | .upsert t =>
      match s.phase t with
      | .reserving req use taken (key :: left) => s.upsert env t req use taken key left
      | _ => s
  | .commit t =>
      match s.phase t with
      | .reserving req use _ [] => s.commit t req use
      | _ => s
  | .fail t =>
      match s.phase t with
      | .reserving _ _ _ _ => s.reject t
      | _ => s

/-! ## What a step keeps -/

/-- A row is within the caps of its scope. -/
def WithinCaps (env : BudgetEnv) (k : BudgetKey) (row : Option BudgetUse) : Prop :=
  ∀ use, row = some use → ∃ caps, env.caps k = some caps ∧ use.within caps = true

/-- The locks of a client, by its phase. -/
def BudgetPhaseOk (env : BudgetEnv) (rows : BudgetKey → Row ℕ (Option BudgetUse)) (t : ℕ) :
    BudgetPhase → Prop
  | .reserving req use taken left =>
      req.scopes env = some (taken.reverse ++ left) ∧
        (∀ k ∈ taken, (rows k).held = some (t, some ((rows k).stored.getD 0 + use))) ∧
        ∀ k ∉ taken, (rows k).Released t
  | _ => ∀ k, (rows k).Released t

/-- What a client has booked on a row. -/
def bookedBy (env : BudgetEnv) (k : BudgetKey) : BudgetPhase → BudgetUse
  | .accepted req use => if k ∈ (req.scopes env).getD [] then use else 0
  | _ => 0

/-- The rows are the sums of the accepted reservations. -/
def Booked (env : BudgetEnv) (s : BudgetTable) : Prop :=
  ∃ clients : Finset ℕ, (∀ t ∉ clients, s.phase t = .idle) ∧
    ∀ k, (s.rows k).stored.getD 0 = ∑ t ∈ clients, bookedBy env k (s.phase t)

structure BudgetOk (env : BudgetEnv) (s : BudgetTable) : Prop where
  caps : ∀ k, (s.rows k).All (WithinCaps env k)
  phases : ∀ t, BudgetPhaseOk env s.rows t (s.phase t)
  booked : Booked env s

section

variable {env : BudgetEnv} {s : BudgetTable} {t : ℕ} {req : BudgetRequest}
  {use : BudgetUse} {taken left : List BudgetKey} {key : BudgetKey}

theorem budgetOk_start (env : BudgetEnv) : BudgetOk env .start where
  caps := fun _ => ⟨nofun, nofun⟩
  phases := fun _ _ => nofun
  booked := ⟨∅, fun _ _ => rfl, fun _ => rfl⟩

theorem nodup_scopes {scopes : List BudgetKey} (h : req.scopes env = some scopes) :
    scopes.Nodup := by
  obtain ⟨last, hlast, rfl⟩ := Option.map_eq_some_iff.mp h
  rw [BudgetRequest.sessionScope] at hlast
  split_ifs at hlast <;> obtain rfl := Option.some.inj hlast <;> split_ifs <;> simp

/-- A client that has booked nothing before and after does not change the sums. -/
theorem Booked.of_phase (h : Booked env s) {s' : BudgetTable} {p : BudgetPhase}
    (hstored : ∀ k, (s'.rows k).stored = (s.rows k).stored)
    (hphase : s'.phase = Function.update s.phase t p)
    (hold : ∀ k, bookedBy env k (s.phase t) = 0) (hnew : ∀ k, bookedBy env k p = 0) :
    Booked env s' := by
  obtain ⟨clients, hidle, hsum⟩ := h
  refine ⟨insert t clients, ?_, ?_⟩
  · intro u hu
    obtain ⟨hut, hu⟩ := not_or.mp (Finset.mem_insert.not.mp hu)
    rw [hphase, Function.update_of_ne hut]
    exact hidle u hu
  · intro k
    have hsame : ∀ u, bookedBy env k (s'.phase u) = bookedBy env k (s.phase u) := by
      intro u
      rw [hphase]
      by_cases hut : u = t
      · rw [hut, Function.update_self, hold, hnew]
      · rw [Function.update_of_ne hut]
    rw [hstored, hsum, Finset.sum_congr rfl fun u _ => hsame u]
    by_cases ht : t ∈ clients
    · rw [Finset.insert_eq_of_mem ht]
    · rw [Finset.sum_insert ht, hold, zero_add]

/-- A step of one client that leaves the locks of the others alone. -/
theorem BudgetOk.update (h : BudgetOk env s) {s' : BudgetTable} {p : BudgetPhase}
    (hcaps : ∀ k, (s'.rows k).All (WithinCaps env k))
    (hstored : ∀ k, (s'.rows k).stored = (s.rows k).stored)
    (hphase : s'.phase = Function.update s.phase t p)
    (hp : BudgetPhaseOk env s'.rows t p)
    (hold : ∀ k, bookedBy env k (s.phase t) = 0) (hnew : ∀ k, bookedBy env k p = 0)
    (hheld : ∀ u ≠ t, ∀ k v, (s.rows k).held = some (u, v) → s'.rows k = s.rows k)
    (hfree : ∀ u ≠ t, ∀ k, (s.rows k).Released u → (s'.rows k).Released u) :
    BudgetOk env s' := by
  refine ⟨hcaps, ?_, h.booked.of_phase hstored hphase hold hnew⟩
  intro u
  rw [hphase]
  by_cases hut : u = t
  · rw [hut, Function.update_self]
    exact hp
  · rw [Function.update_of_ne hut]
    have hok := h.phases u
    rcases hu : s.phase u with _ | ⟨req, use, taken, left⟩ | ⟨req, use⟩ | _ <;> rw [hu] at hok
    case reserving =>
      obtain ⟨hscopes, htaken, hrest⟩ := hok
      refine ⟨hscopes, ?_, fun k hk => hfree u hut k (hrest k hk)⟩
      intro k hk
      rw [hheld u hut k _ (htaken k hk)]
      exact htaken k hk
    all_goals exact fun k => hfree u hut k (hok k)

/-- A new phase without locks. -/
theorem BudgetOk.setPhase (h : BudgetOk env s) {p : BudgetPhase}
    (hp : BudgetPhaseOk env s.rows t p) (hold : ∀ k, bookedBy env k (s.phase t) = 0)
    (hnew : ∀ k, bookedBy env k p = 0) : BudgetOk env (s.setPhase t p) :=
  h.update h.caps (fun _ => rfl) rfl hp hold hnew (fun _ _ _ _ _ => rfl) fun _ _ _ hr => hr

theorem BudgetOk.reject (h : BudgetOk env s)
    (hold : ∀ k, bookedBy env k (s.phase t) = 0) : BudgetOk env (s.reject t) := by
  refine h.update (fun k => (h.caps k).rollback) (fun _ => Row.rollback_stored) rfl
    (p := .rejected) (fun k => Row.released_rollback _ t) hold (fun _ => rfl) ?_
    fun _ _ _ hr => hr.rollback
  intro u hut k v hv
  rcases (s.rows k).rollback_cases t with ⟨-, heq⟩ | heq
  · exact heq
  · change (s.rows k).rollback t = s.rows k
    rw [Row.rollback, hv]
    simp [hut]

theorem BudgetOk.begin (h : BudgetOk env s) (hidle : s.phase t = .idle) :
    BudgetOk env (s.begin env t req) := by
  have hfree := h.phases t
  rw [hidle] at hfree
  have hold : ∀ k, bookedBy env k (s.phase t) = 0 := fun k => by rw [hidle]; rfl
  rw [BudgetTable.begin]
  split_ifs
  · exact h.setPhase (p := .rejected) hfree hold fun _ => rfl
  · split
    · rename_i use scopes _ hscopes
      exact h.setPhase (p := .reserving req use [] scopes)
        ⟨hscopes, nofun, fun k _ => hfree k⟩ hold fun _ => rfl
    · exact h.setPhase (p := .rejected) hfree hold fun _ => rfl

/-- The row that an upsert writes is the old one with the reservation, within the caps. -/
theorem increment_eq_some {caps row : BudgetUse} {old : Option BudgetUse}
    (hwithin : use.within caps = true) (h : BudgetTable.increment caps use old = some row) :
    row = old.getD 0 + use ∧ row.within caps = true := by
  rcases old with _ | old
  · obtain rfl := Option.some.inj h
    exact ⟨(zero_add _).symm, hwithin⟩
  · rw [BudgetTable.increment] at h
    split_ifs at h with hrow
    obtain rfl := Option.some.inj h
    exact ⟨rfl, hrow⟩

theorem BudgetOk.upsert (h : BudgetOk env s)
    (hphase : s.phase t = .reserving req use taken (key :: left)) :
    BudgetOk env (s.upsert env t req use taken key left) := by
  have hold : ∀ k, bookedBy env k (s.phase t) = 0 := fun k => by rw [hphase]; rfl
  have hok := h.phases t
  rw [hphase] at hok
  obtain ⟨hscopes, htaken, hrest⟩ := hok
  have hkey : key ∉ taken := by
    have hnodup := nodup_scopes hscopes
    intro hin
    exact (List.nodup_append.mp hnodup).2.2 key (List.mem_reverse.mpr hin) key
      List.mem_cons_self rfl
  rw [BudgetTable.upsert]
  split
  · exact h.reject hold
  · rename_i caps hcaps
    split_ifs with hlarge hfree
    · exact h.reject hold
    · split
      · exact h.reject hold
      · rename_i row hrow
        have hwithin : use.within caps = true := by simpa using hlarge
        obtain ⟨hadd, hrowin⟩ := increment_eq_some hwithin hrow
        rw [Row.visible_of_released (hrest key hkey)] at hadd
        have hother : ∀ k ≠ key, Function.update s.rows key
            ((s.rows key).put t (some row)) k = s.rows k :=
          fun k hk => Function.update_of_ne hk ..
        refine h.update (p := .reserving req use (key :: taken) left) ?_ ?_ rfl ?_ hold
          (fun _ => rfl) ?_ ?_ <;> dsimp only
        · intro k
          by_cases hk : k = key
          · subst hk
            rw [Function.update_self]
            refine (h.caps k).put ?_
            intro use' huse
            obtain rfl := Option.some.inj huse
            exact ⟨caps, hcaps, hrowin⟩
          · rw [hother k hk]
            exact h.caps k
        · intro k
          by_cases hk : k = key
          · subst hk
            rw [Function.update_self, Row.put_stored]
          · rw [hother k hk]
        · refine ⟨by simpa using hscopes, ?_, ?_⟩
          · intro k hk
            by_cases hkk : k = key
            · subst hkk
              rw [Function.update_self, Row.put_held, Row.put_stored, hadd]
            · rw [hother k hkk]
              exact htaken k (List.mem_of_ne_of_mem hkk hk)
          · intro k hk
            obtain ⟨hkk, hk⟩ := not_or.mp (List.mem_cons.not.mp hk)
            rw [hother k hkk]
            exact hrest k hk
        · intro u hut k v hv
          refine hother k ?_
          rintro rfl
          exact Row.released_of_free_ne hfree hut v hv
        · intro u hut k hr
          by_cases hk : k = key
          · subst hk
            rw [Function.update_self]
            intro v hv
            exact hut (Prod.mk.inj (Option.some.inj hv)).1.symm
          · rw [hother k hk]
            exact hr
    · exact h

/-- A commit adds the reservation to the rows of its scopes. -/
theorem stored_commit (h : BudgetOk env s) (hphase : s.phase t = .reserving req use taken [])
    (k : BudgetKey) :
    ((s.commit t req use).rows k).stored =
      if k ∈ (req.scopes env).getD [] then some ((s.rows k).stored.getD 0 + use)
      else (s.rows k).stored := by
  have hok := h.phases t
  rw [hphase] at hok
  obtain ⟨hscopes, htaken, hrest⟩ := hok
  rw [List.append_nil] at hscopes
  rw [hscopes, Option.getD_some]
  change ((s.rows k).commit t).stored = _
  split_ifs with hk
  · rw [Row.commit_of_held (htaken k (List.mem_reverse.mp hk))]
  · rw [Row.commit_of_released (hrest k fun hin => hk (List.mem_reverse.mpr hin))]

theorem BudgetOk.commit (h : BudgetOk env s)
    (hphase : s.phase t = .reserving req use taken []) :
    BudgetOk env (s.commit t req use) := by
  refine ⟨fun k => (h.caps k).commit, ?_, ?_⟩
  · intro u
    by_cases hut : u = t
    · subst hut
      simp only [BudgetTable.commit, Function.update_self]
      exact fun k => Row.released_commit (s.rows k) u
    · simp only [BudgetTable.commit, Function.update_of_ne hut]
      have hok := h.phases u
      rcases hu : s.phase u with _ | ⟨req, use, taken, left⟩ | ⟨req, use⟩ | _ <;>
        rw [hu] at hok
      case reserving =>
        obtain ⟨hscopes, htaken, hrest⟩ := hok
        refine ⟨hscopes, ?_, fun k hk => (hrest k hk).commit⟩
        intro k hk
        have hheld := htaken k hk
        have hsame : (s.rows k).commit t = s.rows k := by
          apply Row.commit_of_released
          intro v hv
          exact hut (Prod.mk.inj (Option.some.inj (hheld.symm.trans hv))).1
        simp only [hsame]
        exact hheld
      all_goals exact fun k => (hok k).commit
  · obtain ⟨clients, hidle, hsum⟩ := h.booked
    have ht : t ∈ clients := by
      by_contra ht
      exact nomatch (hidle t ht).symm.trans hphase
    refine ⟨clients, ?_, ?_⟩
    · intro u hu
      have hut : u ≠ t := fun heq => hu (heq ▸ ht)
      simp only [BudgetTable.commit, Function.update_of_ne hut]
      exact hidle u hu
    · intro k
      have hrest : ∑ u ∈ clients.erase t, bookedBy env k ((s.commit t req use).phase u) =
          ∑ u ∈ clients.erase t, bookedBy env k (s.phase u) := by
        apply Finset.sum_congr rfl
        intro u hu
        simp only [BudgetTable.commit, Function.update_of_ne (Finset.ne_of_mem_erase hu)]
      have hbefore : bookedBy env k (s.phase t) = 0 := by rw [hphase]; rfl
      have hafter : bookedBy env k ((s.commit t req use).phase t) =
          if k ∈ (req.scopes env).getD [] then use else 0 := by
        simp only [BudgetTable.commit, Function.update_self, bookedBy]
      have hnow := Finset.add_sum_erase clients (fun u => bookedBy env k (s.phase u)) ht
      rw [← Finset.add_sum_erase clients _ ht, hrest, hafter, stored_commit h hphase k]
      rw [hbefore, zero_add, ← hsum k] at hnow
      rw [hnow]
      split_ifs
      · rw [Option.getD_some, add_comm]
      · rw [zero_add]

theorem BudgetOk.act (h : BudgetOk env s) (a : BudgetAction) :
    BudgetOk env (budgetAct env s a) := by
  rcases a with ⟨t, req⟩ | t | t | t <;> rw [budgetAct]
  case start =>
    split
    · rename_i hidle
      exact h.begin hidle
    · exact h
  case upsert =>
    split
    · rename_i hphase
      exact h.upsert hphase
    · exact h
  case commit =>
    split
    · rename_i hphase
      exact h.commit hphase
    · exact h
  case fail =>
    split
    · rename_i hphase
      exact h.reject fun k => by rw [hphase]; rfl
    · exact h

/-! ## Runs -/

/-- Only an accepted reservation changes the stored rows, and only those of its scopes. -/
def OnlyAccepted (env : BudgetEnv) (s : BudgetTable) (a : BudgetAction) : Prop :=
  (∀ k, ((budgetAct env s a).rows k).stored = (s.rows k).stored) ∨
    ∃ t req use, (budgetAct env s a).phase t = .accepted req use ∧
      ∀ k, ((budgetAct env s a).rows k).stored =
        if k ∈ (req.scopes env).getD [] then some ((s.rows k).stored.getD 0 + use)
        else (s.rows k).stored

structure BudgetSafe (env : BudgetEnv) (s : BudgetTable) : Prop where
  caps : ∀ k, WithinCaps env k (s.rows k).stored
  rejected : ∀ t, s.phase t = .rejected → ∀ k, (s.rows k).Released t
  booked : Booked env s
  /-- The global row of a day is the sum of the rows of all users. -/
  conserved : ∀ day, ∃ users : Finset Str,
    (∀ u ∉ users, (s.rows (.user u day)).stored.getD 0 = 0) ∧
      (s.rows (.global day)).stored.getD 0 =
        ∑ u ∈ users, (s.rows (.user u day)).stored.getD 0

theorem mem_scopes_iff {scopes : List BudgetKey} (h : req.scopes env = some scopes) :
    (∀ day, .global day ∈ scopes ↔ day = req.day) ∧
      ∀ u day, .user u day ∈ scopes ↔ u = req.user ∧ day = req.day := by
  obtain ⟨last, hlast, rfl⟩ := Option.map_eq_some_iff.mp h
  rw [BudgetRequest.sessionScope] at hlast
  split_ifs at hlast <;> obtain rfl := Option.some.inj hlast <;> split_ifs <;> simp

/-- The user that a client has booked for. -/
def BudgetPhase.user : BudgetPhase → Str
  | .accepted req _ => req.user
  | _ => []

theorem bookedBy_user {p : BudgetPhase} {day : ℕ} {u : Str} :
    bookedBy env (.user u day) p = if u = p.user then bookedBy env (.global day) p else 0 := by
  rcases p with _ | ⟨req, use, taken, left⟩ | ⟨req, use⟩ | _
  case accepted =>
    rw [bookedBy, bookedBy, BudgetPhase.user]
    rcases hscopes : req.scopes env with _ | scopes
    · simp
    · obtain ⟨hglobal, huser⟩ := mem_scopes_iff hscopes
      rw [Option.getD_some]
      simp only [hglobal, huser, ite_and]
  all_goals simp [bookedBy]

theorem Booked.conserved (h : Booked env s) (day : ℕ) :
    ∃ users : Finset Str,
      (∀ u ∉ users, (s.rows (.user u day)).stored.getD 0 = 0) ∧
        (s.rows (.global day)).stored.getD 0 =
          ∑ u ∈ users, (s.rows (.user u day)).stored.getD 0 := by
  obtain ⟨clients, -, hsum⟩ := h
  refine ⟨clients.image fun t => (s.phase t).user, ?_, ?_⟩
  · intro u hu
    rw [hsum]
    apply Finset.sum_eq_zero
    intro t ht
    rw [bookedBy_user, if_neg]
    rintro rfl
    exact hu (Finset.mem_image_of_mem _ ht)
  · simp only [hsum, bookedBy_user]
    rw [Finset.sum_comm]
    apply Finset.sum_congr rfl
    intro t ht
    rw [Finset.sum_ite_eq' , if_pos (Finset.mem_image_of_mem _ ht)]

theorem BudgetOk.safe (h : BudgetOk env s) : BudgetSafe env s := by
  refine ⟨fun k => (h.caps k).stored, ?_, h.booked, h.booked.conserved⟩
  intro t hphase
  have hok := h.phases t
  rw [hphase] at hok
  exact hok

theorem BudgetOk.onlyAccepted (h : BudgetOk env s) (a : BudgetAction) :
    OnlyAccepted env s a := by
  rw [OnlyAccepted]
  rcases a with ⟨t, req⟩ | t | t | t <;> rw [budgetAct]
  case start =>
    left
    intro k
    split
    · rw [BudgetTable.begin]
      split_ifs
      · rfl
      · split <;> rfl
    · rfl
  case upsert =>
    left
    intro k
    split
    · rename_i key left _
      rw [BudgetTable.upsert]
      split
      · exact Row.rollback_stored
      · split_ifs
        · exact Row.rollback_stored
        · split
          · exact Row.rollback_stored
          · by_cases hk : k = key
            · subst hk
              simp only [Function.update_self, Row.put_stored]
            · simp only [Function.update_of_ne hk]
        · rfl
    · rfl
  case commit =>
    split
    · rename_i req use _ hphase
      exact .inr ⟨t, req, use, Function.update_self .., stored_commit h hphase⟩
    · exact .inl fun _ => rfl
  case fail =>
    left
    intro k
    split
    · exact Row.rollback_stored
    · rfl

end

/-- In every run no row exceeds its caps, only accepted reservations change the rows, and
the global row of every day is the sum of the rows of its users. -/
theorem ai_budget_conserved (env : BudgetEnv) (actions : List BudgetAction) :
    BudgetSafe env (run (budgetAct env) .start actions) ∧
      Throughout (budgetAct env) (OnlyAccepted env) .start actions := by
  refine ⟨?_, ?_⟩
  · apply BudgetOk.safe
    exact invariant_run_of_step (BudgetOk env) (fun _ a h => h.act a) (budgetOk_start env)
  · exact throughout_of_step (BudgetOk env) (fun _ a h => h.act a)
      (fun _ a h => h.onlyAccepted a) (budgetOk_start env)

end PromptCode
