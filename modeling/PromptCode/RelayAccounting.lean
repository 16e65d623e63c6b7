import PromptCode.SandboxRelay

/-!
# The account of the relay

The totals follow the records in every run.  A response that was charged for is recorded
once, unless its thread stops at a body that it cannot read.
-/

namespace PromptCode

open Py Transition

/-! ## Bodies that can be recorded -/

/-- Empty, or a dictionary. -/
def IsDictOrEmpty (v : Json) : Prop := v.truthy = true → ∃ fields, v = .obj fields

/-- Empty, or a number. -/
def IsCount (conv : TextConversions) (v : Json) : Prop :=
  v.truthy = true → ∃ n, v.toInt conv = .ok n

/-- Empty, or a number that is not beyond the floats. -/
def IsPriced (conv : TextConversions) (v : Json) : Prop :=
  v.truthy = true → ∃ n x, v.toInt conv = .ok n ∧ PyFloat.ofInt n = some x

def HasChoice (fields : List (Str × Json)) : Prop :=
  ∃ choice more, Json.getField fields (lit "choices") = .arr (choice :: more) ∧
    (choice.truthy = true → ∃ c, choice = .obj c ∧
      IsDictOrEmpty (Json.getField c (lit "message")))

def HasUsage (conv : TextConversions) (fields : List (Str × Json)) : Prop :=
  let usage := Json.getField fields (lit "usage")
  usage.truthy = true → ∃ u, usage = .obj u ∧
    IsPriced conv (Json.getField u (lit "prompt_tokens")) ∧
    IsPriced conv (Json.getField u (lit "completion_tokens")) ∧
    IsCount conv (Json.getField u (lit "total_tokens"))

/-- A body with a choice and with a usage that can be priced. -/
def Accountable (conv : TextConversions) (data : Json) : Prop :=
  ∃ fields, data = .obj fields ∧ HasChoice fields ∧ HasUsage conv fields

section

variable {conv : TextConversions} {v : Json}

theorem orDict_of_not_truthy (h : v.truthy = false) : v.orDict = .ok [] := by
  rw [Json.orDict, if_neg (by simp [h])]

theorem orDict_ok_iff {d : List (Str × Json)} (h : v.truthy = true) :
    v.orDict = .ok d ↔ v = .obj d := by
  rw [Json.orDict, if_pos h]
  constructor
  · intro hv
    rcases v
    case obj fields => exact congrArg Json.obj (Except.ok.inj hv)
    all_goals exact nomatch hv
  · rintro rfl
    rfl

theorem isDictOrEmpty_iff : IsDictOrEmpty v ↔ ∃ d, v.orDict = .ok d := by
  by_cases h : v.truthy = true
  · exact ⟨fun hv => (hv h).imp fun d hd => (orDict_ok_iff h).mpr hd,
      fun ⟨d, hd⟩ _ => ⟨d, (orDict_ok_iff h).mp hd⟩⟩
  · exact ⟨fun _ => ⟨[], orDict_of_not_truthy (Bool.not_eq_true _ ▸ h)⟩,
      fun _ ht => absurd ht h⟩

theorem orInt_of_truthy {n : ℤ} (h : v.truthy = true) : v.orInt conv n = v.toInt conv :=
  if_pos h

theorem orInt_of_not_truthy {n : ℤ} (h : v.truthy = false) : v.orInt conv n = .ok n := by
  rw [Json.orInt, h]
  rfl

theorem isCount_iff {n : ℤ} : IsCount conv v ↔ ∃ m, v.orInt conv n = .ok m := by
  rcases h : v.truthy
  · exact ⟨fun _ => ⟨n, orInt_of_not_truthy h⟩, fun _ ht => nomatch h.symm.trans ht⟩
  · rw [orInt_of_truthy h]
    exact ⟨fun hv => hv h, fun hv _ => hv⟩

theorem ofInt_zero : PyFloat.ofInt 0 = some .zero := by decide +kernel

theorem isPriced_iff : IsPriced conv v ↔
    ∃ n x, v.orInt conv 0 = .ok n ∧ PyFloat.ofInt n = some x := by
  rcases h : v.truthy
  · exact ⟨fun _ => ⟨0, .zero, orInt_of_not_truthy h, ofInt_zero⟩,
      fun _ ht => nomatch h.symm.trans ht⟩
  · rw [orInt_of_truthy h]
    exact ⟨fun hv => hv h, fun hv _ => hv⟩

theorem hasContent_iff {choice : Json} : (∃ text, readContent conv choice = .ok text) ↔
    (choice.truthy = true → ∃ c, choice = .obj c ∧
      IsDictOrEmpty (Json.getField c (lit "message"))) := by
  rw [readContent]
  rcases h : choice.truthy
  · rw [orDict_of_not_truthy h]
    exact ⟨fun _ ht => (nomatch ht), fun _ => ⟨_, rfl⟩⟩
  rcases hdict : choice.orDict with e | c
  · refine ⟨fun ⟨_, htext⟩ => (nomatch htext), fun hchoice => ?_⟩
    obtain ⟨c, hc, -⟩ := hchoice rfl
    exact nomatch hdict.symm.trans ((orDict_ok_iff h).mpr hc)
  have hobj := (orDict_ok_iff h).mp hdict
  dsimp only
  rcases hmessage : (Json.getField c (lit "message")).orDict with e | d
  · refine ⟨fun ⟨_, htext⟩ => (nomatch htext), fun hchoice => ?_⟩
    obtain ⟨c', hc', hdict'⟩ := hchoice rfl
    obtain rfl := Json.obj.inj (hobj.symm.trans hc')
    obtain ⟨d, hd⟩ := isDictOrEmpty_iff.mp hdict'
    exact nomatch hmessage.symm.trans hd
  · exact ⟨fun _ _ => ⟨c, hobj, isDictOrEmpty_iff.mpr ⟨d, hmessage⟩⟩, fun _ => ⟨_, rfl⟩⟩

theorem readTokens_ok_iff {usage : List (Str × Json)} {p c n : ℤ} :
    readTokens conv usage = .ok (p, c, n) ↔
      (Json.getField usage (lit "prompt_tokens")).orInt conv 0 = .ok p ∧
      (Json.getField usage (lit "completion_tokens")).orInt conv 0 = .ok c ∧
      (Json.getField usage (lit "total_tokens")).orInt conv (p + c) = .ok n := by
  rw [readTokens]
  rcases (Json.getField usage (lit "prompt_tokens")).orInt conv 0 with e | p'
  · simp
  dsimp only
  rcases (Json.getField usage (lit "completion_tokens")).orInt conv 0 with e | c'
  · simp
  dsimp only
  rcases htotal : (Json.getField usage (lit "total_tokens")).orInt conv (p' + c') with e | n'
  · simp only [reduceCtorEq, false_iff]
    rintro ⟨hp, hc, hn⟩
    rw [← Except.ok.inj hp, ← Except.ok.inj hc, htotal] at hn
    exact nomatch hn
  · constructor
    · intro h
      simp only [Except.ok.injEq, Prod.mk.injEq] at h
      obtain ⟨rfl, rfl, rfl⟩ := h
      exact ⟨rfl, rfl, htotal⟩
    · rintro ⟨hp, hc, hn⟩
      obtain rfl := Except.ok.inj hp
      obtain rfl := Except.ok.inj hc
      rw [htotal] at hn
      rw [Except.ok.inj hn]

theorem priceAt_ok_iff {rates : PyFloat × PyFloat} {p c : Option PyFloat} :
    (∃ cost, priceAt rates p c = .ok cost) ↔ (∃ x, p = some x) ∧ ∃ y, c = some y := by
  rcases p with _ | x
  · simp [priceAt]
  rcases c with _ | y
  · simp [priceAt]
  · simp [priceAt]

theorem estimateCost_ok_iff {model : Str} {p c : ℤ} :
    (∃ cost, estimateCost model p c = .ok cost) ↔
      (∃ x, PyFloat.ofInt p = some x) ∧ ∃ y, PyFloat.ofInt c = some y := by
  unfold estimateCost
  exact priceAt_ok_iff

theorem hasUsage_iff (conv : TextConversions) (fields : List (Str × Json)) :
    HasUsage conv fields ↔ ∃ u, (Json.getField fields (lit "usage")).orDict = .ok u ∧
      ∃ p c n, readTokens conv u = .ok (p, c, n) ∧
        (∃ x, PyFloat.ofInt p = some x) ∧ ∃ y, PyFloat.ofInt c = some y := by
  have hcounts : ∀ u : List (Str × Json), (∃ p c n, readTokens conv u = .ok (p, c, n) ∧
      (∃ x, PyFloat.ofInt p = some x) ∧ ∃ y, PyFloat.ofInt c = some y) ↔
      IsPriced conv (Json.getField u (lit "prompt_tokens")) ∧
      IsPriced conv (Json.getField u (lit "completion_tokens")) ∧
      IsCount conv (Json.getField u (lit "total_tokens")) := by
    intro u
    rw [isPriced_iff, isPriced_iff]
    constructor
    · rintro ⟨p, c, n, htokens, ⟨x, hx⟩, y, hy⟩
      obtain ⟨hp, hc, hn⟩ := readTokens_ok_iff.mp htokens
      exact ⟨⟨p, x, hp, hx⟩, ⟨c, y, hc, hy⟩, isCount_iff.mpr ⟨n, hn⟩⟩
    · rintro ⟨⟨p, x, hp, hx⟩, ⟨c, y, hc, hy⟩, hcount⟩
      obtain ⟨n, hn⟩ := (isCount_iff (n := p + c)).mp hcount
      exact ⟨p, c, n, readTokens_ok_iff.mpr ⟨hp, hc, hn⟩, ⟨x, hx⟩, y, hy⟩
  rw [HasUsage]
  rcases h : (Json.getField fields (lit "usage")).truthy
  · refine ⟨fun _ => ⟨[], orDict_of_not_truthy h, (hcounts []).mpr ?_⟩,
      fun _ ht => (nomatch ht)⟩
    exact ⟨fun ht => (nomatch ht), fun ht => (nomatch ht), fun ht => (nomatch ht)⟩
  · constructor
    · intro husage
      obtain ⟨u, hu, hall⟩ := husage rfl
      exact ⟨u, (orDict_ok_iff h).mpr hu, (hcounts u).mpr hall⟩
    · rintro ⟨u, hu, hall⟩ -
      exact ⟨u, (orDict_ok_iff h).mp hu, (hcounts u).mp hall⟩

theorem map_ok_iff {ε α β : Type} {x : Except ε α} {f : α → β} {b : β} :
    x.map f = .ok b ↔ ∃ a, x = .ok a ∧ f a = b := by
  rcases x with e | a
  · exact ⟨fun h => (nomatch h), fun ⟨_, h, _⟩ => (nomatch h)⟩
  · constructor
    · exact fun h => ⟨a, rfl, Except.ok.inj h⟩
    · rintro ⟨a', ha, rfl⟩
      obtain rfl := Except.ok.inj ha
      rfl

theorem recordUsage_ok_iff {t : ℕ} {call : RelayCall} {latency : PyFloat}
    {usage : UpstreamUsage} : (∃ out, recordUsage t call latency usage = .ok out) ↔
      (∃ x, PyFloat.ofInt usage.promptTokens = some x) ∧
        ∃ y, PyFloat.ofInt usage.completionTokens = some y := by
  rw [← estimateCost_ok_iff]
  constructor
  · rintro ⟨out, hout⟩
    obtain ⟨cost, hcost, -⟩ := map_ok_iff.mp hout
    exact ⟨cost, hcost⟩
  · rintro ⟨cost, hcost⟩
    exact ⟨_, map_ok_iff.mpr ⟨cost, hcost, rfl⟩⟩

/-- The record of a body is made exactly when the body can be accounted for. -/
theorem recordOf_ok_iff {relay : SandboxLLMRelay} {t : ℕ} {call : RelayCall} {m : Str}
    {data : Json} {latency : PyFloat} :
    (∃ out, recordOf relay t call m data latency = .ok out) ↔
      Accountable relay.conv data := by
  have hfails : ∀ {P : Prop}, ¬ P → ∀ e : CallError,
      (∃ out : CallRecord × PyFloat, Except.error e = .ok out) ↔ P :=
    fun hP e => ⟨fun ⟨_, h⟩ => (nomatch h), fun h => absurd h hP⟩
  rcases data
  case obj fields =>
    simp only [recordOf, parseUpstreamPayload]
    rcases hchoices : Json.getField fields (lit "choices")
    case arr choices =>
      rcases choices with _ | ⟨choice, more⟩
      · refine hfails ?_ _
        rintro ⟨fields', hfields, ⟨choice, more, hchoice, -⟩, -⟩
        obtain rfl := Json.obj.inj hfields
        exact nomatch hchoices.symm.trans hchoice
      dsimp only
      rcases hcontent : readContent relay.conv choice with e | content
      · refine hfails ?_ _
        rintro ⟨fields', hfields, ⟨choice', more', hchoice, hreads⟩, -⟩
        obtain rfl := Json.obj.inj hfields
        obtain ⟨rfl, rfl⟩ := List.cons.inj (Json.arr.inj (hchoices.symm.trans hchoice))
        obtain ⟨text, htext⟩ := hasContent_iff.mpr hreads
        exact nomatch hcontent.symm.trans htext
      have hchoice : HasChoice fields :=
        ⟨choice, more, hchoices, hasContent_iff.mp ⟨content, hcontent⟩⟩
      have husage_iff : Accountable relay.conv (.obj fields) ↔
          HasUsage relay.conv fields := by
        constructor
        · rintro ⟨fields', hfields, -, husage⟩
          exact Json.obj.inj hfields ▸ husage
        · exact fun husage => ⟨fields, rfl, hchoice, husage⟩
      rw [husage_iff, hasUsage_iff relay.conv fields]
      dsimp only
      rcases (Json.getField fields (lit "usage")).orDict with e | usage
      · simp
      dsimp only
      rcases htokens : readTokens relay.conv usage with e | ⟨p, c, n⟩
      · refine hfails ?_ _
        rintro ⟨usage', husage, p, c, n, htokens', -⟩
        obtain rfl := Except.ok.inj husage
        exact nomatch htokens.symm.trans htokens'
      dsimp only
      rw [recordUsage_ok_iff]
      constructor
      · exact fun hpriced => ⟨usage, rfl, p, c, n, htokens, hpriced⟩
      · rintro ⟨usage', husage, p', c', n', htokens', hpriced⟩
        obtain rfl := Except.ok.inj husage
        rw [htokens, Except.ok.injEq, Prod.mk.injEq, Prod.mk.injEq] at htokens'
        obtain ⟨rfl, rfl, rfl⟩ := htokens'
        exact hpriced
    all_goals
      dsimp only
      refine hfails ?_ _
      rintro ⟨fields', hfields, ⟨choice, more, hchoice, -⟩, -⟩
      obtain rfl := Json.obj.inj hfields
      exact nomatch hchoices.symm.trans hchoice
  all_goals
    simp only [recordOf, parseUpstreamPayload]
    refine hfails ?_ _
    rintro ⟨fields, hfields, -⟩
    exact nomatch hfields

theorem recordOf_ok {relay : SandboxLLMRelay} {t : ℕ} {call : RelayCall} {m : Str}
    {data : Json} {latency cost : PyFloat} {record : CallRecord}
    (h : recordOf relay t call m data latency = .ok (record, cost)) : record.callId = t ∧
      estimateCost record.model record.tokensPrompt record.tokensCompletion = .ok cost := by
  rw [recordOf] at h
  rcases hparse : parseUpstreamPayload relay.conv data m with e | usage
  · rw [hparse] at h
    exact nomatch h
  · rw [hparse] at h
    obtain ⟨cost', hcost, hrecord⟩ := map_ok_iff.mp h
    obtain ⟨rfl, rfl⟩ := Prod.mk.inj hrecord
    exact ⟨rfl, hcost⟩

end

/-! ## The account -/

namespace RelayPhase

/-- The call has passed the budget check. -/
def Admitted : RelayPhase → Prop
  | .idle | .refused _ => False
  | _ => True

/-- The provider has not answered with something to pay. -/
def Unbilled : RelayPhase → Prop
  | .idle | .refused _ | .sending _ _ => True
  | _ => False

def Unrecorded : RelayPhase → Prop
  | .received _ _ _ _ => True
  | phase => phase.Unbilled

end RelayPhase

/-- The cost of a list of records, added up in their order. -/
inductive Spent : List CallRecord → PyFloat → Prop where
  | nil : Spent [] .zero
  | append {records : List CallRecord} {total cost : PyFloat} {r : CallRecord}
      (h : Spent records total)
      (hcost : estimateCost r.model r.tokensPrompt r.tokensCompletion = .ok cost) :
      Spent (records ++ [r]) (total.add cost)

/-- The call that a thread makes with the response is on its way to the records. -/
def InFlight (relay : SandboxLLMRelay) (st : RelayState) (b : BilledResponse) : Prop :=
  ∃ call data, b.request = relay.upstreamRequest call b.request.model ∧
    b.body = some data ∧
    st.threads b.thread =
      .received call b.request.model data (PyFloat.zero.add b.latencyMs)

/-- The record says what the response does. -/
def IsRecordOf (relay : SandboxLLMRelay) (b : BilledResponse) (r : CallRecord) : Prop :=
  ∃ call data cost, b.request = relay.upstreamRequest call b.request.model ∧
    b.body = some data ∧
    recordOf relay b.thread call b.request.model data (PyFloat.zero.add b.latencyMs) =
      .ok (r, cost)

/-- The bounds and totals of the relay. -/
structure RelayTotals (relay : SandboxLLMRelay) (st : RelayState) : Prop where
  calls : ∀ ts : List ℕ, ts.Nodup → (∀ t ∈ ts, (st.threads t).Admitted) →
    ts.length ≤ relay.budget.maxCalls
  tokens : st.totalTokens = (st.records.map CallRecord.tokensTotal).sum
  cost : Spent st.records st.totalCostUsd

/-- Every response that was paid has one record, or is on its way to it. -/
structure RelayRecorded (relay : SandboxLLMRelay) (st : RelayState) : Prop where
  once : (st.bill.map BilledResponse.thread).Nodup
  recorded : ∀ b ∈ st.bill, InFlight relay st b ∨
    ∃ r, st.records.filter (fun r => r.callId = b.thread) = [r] ∧ IsRecordOf relay b r
  paid : ∀ r ∈ st.records, ∃ b ∈ st.bill, b.thread = r.callId

/-- A response of status 200 has a JSON body, and a body that is read can be accounted
for. -/
def Recordable (relay : SandboxLLMRelay) (st : RelayState) : RelayAction → Prop
  | .send t (.response statusCode body _) => statusCode = 200 →
      (∃ call candidate rest, st.threads t = .sending call (candidate :: rest)) → body ≠ none
  | .record t => ∀ call m data latency, st.threads t = .received call m data latency →
      Accountable relay.conv data
  | _ => True

/-- What holds in every run. -/
structure RelayOk (relay : SandboxLLMRelay) (st : RelayState) : Prop where
  started : ∃ ts : List ℕ, ts.Nodup ∧ (∀ t, (st.threads t).Admitted ↔ t ∈ ts) ∧
    ts.length = st.callsStarted
  bounded : st.callsStarted ≤ relay.budget.maxCalls
  tokens : st.totalTokens = (st.records.map CallRecord.tokensTotal).sum
  cost : Spent st.records st.totalCostUsd
  once : (st.bill.map BilledResponse.thread).Nodup
  paid : ∀ r ∈ st.records, ∃ b ∈ st.bill, b.thread = r.callId
  unbilled : ∀ b ∈ st.bill, ¬ (st.threads b.thread).Unbilled
  unrecorded : ∀ r ∈ st.records, ¬ (st.threads r.callId).Unrecorded
  received : ∀ t call m data latency, st.threads t = .received call m data latency →
    ∃ b ∈ st.bill, b.thread = t ∧ b.request = relay.upstreamRequest call m ∧
      b.body = some data ∧ latency = PyFloat.zero.add b.latencyMs

section

variable {relay : SandboxLLMRelay} {st : RelayState} {t : ℕ} {phase : RelayPhase}

@[simp] theorem RelayState.setPhase_self :
    (st.setPhase t phase).threads t = phase := Function.update_self ..

theorem RelayState.setPhase_of_ne {u : ℕ} (h : u ≠ t) :
    (st.setPhase t phase).threads u = st.threads u := Function.update_of_ne h ..

/-- The thread moves without a new call, charge or record. -/
theorem RelayOk.setPhase (h : RelayOk relay st)
    (hadmitted : phase.Admitted ↔ (st.threads t).Admitted)
    (hunbilled : phase.Unbilled → (st.threads t).Unbilled)
    (hunrecorded : phase.Unrecorded → (st.threads t).Unrecorded)
    (hreceived : ∀ call m data latency, phase ≠ .received call m data latency) :
    RelayOk relay (st.setPhase t phase) := by
  obtain ⟨ts, hnodup, hts, hlength⟩ := h.started
  refine ⟨⟨ts, hnodup, fun u => ?_, hlength⟩, h.bounded, h.tokens, h.cost, h.once, h.paid,
    fun b hb => ?_, fun r hr => ?_, fun u call m data latency hu => ?_⟩
  · by_cases hut : u = t
    · rw [hut, RelayState.setPhase_self, hadmitted, hts]
    · rw [RelayState.setPhase_of_ne hut, hts]
  · by_cases hbt : b.thread = t
    · rw [hbt, RelayState.setPhase_self]
      exact fun hphase => h.unbilled b hb (hbt ▸ hunbilled hphase)
    · rw [RelayState.setPhase_of_ne hbt]
      exact h.unbilled b hb
  · by_cases hrt : r.callId = t
    · rw [hrt, RelayState.setPhase_self]
      exact fun hphase => h.unrecorded r hr (hrt ▸ hunrecorded hphase)
    · rw [RelayState.setPhase_of_ne hrt]
      exact h.unrecorded r hr
  · by_cases hut : u = t
    · rw [hut, RelayState.setPhase_self] at hu
      exact absurd hu (hreceived call m data latency)
    · rw [RelayState.setPhase_of_ne hut] at hu
      exact h.received u call m data latency hu

/-- A call is admitted below the bound. -/
theorem RelayOk.start_call (h : RelayOk relay st) (hidle : st.threads t = .idle)
    (hcalls : st.callsStarted < relay.budget.maxCalls) (call : RelayCall) (rest : List Str) :
    RelayOk relay ({ st with callsStarted := st.callsStarted + 1 }.setPhase t
      (.sending call rest)) := by
  obtain ⟨ts, hnodup, hts, hlength⟩ := h.started
  have hnew : t ∉ ts := fun ht => by
    have hadmitted := (hts t).mpr ht
    rw [hidle] at hadmitted
    exact hadmitted
  refine ⟨⟨t :: ts, List.nodup_cons.mpr ⟨hnew, hnodup⟩, fun u => ?_, by
      rw [List.length_cons, hlength]; rfl⟩, hcalls, h.tokens, h.cost, h.once, h.paid,
    fun b hb => ?_, fun r hr => ?_, fun u call m data latency hu => ?_⟩
  · by_cases hut : u = t
    · rw [hut, RelayState.setPhase_self]
      exact ⟨fun _ => List.mem_cons_self, fun _ => trivial⟩
    · rw [RelayState.setPhase_of_ne hut, List.mem_cons, or_iff_right hut]
      exact hts u
  · have hbt : b.thread ≠ t := fun hbt => h.unbilled b hb (by rw [hbt, hidle]; trivial)
    rw [RelayState.setPhase_of_ne hbt]
    exact h.unbilled b hb
  · have hrt : r.callId ≠ t := fun hrt => h.unrecorded r hr (by rw [hrt, hidle]; trivial)
    rw [RelayState.setPhase_of_ne hrt]
    exact h.unrecorded r hr
  · by_cases hut : u = t
    · rw [hut, RelayState.setPhase_self] at hu
      exact nomatch hu
    · rw [RelayState.setPhase_of_ne hut] at hu
      exact h.received u call m data latency hu

/-- A response of status 200 is charged, and the thread has it or stops. -/
theorem RelayOk.charge (h : RelayOk relay st) {call : RelayCall} {rest : List Str}
    (hsending : st.threads t = .sending call rest) {b : BilledResponse} (hb : b.thread = t)
    (hphase : (∃ data, phase = .received call b.request.model data
        (PyFloat.zero.add b.latencyMs) ∧ b.body = some data ∧
        b.request = relay.upstreamRequest call b.request.model) ∨
      ∃ e, phase = .ended (.error e)) :
    RelayOk relay ({ st with bill := st.bill ++ [b] }.setPhase t phase) := by
  obtain ⟨ts, hnodup, hts, hlength⟩ := h.started
  have hadmitted : phase.Admitted := by
    rcases hphase with ⟨data, rfl, -⟩ | ⟨e, rfl⟩ <;> trivial
  have hbilled : ¬ phase.Unbilled := by
    rcases hphase with ⟨data, rfl, -⟩ | ⟨e, rfl⟩ <;> exact id
  have hnew : ∀ b' ∈ st.bill, b'.thread ≠ t := fun b' hb' hbt =>
    h.unbilled b' hb' (by rw [hbt, hsending]; trivial)
  refine ⟨⟨ts, hnodup, fun u => ?_, hlength⟩, h.bounded, h.tokens, h.cost, ?_,
    fun r hr => ?_, fun b' hb' => ?_, fun r hr => ?_, fun u call' m data latency hu => ?_⟩
  · by_cases hut : u = t
    · rw [hut, RelayState.setPhase_self, ← hts, hsending]
      exact ⟨fun _ => trivial, fun _ => hadmitted⟩
    · rw [RelayState.setPhase_of_ne hut]
      exact hts u
  · change ((st.bill ++ [b]).map BilledResponse.thread).Nodup
    rw [List.map_append, List.map_singleton]
    refine h.once.append (List.nodup_singleton _) (List.disjoint_singleton.mpr fun ht => ?_)
    obtain ⟨b', hb', hbt⟩ := List.mem_map.mp ht
    exact hnew b' hb' (hbt.trans hb)
  · obtain ⟨b', hb', hbr⟩ := h.paid r hr
    exact ⟨b', List.mem_append_left _ hb', hbr⟩
  · rcases List.mem_append.mp hb' with hb' | hb'
    · rw [RelayState.setPhase_of_ne (hnew b' hb')]
      exact h.unbilled b' hb'
    · obtain rfl := List.mem_singleton.mp hb'
      rw [hb, RelayState.setPhase_self]
      exact hbilled
  · have hrt : r.callId ≠ t := fun hrt =>
      h.unrecorded r hr (by rw [hrt, hsending]; trivial)
    rw [RelayState.setPhase_of_ne hrt]
    exact h.unrecorded r hr
  · by_cases hut : u = t
    · rw [hut, RelayState.setPhase_self] at hu
      rcases hphase with ⟨data', rfl, hbody, hrequest⟩ | ⟨e, rfl⟩
      · simp only [RelayPhase.received.injEq] at hu
        obtain ⟨rfl, rfl, rfl, rfl⟩ := hu
        exact ⟨b, by simp [RelayState.setPhase], hb.trans hut.symm, hrequest, hbody, rfl⟩
      · exact nomatch hu
    · rw [RelayState.setPhase_of_ne hut] at hu
      obtain ⟨b', hb', hrest⟩ := h.received u call' m data latency hu
      exact ⟨b', List.mem_append_left _ hb', hrest⟩

/-- A received response is recorded and counted. -/
theorem RelayOk.append (h : RelayOk relay st) {call : RelayCall} {m : Str} {data : Json}
    {latency : PyFloat} (hreceived : st.threads t = .received call m data latency)
    {record : CallRecord} {cost : PyFloat}
    (hrecord : recordOf relay t call m data latency = .ok (record, cost))
    (used remaining : ℕ) :
    RelayOk relay ((st.append record cost).setPhase t (.recorded record used remaining)) := by
  obtain ⟨ts, hnodup, hts, hlength⟩ := h.started
  obtain ⟨hid, hcost⟩ := recordOf_ok hrecord
  refine ⟨⟨ts, hnodup, fun u => ?_, hlength⟩, h.bounded, ?_, h.cost.append hcost, h.once,
    fun r hr => ?_, fun b hb => ?_, fun r hr => ?_, fun u call' m' data' latency' hu => ?_⟩
  · by_cases hut : u = t
    · rw [hut, RelayState.setPhase_self, ← hts, hreceived]
      exact ⟨fun _ => trivial, fun _ => trivial⟩
    · rw [RelayState.setPhase_of_ne hut]
      exact hts u
  · change st.totalTokens + record.tokensTotal =
      ((st.records ++ [record]).map CallRecord.tokensTotal).sum
    rw [List.map_append, List.sum_append, h.tokens, List.map_singleton, List.sum_singleton]
  · rcases List.mem_append.mp hr with hr | hr
    · exact h.paid r hr
    · obtain rfl := List.mem_singleton.mp hr
      obtain ⟨b, hb, hbt, -⟩ := h.received t call m data latency hreceived
      exact ⟨b, hb, hbt.trans hid.symm⟩
  · by_cases hbt : b.thread = t
    · rw [hbt, RelayState.setPhase_self]
      exact id
    · rw [RelayState.setPhase_of_ne hbt]
      exact h.unbilled b hb
  · by_cases hrt : r.callId = t
    · rw [hrt, RelayState.setPhase_self]
      exact id
    · rw [RelayState.setPhase_of_ne hrt]
      rcases List.mem_append.mp hr with hr | hr
      · exact h.unrecorded r hr
      · obtain rfl := List.mem_singleton.mp hr
        exact absurd hid hrt
  · by_cases hut : u = t
    · rw [hut, RelayState.setPhase_self] at hu
      exact nomatch hu
    · rw [RelayState.setPhase_of_ne hut] at hu
      exact h.received u call' m' data' latency' hu

end

/-! ## The steps -/

section

variable {relay : SandboxLLMRelay} {st : RelayState} {a : RelayAction}

theorem checkBudget_ok {budget : SandboxLLMBudget}
    (h : st.checkBudget budget = .ok ()) : st.callsStarted < budget.maxCalls := by
  rw [RelayState.checkBudget] at h
  split_ifs at h with hcalls
  exact not_le.mp hcalls

/-- After a failed attempt the thread has nothing to record. -/
theorem afterAttempt_of_error {call : RelayCall} {candidate : Str} {rest : List Str}
    {upstream : Upstream} {e : CallError} (h : sendUpstreamRequest upstream = .error e) :
    afterAttempt relay call candidate rest upstream = .sending call rest ∨
      ∃ e', afterAttempt relay call candidate rest upstream = .ended (.error e') := by
  rw [afterAttempt, h]
  rcases e with ⟨statusCode, detail⟩ | e | _
  · dsimp only
    split_ifs
    · exact .inr ⟨_, rfl⟩
    · exact .inl rfl
    · exact .inr ⟨_, rfl⟩
    · exact .inr ⟨_, rfl⟩
  · exact .inr ⟨_, rfl⟩
  · exact .inr ⟨_, rfl⟩

/-- An attempt is answered with status 200, or leaves nothing to pay. -/
theorem sendUpstreamRequest_cases (upstream : Upstream) :
    (∃ body latency, upstream = .response 200 body latency) ∨
      (∃ e, sendUpstreamRequest upstream = .error e) ∧
        ∀ (st : RelayState) t request, st.charge t request upstream = st := by
  rcases upstream with ⟨statusCode, detail⟩ | _ | ⟨statusCode, body, latency⟩
  · exact .inr ⟨⟨_, rfl⟩, fun _ _ _ => rfl⟩
  · exact .inr ⟨⟨_, rfl⟩, fun _ _ _ => rfl⟩
  · by_cases h : statusCode = 200
    · exact .inl ⟨body, latency, by rw [h]⟩
    · refine .inr ⟨?_, fun st t request => if_neg h⟩
      by_cases hkey : statusCode = 401
      · exact ⟨_, if_pos hkey⟩
      · exact ⟨_, (if_neg hkey).trans (if_pos h)⟩

/-- What one action does. -/
inductive RelayStep (relay : SandboxLLMRelay) (st : RelayState) :
    RelayAction → RelayState → Prop where
  | stay {a : RelayAction} : (∀ t body latency, a = .send t (.response 200 body latency) →
        ∀ call candidate rest, st.threads t ≠ .sending call (candidate :: rest)) →
      (∀ t, a = .record t → ∀ call m data latency,
        st.threads t ≠ .received call m data latency) → RelayStep relay st a st
  | refuse {t : ℕ} {payload : List (Str × Json)} (e : CallError)
      (hidle : st.threads t = .idle) :
      RelayStep relay st (.request t payload) (st.setPhase t (.refused e))
  | start {t : ℕ} {payload : List (Str × Json)} (call : RelayCall)
      (hidle : st.threads t = .idle) (hcalls : st.callsStarted < relay.budget.maxCalls) :
      RelayStep relay st (.request t payload)
        ({ st with callsStarted := st.callsStarted + 1 }.setPhase t
          (.sending call (relay.candidates call)))
  | fail {t : ℕ} {upstream : Upstream} (call : RelayCall) (rest : List Str)
      (phase : RelayPhase) (hsending : st.threads t = .sending call rest)
      (hpaid : ∀ candidate rest' body latency, rest = candidate :: rest' →
        upstream ≠ .response 200 body latency)
      (hphase : (∃ rest', phase = .sending call rest') ∨ ∃ e, phase = .ended (.error e)) :
      RelayStep relay st (.send t upstream) (st.setPhase t phase)
  | receive {t : ℕ} (call : RelayCall) (candidate : Str) (rest : List Str) (data : Json)
      (latency : PyFloat) (hsending : st.threads t = .sending call (candidate :: rest)) :
      RelayStep relay st (.send t (.response 200 (some data) latency))
        ({ st with bill := st.bill ++ [BilledResponse.mk t (relay.upstreamRequest call candidate)
          (some data) latency] }.setPhase t
            (.received call candidate data (PyFloat.zero.add latency)))
  | garble {t : ℕ} (call : RelayCall) (candidate : Str) (rest : List Str)
      (latency : PyFloat) (e : CallError)
      (hsending : st.threads t = .sending call (candidate :: rest)) :
      RelayStep relay st (.send t (.response 200 none latency))
        ({ st with bill := st.bill ++ [BilledResponse.mk t (relay.upstreamRequest call candidate)
          none latency] }.setPhase t (.ended (.error e)))
  | lose {t : ℕ} (call : RelayCall) (m : Str) (data : Json) (latency : PyFloat)
      (e : CallError) (hreceived : st.threads t = .received call m data latency)
      (hrecord : recordOf relay t call m data latency = .error e) :
      RelayStep relay st (.record t) (st.setPhase t (.ended (.error e)))
  | record {t : ℕ} (call : RelayCall) (m : Str) (data : Json) (latency : PyFloat)
      (record : CallRecord) (cost : PyFloat) (used remaining : ℕ)
      (hreceived : st.threads t = .received call m data latency)
      (hrecord : recordOf relay t call m data latency = .ok (record, cost)) :
      RelayStep relay st (.record t)
        ((st.append record cost).setPhase t (.recorded record used remaining))
  | respond {t : ℕ} (record : CallRecord) (used remaining : ℕ) (response : RelayResponse)
      (hrecorded : st.threads t = .recorded record used remaining) :
      RelayStep relay st (.respond t) (st.setPhase t (.ended (.ok response)))

theorem relayStep_act (relay : SandboxLLMRelay) (st : RelayState) (a : RelayAction) :
    RelayStep relay st a (relayAct relay st a) := by
  rcases a with ⟨t, payload⟩ | ⟨t, upstream⟩ | t | t
  · rw [relayAct]
    rcases hphase : st.threads t
    case idle =>
      dsimp only
      rcases relay.readPayload payload with e | call
      · exact .refuse e hphase
      dsimp only
      rcases hbudget : st.checkBudget relay.budget with e | _
      · exact .refuse e hphase
      · exact .start call hphase (checkBudget_ok hbudget)
    all_goals exact .stay nofun nofun
  · rw [relayAct]
    rcases hphase : st.threads t
    case sending call rest =>
      rcases rest with _ | ⟨candidate, rest⟩
      · apply RelayStep.fail call [] _ hphase
        · exact nofun
        · exact .inr ⟨_, rfl⟩
      dsimp only
      rcases sendUpstreamRequest_cases upstream with
        ⟨body, latency, rfl⟩ | ⟨⟨e, he⟩, hcharge⟩
      · rcases body with _ | data
        · exact .garble call candidate rest latency _ hphase
        · exact .receive call candidate rest data latency hphase
      · rw [hcharge]
        apply RelayStep.fail call _ _ hphase
        · intro c rest' body latency _ hbody
          rw [hbody] at hcharge
          have hbill := congrArg RelayState.bill
            (hcharge .start 0 (relay.upstreamRequest call candidate))
          exact nomatch hbill
        · exact (afterAttempt_of_error he).imp (fun h => ⟨_, h⟩) id
    all_goals
      refine .stay (fun u body latency hu call candidate rest => ?_) nofun
      simp only [RelayAction.send.injEq] at hu
      rw [← hu.1, hphase]
      exact nofun
  · rw [relayAct]
    rcases hphase : st.threads t
    case received call m data latency =>
      dsimp only
      rcases hrecord : recordOf relay t call m data latency with e | ⟨record, cost⟩
      · exact .lose call m data latency e hphase hrecord
      · exact .record call m data latency record cost _ _ hphase hrecord
    all_goals
      refine .stay nofun fun u hu call m data latency => ?_
      rw [← RelayAction.record.inj hu, hphase]
      exact nofun
  · rw [relayAct]
    rcases hphase : st.threads t
    case recorded record used remaining =>
      exact .respond record used remaining _ hphase
    all_goals exact .stay nofun nofun

theorem RelayOk.act (h : RelayOk relay st) : RelayOk relay (relayAct relay st a) := by
  have hstep := relayStep_act relay st a
  generalize relayAct relay st a = st' at hstep ⊢
  rcases hstep with
    ⟨-, -⟩ | ⟨e, hidle⟩ | ⟨call, hidle, hcalls⟩ |
    ⟨call, rest, phase, hsending, -, hphase⟩ | ⟨call, candidate, rest, data, latency, hsending⟩ |
    ⟨call, candidate, rest, latency, e, hsending⟩ | ⟨call, m, data, latency, e, hreceived, -⟩ |
    ⟨call, m, data, latency, record, cost, used, remaining, hreceived, hrecord⟩ |
    ⟨record, used, remaining, response, hrecorded⟩
  case stay => exact h
  case refuse =>
    refine h.setPhase ?_ ?_ ?_ nofun <;> rw [hidle]
    · exact Iff.rfl
    · exact id
    · exact id
  case start => exact h.start_call hidle hcalls call _
  case fail =>
    rcases hphase with ⟨rest', rfl⟩ | ⟨e, rfl⟩
    · refine h.setPhase ?_ ?_ ?_ nofun <;> rw [hsending]
      · exact Iff.rfl
      · exact id
      · exact id
    · exact h.setPhase (by rw [hsending]; exact Iff.rfl) nofun nofun nofun
  case receive => exact h.charge hsending rfl (.inl ⟨data, rfl, rfl, rfl⟩)
  case garble => exact h.charge hsending rfl (.inr ⟨e, rfl⟩)
  case lose => exact h.setPhase (by rw [hreceived]; exact Iff.rfl) nofun nofun nofun
  case record => exact h.append hreceived hrecord used remaining
  case respond => exact h.setPhase (by rw [hrecorded]; exact Iff.rfl) nofun nofun nofun

theorem RelayOk.totals (h : RelayOk relay st) : RelayTotals relay st := by
  refine ⟨fun ts hnodup hadmitted => ?_, h.tokens, h.cost⟩
  obtain ⟨all, -, hall, hlength⟩ := h.started
  have hsub : ts ⊆ all := fun t ht => (hall t).mp (hadmitted t ht)
  exact ((List.subperm_of_subset hnodup hsub).length_le.trans hlength.le).trans h.bounded

/-- A response whose thread has stopped without a record is lost. -/
theorem not_relayRecorded {t : ℕ} {e : CallError}
    (hended : st.threads t = .ended (.error e)) {b : BilledResponse} (hb : b ∈ st.bill)
    (hbt : b.thread = t) (hnone : ∀ r ∈ st.records, r.callId ≠ t) :
    ¬ RelayRecorded relay st := by
  intro hrecorded
  rcases hrecorded.recorded b hb with ⟨call, data, -, -, hphase⟩ | ⟨r, hr, -⟩
  · rw [hbt, hended] at hphase
    exact nomatch hphase
  · have hmem : r ∈ st.records.filter fun r => r.callId = b.thread := by
      rw [hr]
      exact List.mem_singleton_self r
    obtain ⟨hmem, hid⟩ := List.mem_filter.mp hmem
    exact hnone r hmem ((of_decide_eq_true hid).trans hbt)

/-- What was recorded or in flight is so still, when another thread moves. -/
theorem RelayRecorded.keep (h : RelayRecorded relay st) {st' : RelayState} {t : ℕ}
    (hok : RelayOk relay st') (hthreads : ∀ u, u ≠ t → st'.threads u = st.threads u)
    (hrecords : ∀ u, u ≠ t → st'.records.filter (fun r => r.callId = u) =
      st.records.filter fun r => r.callId = u)
    (hother : ∀ b ∈ st'.bill, b.thread ≠ t → b ∈ st.bill)
    (hown : ∀ b ∈ st'.bill, b.thread = t → InFlight relay st' b ∨
      ∃ r, st'.records.filter (fun r => r.callId = b.thread) = [r] ∧
        IsRecordOf relay b r) : RelayRecorded relay st' := by
  refine ⟨hok.once, fun b hb => ?_, hok.paid⟩
  by_cases hbt : b.thread = t
  · exact hown b hb hbt
  · rcases h.recorded b (hother b hb hbt) with ⟨call, data, hrequest, hbody, hphase⟩ | hrecord
    · exact .inl ⟨call, data, hrequest, hbody, (hthreads _ hbt).trans hphase⟩
    · exact .inr (by rw [hrecords _ hbt]; exact hrecord)

theorem filter_eq_nil_of_unrecorded (h : RelayOk relay st) {t : ℕ}
    (ht : (st.threads t).Unrecorded) :
    st.records.filter (fun r => r.callId = t) = [] := by
  rw [List.filter_eq_nil_iff]
  intro r hr hid
  exact h.unrecorded r hr ((of_decide_eq_true hid) ▸ ht)

/-- The provider has no account with a thread that waits for it. -/
theorem RelayOk.thread_ne (h : RelayOk relay st) {t : ℕ} (ht : (st.threads t).Unbilled)
    {b : BilledResponse} (hb : b ∈ st.bill) : b.thread ≠ t := by
  rintro rfl
  exact h.unbilled b hb ht

/-- A thread that has nothing to pay moves. -/
theorem RelayRecorded.move (h : RelayRecorded relay st) (hst : RelayOk relay st) {t : ℕ}
    {phase : RelayPhase} (ht : (st.threads t).Unbilled) {n : ℕ}
    (hok : RelayOk relay ({ st with callsStarted := n }.setPhase t phase)) :
    RelayRecorded relay ({ st with callsStarted := n }.setPhase t phase) :=
  h.keep hok (fun _ hu => RelayState.setPhase_of_ne hu) (fun _ _ => rfl)
    (fun _ hb _ => hb) fun _ hb hbt => absurd hbt (hst.thread_ne ht hb)

/-- A step loses no response exactly when it meets the condition. -/
theorem recordable_iff (h : RelayOk relay st) (hrecorded : RelayRecorded relay st) :
    RelayRecorded relay (relayAct relay st a) ↔ Recordable relay st a := by
  have hok := h.act (a := a)
  have hstep := relayStep_act relay st a
  generalize relayAct relay st a = st' at hok hstep ⊢
  rcases hstep with
    ⟨hsend, hrecord⟩ | ⟨e, hidle⟩ | ⟨call, hidle, hcalls⟩ |
    ⟨call, rest, phase, hsending, hpaid, hphase⟩ |
    ⟨call, candidate, rest, data, latency, hsending⟩ |
    ⟨call, candidate, rest, latency, e, hsending⟩ |
    ⟨call, m, data, latency, e, hreceived, hrecord⟩ |
    ⟨call, m, data, latency, record, cost, used, remaining, hreceived, hrecord⟩ |
    ⟨record, used, remaining, response, hphase⟩
  case stay =>
    refine iff_of_true hrecorded ?_
    rcases a with ⟨t, payload⟩ | ⟨t, upstream⟩ | t | t
    · trivial
    · rcases upstream with ⟨statusCode, detail⟩ | _ | ⟨statusCode, body, latency⟩
      · trivial
      · trivial
      · rintro rfl ⟨call, candidate, rest, hphase⟩
        exact absurd hphase (hsend t body latency rfl call candidate rest)
    · exact fun call m data latency hphase =>
        absurd hphase (hrecord t rfl call m data latency)
    · trivial
  case refuse t payload =>
    exact iff_of_true (hrecorded.move h (t := t) (by rw [hidle]; trivial) hok) trivial
  case start t payload =>
    exact iff_of_true (hrecorded.move h (t := t) (by rw [hidle]; trivial) hok) trivial
  case fail t upstream =>
    refine iff_of_true (hrecorded.move h (t := t) (by rw [hsending]; trivial) hok) ?_
    rcases upstream with ⟨statusCode, detail⟩ | _ | ⟨statusCode, body, latency⟩
    · trivial
    · trivial
    · rintro rfl ⟨call', candidate, rest', hphase'⟩
      rw [hsending, RelayPhase.sending.injEq] at hphase'
      exact absurd rfl (hpaid candidate rest' body latency hphase'.2)
  case receive t =>
    refine iff_of_true ?_ fun _ _ => nofun
    refine hrecorded.keep hok (fun _ hu => RelayState.setPhase_of_ne hu) (fun _ _ => rfl)
      (fun b hb hbt => ?_) fun b hb hbt => ?_
    all_goals rcases List.mem_append.mp hb with hb | hb
    · exact hb
    · exact absurd (List.mem_singleton.mp hb ▸ rfl) hbt
    · exact absurd hbt (h.thread_ne (by rw [hsending]; trivial) hb)
    · obtain rfl := List.mem_singleton.mp hb
      exact .inl ⟨call, data, rfl, rfl, RelayState.setPhase_self⟩
  case garble t =>
    refine iff_of_false ?_ fun hbody => hbody rfl ⟨call, candidate, rest, hsending⟩ rfl
    have hmem : (⟨t, relay.upstreamRequest call candidate, none, latency⟩ :
        BilledResponse) ∈ st.bill ++ [⟨t, relay.upstreamRequest call candidate, none,
          latency⟩] := List.mem_append_right _ (List.mem_singleton_self _)
    apply not_relayRecorded (t := t) (e := e) RelayState.setPhase_self hmem rfl
    exact fun r hr hid => h.unrecorded r hr (by rw [hid, hsending]; trivial)
  case lose t =>
    obtain ⟨b, hb, hbt, -⟩ := h.received t call m data latency hreceived
    refine iff_of_false ?_ fun hbody => ?_
    · apply not_relayRecorded RelayState.setPhase_self hb hbt
      exact fun r hr hid => h.unrecorded r hr (by rw [hid, hreceived]; trivial)
    · obtain ⟨out, hout⟩ := recordOf_ok_iff.mpr (hbody call m data latency hreceived)
      exact nomatch hrecord.symm.trans hout
  case record t =>
    refine iff_of_true ?_ fun call' m' data' latency' hphase => ?_
    · obtain ⟨hid, -⟩ := recordOf_ok hrecord
      have hnone := filter_eq_nil_of_unrecorded h (t := t) (by rw [hreceived]; trivial)
      refine hrecorded.keep hok (fun _ hu => RelayState.setPhase_of_ne hu) (fun u hu => ?_)
        (fun _ hb _ => hb) fun b hb hbt => .inr ⟨record, ?_, ?_⟩
      · change (st.records ++ [record]).filter _ = _
        rw [List.filter_append, List.filter_singleton, hid, decide_eq_false hu.symm,
          cond_false, List.append_nil]
      · change (st.records ++ [record]).filter _ = _
        rw [List.filter_append, hbt, hnone, List.nil_append, List.filter_singleton,
          decide_eq_true hid, cond_true]
      · rcases hrecorded.recorded b hb with ⟨call', data', hrequest, hbody, hphase⟩ | hdone
        · rw [hbt, hreceived, RelayPhase.received.injEq] at hphase
          obtain ⟨rfl, rfl, rfl, rfl⟩ := hphase
          exact ⟨call, data, cost, hrequest, hbody, hbt ▸ hrecord⟩
        · obtain ⟨r, hr, -⟩ := hdone
          rw [hbt, hnone] at hr
          exact nomatch hr
    · rw [hreceived, RelayPhase.received.injEq] at hphase
      obtain ⟨rfl, rfl, rfl, rfl⟩ := hphase
      exact recordOf_ok_iff.mp ⟨_, hrecord⟩
  case respond t =>
    refine iff_of_true ?_ trivial
    refine hrecorded.keep hok (fun _ hu => RelayState.setPhase_of_ne hu) (fun _ _ => rfl)
      (fun _ hb _ => hb) fun b hb hbt => .inr ?_
    rcases hrecorded.recorded b hb with ⟨call', data', -, -, hreceived⟩ | hdone
    · rw [hbt, hphase] at hreceived
      exact nomatch hreceived
    · exact hdone

theorem RelayOk.start : RelayOk relay .start := by
  refine ⟨⟨[], List.nodup_nil, fun _ => ?_, rfl⟩, Nat.zero_le _, rfl, .nil, List.nodup_nil,
    ?_, ?_, ?_, ?_⟩
  · exact ⟨False.elim, fun h => absurd h List.not_mem_nil⟩
  · exact fun r hr => absurd hr List.not_mem_nil
  · exact fun b hb => absurd hb List.not_mem_nil
  · exact fun r hr => absurd hr List.not_mem_nil
  · exact fun t call m data latency h => RelayPhase.noConfusion h

theorem RelayRecorded.start : RelayRecorded relay .start :=
  ⟨List.nodup_nil, fun _ hb => absurd hb List.not_mem_nil,
    fun _ hr => absurd hr List.not_mem_nil⟩

end

/-- In every run of requests the calls are bounded and the totals follow the records;
and every response that was paid is recorded once, exactly when each of them has a body
that can be accounted for. -/
theorem relay_spend_accounted_iff (relay : SandboxLLMRelay) (actions : List RelayAction) :
    RelayTotals relay (run (relayAct relay) .start actions) ∧
      (Throughout (relayAct relay)
          (fun st a => RelayTotals relay (relayAct relay st a) ∧
            RelayRecorded relay (relayAct relay st a)) .start actions ↔
        Throughout (relayAct relay) (Recordable relay) .start actions) := by
  constructor
  · exact (invariant_run_of_step (RelayOk relay) (fun _ _ h => h.act) RelayOk.start).totals
  · exact throughout_iff_of_invariant
      (fun st => RelayOk relay st ∧ RelayRecorded relay st)
      (fun st a h ha => ⟨h.1.act, ha.2⟩)
      (fun st a h => (and_iff_right h.1.act.totals).trans (recordable_iff h.1 h.2))
      ⟨RelayOk.start, .start⟩

/-! ## A lost response -/

/-- Conversions of texts that the example does not meet. -/
def plainConversions : TextConversions where
  str
    | .str s => s
    | _ => []
  int _ := none
  float _ := none
  str_text _ := rfl

def smallRelay : SandboxLLMRelay where
  conv := plainConversions
  baseUrl := lit "https://api.openai.com/v1"
  budget := ⟨[lit "gpt-4o"], 1, 100, 100, 200, .two⟩
  defaultModel := []

/-- A body without choices: the one call is paid, and nothing is recorded. -/
def choicelessRun : List RelayAction :=
  [.request 0 [(lit "model", .str (lit "gpt-4o")), (lit "prompt", .str (lit "hi")),
      (lit "max_tokens", .int 5)],
    .send 0 (.response 200 (some (.obj [(lit "usage", .obj [(lit "total_tokens", .int 9)])]))
      .zero),
    .record 0]

/-- The thread has stopped with an error. -/
def RelayPhase.failed : RelayPhase → Bool
  | .ended (.error _) => true
  | _ => false

theorem paid_response_unrecorded :
    let st := run (relayAct smallRelay) .start choicelessRun
    st.bill.map BilledResponse.thread = [0] ∧ st.records.map CallRecord.callId = [] ∧
      st.totalTokens = 0 ∧ ¬ RelayRecorded smallRelay st := by
  intro st
  have hbill : st.bill.map BilledResponse.thread = [0] := by decide +kernel
  have hrecords : st.records.map CallRecord.callId = [] := by decide +kernel
  have hfailed : (st.threads 0).failed = true := by decide +kernel
  refine ⟨hbill, hrecords, by decide +kernel, ?_⟩
  obtain ⟨b, hb, hbt⟩ := List.mem_map.mp (hbill ▸ List.mem_singleton_self 0)
  have hnone := List.map_eq_nil_iff.mp hrecords
  rcases hphase : st.threads 0 with _ | e | _ | _ | _ | (e | response)
  case ended.error =>
    exact not_relayRecorded hphase hb hbt fun r hr => by rw [hnone] at hr; exact nomatch hr
  all_goals
    rw [hphase] at hfailed
    exact nomatch hfailed

end PromptCode
