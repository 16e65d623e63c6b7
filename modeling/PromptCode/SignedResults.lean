import PromptCode.TrustedResult
import PromptCode.Workspace

/-!
# Signed results are complete and sound

The verifier accepts every envelope that the evaluator signs, also after it has been
stored as JSON.  An envelope that it accepts lists the cases of the inventory in
order, has the totals and the score of its passed cases, and is accepted for no other
identity.
-/

namespace PromptCode

open Py FileTree

/-! ## The score -/

/-- A percentage is a finite float. -/
theorem scorePercent_finite {earned total : ℕ} (h : earned ≤ total) {score : PyFloat}
    (hscore : scorePercent earned total = .ok score) : ∃ x, score = .finite x := by
  unfold scorePercent at hscore
  split_ifs at hscore with hzero
  obtain rfl := Except.ok.inj hscore
  obtain ⟨x, hx, -, -⟩ := PyFloat.round_trueDiv_percent (Nat.pos_of_ne_zero hzero)
    (Nat.mul_le_mul_left 100 h) 2
  exact ⟨x, hx⟩

/-! ## Graded cases -/

/-- A result that a case can have. -/
structure CaseResult.Grades (r : CaseResult) (c : Case) : Prop where
  id : r.id = c.id
  weight : r.weight = c.weight
  error : r.passed = true → r.error = none

theorem grades_of_gradeCase {c : Case} {o : Observation} {r : CaseResult}
    (h : gradeCase c o = .ok r) : r.Grades c := by
  rw [gradeCase] at h
  split at h
  · obtain rfl := Except.ok.inj h
    exact ⟨rfl, rfl, by simp⟩
  · obtain ⟨observed, -, h⟩ := bind_eq_ok.mp h
    obtain ⟨expected, -, h⟩ := bind_eq_ok.mp h
    obtain rfl := Except.ok.inj h
    exact ⟨rfl, rfl, fun _ => rfl⟩

theorem grades_of_gradeCases {cases : List Case} {observations : List Observation}
    (hlength : observations.length = cases.length) {results : List CaseResult}
    (h : gradeCases cases observations = .ok results) :
    List.Forall₂ CaseResult.Grades results cases := by
  rw [gradeCases, mapM_ok_iff_forall] at h
  induction cases generalizing observations results with
  | nil =>
      rw [List.zip_nil_left, List.forall₂_nil_left_iff] at h
      rw [h]
      exact List.Forall₂.nil
  | cons c cases ih =>
      rcases observations with _ | ⟨o, observations⟩
      · simp at hlength
      · rw [List.zip_cons_cons, List.forall₂_cons_left_iff] at h
        obtain ⟨r, rest, hr, hrest, rfl⟩ := h
        apply List.Forall₂.cons (grades_of_gradeCase hr)
        exact ih (by simpa using hlength) hrest

theorem earnedWeight_cons (r : CaseResult) (results : List CaseResult) :
    earnedWeight (r :: results) =
      (if r.passed then r.weight else 0) + earnedWeight results := by
  unfold earnedWeight
  rcases hpassed : r.passed with _ | _ <;> simp [hpassed]

theorem earnedWeight_le {results : List CaseResult} {cases : List Case}
    (h : List.Forall₂ CaseResult.Grades results cases) :
    earnedWeight results ≤ totalWeight cases := by
  induction h with
  | nil => exact le_rfl
  | @cons r c results cases hr _ ih =>
      have hcases : totalWeight (c :: cases) = c.weight + totalWeight cases := by
        simp [totalWeight]
      rw [earnedWeight_cons, hcases, hr.weight]
      split_ifs <;> omega

theorem verifyCase_toJson {r : CaseResult} {c : Case} (h : r.Grades c) :
    verifyCase c r.toJson = .ok (if r.passed then c.weight else 0) := by
  obtain ⟨id, weight, passed, error⟩ := r
  obtain ⟨hid, hweight, herror⟩ := h
  dsimp only at hid hweight herror
  subst hid hweight
  have hknown : isKnownError (errorJson error) = true := by
    rcases error with _ | _ | _ | _ <;> decide
  have hnone : passed = true → equalsText (errorJson error) none = true := by
    intro hpassed
    rw [herror hpassed]
    rfl
  rw [CaseResult.toJson, verifyCase]
  simp only [fieldOf_cons, String.reduceEq, if_true, if_false]
  rw [if_neg (by simp [equalsText]), if_neg (by simp [hknown]),
    if_neg fun h => by simp [hnone h.1] at h]

theorem exists_verifyCases {results : List CaseResult} {cases : List Case}
    (h : List.Forall₂ CaseResult.Grades results cases) :
    ∃ earned, ((cases.zip (results.map CaseResult.toJson)).mapM fun p =>
        verifyCase p.1 p.2) = .ok earned ∧ earned.sum = earnedWeight results := by
  induction h with
  | nil => exact ⟨[], rfl, rfl⟩
  | @cons r c results cases hr _ ih =>
      obtain ⟨earned, hearned, hsum⟩ := ih
      refine ⟨(if r.passed then c.weight else 0) :: earned, ?_, ?_⟩
      · rw [List.map_cons, List.zip_cons_cons, mapM_ok_iff_forall]
        exact List.Forall₂.cons (verifyCase_toJson hr) (mapM_ok_iff_forall.mp hearned)
      · rw [List.sum_cons, hsum, earnedWeight_cons, hr.weight]

theorem isTextList_textList (texts : List Text) :
    isTextList (textList texts) texts = true := by
  have hitems : equalsTexts (texts.map fun t => .str t.1) texts = true := by
    induction texts with
    | nil => rfl
    | cons t texts ih =>
        rw [List.map_cons, equalsTexts, ih, equalsText_str]
        simp
  exact hitems

/-! ## The signed payload -/

section

variable {inv : Inventories} {key : Str} {ident : GradingIdentity} {cases : List Case}
  {results : List CaseResult} {score : PyFloat}

theorem bindings_payloadFields :
    (bindings inv ident cases).any (fun b =>
      !equalsText (fieldOf (payloadFields inv ident cases results score) b.1) b.2) =
        false := by
  have htoken : equalsText (optionalText ident.leaseToken)
      (ident.leaseToken.map Subtype.val) = true := by
    rcases ident.leaseToken with _ | t
    · rfl
    · rw [optionalText, Option.map_some, equalsText_str]
      simp
  simp only [bindings, payloadFields, List.any_cons, List.any_nil, fieldOf_cons,
    String.reduceEq, if_true, if_false, equalsText_str, htoken]
  decide

theorem verifyPayload_payloadFields
    (hgrades : List.Forall₂ CaseResult.Grades results cases)
    (hscore : scorePercent (earnedWeight results) (totalWeight cases) = .ok score) :
    verifyPayload cases (inv.manualRequirements ident.challengeSlug.1)
      (payloadFields inv ident cases results score) = .ok () := by
  obtain ⟨earned, hearned, hsum⟩ := exists_verifyCases hgrades
  obtain ⟨x, rfl⟩ := scorePercent_finite (earnedWeight_le hgrades) hscore
  have hequal : PyFloat.eqFloat (.finite x) (.finite x) = true := by
    simp [PyFloat.eqFloat]
  rw [verifyPayload]
  simp only [payloadFields, fieldOf_cons, String.reduceEq, if_true, if_false,
    List.length_map, hgrades.length_eq, ne_eq, not_true_eq_false, hearned]
  simp [hsum, hscore, isInt, isNumeric, isNumber, hequal, isTextList_textList, bind,
    Except.bind]

/-- The signer's envelope is accepted. -/
theorem verifyResult_signResult
    (hcases : inv.casesFor ident.challengeSlug.1 = some cases)
    (hgrades : List.Forall₂ CaseResult.Grades results cases)
    (hscore : scorePercent (earnedWeight results) (totalWeight cases) = .ok score)
    {envelope : Json}
    (h : signResult key (.obj (payloadFields inv ident cases results score)) =
      .ok envelope) :
    verifyResult inv key ident envelope =
      .ok (.obj (payloadFields inv ident cases results score)) := by
  obtain ⟨s, hs, h⟩ := bind_eq_ok.mp h
  obtain rfl := Except.ok.inj h
  have hascii : s.any (fun c => 128 ≤ c.val) = false := by
    obtain ⟨bytes, -, hs⟩ := bind_eq_ok.mp hs
    obtain ⟨message, -, hs⟩ := bind_eq_ok.mp hs
    obtain rfl := Except.ok.inj hs
    rw [List.any_eq_false]
    intro c hc
    have hlt := isAscii_sha256Hex _ c hc
    simpa using hlt
  have hparts : envelopeParts (.obj [(lit "payload",
        .obj (payloadFields inv ident cases results score)), (lit "signature", .str s)]) =
      some (.obj (payloadFields inv ident cases results score), .str s) := by
    have hne : (lit "signature" == lit "payload") = false := by simp [lit_inj]
    simp [envelopeParts, List.lookup_cons, hne]
  rw [verifyResult, hparts]
  dsimp only
  rw [hs]
  simp only [bind, Except.bind, hascii, hcases, bindings_payloadFields,
    verifyPayload_payloadFields hgrades hscore]
  simp [pure, Except.pure]

end

/-! ## The stored envelope -/

theorem isText_textList (texts : List Text) : (textList texts).IsText := by
  apply allItems_iff.mpr
  intro v hv
  obtain ⟨t, -, rfl⟩ := List.mem_map.mp hv
  exact t.2

theorem isText_optionalText (t : Option Text) : (optionalText t).IsText := by
  rcases t with _ | t
  · trivial
  · exact t.2

theorem isText_case (r : CaseResult) : r.toJson.IsText := by
  have herror : (errorJson r.error).IsText := by
    rcases r.error with _ | e
    · trivial
    · rcases e with _ | _ | _ <;> exact isText_lit _
  refine ⟨by simp [lit_inj], allFields_iff.mpr ?_⟩
  simp only [List.forall_mem_cons]
  exact ⟨⟨isText_lit _, r.id.2⟩, ⟨isText_lit _, trivial⟩, ⟨isText_lit _, trivial⟩,
    ⟨isText_lit _, herror⟩, by simp⟩

theorem isText_payload (inv : Inventories) (ident : GradingIdentity) (cases : List Case)
    (results : List CaseResult) (score : PyFloat) :
    (Json.obj (payloadFields inv ident cases results score)).IsText := by
  have hcases : (Json.arr (results.map CaseResult.toJson)).IsText := by
    apply allItems_iff.mpr
    intro v hv
    obtain ⟨r, -, rfl⟩ := List.mem_map.mp hv
    exact isText_case r
  refine ⟨by simp [payloadFields, lit_inj], allFields_iff.mpr ?_⟩
  simp only [payloadFields, List.forall_mem_cons]
  refine ⟨⟨isText_lit _, ident.sessionId.2⟩, ⟨isText_lit _, ident.jobId.2⟩,
    ⟨isText_lit _, ident.challengeSlug.2⟩, ⟨isText_lit _, ident.sourceDigest.2⟩,
    ⟨isText_lit _, inv.version.2⟩,
    ⟨isText_lit _, (isAscii_sha256Hex _).isText⟩,
    ⟨isText_lit _, hcases⟩, ⟨isText_lit _, trivial⟩, ⟨isText_lit _, trivial⟩,
    ⟨isText_lit _, trivial⟩, ⟨isText_lit _, trivial⟩,
    ⟨isText_lit _, isText_textList _⟩, ⟨isText_lit _, ident.challengeVersion.2⟩,
    ⟨isText_lit _, isText_optionalText _⟩, by simp⟩

theorem itemsDepth_le {items : List Json} {d : ℕ} (h : ∀ v ∈ items, v.depth ≤ d) :
    itemsDepth items ≤ d := by
  induction items with
  | nil => exact Nat.zero_le d
  | cons v items ih =>
      exact max_le (h v (by simp)) (ih fun w hw => h w (by simp [hw]))

theorem depth_payload (inv : Inventories) (ident : GradingIdentity) (cases : List Case)
    (results : List CaseResult) (score : PyFloat) :
    (Json.obj (payloadFields inv ident cases results score)).depth ≤ 3 := by
  have hcases : itemsDepth (results.map CaseResult.toJson) ≤ 1 := by
    apply itemsDepth_le
    intro v hv
    obtain ⟨r, -, rfl⟩ := List.mem_map.mp hv
    rcases herror : r.error with _ | e <;>
      simp [CaseResult.toJson, herror, errorJson, Json.depth, fieldsDepth, fieldDepth]
  have hmanual : (textList (inv.manualRequirements ident.challengeSlug.1)).depth ≤ 1 := by
    apply Nat.succ_le_succ
    apply itemsDepth_le
    intro v hv
    obtain ⟨t, -, rfl⟩ := List.mem_map.mp hv
    exact le_rfl
  have htoken : (optionalText ident.leaseToken).depth = 0 := by
    rcases ident.leaseToken with _ | t <;> rfl
  simp only [payloadFields, Json.depth, fieldsDepth, fieldDepth, htoken]
  omega

/-- An envelope is read back from its text. -/
theorem jsonLoads_envelope {inv : Inventories} {key : Str} {ident : GradingIdentity}
    {cases : List Case} {results : List CaseResult} {score : PyFloat} {envelope : Json}
    (h : signResult key (.obj (payloadFields inv ident cases results score)) =
      .ok envelope) {style : JsonStyle} (hstyle : style.Sound) (constants : Bool)
    {depth : ℕ} (hdepth : 4 ≤ depth) :
    jsonLoads ⟨maxStrDigits, constants⟩ depth (envelope.text style) = some envelope := by
  have hpayload := isText_payload inv ident cases results score
  have hbelow := depth_payload inv ident cases results score
  generalize Json.obj (payloadFields inv ident cases results score) = payload at *
  obtain ⟨s, hs, h⟩ := bind_eq_ok.mp h
  obtain rfl := Except.ok.inj h
  obtain ⟨bytes, -, hs⟩ := bind_eq_ok.mp hs
  obtain ⟨message, hmessage, hs⟩ := bind_eq_ok.mp hs
  obtain rfl := Except.ok.inj hs
  rw [canonical] at hmessage
  split_ifs at hmessage with hfinite hwritten
  simp only [Bool.not_eq_false] at hfinite hwritten
  apply jsonLoads_text hstyle
  · apply Json.IsText.readable
    · refine ⟨by simp [lit_inj], allFields_iff.mpr ?_⟩
      simp only [List.forall_mem_cons]
      exact ⟨⟨isText_lit _, hpayload⟩, ⟨isText_lit _, (isAscii_sha256Hex _).isText⟩,
        by simp⟩
    · apply everyField_iff.mpr
      simp only [List.forall_mem_cons]
      exact ⟨hfinite, rfl, by simp⟩
    · apply everyField_iff.mpr
      simp only [List.forall_mem_cons]
      exact ⟨hwritten, rfl, by simp⟩
  · simp only [Json.depth, fieldsDepth, fieldDepth]
    omega

/-! ## The evaluator's envelopes -/

/-- The inputs on which the evaluator yields an envelope. -/
structure Evaluable (inv : Inventories) (key : Str) (ident : GradingIdentity)
    (parentName name : Str) (source : Option Tree)
    (observe : (cases : List Case) → Except PyErr (Observations cases))
    (cases : List Case) : Prop where
  key : ∃ bytes, signingKey key = .ok bytes
  version : ident.challengeVersion.1 ≠ []
  token : ∃ t, ident.leaseToken = some t ∧ t.1 ≠ [] ∧ t.1.length ≤ 256
  snapshot : ∃ rows, verifySnapshot parentName name source ident.sourceDigest.1 = .ok rows
  inventory : inv.casesFor ident.challengeSlug.1 = some cases
  nonempty : cases ≠ []
  positive : ∀ c ∈ cases, 0 < c.weight
  written : (jsonNat (totalWeight cases)).length ≤ maxStrDigits
  expected : ∀ c ∈ cases, ∃ bytes, canonical c.expected = .ok bytes
  observed : ∃ observations, observe cases = .ok observations ∧
    ∀ o ∈ observations.1, o.error = none → ∃ bytes, canonical o.observed = .ok bytes

section

variable {inv : Inventories} {key : Str} {ident : GradingIdentity}
  {parentName name : Str} {source : Option Tree}
  {observe : (cases : List Case) → Except PyErr (Observations cases)}

theorem signResult_of_evaluateSnapshot {envelope : Json}
    (h : evaluateSnapshot inv key ident parentName name source observe =
      .ok envelope) :
    ∃ cases results score, inv.casesFor ident.challengeSlug.1 = some cases ∧
      List.Forall₂ CaseResult.Grades results cases ∧
      scorePercent (earnedWeight results) (totalWeight cases) = .ok score ∧
      signResult key (.obj (payloadFields inv ident cases results score)) =
        .ok envelope := by
  obtain ⟨bytes, -, h⟩ := bind_eq_ok.mp h
  split_ifs at h
  obtain ⟨rows, -, h⟩ := bind_eq_ok.mp h
  rcases hcases : inv.casesFor ident.challengeSlug.1 with _ | cases
  · simp [hcases] at h
  · simp only [hcases] at h
    obtain ⟨observations, -, h⟩ := bind_eq_ok.mp h
    obtain ⟨results, hresults, h⟩ := bind_eq_ok.mp h
    obtain ⟨rows, -, h⟩ := bind_eq_ok.mp h
    obtain ⟨score, hscore, h⟩ := bind_eq_ok.mp h
    exact ⟨cases, results, score, rfl, grades_of_gradeCases observations.2 hresults,
      hscore, h⟩

theorem exists_gradeCases {cases : List Case} {observations : List Observation}
    (hexpected : ∀ c ∈ cases, ∃ bytes, canonical c.expected = .ok bytes)
    (hobserved : ∀ o ∈ observations, o.error = none →
      ∃ bytes, canonical o.observed = .ok bytes) :
    ∃ results, gradeCases cases observations = .ok results := by
  apply exists_mapM_ok
  intro p hp
  obtain ⟨hc, ho⟩ := List.of_mem_zip hp
  obtain ⟨expected, hexpected⟩ := hexpected p.1 hc
  rw [gradeCase]
  rcases herror : p.2.error with _ | e
  · obtain ⟨observed, hobserved⟩ := hobserved p.2 ho herror
    rw [hobserved, hexpected]
    exact ⟨_, rfl⟩
  · exact ⟨_, rfl⟩

theorem weight_le_totalWeight {cases : List Case} {c : Case} (h : c ∈ cases) :
    c.weight ≤ totalWeight cases := by
  apply List.single_le_sum (by simp)
  exact List.mem_map_of_mem h

theorem CaseResult.Grades.weight_le {results : List CaseResult} {cases : List Case}
    (h : List.Forall₂ CaseResult.Grades results cases) {r : CaseResult}
    (hr : r ∈ results) : r.weight ≤ totalWeight cases := by
  induction h with
  | nil => simp at hr
  | @cons r' c results cases hgrade _ ih =>
      have hcases : totalWeight (c :: cases) = c.weight + totalWeight cases := by
        simp [totalWeight]
      rcases List.mem_cons.mp hr with rfl | hr
      · rw [hcases, hgrade.weight]
        omega
      · have hle := ih hr
        omega

theorem length_jsonNat_le {m n k : ℕ} (h : m ≤ n) (hk : 0 < k)
    (hn : (jsonNat n).length ≤ k) : (jsonNat m).length ≤ k := by
  rw [jsonNat, List.length_map, Nat.length_toDigits_le_iff (by norm_num) hk] at hn ⊢
  omega

/-- A test that the strings, the flags, the score and the weights pass. -/
theorem every_payload {cases : List Case} {results : List CaseResult} {score : PyFloat}
    (hgrades : List.Forall₂ CaseResult.Grades results cases) {p : Json → Bool}
    (hnull : p .null = true) (hstr : ∀ s, p (.str s) = true)
    (hbool : ∀ b, p (.bool b) = true) (hscore : p (.float score) = true)
    (hint : ∀ n : ℕ, n ≤ totalWeight cases → p (.int n) = true) :
    (Json.obj (payloadFields inv ident cases results score)).every p = true := by
  have hcase : ∀ v ∈ results.map CaseResult.toJson, v.every p = true := by
    intro v hv
    obtain ⟨r, hr, rfl⟩ := List.mem_map.mp hv
    have hweight : p (.int r.weight) = true :=
      hint _ (CaseResult.Grades.weight_le hgrades hr)
    have herror : (errorJson r.error).every p = true := by
      rcases r.error with _ | e
      · exact hnull
      · exact hstr _
    apply everyField_iff.mpr
    simp only [List.forall_mem_cons]
    exact ⟨hstr _, hweight, hbool _, herror, by simp⟩
  have hmanual : (textList (inv.manualRequirements ident.challengeSlug.1)).every p =
      true := by
    apply everyItem_iff.mpr
    intro v hv
    obtain ⟨t, -, rfl⟩ := List.mem_map.mp hv
    exact hstr _
  have htoken : (optionalText ident.leaseToken).every p = true := by
    rcases ident.leaseToken with _ | t
    · exact hnull
    · exact hstr _
  apply everyField_iff.mpr
  simp only [payloadFields, List.forall_mem_cons]
  exact ⟨hstr _, hstr _, hstr _, hstr _, hstr _, hstr _, everyItem_iff.mpr hcase,
    hint _ (earnedWeight_le hgrades), hint _ le_rfl, hscore, hbool _, hmanual, hstr _,
    htoken, by simp⟩

/-- The payload of the evaluator can be written. -/
theorem exists_canonical_payload {cases : List Case} {results : List CaseResult}
    {score : PyFloat} (hgrades : List.Forall₂ CaseResult.Grades results cases)
    (hscore : scorePercent (earnedWeight results) (totalWeight cases) = .ok score)
    (hwritten : (jsonNat (totalWeight cases)).length ≤ maxStrDigits) :
    ∃ bytes, canonical (.obj (payloadFields inv ident cases results score)) =
      .ok bytes := by
  obtain ⟨x, rfl⟩ := scorePercent_finite (earnedWeight_le hgrades) hscore
  have hfinite : (Json.obj (payloadFields inv ident cases results
      (.finite x))).allFinite = true :=
    every_payload hgrades rfl (fun _ => rfl) (fun _ => rfl) rfl fun _ _ => rfl
  have hshort : (Json.obj (payloadFields inv ident cases results
      (.finite x))).allWritten = true := by
    apply every_payload hgrades rfl (fun _ => rfl) (fun _ => rfl) rfl
    intro n hn
    exact decide_eq_true (length_jsonNat_le hn (by norm_num [maxStrDigits]) hwritten)
  rw [canonical, if_neg (by simp [hfinite]), if_neg (by simp [hshort])]
  exact ⟨_, rfl⟩

theorem exists_evaluateSnapshot {cases : List Case}
    (h : Evaluable inv key ident parentName name source observe cases) :
    ∃ envelope, evaluateSnapshot inv key ident parentName name source observe =
      .ok envelope := by
  obtain ⟨bytes, hkey⟩ := h.key
  obtain ⟨t, htoken, htokenne, hlength⟩ := h.token
  obtain ⟨rows, hsnapshot⟩ := h.snapshot
  obtain ⟨observations, hobserve, hobserved⟩ := h.observed
  obtain ⟨results, hresults⟩ := exists_gradeCases h.expected hobserved
  have hgrades := grades_of_gradeCases observations.2 hresults
  have htotal : totalWeight cases ≠ 0 := by
    obtain ⟨c, hc⟩ := List.exists_mem_of_ne_nil cases h.nonempty
    have hpositive := h.positive c hc
    have hle := weight_le_totalWeight hc
    omega
  obtain ⟨score, hscore⟩ : ∃ score,
      scorePercent (earnedWeight results) (totalWeight cases) = .ok score := by
    rw [scorePercent, if_neg htotal]
    exact ⟨_, rfl⟩
  obtain ⟨message, hmessage⟩ : ∃ message, canonical (.obj (payloadFields inv ident
      cases results score)) = .ok message :=
    exists_canonical_payload hgrades hscore h.written
  have hidentity : ¬ (ident.challengeVersion.1 = [] ∨
      ident.leaseToken.elim [] Subtype.val = [] ∨
      256 < (ident.leaseToken.elim [] Subtype.val).length) := by
    rw [htoken]
    simp only [Option.elim_some, not_or, not_lt]
    exact ⟨h.version, htokenne, hlength⟩
  have hsign : evaluateSnapshot inv key ident parentName name source observe =
      signResult key (.obj (payloadFields inv ident cases results score)) := by
    simp only [evaluateSnapshot, hkey, if_neg hidentity, hsnapshot, h.inventory,
      hobserve, hresults, hscore, bind, Except.bind]
  rw [hsign, signResult, signature, hkey, hmessage]
  exact ⟨_, rfl⟩

end

/-! ## Accepted envelopes -/

/-- A verified result of a case. -/
def CaseVouched (c : Case) (result : Json) : Prop :=
  ∃ fields, result = .obj fields ∧ fieldOf fields "id" = .str c.id.1 ∧
    fieldOf fields "weight" = .int c.weight ∧
    (fieldOf fields "passed" = .bool false ∨
      fieldOf fields "passed" = .bool true ∧ fieldOf fields "error" = .null)

/-- The flag of a result. -/
def isPassed : Json → Bool
  | .obj fields =>
      match fieldOf fields "passed" with
      | .bool b => b
      | _ => false
  | _ => false

/-- The weight of the cases whose results are passed. -/
def passedWeight (cases : List Case) (results : List Json) : ℕ :=
  ((cases.zip results).map fun p => if isPassed p.2 then p.1.weight else 0).sum

theorem equalsText_eq_true {v : Json} {s : Str} (h : equalsText v (some s) = true) :
    v = .str s := by
  rcases v with _ | _ | _ | _ | t | _ | _ <;> simp_all [equalsText]

theorem equalsText_none {v : Json} (h : equalsText v none = true) : v = .null := by
  rcases v with _ | _ | _ | _ | _ | _ | _ <;> simp_all [equalsText]

theorem caseVouched_of_verifyCase {c : Case} {result : Json} {n : ℕ}
    (h : verifyCase c result = .ok n) :
    CaseVouched c result ∧ n = if isPassed result then c.weight else 0 := by
  rcases result with _ | _ | _ | _ | _ | _ | fields
  case obj =>
    rw [verifyCase] at h
    split at h
    case h_1 weight passed hweight hpassed =>
      have hflag : isPassed (.obj fields) = passed := by rw [isPassed, hpassed]
      rw [hflag]
      generalize (if passed then c.weight else 0) = earned at h ⊢
      split_ifs at h with hid hknown hsuccess
      obtain rfl := Except.ok.inj h
      obtain ⟨hid, hc⟩ := not_or.mp hid
      rw [Bool.not_eq_false] at hid
      rw [not_ne_iff] at hc
      refine ⟨⟨fields, rfl, equalsText_eq_true hid, by rw [hweight, hc], ?_⟩, rfl⟩
      rcases passed with _ | _
      · exact Or.inl hpassed
      · refine Or.inr ⟨hpassed, equalsText_none ?_⟩
        simpa using hsuccess
    case h_2 => simp at h
  all_goals simp [verifyCase] at h

theorem verifyCases_ok {cases : List Case} {results : List Json} {earned : List ℕ}
    (hlength : results.length = cases.length)
    (h : ((cases.zip results).mapM fun p => verifyCase p.1 p.2) = .ok earned) :
    List.Forall₂ CaseVouched cases results ∧ earned.sum = passedWeight cases results := by
  rw [mapM_ok_iff_forall] at h
  induction cases generalizing results earned with
  | nil =>
      obtain rfl := List.length_eq_zero_iff.mp hlength
      rw [List.zip_nil_left, List.forall₂_nil_left_iff] at h
      rw [h]
      exact ⟨List.Forall₂.nil, rfl⟩
  | cons c cases ih =>
      rcases results with _ | ⟨result, results⟩
      · simp at hlength
      · rw [List.zip_cons_cons, List.forall₂_cons_left_iff] at h
        obtain ⟨n, rest, hn, hrest, rfl⟩ := h
        obtain ⟨hcase, hweight⟩ := caseVouched_of_verifyCase hn
        obtain ⟨hcases, hsum⟩ := ih (by simpa using hlength) hrest
        refine ⟨List.Forall₂.cons hcase hcases, ?_⟩
        rw [List.sum_cons, hsum, hweight]
        rfl

/-- What the verifier has established about a payload. -/
structure Vouched (inv : Inventories) (ident : GradingIdentity)
    (fields : List (Str × Json)) (cases : List Case) (results : List Json) : Prop where
  inventory : inv.casesFor ident.challengeSlug.1 = some cases
  listed : fieldOf fields "cases" = .arr results
  vouched : List.Forall₂ CaseVouched cases results
  earned : fieldOf fields "earned_weight" = .int (passedWeight cases results)
  total : fieldOf fields "total_weight" = .int (totalWeight cases)
  score : ∃ score, scorePercent (passedWeight cases results) (totalWeight cases) =
    .ok score ∧ isNumber (fieldOf fields "score_percent") score = true
  complete : fieldOf fields "complete" = .bool true

theorem isInt_iff {v : Json} {n : ℕ} : isInt v n = true ↔ v = .int n := by
  rcases v with _ | _ | _ | _ | _ | _ | _ <;> simp [isInt]

theorem vouched_of_verifyPayload {inv : Inventories} {ident : GradingIdentity}
    {cases : List Case} {manual : List Text} {fields : List (Str × Json)}
    (hcases : inv.casesFor ident.challengeSlug.1 = some cases)
    (h : verifyPayload cases manual fields = .ok ()) :
    ∃ results, Vouched inv ident fields cases results := by
  rw [verifyPayload] at h
  split at h
  case h_1 results hresults =>
    obtain ⟨hlength, h⟩ := ite_error_eq_ok.mp h
    obtain ⟨earned, hearned, h⟩ := bind_eq_ok.mp h
    obtain ⟨htotals, h⟩ := ite_error_eq_ok.mp h
    obtain ⟨score, hscore, h⟩ := bind_eq_ok.mp h
    obtain ⟨hnumber, h⟩ := ite_error_eq_ok.mp h
    obtain ⟨-, h⟩ := ite_error_eq_ok.mp h
    obtain ⟨hvouched, hsum⟩ := verifyCases_ok (not_ne_iff.mp hlength) hearned
    simp only [not_or, Bool.not_eq_false, isInt_iff] at htotals hnumber
    obtain ⟨hearnedWeight, htotal, -⟩ := htotals
    rw [hsum] at hearnedWeight hscore
    refine ⟨results, hcases, hresults, hvouched, hearnedWeight, htotal,
      ⟨score, hscore, hnumber⟩, ?_⟩
    split at h
    · assumption
    · simp at h
  case h_2 => simp at h

/-- An accepted envelope is signed, vouches for its payload and carries the identity. -/
theorem verifyResult_ok {inv : Inventories} {key : Str} {ident : GradingIdentity}
    {envelope payload : Json} (h : verifyResult inv key ident envelope = .ok payload) :
    ∃ fields s cases results, payload = .obj fields ∧
      envelopeParts envelope = some (payload, .str s) ∧
      signature key payload = .ok s ∧ Vouched inv ident fields cases results ∧
      ∀ b ∈ bindings inv ident cases, equalsText (fieldOf fields b.1) b.2 = true := by
  rw [verifyResult] at h
  split at h
  case h_1 fields given hparts =>
    obtain ⟨expected, hexpected, h⟩ := bind_eq_ok.mp h
    split_ifs at h with hascii hne
    rcases hcases : inv.casesFor ident.challengeSlug.1 with _ | cases
    · simp [hcases] at h
    · simp only [hcases] at h
      split_ifs at h with hbindings
      obtain ⟨⟨⟩, hverify, h⟩ := bind_eq_ok.mp h
      obtain rfl := Except.ok.inj h
      obtain rfl := not_ne_iff.mp hne
      obtain ⟨results, hvouched⟩ := vouched_of_verifyPayload hcases hverify
      refine ⟨fields, expected, cases, results, rfl, hparts, hexpected, hvouched, ?_⟩
      intro b hb
      rw [Bool.not_eq_true, List.any_eq_false] at hbindings
      simpa using hbindings b hb
  case h_2 => simp at h

theorem equalsText_unique {v : Json} {s t : Option Str} (hs : equalsText v s = true)
    (ht : equalsText v t = true) : s = t := by
  rcases v with _ | _ | _ | _ | u | _ | _ <;> rcases s with _ | s <;>
    rcases t with _ | t <;> simp_all [equalsText]

/-- An accepted envelope names one identity and one version of the probes. -/
theorem identity_unique {inv inv' : Inventories} {key key' : Str}
    {ident ident' : GradingIdentity} {envelope payload payload' : Json}
    (h : verifyResult inv key ident envelope = .ok payload)
    (h' : verifyResult inv' key' ident' envelope = .ok payload') :
    ident' = ident ∧ inv'.version = inv.version := by
  obtain ⟨fields, s, cases, results, rfl, hparts, -, -, hbind⟩ := verifyResult_ok h
  obtain ⟨fields', s', cases', results', rfl, hparts', -, -, hbind'⟩ := verifyResult_ok h'
  rw [hparts] at hparts'
  have hsame : fields = fields' := by
    injection hparts' with hpair
    injection (Prod.ext_iff.mp hpair).1
  subst hsame
  simp only [bindings, List.forall_mem_cons] at hbind hbind'
  obtain ⟨hsession, hjob, hslug, hdigest, hversion, -, hchallenge, htoken, -⟩ := hbind
  obtain ⟨hsession', hjob', hslug', hdigest', hversion', -, hchallenge', htoken', -⟩ :=
    hbind'
  have htext : ∀ {v : Json} {t t' : Text}, equalsText v (some t.1) = true →
      equalsText v (some t'.1) = true → t' = t := by
    intro v t t' ht ht'
    exact Subtype.ext (Option.some.inj (equalsText_unique ht' ht))
  obtain ⟨sessionId, jobId, challengeSlug, sourceDigest, challengeVersion, leaseToken⟩ :=
    ident
  obtain ⟨sessionId', jobId', challengeSlug', sourceDigest', challengeVersion',
    leaseToken'⟩ := ident'
  refine ⟨?_, htext hversion hversion'⟩
  obtain rfl := htext hsession hsession'
  obtain rfl := htext hjob hjob'
  obtain rfl := htext hslug hslug'
  obtain rfl := htext hdigest hdigest'
  obtain rfl := htext hchallenge hchallenge'
  have hleases : leaseToken' = leaseToken := by
    have hmap := equalsText_unique htoken' htoken
    exact Option.map_injective Subtype.val_injective hmap
  rw [hleases]

/-- The verifier accepts what the evaluator signs, also after it has been stored, and
what it accepts is a complete result of one identity. -/
theorem signed_results_complete_and_sound (inv : Inventories) (key : Str) :
    (∀ (ident : GradingIdentity) (parentName name : Str) (source : Option Tree)
        (observe : (cases : List Case) → Except PyErr (Observations cases)),
      (∀ cases, Evaluable inv key ident parentName name source observe cases →
        ∃ envelope, evaluateSnapshot inv key ident parentName name source observe =
          .ok envelope) ∧
      ∀ envelope, evaluateSnapshot inv key ident parentName name source observe =
          .ok envelope →
        (∃ payload, verifyResult inv key ident envelope = .ok payload) ∧
        ∀ (style : JsonStyle) (constants : Bool) (depth : ℕ), style.Sound →
          4 ≤ depth → jsonLoads ⟨maxStrDigits, constants⟩ depth (envelope.text style) =
            some envelope) ∧
    ∀ (ident : GradingIdentity) (envelope payload : Json),
      verifyResult inv key ident envelope = .ok payload →
      (∃ fields cases results, payload = .obj fields ∧
        (∃ s, envelopeParts envelope = some (payload, .str s) ∧
          signature key payload = .ok s) ∧
        Vouched inv ident fields cases results) ∧
      ∀ (inv' : Inventories) (key' : Str) (ident' : GradingIdentity) (payload' : Json),
        verifyResult inv' key' ident' envelope = .ok payload' →
        ident' = ident ∧ inv'.version = inv.version := by
  refine ⟨fun ident parentName name source observe => ⟨?_, ?_⟩, ?_⟩
  · intro cases h
    exact exists_evaluateSnapshot h
  · intro envelope h
    obtain ⟨cases, results, score, hcases, hgrades, hscore, hsign⟩ :=
      signResult_of_evaluateSnapshot h
    refine ⟨⟨_, verifyResult_signResult hcases hgrades hscore hsign⟩, ?_⟩
    intro style constants depth hstyle hdepth
    exact jsonLoads_envelope hsign hstyle constants hdepth
  · intro ident envelope payload h
    constructor
    · obtain ⟨fields, s, cases, results, hpayload, hparts, hs, hvouched, -⟩ :=
        verifyResult_ok h
      exact ⟨fields, cases, results, hpayload, ⟨s, hparts, hs⟩, hvouched⟩
    · intro inv' key' ident' payload' h'
      exact identity_unique h h'

/-- One supported challenge with two cases. -/
def sampleInventories : Inventories where
  version := ⟨lit "v1", isText_lit _⟩
  casesFor slug :=
    if slug = lit "demo" then
      some [⟨⟨lit "first", isText_lit _⟩, 2, ⟨lit "result = 1", isText_lit _⟩, .int 1⟩,
        ⟨⟨lit "second", isText_lit _⟩, 1, ⟨lit "result = True", isText_lit _⟩,
          .bool true⟩]
    else none
  manualRequirements _ := [⟨lit "Explain the design", isText_lit _⟩]

def sampleSource : Tree := (singleFileDisk "a.py" "a").workspace

def sampleManifest : Manifest := (manifest sampleSource).toOption.getD []

def sampleIdentity : GradingIdentity where
  sessionId := ⟨lit "s", isText_lit _⟩
  jobId := ⟨lit "j", isText_lit _⟩
  challengeSlug := ⟨lit "demo", isText_lit _⟩
  sourceDigest := ⟨manifestDigest sampleManifest, (isAscii_sha256Hex _).isText⟩
  challengeVersion := ⟨lit "3", isText_lit _⟩
  leaseToken := some ⟨lit "token", isText_lit _⟩

def sampleKey : Str := List.replicate 32 107

/-- Both probes print `1`, so the second case is not passed. -/
def sampleObserve (cases : List Case) : Except PyErr (Observations cases) :=
  .ok ⟨cases.map fun _ => ⟨.int 1, none⟩, by simp⟩

theorem evaluable_sample : Evaluable sampleInventories sampleKey sampleIdentity
    (manifestDigest sampleManifest) (lit "source") (some sampleSource) sampleObserve
    ((sampleInventories.casesFor (lit "demo")).getD []) := by
  have hmanifest : manifest sampleSource = .ok sampleManifest := by decide +kernel
  constructor
  · exact ⟨_, rfl⟩
  · decide
  · exact ⟨_, rfl, by decide, by decide⟩
  · exact ⟨_, verifySnapshot_of_manifest hmanifest (by decide +kernel)⟩
  · rfl
  · decide
  · decide
  · decide
  · intro c hc
    rcases List.mem_pair.mp hc with rfl | rfl <;> exact ⟨_, rfl⟩
  · refine ⟨_, rfl, ?_⟩
    intro o ho _
    obtain ⟨c, -, rfl⟩ := List.mem_map.mp ho
    exact ⟨_, rfl⟩

theorem signed_results_complete_and_sound_sample :
    ∃ envelope payload, evaluateSnapshot sampleInventories sampleKey sampleIdentity
        (manifestDigest sampleManifest) (lit "source") (some sampleSource)
        sampleObserve = .ok envelope ∧
      verifyResult sampleInventories sampleKey sampleIdentity envelope =
        .ok payload := by
  obtain ⟨hsigned, -⟩ := signed_results_complete_and_sound sampleInventories sampleKey
  obtain ⟨hproduced, haccepted⟩ := hsigned sampleIdentity (manifestDigest sampleManifest)
    (lit "source") (some sampleSource) sampleObserve
  obtain ⟨envelope, henvelope⟩ := hproduced _ evaluable_sample
  obtain ⟨⟨payload, hpayload⟩, -⟩ := haccepted envelope henvelope
  exact ⟨envelope, payload, henvelope, hpayload⟩

end PromptCode
