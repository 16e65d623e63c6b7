import PromptCode.ProcessRun

/-!
# Which outputs can be scored

Scoring catches the exceptions of a text that is not JSON, but not those of an integer that
is too long to be read or too large for a float, nor those of containers nested too deep.
-/

namespace PromptCode

open Py Scorer

variable (py : Interpreter)

/-- The similarity of two items; those that cannot be compared have none. -/
def similarity (expected got : Json) : UnitFloat := (itemScore py expected got).getD .zero

/-- The values can be compared: of two lists every expected item with the candidates that are
left when its turn comes, of two objects the values under a common key. -/
def ValuesComparable (got expected : Json) : Prop :=
  match got, expected with
  | .arr got, .arr expected =>
      ∀ e c, Greedy.Meets halfScore (similarity py) expected got e c → ItemComparable py c e
  | .obj got, .obj expected =>
      ∀ f ∈ expected, ∀ v, got.lookup f.1 = some v → Comparable py v f.2
  | _, _ => True

/-- What it takes to score an output in JSON mode, where nothing but `JSONDecodeError` is
caught. -/
structure JsonScorable (raw : Str) (groundTruth : Json) : Prop where
  digits : loads py raw ≠ .error .value
  noJson : loads py raw = .error .decode → written py groundTruth = true
  expected : ∀ got, loads py raw = .ok got → expectedValue py groundTruth ≠ .error .value ∧
    expectedValue py groundTruth ≠ .error .recursion
  values : ∀ got expected, loads py raw = .ok got → expectedValue py groundTruth = .ok expected →
    ValuesComparable py got expected ∧ shapeFrames expected got ≤ py.frames

/-- What it takes to score an output. -/
structure Scorable (raw mode : Str) (groundTruth : Json) : Prop where
  encodes : IsText raw
  depth : loads py raw ≠ .error .recursion
  confidence : ∀ fields f, loads py raw = .ok (.obj fields) →
    fields.find? (isConfidence py) = some f → beyondFloat f.2 = false
  text : mode ≠ lit "json" → ∃ text, groundTruth = .str text
  json : mode = lit "json" → JsonScorable py raw groundTruth

variable {py}

/-! ## Reading -/

theorem encodeChar_isSome_iff (c : CodePoint) :
    (encodeChar c).isSome ↔ isSurrogate c = false := by
  unfold encodeChar
  split_ifs with hascii htwo hsurrogate
  · simp only [Option.isSome_some, isSurrogate, Bool.and_eq_false_iff, decide_eq_false_iff_not,
      true_iff]
    omega
  · simp only [Option.isSome_some, isSurrogate, Bool.and_eq_false_iff, decide_eq_false_iff_not,
      true_iff]
    omega
  · simp [hsurrogate]
  · simp [hsurrogate]
  · simp [hsurrogate]

theorem utf8Encode_isSome_iff (s : Str) : (utf8Encode s).isSome ↔ IsText s := by
  induction s with
  | nil => simp [utf8Encode, IsText]
  | cons c s ih =>
      have hcons : IsText (c :: s) ↔ isSurrogate c = false ∧ IsText s := by
        simp [IsText]
      rw [hcons, ← encodeChar_isSome_iff, ← ih, utf8Encode]
      cases encodeChar c <;> cases utf8Encode s <;> simp

variable (py) in
/-- What `json.loads` raises. -/
theorem loads_cases (s : Str) :
    (∃ v, loads py s = .ok v) ∨ loads py s = .error .decode ∨ loads py s = .error .value ∨
      loads py s = .error .recursion := by
  unfold loads
  cases loadsOrRaise ⟨maxStrDigits, true⟩ py.loadsDepth s with
  | ok v => exact Or.inl ⟨v, rfl⟩
  | error e =>
      cases e
      · exact Or.inr (Or.inl rfl)
      · exact Or.inr (Or.inr (Or.inl rfl))
      · exact Or.inr (Or.inr (Or.inr rfl))

variable (py) in
theorem expectedValue_cases (groundTruth : Json) :
    (∃ v, expectedValue py groundTruth = .ok v) ∨
      (expectedValue py groundTruth = .error .decode ∧ written py groundTruth = true) ∨
      expectedValue py groundTruth = .error .value ∨
      expectedValue py groundTruth = .error .recursion := by
  cases groundTruth with
  | str text =>
      rcases loads_cases py text with h | h | h | h
      · exact Or.inl h
      · exact Or.inr (Or.inl ⟨h, rfl⟩)
      · exact Or.inr (Or.inr (Or.inl h))
      · exact Or.inr (Or.inr (Or.inr h))
  | _ => exact Or.inl ⟨_, rfl⟩

/-! ## Accuracy -/

theorem similarity_of_itemScore (e c : Json) (s : UnitFloat)
    (h : itemScore py e c = some s) : similarity py e c = s := by
  rw [similarity, h]
  rfl

theorem exists_listAccuracy_iff (got expected : List Json) :
    (∃ x, listAccuracy py got expected = .ok x) ↔
      ∀ e c, Greedy.Meets halfScore (similarity py) expected got e c →
        ItemComparable py c e := by
  by_cases hne : expected = []
  · subst hne
    exact ⟨fun _ e c h => absurd h (by simp [Greedy.Meets]), fun _ => ⟨_, rfl⟩⟩
  · obtain ⟨outs, hrun⟩ := Greedy.exists_run (itemScore py) halfScore expected got
    have hvalue := listAccuracy_of_run hne hrun
    have hsome := hrun.isSome_iff similarity_of_itemScore
    simp only [isSome_itemScore_iff] at hsome
    rw [← hsome]
    cases hlist : listAccuracy py got expected with
    | error e =>
        rw [hlist] at hvalue
        cases outs with
        | none => simp
        | some scores => cases hvalue
    | ok x =>
        rw [hlist] at hvalue
        cases outs with
        | none => cases hvalue
        | some scores => simp

theorem exists_valueAccuracy_iff (got expected : Json) :
    (∃ x, valueAccuracy py got expected = .ok x) ↔ ValuesComparable py got expected := by
  unfold valueAccuracy ValuesComparable
  split
  · exact exists_listAccuracy_iff _ _
  · exact exists_dictAccuracy_iff _ _
  · simp

theorem isUnit_valueAccuracy {got expected : Json} {x : PyFloat}
    (h : valueAccuracy py got expected = .ok x) : x.IsUnit := by
  unfold valueAccuracy at h
  split at h
  · exact isUnit_listAccuracy h
  · exact isUnit_dictAccuracy h
  · obtain rfl := Except.ok.inj h
    split_ifs
    · exact PyFloat.isUnit_one
    · exact PyFloat.isUnit_zero

/-- The ways in which `_json_accuracy` ends. -/
theorem jsonAccuracy_eq (raw : Str) (groundTruth : Json) :
    jsonAccuracy py raw groundTruth = match loads py raw with
      | .ok got => match expectedValue py groundTruth with
          | .ok expected => valueAccuracy py got expected
          | .error .decode => (str py groundTruth).map (textAccuracy raw)
          | .error e => .error e
      | .error .decode => (str py groundTruth).map (textAccuracy raw)
      | .error e => .error e := by
  unfold jsonAccuracy
  cases loads py raw with
  | error e => cases e <;> rfl
  | ok got =>
      cases expectedValue py groundTruth with
      | error e => cases e <;> rfl
      | ok expected => rfl

theorem exists_map_iff {α β : Type} {x : Except ScoreErr α} {f : α → β} :
    (∃ b, x.map f = .ok b) ↔ ∃ a, x = .ok a := by
  cases x <;> simp [Except.map]

theorem isUnit_scoreAccuracy {raw mode : Str} {groundTruth : Json} {x : PyFloat}
    (h : scoreAccuracy py raw groundTruth mode = .ok x) : x.IsUnit := by
  have htext : (str py groundTruth).map (textAccuracy raw) = .ok x → x.IsUnit := by
    intro htext
    cases hstr : str py groundTruth with
    | error e => simp [hstr, Except.map] at htext
    | ok s =>
        rw [hstr] at htext
        obtain rfl := Except.ok.inj htext
        exact Difflib.isUnit_ratio _ _
  unfold scoreAccuracy at h
  split at h
  · rw [jsonAccuracy_eq] at h
    split at h
    · split at h
      · exact isUnit_valueAccuracy h
      · exact htext h
      · cases h
    · exact htext h
    · cases h
  · split at h
    · obtain rfl := Except.ok.inj h
      exact Difflib.isUnit_ratio _ _
    · cases h

/-! ## Confidence -/

/-- The conversion of a number raises only beyond the floats. -/
theorem exists_parseNumber_of_isConfidence {f : Str × Json} (h : isConfidence py f = true) :
    (∃ x, parseNumber py f.2 = .ok x) ↔ beyondFloat f.2 = false := by
  obtain ⟨k, v⟩ := f
  cases v with
  | bool b => exact ⟨fun _ => rfl, fun _ => ⟨_, rfl⟩⟩
  | float x => exact ⟨fun _ => rfl, fun _ => ⟨x, rfl⟩⟩
  | int z =>
      dsimp only
      rw [parseNumber, beyondFloat]
      cases PyFloat.ofInt z with
      | none => simp [orRaise]
      | some x => simp [orRaise]
  | _ => simp [isConfidence, isPlainNumber] at h

theorem exists_extractConfidenceValue_iff (raw : Str) :
    (∃ x, extractConfidenceValue py raw = .ok x) ↔
      loads py raw ≠ .error .recursion ∧
        ∀ fields f, loads py raw = .ok (.obj fields) →
          fields.find? (isConfidence py) = some f → beyondFloat f.2 = false := by
  unfold extractConfidenceValue
  rcases loads_cases py raw with ⟨v, h⟩ | h | h | h
  · rw [h]
    cases v with
    | obj fields =>
        dsimp only
        cases hfind : fields.find? (isConfidence py) with
        | none =>
            refine ⟨fun _ => ⟨by simp, ?_⟩, fun _ => ⟨none, rfl⟩⟩
            intro fields' f heq hf
            obtain rfl := Json.obj.inj (Except.ok.inj heq)
            rw [hfind] at hf
            cases hf
        | some f =>
            rw [exists_map_iff,
              exists_parseNumber_of_isConfidence (List.find?_some hfind)]
            constructor
            · intro hbeyond
              refine ⟨by simp, fun fields' g heq hg => ?_⟩
              obtain rfl := Json.obj.inj (Except.ok.inj heq)
              rw [hfind] at hg
              obtain rfl := Option.some.inj hg
              exact hbeyond
            · exact fun hall => hall.2 fields f rfl hfind
    | _ => simp
  · simp [h, ScoreErr.isValueError]
  · simp [h, ScoreErr.isValueError]
  · simp [h, ScoreErr.isValueError]

/-! ## The whole record -/

/-- The accuracy in JSON mode. -/
theorem exists_jsonAccuracy_iff (raw : Str) (groundTruth : Json) :
    (∃ x, jsonAccuracy py raw groundTruth = .ok x) ↔
      loads py raw ≠ .error .value ∧ loads py raw ≠ .error .recursion ∧
      (loads py raw = .error .decode → written py groundTruth = true) ∧
      ∀ got, loads py raw = .ok got → expectedValue py groundTruth ≠ .error .value ∧
        expectedValue py groundTruth ≠ .error .recursion ∧
        ∀ expected, expectedValue py groundTruth = .ok expected →
          ValuesComparable py got expected := by
  rw [jsonAccuracy_eq]
  rcases loads_cases py raw with ⟨got, h⟩ | h | h | h
  · rw [h]
    dsimp only
    rcases expectedValue_cases py groundTruth with
      ⟨expected, he⟩ | ⟨he, hwritten⟩ | he | he
    · rw [he]
      simp [exists_valueAccuracy_iff]
    · rw [he]
      simpa [exists_map_iff] using written_iff.mp hwritten
    · simp [he]
    · simp [he]
  · rw [h]
    simp [exists_map_iff, written_iff]
  · simp [h]
  · simp [h]

/-- The check of the shape in JSON mode. -/
theorem exists_isSchemaValid_iff (raw : Str) (groundTruth : Json) :
    (∃ b, isSchemaValid py raw (lit "json") groundTruth = .ok b) ↔
      loads py raw ≠ .error .recursion ∧
      ∀ got, loads py raw = .ok got → expectedValue py groundTruth ≠ .error .recursion ∧
        ∀ expected, expectedValue py groundTruth = .ok expected →
          shapeFrames expected got ≤ py.frames := by
  have hmode : ¬ (lit "json" ≠ lit "json") := fun h => h rfl
  rw [isSchemaValid, if_neg hmode]
  rcases loads_cases py raw with ⟨got, h⟩ | h | h | h
  · rcases expectedValue_cases py groundTruth with
      ⟨expected, he⟩ | ⟨he, -⟩ | he | he
    · by_cases hframes : shapeFrames expected got ≤ py.frames
      · simp [h, he, bind, Except.bind, validateShape_eq, withinFrames, hframes]
      · simp [h, he, bind, Except.bind, validateShape_eq, withinFrames, hframes,
          ScoreErr.isValueError]
    · simp [h, he, bind, Except.bind, ScoreErr.isValueError]
    · simp [h, he, bind, Except.bind, ScoreErr.isValueError]
    · simp [h, he, bind, Except.bind, ScoreErr.isValueError]
  · simp [h, bind, Except.bind, ScoreErr.isValueError]
  · simp [h, bind, Except.bind, ScoreErr.isValueError]
  · simp [h, bind, Except.bind, ScoreErr.isValueError]

/-- The accuracy and the check of the shape, in either mode. -/
theorem exists_accuracy_and_shape_iff (raw mode : Str) (groundTruth : Json)
    (hdepth : loads py raw ≠ .error .recursion) :
    ((∃ x, scoreAccuracy py raw groundTruth mode = .ok x) ∧
      ∃ b, isSchemaValid py raw mode groundTruth = .ok b) ↔
      (mode ≠ lit "json" → ∃ text, groundTruth = .str text) ∧
      (mode = lit "json" → JsonScorable py raw groundTruth) := by
  by_cases hmode : mode = lit "json"
  · subst hmode
    unfold scoreAccuracy
    rw [if_pos rfl, exists_jsonAccuracy_iff, exists_isSchemaValid_iff]
    constructor
    · rintro ⟨⟨hdigits, -, hnoJson, hvalues⟩, -, hframes⟩
      refine ⟨fun h => absurd rfl h, fun _ => ⟨hdigits, hnoJson, ?_, ?_⟩⟩
      · intro got hgot
        exact ⟨(hvalues got hgot).1, (hvalues got hgot).2.1⟩
      · intro got expected hgot hexp
        exact ⟨(hvalues got hgot).2.2 expected hexp, (hframes got hgot).2 expected hexp⟩
    · rintro ⟨-, hjson⟩
      obtain ⟨hdigits, hnoJson, hexpected, hvalues⟩ := hjson rfl
      refine ⟨⟨hdigits, hdepth, hnoJson, ?_⟩, hdepth, ?_⟩
      · intro got hgot
        exact ⟨(hexpected got hgot).1, (hexpected got hgot).2,
          fun expected hexp => (hvalues got expected hgot hexp).1⟩
      · intro got hgot
        exact ⟨(hexpected got hgot).2, fun expected hexp => (hvalues got expected hgot hexp).2⟩
  · unfold scoreAccuracy isSchemaValid
    rw [if_neg hmode, if_pos hmode]
    cases groundTruth with
    | str text =>
        exact ⟨fun _ => ⟨fun _ => ⟨text, rfl⟩, fun h => absurd h hmode⟩,
          fun _ => ⟨⟨_, rfl⟩, ⟨_, rfl⟩⟩⟩
    | _ => simp [hmode]

theorem exists_outputHash_iff (raw : Str) :
    (∃ hash, outputHash raw = .ok hash) ↔ IsText raw := by
  rw [← utf8Encode_isSome_iff]
  unfold outputHash
  cases raw with
  | nil => simp [utf8Encode]
  | cons c raw => cases utf8Encode (c :: raw) <;> simp

/-- The steps of scoring; none depends on the result of another. -/
theorem scoreOutput_eq_ok {output mode : Str} {groundTruth : Json} {score : OutputScore} :
    scoreOutput py output mode groundTruth = .ok score ↔
      ∃ hash accuracy valid confidence, outputHash (strip output) = .ok hash ∧
        scoreAccuracy py (strip output) groundTruth mode = .ok accuracy ∧
        isSchemaValid py (strip output) mode groundTruth = .ok valid ∧
        extractConfidenceValue py (strip output) = .ok confidence ∧
        score = ⟨accuracy, valid, confidence, (strip output).length, hash⟩ := by
  unfold scoreOutput
  simp only [bind_eq_ok]
  constructor
  · rintro ⟨hash, hhash, accuracy, haccuracy, valid, hvalid, confidence, hconfidence, hscore⟩
    obtain rfl := Except.ok.inj hscore
    exact ⟨hash, accuracy, valid, confidence, hhash, haccuracy, hvalid, hconfidence, rfl⟩
  · rintro ⟨hash, accuracy, valid, confidence, hhash, haccuracy, hvalid, hconfidence, rfl⟩
    exact ⟨hash, hhash, accuracy, haccuracy, valid, hvalid, confidence, hconfidence, rfl⟩

/-- The output of a run is scored exactly when it can be. -/
theorem exists_scoreOutput_iff (output mode : Str) (groundTruth : Json) :
    (∃ score, scoreOutput py output mode groundTruth = .ok score) ↔
      Scorable py (strip output) mode groundTruth := by
  constructor
  · rintro ⟨score, hscore⟩
    obtain ⟨hash, accuracy, valid, confidence, hhash, haccuracy, hvalid, hconfidence, -⟩ :=
      scoreOutput_eq_ok.mp hscore
    obtain ⟨hdepth, hbeyond⟩ :=
      (exists_extractConfidenceValue_iff _).mp ⟨confidence, hconfidence⟩
    obtain ⟨hmode, hjson⟩ := (exists_accuracy_and_shape_iff _ mode groundTruth hdepth).mp
      ⟨⟨accuracy, haccuracy⟩, valid, hvalid⟩
    exact ⟨(exists_outputHash_iff _).mp ⟨hash, hhash⟩, hdepth, hbeyond, hmode, hjson⟩
  · rintro ⟨htext, hdepth, hbeyond, hmode, hjson⟩
    obtain ⟨hash, hhash⟩ := (exists_outputHash_iff _).mpr htext
    obtain ⟨⟨accuracy, haccuracy⟩, valid, hvalid⟩ :=
      (exists_accuracy_and_shape_iff _ mode groundTruth hdepth).mpr ⟨hmode, hjson⟩
    obtain ⟨confidence, hconfidence⟩ :=
      (exists_extractConfidenceValue_iff _).mpr ⟨hdepth, hbeyond⟩
    exact ⟨_, scoreOutput_eq_ok.mpr
      ⟨hash, accuracy, valid, confidence, hhash, haccuracy, hvalid, hconfidence, rfl⟩⟩

theorem isUnit_scoreOutput {output mode : Str} {groundTruth : Json} {score : OutputScore}
    (h : scoreOutput py output mode groundTruth = .ok score) : score.accuracy.IsUnit := by
  obtain ⟨hash, accuracy, valid, confidence, -, haccuracy, -, -, rfl⟩ := scoreOutput_eq_ok.mp h
  exact isUnit_scoreAccuracy haccuracy

/-- A run is recorded, with an accuracy between 0 and 1, exactly when its output can be
scored. -/
theorem processRun_returns_iff (py : Interpreter) (result : SandboxResult)
    (groundTruth : Json) (mode runType : Str) (runIndex : ℕ) (metadata : List (Str × Json)) :
    (∃ record, processRun py result groundTruth mode runType runIndex metadata = .ok record ∧
      record.accuracy.IsUnit) ↔
      (result.success = true → Scorable py (strip result.output) mode groundTruth) := by
  rw [← exists_scoreOutput_iff]
  unfold processRun
  cases result.success with
  | false =>
      have hzero : ({} : OutputScore).accuracy.IsUnit := PyFloat.isUnit_zero
      refine ⟨fun _ h => absurd h (by simp), fun _ => ⟨_, rfl, ?_⟩⟩
      rw [runRecord_accuracy]
      exact hzero.round 4
  | true =>
      simp only [if_true, forall_const]
      cases hscore : scoreOutput py result.output mode groundTruth with
      | error e => simp [bind, Except.bind]
      | ok score =>
          refine ⟨fun _ => ⟨score, rfl⟩, fun _ => ⟨_, rfl, ?_⟩⟩
          rw [runRecord_accuracy]
          exact (isUnit_scoreOutput hscore).round 4

/-- An output is not recorded when it holds an integer that no float can hold. -/
theorem processRun_overflows :
    let py : Interpreter := ⟨.ascii, 1000, 1000, 1000⟩
    let output : Str := lit "[1" ++ List.replicate 400 (ord '0') ++ lit "]"
    ¬ ∃ record, processRun py ⟨true, output, [], none⟩ (.str (lit "[1]")) (lit "json")
      (lit "visible") 0 [] = .ok record := by
  intro py output
  have hscore : (scoreOutput py output (lit "json") (.str (lit "[1]"))).toOption.isNone := by
    decide +kernel
  rintro ⟨record, hrun⟩
  unfold processRun at hrun
  obtain ⟨score, hok, -⟩ := bind_eq_ok.mp hrun
  rw [show scoreOutput py output (lit "json") (.str (lit "[1]")) = .ok score from hok] at hscore
  exact absurd hscore (by simp [Except.toOption])

end PromptCode
