import PromptCode.Py.Difflib
import PromptCode.Py.Equality
import PromptCode.Py.JsonErrors
import PromptCode.Py.Strptime

/-!
# The accuracy of a run

`score_accuracy`: the output of a candidate's program is compared with the ground truth of
the challenge.  In JSON mode the fields of an object are compared by name, and the items of
a list are paired with the most similar items of the output; a number, a date, a name and
any other text are each compared in their own way.
-/

namespace PromptCode

open Py

/-- What the interpreter brings: the Unicode database, how deep `json.loads` and `repr`
follow containers, and how many calls may be nested. -/
structure Interpreter where
  unicode : UnicodeData
  loadsDepth : ℕ
  reprDepth : ℕ
  frames : ℕ

/-- The exceptions that scoring meets: `JSONDecodeError`, another `ValueError`,
`OverflowError`, `RecursionError`, `AttributeError` and `UnicodeEncodeError`. -/
inductive ScoreErr where
  | decode
  | value
  | overflow
  | recursion
  | attribute
  | encode
  deriving DecidableEq

/-- `isinstance(exc, ValueError)` -/
def ScoreErr.isValueError : ScoreErr → Bool
  | .decode => true
  | .value => true
  | .encode => true
  | _ => false

def LoadsErr.toScore : LoadsErr → ScoreErr
  | .decode => .decode
  | .digits => .value
  | .recursion => .recursion

namespace Scorer

variable (py : Interpreter)

/-- `json.loads(s)` -/
def loads (s : Str) : Except ScoreErr Json :=
  (loadsOrRaise ⟨maxStrDigits, true⟩ py.loadsDepth s).mapError LoadsErr.toScore

/-- `str(v)` -/
def str : Json → Except ScoreErr Str
  | .str s => .ok s
  | v =>
      if py.reprDepth < v.depth then .error .recursion
      -- an integer has too many digits
      else if v.allWritten then .ok (v.repr py.unicode)
      else .error .value

/-- `re.sub(r"\s+", " ", s)`; the flag tells that the last character was white space. -/
def joinSpaces : Bool → Str → Str
  | _, [] => []
  | inSpace, c :: s =>
      if isSpace c then (if inSpace then joinSpaces true s else 32 :: joinSpaces true s)
      else c :: joinSpaces false s

/-- `s.split()` -/
def words (s : Str) : List Str := (s.splitOnP isSpace).filter (· ≠ [])

/-! ## Numbers -/

/-- The text that `_parse_number` converts: no white space, commas and dollar signs, and no
currency in front. -/
def numberText (s : Str) : Str :=
  let s := (strip s).filter fun c => !(c = 44 || c = 36 || isSpace c)
  if (lit "USD").isPrefixOf s || (lit "usd").isPrefixOf s then (s.drop 3).dropWhile isSpace
  else s

@[irreducible] def textNumber (s : Str) : Option PyFloat :=
  floatOfText py.unicode (numberText s)

/-- The result of a conversion, or its exception. -/
def orRaise (e : ScoreErr) : Option PyFloat → Except ScoreErr PyFloat
  | some x => .ok x
  | none => .error e

/-- `_parse_number` -/
def parseNumber : Json → Except ScoreErr PyFloat
  | .bool b => .ok (if b then .one else .zero)
  | .int z => orRaise .overflow (PyFloat.ofInt z)
  | .float x => .ok x
  | v => do
      let s ← str py v
      orRaise .value (textNumber py s)

/-- `_is_numeric` -/
def isNumeric : Json → Except ScoreErr Bool
  | .bool _ => .ok true
  | .int _ => .ok true
  | .float _ => .ok true
  | v => match parseNumber py v with
      | .ok _ => .ok true
      | .error e => if e.isValueError then .ok false else .error e

/-- The score of two numbers. -/
def numericScore (got expected : PyFloat) : PyFloat :=
  if expected.isZero then (if got.isZero then .one else .zero)
  else
    let relativeError := (got.sub expected).abs.div expected.abs
    if relativeError.lt (.ofDecimal 1 (-3)) then .one
    else if relativeError.lt (.ofDecimal 1 (-2)) then .ofDecimal 9 (-1)
    else if relativeError.lt (.ofDecimal 5 (-2)) then .ofDecimal 7 (-1)
    else .zero

/-- `_match_numeric` -/
def matchNumeric (got expected : Json) : Except ScoreErr PyFloat :=
  match (do
    let gotNum ← parseNumber py got
    let expNum ← parseNumber py expected
    return (gotNum, expNum)) with
  | .ok nums => .ok (numericScore nums.1 nums.2)
  | .error e => if e.isValueError then .ok .zero else .error e

/-! ## Texts -/

/-- `_normalize` -/
def normalize (s : Str) : Str := joinSpaces false (py.unicode.lower (strip s))

/-- `_match_string` -/
def matchString (got expected : Str) : PyFloat :=
  let gotNorm := normalize py got
  let expNorm := normalize py expected
  if gotNorm = expNorm then .one
  else if contains gotNorm expNorm || contains expNorm gotNorm then
    let shorter := Min.min gotNorm.length expNorm.length
    let longer := Max.max gotNorm.length expNorm.length
    if (PyFloat.ofDecimal 7 (-1)).lt (.trueDiv shorter longer) then .ofDecimal 85 (-2)
    else .ofDecimal 6 (-1)
  else
    let ratio := Difflib.ratio gotNorm expNorm
    if ratio.ge (.ofDecimal 9 (-1)) then ratio
    else if ratio.ge (.ofDecimal 7 (-1)) then ratio.mul (.ofDecimal 8 (-1))
    else .zero

/-- `re.sub(r"\s*\.\s*", ". ", s)`, part by part between the dots. -/
def spaceDots (part : Str) : List Str → Str
  | [] => part
  | next :: parts => rstrip isSpace part ++ lit ". " ++ spaceDots (lstrip isSpace next) parts

/-- `_normalize_name` -/
def normalizeName (name : Str) : Str :=
  let name := joinSpaces false (py.unicode.lower (strip name))
  let name := if name.getLast? = some dot then name.dropLast else name
  match split dot name with
  | [] => []
  | part :: parts => spaceDots part parts

/-- `_match_name` -/
def matchName (got expected : Str) : PyFloat :=
  let gotClean := normalizeName py got
  let expClean := normalizeName py expected
  if gotClean = expClean then .one
  else
    let gotParts := words gotClean
    let expParts := words expClean
    if 2 ≤ gotParts.length ∧ 2 ≤ expParts.length ∧ gotParts.head? = expParts.head? ∧
        gotParts.getLast? = expParts.getLast? then .ofDecimal 95 (-2)
    else
      let ratio := Difflib.ratio gotClean expClean
      if ratio.ge (.ofDecimal 85 (-2)) then ratio
      else if ratio.lt (.ofDecimal 5 (-1)) then .zero
      else ratio.mul (.ofDecimal 5 (-1))

/-! ## Dates -/

/-- `_DATE_FORMATS` -/
def dateFormats : List Str :=
  [lit "%Y-%m-%d", lit "%m/%d/%Y", lit "%m-%d-%Y", lit "%d/%m/%Y", lit "%B %d %Y",
    lit "%B %d, %Y", lit "%b %d %Y", lit "%b %d, %Y", lit "%b %d,%Y", lit "%d %B %Y",
    lit "%d %b %Y", lit "%Y/%m/%d", lit "%m/%d/%y"]

/-- `(\d{4})-(\d{1,2})-(\d{1,2})` -/
def isoDate : Matcher (ℕ × ℕ × ℕ) := do
  let year ← Matcher.digits py.unicode 4 0 0
  let _ ← Matcher.char (· = 45)
  let month ← Matcher.digits py.unicode 1 1 0
  let _ ← Matcher.char (· = 45)
  let day ← Matcher.digits py.unicode 1 1 0
  return (year, month, day)

/-- `\d{1,2}/\d{1,2}/\d{2,4}` -/
def slashDate : Matcher Unit := do
  let _ ← Matcher.digits py.unicode 1 1 0
  let _ ← Matcher.char (· = slash)
  let _ ← Matcher.digits py.unicode 1 1 0
  let _ ← Matcher.char (· = slash)
  let _ ← Matcher.digits py.unicode 2 2 0
  return ()

/-- The month names of `_looks_like_date`, and a day after one. -/
def monthAndDay : Matcher Unit := do
  let _ ← Matcher.oneOf ((monthNames ++
    [lit "jan", lit "feb", lit "mar", lit "apr", lit "jun", lit "jul", lit "aug", lit "sep",
      lit "oct", lit "nov", lit "dec"]).map Matcher.word)
  Matcher.someSpaces
  let _ ← Matcher.digits py.unicode 1 1 0
  return ()

/-- `_looks_like_date` -/
def looksLikeDate (text : Str) : Bool :=
  let text := strip text
  (Matcher.matchFront (do let _ ← isoDate py; Matcher.atEnd) text).isSome ||
    (Matcher.matchFront (do slashDate py; Matcher.atEnd) text).isSome ||
    (Matcher.search (monthAndDay py) text).isSome

/-- `_parse_date` -/
def parseDate (text : Str) : Option Date :=
  let text := rstrip (· = dot) (joinSpaces false (strip text))
  match dateFormats.findSome? (strptime py.unicode text) with
  | some date => some date
  | none => (Matcher.search (isoDate py) text).bind fun d => Date.of d.1 d.2.1 d.2.2

/-- `_match_date` -/
def matchDate (got expected : Str) : PyFloat :=
  match parseDate py got, parseDate py expected with
  | some gotDate, some expDate =>
      if gotDate = expDate then .one
      else if |gotDate.ordinal - expDate.ordinal| ≤ 1 then .ofDecimal 8 (-1)
      else .zero
  | _, _ => matchString py got expected

/-! ## Values -/

/-- The two texts are compared as dates, as names or as any texts. -/
def matchText (got expected fieldName : Str) : PyFloat :=
  if looksLikeDate py expected || looksLikeDate py got then matchDate py got expected
  else if contains (lit "name") (py.unicode.lower fieldName) then matchName py got expected
  else matchString py got expected

/-- `_fuzzy_field_match` -/
def fuzzyFieldMatch (got expected : Json) (fieldName : Str) : Except ScoreErr PyFloat :=
  match got, expected with
  | .null, .null => .ok .one
  | .null, _ => .ok .zero
  | _, .null => .ok .zero
  | got, expected => do
      if ← isNumeric py expected then matchNumeric py got expected
      else
        let expText ← str py expected
        let gotText ← str py got
        return matchText py gotText expText fieldName

/-- The score of one expected field; a missing one is passed over. -/
def fieldScore (got : List (Str × Json)) (f : Str × Json) :
    Except ScoreErr (Option PyFloat) :=
  match got.lookup f.1 with
  | none => .ok none
  | some v => (fuzzyFieldMatch py v f.2 f.1).map some

def addScore (total : PyFloat) : Option PyFloat → PyFloat
  | none => total
  | some s => total.add s

/-- `_dict_accuracy` -/
def dictAccuracy (got expected : List (Str × Json)) : Except ScoreErr PyFloat :=
  if expected.isEmpty then .ok (if got.isEmpty then .one else .zero)
  else do
    let total ← expected.foldlM (fun total f => (fieldScore py got f).map (addScore total)) .zero
    return total.divNat expected.length

/-- The similarity of two items of a list. -/
def itemMatch (got expected : Json) : Except ScoreErr PyFloat :=
  match got, expected with
  | .obj got, .obj expected => dictAccuracy py got expected
  | got, expected => fuzzyFieldMatch py got expected []

/-- The inner loop of `_list_accuracy`: the best score and its index. -/
def bestCandidate (got : List Json) (used : List ℕ) (expected : Json) :
    Except ScoreErr (PyFloat × Option ℕ) :=
  got.zipIdx.foldlM (fun best c =>
    if c.2 ∈ used then .ok best
    else (itemMatch py c.1 expected).map fun s =>
      if best.1.lt s then (s, some c.2) else best) (.zero, none)

/-- What the outer loop of `_list_accuracy` keeps. -/
structure Pairing where
  correct : PyFloat := .zero
  used : List ℕ := []

/-- A candidate that is not similar enough stays available. -/
def Pairing.take (p : Pairing) : PyFloat × Option ℕ → Pairing
  | (score, some j) =>
      if score.ge (.ofDecimal 5 (-1)) then ⟨p.correct.add score, j :: p.used⟩ else p
  | (_, none) => p

def pairItems (got : List Json) (p : Pairing) (expected : List Json) :
    Except ScoreErr Pairing :=
  expected.foldlM (fun p e => (bestCandidate py got p.used e).map p.take) p

/-- `_list_accuracy` -/
def listAccuracy (got expected : List Json) : Except ScoreErr PyFloat :=
  if expected.isEmpty then .ok (if got.isEmpty then .one else .zero)
  else do
    let p ← pairItems py got {} expected
    return p.correct.divNat expected.length

/-- `_text_accuracy` -/
def textAccuracy (output groundTruth : Str) : PyFloat :=
  Difflib.ratio (strip output) (strip groundTruth)

/-- `json.loads(ground_truth) if isinstance(ground_truth, str) else ground_truth` -/
def expectedValue : Json → Except ScoreErr Json
  | .str text => loads py text
  | v => .ok v

/-- The comparison of two values that have been read. -/
def valueAccuracy (got expected : Json) : Except ScoreErr PyFloat :=
  match got, expected with
  | .arr got, .arr expected => listAccuracy py got expected
  | .obj got, .obj expected => dictAccuracy py got expected
  | got, expected => .ok (if got.eq expected then .one else .zero)

/-- `_json_accuracy` -/
def jsonAccuracy (output : Str) (groundTruth : Json) : Except ScoreErr PyFloat :=
  match (do
    let got ← loads py output
    let expected ← expectedValue py groundTruth
    return (got, expected)) with
  | .ok values => valueAccuracy py values.1 values.2
  -- `except (json.JSONDecodeError, TypeError)`
  | .error .decode => (str py groundTruth).map (textAccuracy output)
  | .error e => .error e

/-- `score_accuracy` -/
def scoreAccuracy (output : Str) (groundTruth : Json) (mode : Str) : Except ScoreErr PyFloat :=
  if mode = lit "json" then jsonAccuracy py output groundTruth
  else match groundTruth with
    | .str text => .ok (textAccuracy output text)
    -- only a text has a method `strip`
    | _ => .error .attribute

/-! ## Every score lies between 0 and 1 -/

section

variable {py : Interpreter}

theorem isUnit_numericScore (got expected : PyFloat) : (numericScore got expected).IsUnit := by
  unfold numericScore
  dsimp only
  split_ifs
  · exact PyFloat.isUnit_one
  · exact PyFloat.isUnit_zero
  · exact PyFloat.isUnit_one
  · exact PyFloat.isUnit_ofDecimal (by decide) (by decide)
  · exact PyFloat.isUnit_ofDecimal (by decide) (by decide)
  · exact PyFloat.isUnit_zero

theorem isUnit_matchNumeric {got expected : Json} {x : PyFloat}
    (h : matchNumeric py got expected = .ok x) : x.IsUnit := by
  unfold matchNumeric at h
  split at h
  · obtain rfl := Except.ok.inj h
    exact isUnit_numericScore _ _
  · split_ifs at h
    obtain rfl := Except.ok.inj h
    exact PyFloat.isUnit_zero

theorem isUnit_matchString (got expected : Str) : (matchString py got expected).IsUnit := by
  have hratio := Difflib.isUnit_ratio (normalize py got) (normalize py expected)
  unfold matchString
  dsimp only
  split_ifs
  · exact PyFloat.isUnit_one
  · exact PyFloat.isUnit_ofDecimal (by decide) (by decide)
  · exact PyFloat.isUnit_ofDecimal (by decide) (by decide)
  · exact hratio
  · exact hratio.mul (PyFloat.isUnit_ofDecimal (by decide) (by decide))
  · exact PyFloat.isUnit_zero

theorem isUnit_matchName (got expected : Str) : (matchName py got expected).IsUnit := by
  have hratio := Difflib.isUnit_ratio (normalizeName py got) (normalizeName py expected)
  unfold matchName
  dsimp only
  split_ifs
  · exact PyFloat.isUnit_one
  · exact PyFloat.isUnit_ofDecimal (by decide) (by decide)
  · exact hratio
  · exact PyFloat.isUnit_zero
  · exact hratio.mul (PyFloat.isUnit_ofDecimal (by decide) (by decide))

theorem isUnit_matchDate (got expected : Str) : (matchDate py got expected).IsUnit := by
  unfold matchDate
  split
  · split_ifs
    · exact PyFloat.isUnit_one
    · exact PyFloat.isUnit_ofDecimal (by decide) (by decide)
    · exact PyFloat.isUnit_zero
  · exact isUnit_matchString _ _

theorem isUnit_matchText (got expected fieldName : Str) :
    (matchText py got expected fieldName).IsUnit := by
  unfold matchText
  split_ifs
  · exact isUnit_matchDate _ _
  · exact isUnit_matchName _ _
  · exact isUnit_matchString _ _

end

/-! ## Which values can be compared -/

/-- The interpreter does not follow the value to its innermost containers. -/
def TooDeep (v : Json) : Prop := py.reprDepth < v.depth

instance (v : Json) : Decidable (TooDeep py v) := inferInstanceAs (Decidable (_ < _))

/-- An integer that no float can hold. -/
def beyondFloat : Json → Bool
  | .int z => (PyFloat.ofInt z).isNone
  | _ => false

/-- The value is a number, or its text reads as one. -/
def numberLike : Json → Bool
  | .bool _ => true
  | .int _ => true
  | .float _ => true
  | v => match str py v with
      | .ok s => (textNumber py s).isSome
      | .error _ => false

/-- `str(v)` does not raise. -/
def written (v : Json) : Bool :=
  match str py v with
  | .ok _ => true
  | .error _ => false

/-- What it takes to compare two values that are not null: a number is converted, and with it
whatever it is compared with; other values are written as texts. -/
def Comparable (got expected : Json) : Prop :=
  got = .null ∨ expected = .null ∨
    if numberLike py expected then
      ¬ TooDeep py got ∧ beyondFloat got = false ∧
        (numberLike py got = true → beyondFloat expected = false)
    else written py expected = true ∧ written py got = true

instance (got expected : Json) : Decidable (Comparable py got expected) := by
  have hnull (v : Json) : Decidable (v = .null) := by
    cases v
    · exact isTrue rfl
    all_goals exact isFalse (by simp)
  unfold Comparable
  infer_instance

/-- What it takes to compare two items of a list. -/
def ItemComparable (got expected : Json) : Prop :=
  match got, expected with
  | .obj got, .obj expected =>
      ∀ f ∈ expected, ∀ v, got.lookup f.1 = some v → Comparable py v f.2
  | got, expected => Comparable py got expected

/-- The ways in which the conversion of a value ends. -/
inductive Parsed (v : Json) : Except ScoreErr PyFloat → Prop
  | number (x : PyFloat) (hlike : numberLike py v = true) (hbeyond : beyondFloat v = false)
      (hdeep : ¬ TooDeep py v) : Parsed v (.ok x)
  | overflow (hlike : numberLike py v = true) (hbeyond : beyondFloat v = true)
      (hdeep : ¬ TooDeep py v) : Parsed v (.error .overflow)
  | noNumber (hlike : numberLike py v = false) (hbeyond : beyondFloat v = false)
      (hdeep : ¬ TooDeep py v) : Parsed v (.error .value)
  | tooDeep (hlike : numberLike py v = false) (hbeyond : beyondFloat v = false)
      (hdeep : TooDeep py v) : Parsed v (.error .recursion)

section

variable {py : Interpreter}

theorem str_of_tooDeep {v : Json} (h : TooDeep py v) : str py v = .error .recursion := by
  unfold TooDeep at h
  cases v with
  | str s => simp [Json.depth] at h
  | _ => exact if_pos h

theorem str_of_not_tooDeep {v : Json} (h : ¬ TooDeep py v) :
    (∃ s, str py v = .ok s) ∨ str py v = .error .value := by
  unfold TooDeep at h
  cases v with
  | str s => exact Or.inl ⟨s, rfl⟩
  | _ =>
      simp only [str, if_neg h]
      split_ifs
      · exact Or.inl ⟨_, rfl⟩
      · exact Or.inr rfl

/-- A value that is no number is converted by its text. -/
theorem parsed_of_text {v : Json} (hbeyond : beyondFloat v = false)
    (hparse : parseNumber py v = (str py v >>= fun s => orRaise .value (textNumber py s)))
    (hlike : numberLike py v = match str py v with
      | .ok s => (textNumber py s).isSome
      | .error _ => false) : Parsed py v (parseNumber py v) := by
  by_cases hdeep : TooDeep py v
  · rw [str_of_tooDeep hdeep] at hparse hlike
    rw [hparse]
    exact Parsed.tooDeep hlike hbeyond hdeep
  · rcases str_of_not_tooDeep hdeep with ⟨s, hs⟩ | hs
    · rw [hs] at hparse hlike
      dsimp only at hlike
      rw [hparse]
      change Parsed py v (orRaise .value (textNumber py s))
      cases hnumber : textNumber py s with
      | none =>
          rw [hnumber] at hlike
          exact Parsed.noNumber hlike hbeyond hdeep
      | some x =>
          rw [hnumber] at hlike
          exact Parsed.number x hlike hbeyond hdeep
    · rw [hs] at hparse hlike
      rw [hparse]
      exact Parsed.noNumber hlike hbeyond hdeep

variable (py) in
theorem parsed (v : Json) : Parsed py v (parseNumber py v) := by
  have hscalar : ∀ w : Json, w.depth = 0 → ¬ TooDeep py w := by
    intro w hw
    simp [TooDeep, hw]
  cases v with
  | bool b => exact Parsed.number _ rfl rfl (hscalar _ rfl)
  | float x => exact Parsed.number _ rfl rfl (hscalar _ rfl)
  | int z =>
      rw [parseNumber]
      cases hz : PyFloat.ofInt z with
      | none => exact Parsed.overflow rfl (by rw [beyondFloat, hz]; rfl) (hscalar _ rfl)
      | some x => exact Parsed.number x rfl (by rw [beyondFloat, hz]; rfl) (hscalar _ rfl)
  | null => exact parsed_of_text rfl rfl rfl
  | str s => exact parsed_of_text rfl rfl rfl
  | arr items => exact parsed_of_text rfl rfl rfl
  | obj fields => exact parsed_of_text rfl rfl rfl

variable (py) in
/-- The ways in which the test for a number ends. -/
theorem isNumeric_cases (v : Json) :
    (isNumeric py v = .ok (numberLike py v) ∧ ¬ TooDeep py v) ∨
      (isNumeric py v = .error .recursion ∧ numberLike py v = false ∧ TooDeep py v) := by
  have hscalar : ∀ w : Json, w.depth = 0 → ¬ TooDeep py w := by
    intro w hw
    simp [TooDeep, hw]
  have htext : ∀ w : Json, beyondFloat w = false → isNumeric py w = (match parseNumber py w with
      | .ok _ => .ok true
      | .error e => if e.isValueError then .ok false else .error e) →
      (isNumeric py w = .ok (numberLike py w) ∧ ¬ TooDeep py w) ∨
        (isNumeric py w = .error .recursion ∧ numberLike py w = false ∧ TooDeep py w) := by
    intro w hbeyond heq
    rw [heq]
    have hparsed := parsed py w
    generalize parseNumber py w = r at hparsed
    cases hparsed with
    | number x hlike _ hdeep => exact Or.inl ⟨by rw [hlike], hdeep⟩
    | overflow _ hbeyond' _ => simp [hbeyond] at hbeyond'
    | noNumber hlike _ hdeep => exact Or.inl ⟨by rw [hlike]; rfl, hdeep⟩
    | tooDeep hlike _ hdeep => exact Or.inr ⟨rfl, hlike, hdeep⟩
  cases v with
  | bool b => exact Or.inl ⟨rfl, hscalar _ rfl⟩
  | int z => exact Or.inl ⟨rfl, hscalar _ rfl⟩
  | float x => exact Or.inl ⟨rfl, hscalar _ rfl⟩
  | null => exact htext _ rfl rfl
  | str s => exact htext _ rfl rfl
  | arr items => exact htext _ rfl rfl
  | obj fields => exact htext _ rfl rfl

/-- The comparison of two numbers raises when one of them is beyond every float; the expected
one is not looked at when the other is no number. -/
theorem exists_matchNumeric_iff {got expected : Json} (h : numberLike py expected = true) :
    (∃ x, matchNumeric py got expected = .ok x) ↔
      ¬ TooDeep py got ∧ beyondFloat got = false ∧
        (numberLike py got = true → beyondFloat expected = false) := by
  have hgot := parsed py got
  have hexp := parsed py expected
  unfold matchNumeric
  generalize parseNumber py got = g at hgot
  generalize parseNumber py expected = e at hexp
  cases hgot with
  | number x hlike hbeyond hdeep =>
      cases hexp with
      | number y _ hbeyond' _ => exact ⟨fun _ => ⟨hdeep, hbeyond, fun _ => hbeyond'⟩,
          fun _ => ⟨_, rfl⟩⟩
      | overflow _ hbeyond' _ =>
          constructor
          · rintro ⟨x, hx⟩
            cases hx
          · rintro ⟨-, -, hfits⟩
            simp [hfits hlike] at hbeyond'
      | noNumber hlike' _ _ => simp [h] at hlike'
      | tooDeep hlike' _ _ => simp [h] at hlike'
  | overflow _ hbeyond _ =>
      constructor
      · rintro ⟨x, hx⟩
        cases hx
      · rintro ⟨-, hfits, -⟩
        simp [hfits] at hbeyond
  | noNumber hlike hbeyond hdeep =>
      exact ⟨fun _ => ⟨hdeep, hbeyond, by simp [hlike]⟩, fun _ => ⟨_, rfl⟩⟩
  | tooDeep _ _ hdeep =>
      constructor
      · rintro ⟨x, hx⟩
        cases hx
      · rintro ⟨hnot, -⟩
        exact absurd hdeep hnot

theorem fuzzyFieldMatch_of_ne_null {got expected : Json} (hgot : got ≠ .null)
    (hexp : expected ≠ .null) (fieldName : Str) :
    fuzzyFieldMatch py got expected fieldName = (do
      if ← isNumeric py expected then matchNumeric py got expected
      else
        let expText ← str py expected
        let gotText ← str py got
        return matchText py gotText expText fieldName) := by
  unfold fuzzyFieldMatch
  split
  · exact absurd rfl hgot
  · exact absurd rfl hgot
  · exact absurd rfl hexp
  · rfl

theorem written_iff {v : Json} : written py v = true ↔ ∃ s, str py v = .ok s := by
  unfold written
  cases str py v <;> simp

theorem not_written_of_tooDeep {v : Json} (h : TooDeep py v) : written py v = false := by
  unfold written
  rw [str_of_tooDeep h]

/-- The comparison of two values returns exactly for the values that can be compared. -/
theorem exists_fuzzyFieldMatch_iff (got expected : Json) (fieldName : Str) :
    (∃ x, fuzzyFieldMatch py got expected fieldName = .ok x) ↔
      Comparable py got expected := by
  by_cases hgot : got = .null
  · subst hgot
    refine ⟨fun _ => Or.inl rfl, fun _ => ?_⟩
    cases expected <;> exact ⟨_, rfl⟩
  by_cases hexp : expected = .null
  · subst hexp
    refine ⟨fun _ => Or.inr (Or.inl rfl), fun _ => ?_⟩
    cases got <;> exact ⟨_, rfl⟩
  unfold Comparable
  rw [fuzzyFieldMatch_of_ne_null hgot hexp, or_iff_right hgot, or_iff_right hexp]
  rcases isNumeric_cases py expected with ⟨hnumeric, hdeep⟩ | ⟨hnumeric, hlike, hdeep⟩
  · rw [hnumeric]
    by_cases hlike : numberLike py expected = true
    · rw [if_pos hlike, hlike]
      exact exists_matchNumeric_iff hlike
    · rw [if_neg hlike, Bool.not_eq_true] at *
      rw [hlike, written_iff, written_iff]
      constructor
      · rintro ⟨x, hx⟩
        cases he : str py expected with
        | error e => simp [he, bind, Except.bind] at hx
        | ok s =>
            cases hg : str py got with
            | error e => simp [he, hg, bind, Except.bind] at hx
            | ok t => exact ⟨⟨s, rfl⟩, ⟨t, rfl⟩⟩
      · rintro ⟨⟨s, hs⟩, ⟨t, ht⟩⟩
        exact ⟨_, by rw [hs, ht]; rfl⟩
  · rw [hnumeric, hlike, if_neg Bool.false_ne_true]
    constructor
    · rintro ⟨x, hx⟩
      cases hx
    · rintro ⟨hwritten, -⟩
      simp [not_written_of_tooDeep hdeep] at hwritten

theorem isUnit_fuzzyFieldMatch {got expected : Json} {fieldName : Str} {x : PyFloat}
    (h : fuzzyFieldMatch py got expected fieldName = .ok x) : x.IsUnit := by
  by_cases hgot : got = .null
  · subst hgot
    cases expected <;> obtain rfl := Except.ok.inj h
    · exact PyFloat.isUnit_one
    all_goals exact PyFloat.isUnit_zero
  by_cases hexp : expected = .null
  · subst hexp
    cases got <;> obtain rfl := Except.ok.inj h
    · exact absurd rfl hgot
    all_goals exact PyFloat.isUnit_zero
  rw [fuzzyFieldMatch_of_ne_null hgot hexp] at h
  cases hnumeric : isNumeric py expected with
  | error e => simp [hnumeric, bind, Except.bind] at h
  | ok numeric =>
      rw [hnumeric] at h
      cases numeric with
      | true => exact isUnit_matchNumeric h
      | false =>
          cases he : str py expected with
          | error e => simp [he, bind, Except.bind] at h
          | ok s =>
              cases hg : str py got with
              | error e => simp [he, hg, bind, Except.bind] at h
              | ok t =>
                  rw [he, hg] at h
                  obtain rfl := Except.ok.inj h
                  exact isUnit_matchText _ _ _

/-! ## Objects -/

theorem exists_left_of_mem {α β : Type} {R : α → β → Prop} {l : List α} {l' : List β}
    (h : List.Forall₂ R l l') {b : β} (hb : b ∈ l') : ∃ a ∈ l, R a b := by
  induction h with
  | nil => simp at hb
  | @cons a c l l' hac _ ih =>
      rcases List.mem_cons.mp hb with rfl | hb
      · exact ⟨a, by simp, hac⟩
      · obtain ⟨a', ha', hrel⟩ := ih hb
        exact ⟨a', by simp [ha'], hrel⟩

/-- The loop over the expected fields adds one score for each. -/
theorem foldlM_fieldScore_eq_ok {got expected : List (Str × Json)} {total x : PyFloat} :
    expected.foldlM (fun total f => (fieldScore py got f).map (addScore total)) total = .ok x ↔
      ∃ scores, List.Forall₂ (fun f s => fieldScore py got f = .ok s) expected scores ∧
        x = scores.foldl addScore total := by
  induction expected generalizing total with
  | nil =>
      constructor
      · intro h
        obtain rfl := Except.ok.inj h
        exact ⟨[], List.Forall₂.nil, rfl⟩
      · rintro ⟨scores, hscores, rfl⟩
        cases hscores
        rfl
  | cons f expected ih =>
      rw [List.foldlM_cons]
      constructor
      · intro h
        cases hf : fieldScore py got f with
        | error e => simp [hf, Except.map, bind, Except.bind] at h
        | ok s =>
            rw [hf] at h
            obtain ⟨scores, hscores, rfl⟩ := ih.mp h
            exact ⟨s :: scores, List.Forall₂.cons hf hscores, rfl⟩
      · rintro ⟨scores, hscores, rfl⟩
        cases hscores with
        | @cons _ s _ scores hf hscores =>
            rw [hf]
            exact ih.mpr ⟨scores, hscores, rfl⟩

theorem dictAccuracy_eq_ok {got expected : List (Str × Json)} {x : PyFloat}
    (hne : expected ≠ []) : dictAccuracy py got expected = .ok x ↔
      ∃ scores, List.Forall₂ (fun f s => fieldScore py got f = .ok s) expected scores ∧
        x = (scores.foldl addScore .zero).divNat expected.length := by
  rw [dictAccuracy, if_neg (by simpa using hne)]
  constructor
  · intro h
    cases htotal : expected.foldlM
        (fun total f => (fieldScore py got f).map (addScore total)) PyFloat.zero with
    | error e => simp [htotal, bind, Except.bind] at h
    | ok total =>
        rw [htotal] at h
        obtain rfl := Except.ok.inj h
        obtain ⟨scores, hscores, rfl⟩ := foldlM_fieldScore_eq_ok.mp htotal
        exact ⟨scores, hscores, rfl⟩
  · rintro ⟨scores, hscores, rfl⟩
    rw [foldlM_fieldScore_eq_ok.mpr ⟨scores, hscores, rfl⟩]
    rfl

theorem isUnit_fieldScore {got : List (Str × Json)} {f : Str × Json} {s : PyFloat}
    (h : fieldScore py got f = .ok (some s)) : s.IsUnit := by
  unfold fieldScore at h
  split at h
  · cases h
  · rename_i v _
    cases hv : fuzzyFieldMatch py v f.2 f.1 with
    | error e => simp [hv, Except.map] at h
    | ok x =>
        rw [hv] at h
        obtain rfl := Option.some.inj (Except.ok.inj h)
        exact isUnit_fuzzyFieldMatch hv

theorem isSum_foldl_addScore {scores : List (Option PyFloat)}
    (h : ∀ s, some s ∈ scores → s.IsUnit) {n : ℕ} {total : PyFloat}
    (htotal : PyFloat.IsSum n total) :
    PyFloat.IsSum (n + scores.length) (scores.foldl addScore total) := by
  induction scores generalizing n total with
  | nil => exact htotal
  | cons s scores ih =>
      have hnext : PyFloat.IsSum (n + 1) (addScore total s) := by
        cases s with
        | none => exact htotal.mono (Nat.le_succ n)
        | some s =>
            obtain ⟨t, rfl⟩ := h s (by simp)
            exact htotal.add t
      have hrest := ih (fun s hs => h s (by simp [hs])) hnext
      rw [List.length_cons, show n + (scores.length + 1) = n + 1 + scores.length by omega]
      exact hrest

theorem isUnit_dictAccuracy {got expected : List (Str × Json)} {x : PyFloat}
    (h : dictAccuracy py got expected = .ok x) : x.IsUnit := by
  by_cases hne : expected = []
  · subst hne
    obtain rfl := Except.ok.inj h
    split_ifs
    · exact PyFloat.isUnit_one
    · exact PyFloat.isUnit_zero
  · obtain ⟨scores, hscores, rfl⟩ := (dictAccuracy_eq_ok hne).mp h
    have hunit : ∀ s, some s ∈ scores → s.IsUnit := by
      intro s hs
      obtain ⟨f, -, hf⟩ := exists_left_of_mem hscores hs
      exact isUnit_fieldScore hf
    have hsum := isSum_foldl_addScore hunit PyFloat.isSum_zero
    rw [Nat.zero_add, ← hscores.length_eq] at hsum
    exact hsum.divNat (List.length_pos_iff.mpr hne)

/-- A field is scored exactly when its value can be compared. -/
theorem exists_fieldScore_iff {got : List (Str × Json)} {f : Str × Json} :
    (∃ s, fieldScore py got f = .ok s) ↔
      ∀ v, got.lookup f.1 = some v → Comparable py v f.2 := by
  unfold fieldScore
  cases hlookup : got.lookup f.1 with
  | none => simp
  | some v =>
      simp only [Option.some.injEq, forall_eq']
      rw [← exists_fuzzyFieldMatch_iff v f.2 f.1]
      cases fuzzyFieldMatch py v f.2 f.1 with
      | error e => simp [Except.map]
      | ok x => simp [Except.map]

theorem exists_dictAccuracy_iff (got expected : List (Str × Json)) :
    (∃ x, dictAccuracy py got expected = .ok x) ↔
      ∀ f ∈ expected, ∀ v, got.lookup f.1 = some v → Comparable py v f.2 := by
  by_cases hne : expected = []
  · subst hne
    exact ⟨fun _ f hf => absurd hf (by simp), fun _ => ⟨_, rfl⟩⟩
  · constructor
    · rintro ⟨x, hx⟩ f hf
      obtain ⟨scores, hscores, -⟩ := (dictAccuracy_eq_ok hne).mp hx
      obtain ⟨s, -, hs⟩ := exists_left_of_mem hscores.flip hf
      exact exists_fieldScore_iff.mp ⟨s, hs⟩
    · intro h
      have hall : ∀ fields : List (Str × Json), (∀ f ∈ fields, f ∈ expected) →
          ∃ scores, List.Forall₂ (fun f s => fieldScore py got f = .ok s) fields scores := by
        intro fields
        induction fields with
        | nil => exact fun _ => ⟨[], List.Forall₂.nil⟩
        | cons f fields ih =>
            intro hsub
            obtain ⟨s, hs⟩ := exists_fieldScore_iff.mpr (h f (hsub f (by simp)))
            obtain ⟨scores, hscores⟩ := ih fun g hg => hsub g (by simp [hg])
            exact ⟨s :: scores, List.Forall₂.cons hs hscores⟩
      obtain ⟨scores, hscores⟩ := hall expected fun f hf => hf
      exact ⟨_, (dictAccuracy_eq_ok hne).mpr ⟨scores, hscores, rfl⟩⟩

theorem isUnit_itemMatch {got expected : Json} {x : PyFloat}
    (h : itemMatch py got expected = .ok x) : x.IsUnit := by
  unfold itemMatch at h
  split at h
  · exact isUnit_dictAccuracy h
  · exact isUnit_fuzzyFieldMatch h

/-- Two items are compared exactly when they can be. -/
theorem exists_itemMatch_iff (got expected : Json) :
    (∃ x, itemMatch py got expected = .ok x) ↔ ItemComparable py got expected := by
  unfold itemMatch ItemComparable
  split
  · exact exists_dictAccuracy_iff _ _
  · exact exists_fuzzyFieldMatch_iff _ _ _

end

end Scorer

end PromptCode
