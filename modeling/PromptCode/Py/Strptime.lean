import PromptCode.Py.Text

/-!
# Patterns and dates

A pattern yields all its matches at the front of a text, the one that the search with
backtracking finds first in front.  The directives of `strptime` are such patterns.
-/

namespace PromptCode.Py

/-- What a pattern captures, and what follows it. -/
def Matcher (α : Type) := Str → List (α × Str)

namespace Matcher

instance : Monad Matcher where
  pure a := fun s => [(a, s)]
  bind m f := fun s => (m s).flatMap fun r => f r.1 r.2

/-- The first alternative is preferred. -/
def or {α : Type} (m m' : Matcher α) : Matcher α := fun s => m s ++ m' s

def none {α : Type} : Matcher α := fun _ => []

def oneOf {α : Type} (ms : List (Matcher α)) : Matcher α := ms.foldr or none

def char (p : CodePoint → Bool) : Matcher CodePoint
  | [] => []
  | c :: s => if p c then [(c, s)] else []

/-- One ASCII digit of a range. -/
def ascii (low high : ℕ) : Matcher ℕ := do
  let c ← char fun c => 48 + low ≤ c.val && c.val ≤ 48 + high
  return c.val - 48

/-- `\d` -/
def digit (u : UnicodeData) : Matcher ℕ
  | [] => []
  | c :: s => match u.decimal c with
      | some d => [(d.val, s)]
      | .none => []

/-- `\d{n,n+m}`, as a number that continues `value`. -/
def digits (u : UnicodeData) : ℕ → ℕ → ℕ → Matcher ℕ
  | n + 1, m, value => do
      let d ← digit u
      digits u n m (10 * value + d)
  | 0, m + 1, value => or (do let d ← digit u; digits u 0 m (10 * value + d)) (pure value)
  | 0, 0, value => pure value

/-- `\s*`, as many as possible first. -/
def spaces : Matcher Unit
  | [] => [((), [])]
  | c :: s => if isSpace c then spaces s ++ [((), c :: s)] else [((), c :: s)]

/-- `\s+` -/
def someSpaces : Matcher Unit := do
  let _ ← char isSpace
  spaces

/-- `$` on a text without newlines. -/
def atEnd : Matcher Unit
  | [] => [((), [])]
  | _ :: _ => []

/-- `re.match` -/
def matchFront {α : Type} (m : Matcher α) (s : Str) : Option α := (m s).head?.map Prod.fst

/-- `re.search` -/
def search {α : Type} (m : Matcher α) : Str → Option α
  | [] => matchFront m []
  | c :: s => (matchFront m (c :: s)).or (search m s)

/-- A small ASCII letter under `re.IGNORECASE`; long s and the two Turkish letters i match
too. -/
def letter (l : CodePoint) : Matcher CodePoint :=
  char fun c => c = l || c.val + 32 = l.val || (l = 115 && c = 0x17f) ||
    (l = 105 && (c = 0x130 || c = 0x131))

def word : Str → Matcher Str
  | [] => pure []
  | l :: ls => do
      let c ← letter l
      let rest ← word ls
      return c :: rest

end Matcher

/-! ## Dates -/

def monthNames : List Str :=
  [lit "january", lit "february", lit "march", lit "april", lit "may", lit "june", lit "july",
    lit "august", lit "september", lit "october", lit "november", lit "december"]

def monthAbbreviations : List Str :=
  [lit "jan", lit "feb", lit "mar", lit "apr", lit "may", lit "jun", lit "jul", lit "aug",
    lit "sep", lit "oct", lit "nov", lit "dec"]

def isLeapYear (year : ℕ) : Bool :=
  year % 4 = 0 && (year % 100 ≠ 0 || year % 400 = 0)

def daysInMonth (year month : ℕ) : ℕ :=
  if month = 2 then (if isLeapYear year then 29 else 28)
  else if month = 4 ∨ month = 6 ∨ month = 9 ∨ month = 11 then 30 else 31

/-- The date of a `datetime` at midnight. -/
structure Date where
  year : ℕ
  month : ℕ
  day : ℕ
  valid : (1 ≤ year ∧ year ≤ 9999) ∧ (1 ≤ month ∧ month ≤ 12) ∧ 1 ≤ day ∧
    day ≤ daysInMonth year month
  deriving DecidableEq

namespace Date

/-- `datetime(year, month, day)`; `none` is the `ValueError`. -/
def of (year month day : ℕ) : Option Date :=
  if h : (1 ≤ year ∧ year ≤ 9999) ∧ (1 ≤ month ∧ month ≤ 12) ∧ 1 ≤ day ∧
      day ≤ daysInMonth year month then some ⟨year, month, day, h⟩ else none

/-- `d.toordinal()` -/
def ordinal (d : Date) : ℤ :=
  let before := d.year - 1
  (before * 365 + before / 4 - before / 100 + before / 400 : ℤ) +
    ((List.range' 1 (d.month - 1)).map (daysInMonth d.year)).sum + d.day

end Date

/-- What the directives of a format have captured. -/
structure DateParts where
  year : ℕ := 1900
  month : ℕ := 1
  day : ℕ := 1

/-- A name of a list, the longest ones tried first, and its number. -/
def monthName (names : List Str) : Matcher ℕ :=
  Matcher.oneOf ((names.insertionSort fun a b => b.length ≤ a.length).map fun name => do
    let captured ← Matcher.word name
    -- the list holds no letters beside the ASCII ones
    if lower captured = name then return names.idxOf name + 1 else Matcher.none)

/-- The pattern of one directive after the per cent sign. -/
def directive (u : UnicodeData) (c : CodePoint) (parts : DateParts) : Matcher DateParts :=
  if c = ord 'Y' then do
    let year ← Matcher.digits u 4 0 0
    return { parts with year := year }
  else if c = ord 'y' then do
    let year ← Matcher.digits u 2 0 0
    return { parts with year := if year ≤ 68 then year + 2000 else year + 1900 }
  else if c = ord 'm' then do
    let month ← Matcher.oneOf
      [do let _ ← Matcher.ascii 1 1; let d ← Matcher.ascii 0 2; return 10 + d,
        do let _ ← Matcher.ascii 0 0; Matcher.ascii 1 9,
        Matcher.ascii 1 9]
    return { parts with month := month }
  else if c = ord 'd' then do
    let day ← Matcher.oneOf
      [do let _ ← Matcher.ascii 3 3; let d ← Matcher.ascii 0 1; return 30 + d,
        do let t ← Matcher.ascii 1 2; let d ← Matcher.digit u; return 10 * t + d,
        do let _ ← Matcher.ascii 0 0; Matcher.ascii 1 9,
        Matcher.ascii 1 9,
        do let _ ← Matcher.char (· = 32); Matcher.ascii 1 9]
    return { parts with day := day }
  else if c = ord 'B' then do
    let month ← monthName monthNames
    return { parts with month := month }
  else if c = ord 'b' then do
    let month ← monthName monthAbbreviations
    return { parts with month := month }
  else Matcher.none

def formatPattern (u : UnicodeData) : Str → DateParts → Matcher DateParts
  | [], parts => pure parts
  | [c], parts => do
      let _ ← if isSpace c then Matcher.someSpaces else (do let _ ← Matcher.char (· = c))
      return parts
  | c :: d :: format, parts =>
      if c = 37 then do
        let parts ← directive u d parts
        formatPattern u format parts
      else do
        let _ ← if isSpace c then Matcher.someSpaces else (do let _ ← Matcher.char (· = c))
        formatPattern u (d :: format) parts

/-- `datetime.strptime(s, format)`; `none` is the `ValueError`. -/
def strptime (u : UnicodeData) (s format : Str) : Option Date :=
  match (formatPattern u format {} s).head? with
  | some (parts, []) => Date.of parts.year parts.month parts.day
  | _ => none


end PromptCode.Py
