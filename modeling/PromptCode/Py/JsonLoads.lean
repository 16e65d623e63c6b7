import PromptCode.Py.JsonValue

/-!
# Reading JSON

The scanner of `json.loads`, with its limit on the nesting of containers and on the
digits of an integer.  A value that `json.dumps` has written is read back.
-/

namespace PromptCode.Py

def isJsonSpace (c : CodePoint) : Bool := c = 32 || c = 9 || c = 10 || c = 13

def skipSpace (s : Str) : Str := s.dropWhile isJsonSpace

/-- What a call of `json.loads` depends on besides the text: the largest number of
digits of an integer, and whether `NaN` and the infinities are read. -/
structure LoadsOptions where
  maxDigits : ℕ
  constants : Bool

def scanNumber (o : LoadsOptions) (s : Str) : Option (Json × Str) :=
  (readNotation s).bind fun r =>
    let neg := r.1.1
    let t := r.1.2
    if t.fraction = [] ∧ t.exponent = none then
      let n := digitsValue t.whole
      if t.whole.length ≤ o.maxDigits then
        some (.int (if neg then -n else n), r.2)
      else none
    else some (.float (.ofNearest neg (t.value neg)), r.2)

/-- The values with a name. -/
def literals (o : LoadsOptions) : List (Str × Json) :=
  [(lit "null", .null), (lit "true", .bool true), (lit "false", .bool false)] ++
    if o.constants then
      [(lit "NaN", .float .nan), (lit "Infinity", .float (.inf false)),
        (lit "-Infinity", .float (.inf true))]
    else []

def scanScalar (o : LoadsOptions) : Str → Option (Json × Str)
  | [] => none
  | c :: t =>
      if c = 34 then (readString (t.length + 1) t).map fun r => (.str r.1, r.2)
      else
        match (literals o).find? fun l => l.1.isPrefixOf (c :: t) with
        | some l => some (l.2, (c :: t).drop l.1.length)
        | none => scanNumber o (c :: t)

section

variable (read : Str → Option (Json × Str))

/-- The items of an array up to its closing bracket, and what follows; each round
reads one. -/
def readItems : ℕ → Str → Option (List Json × Str)
  | 0, _ => none
  | n + 1, s =>
      (read s).bind fun r =>
        match skipSpace r.2 with
        | [] => none
        | c :: t =>
            if c = 93 then some ([r.1], t)
            else if c = 44 then
              (readItems n (skipSpace t)).map fun q => (r.1 :: q.1, q.2)
            else none

def readArray (t : Str) : Option (Json × Str) :=
  match skipSpace t with
  | [] => none
  | c :: u =>
      if c = 93 then some (.arr [], u)
      else (readItems read (t.length + 1) (c :: u)).map fun r => (.arr r.1, r.2)

/-- A key and its value. -/
def readField : Str → Option ((Str × Json) × Str)
  | [] => none
  | c :: t =>
      if c = 34 then
        (readString (t.length + 1) t).bind fun k =>
          match skipSpace k.2 with
          | [] => none
          | d :: u =>
              if d = 58 then
                (read (skipSpace u)).map fun r => ((k.1, r.1), r.2)
              else none
      else none

def readFields : ℕ → Str → Option (List (Str × Json) × Str)
  | 0, _ => none
  | n + 1, s =>
      (readField read s).bind fun r =>
        match skipSpace r.2 with
        | [] => none
        | c :: t =>
            if c = 125 then some ([r.1], t)
            else if c = 44 then
              (readFields n (skipSpace t)).map fun q => (r.1 :: q.1, q.2)
            else none

/-- Assignment to a key of a dictionary: a new key comes last. -/
def dictSet (fields : List (Str × Json)) (k : Str) (v : Json) : List (Str × Json) :=
  if (fields.map Prod.fst).contains k then
    fields.map fun f => if f.1 = k then (k, v) else f
  else fields ++ [(k, v)]

def dictOf (pairs : List (Str × Json)) : List (Str × Json) :=
  pairs.foldl (fun fields p => dictSet fields p.1 p.2) []

def readObject (t : Str) : Option (Json × Str) :=
  match skipSpace t with
  | [] => none
  | c :: u =>
      if c = 125 then some (.obj [], u)
      else (readFields read (t.length + 1) (c :: u)).map fun r =>
        (.obj (dictOf r.1), r.2)

end

/-- A value whose containers are nested at most that deep, and what follows it. -/
def readValue (o : LoadsOptions) : ℕ → Str → Option (Json × Str)
  | 0, s => scanScalar o s
  | _ + 1, [] => none
  | d + 1, c :: t =>
      if c = 91 then readArray (readValue o d) t
      else if c = 123 then readObject (readValue o d) t
      else scanScalar o (c :: t)

/-- `json.loads`. -/
def jsonLoads (o : LoadsOptions) (depth : ℕ) (s : Str) : Option Json :=
  (readValue o depth (skipSpace s)).bind fun r =>
    if skipSpace r.2 = [] then some r.1 else none


/-! ## What `json.dumps` has written -/

/-- A string without surrogates. -/
def IsText (s : Str) : Prop := ∀ c ∈ s, isSurrogate c = false

theorem isText_lit (s : String) : IsText (lit s) := by
  intro c hc
  obtain ⟨d, -, rfl⟩ := List.mem_map.mp hc
  have hrange : (ord d).val < 0xd800 ∨ 0xdfff < (ord d).val := by
    rcases d.valid with h | h
    · exact Or.inl h
    · exact Or.inr h.1
  simp only [isSurrogate, Bool.and_eq_false_iff, decide_eq_false_iff_not]
  omega

theorem IsAscii.isText {s : Str} (h : IsAscii s) : IsText s := by
  intro c hc
  have hlt := h c hc
  simp only [isSurrogate, Bool.and_eq_false_iff, decide_eq_false_iff_not]
  omega

/-- The scalars that are read back: finite floats, and integers within the limit. -/
def ScalarReads (o : LoadsOptions) : Json → Prop
  | .int z => (jsonNat z.natAbs).length ≤ o.maxDigits
  | .float x => ∃ d, x = .finite d
  | .str s => IsText s
  | _ => True

def Readable (o : LoadsOptions) : Json → Prop := Json.All (ScalarReads o) IsText

/-- The string is read back from its text. -/
def JsonStyle.ReadsString (style : JsonStyle) (s : Str) : Prop :=
  ∀ rest, readString (((style.string s).tail ++ rest).length + 1)
    ((style.string s).tail ++ rest) = some (s, rest)

def ScalarReadsBack (o : LoadsOptions) (style : JsonStyle) : Json → Prop
  | .str s => style.ReadsString s
  | v => ScalarReads o v

/-- Every scalar and every key of the value is read back. -/
def ReadsBack (o : LoadsOptions) (style : JsonStyle) : Json → Prop :=
  Json.All (ScalarReadsBack o style) style.ReadsString

/-- The strings and the keys of a value have no surrogates. -/
def Json.IsText : Json → Prop :=
  Json.All (fun | .str s => Py.IsText s | _ => True) Py.IsText

/-- A value that `json.dumps(.., allow_nan=False)` writes is read back when its strings
can be encoded. -/
theorem Json.IsText.readable {constants : Bool} {v : Json} (h : v.IsText)
    (hfinite : v.allFinite = true) (hwritten : v.allWritten = true) :
    Readable ⟨maxStrDigits, constants⟩ v := by
  induction v using Json.containers_induction with
  | scalar v harr hobj =>
      match v with
      | .null | .bool b => trivial
      | .int z =>
          have hlength : (jsonNat z.natAbs).length ≤ maxStrDigits :=
            of_decide_eq_true hwritten
          exact hlength
      | .float (.finite d) => exact ⟨d, rfl⟩
      | .str s => exact h
      | .arr items => exact absurd rfl (harr items)
      | .obj fields => exact absurd rfl (hobj fields)
  | arr items ih =>
      apply allItems_iff.mpr
      intro v hv
      exact ih v hv (allItems_iff.mp h v hv) (everyItem_iff.mp hfinite v hv)
        (everyItem_iff.mp hwritten v hv)
  | obj fields ih =>
      obtain ⟨hnodup, hfields⟩ := h
      refine ⟨hnodup, allFields_iff.mpr ?_⟩
      intro f hf
      obtain ⟨hkey, hv⟩ := allFields_iff.mp hfields f hf
      exact ⟨hkey, ih f hf hv (everyField_iff.mp hfinite f hf)
        (everyField_iff.mp hwritten f hf)⟩

/-- The separators are a comma and a colon, with space after them at most. -/
structure JsonStyle.Sound (style : JsonStyle) : Prop where
  item : ∃ blank, style.itemSeparator = 44 :: blank ∧
    ∀ c ∈ blank, isJsonSpace c = true
  key : ∃ blank, style.keySeparator = 58 :: blank ∧
    ∀ c ∈ blank, isJsonSpace c = true

/-- The value is read back from its text. -/
def Reads (read : Str → Option (Json × Str)) (style : JsonStyle) (v : Json) : Prop :=
  ∀ rest, EndsNumber rest → read (v.text style ++ rest) = some (v, rest)

theorem readsAs_rawChar (c : CodePoint) : ReadsAs (rawChar c) c := by
  unfold rawChar
  rcases hshort : jsonShortEscapes.lookup c.val with _ | d
  · obtain ⟨hquote, hslash⟩ := ne_of_lookup_eq_none hshort
    dsimp only
    split_ifs with hcontrol
    · exact readsAs_unicodeEscape (by omega) (by omega)
    · exact readsAs_self hquote hslash (by omega)
  · exact readsAs_shortEscape hshort

theorem ReadsAs.ne_nil {text : Str} {c : CodePoint} (h : ReadsAs text c) :
    text ≠ [] := by
  rintro rfl
  have hquote := h 0 [34]
  simp [readString] at hquote

theorem length_le_flatMap {f : CodePoint → Str} {s : Str} (h : ∀ c ∈ s, f c ≠ []) :
    s.length ≤ (s.flatMap f).length := by
  induction s with
  | nil => simp
  | cons c s ih =>
      have hc := List.length_pos_iff.mpr (h c (by simp))
      have hs := ih fun d hd => h d (by simp [hd])
      rw [List.flatMap_cons, List.length_append, List.length_cons]
      omega

theorem readsString_of_isText {style : JsonStyle} {s : Str} (hs : IsText s) :
    style.ReadsString s := by
  intro rest
  have hchar : ∀ c ∈ s, ReadsAs ((if style.ensureAscii then jsonChar else rawChar) c)
      c := by
    intro c hc
    split_ifs
    · have hplain := hs c hc
      simp only [isSurrogate, Bool.and_eq_false_iff, decide_eq_false_iff_not] at hplain
      exact readsAs_jsonChar (by omega)
    · exact readsAs_rawChar c
  have hlen := length_le_flatMap fun c hc => (hchar c hc).ne_nil
  rw [JsonStyle.string, List.tail_cons, List.append_assoc]
  refine readString_flatMap hchar ?_ rest
  simp only [List.length_append]
  omega

theorem Readable.readsBack {o : LoadsOptions} {v : Json} (h : Readable o v)
    (style : JsonStyle) : ReadsBack o style v := by
  refine h.imp ?_ fun k => readsString_of_isText
  intro v hv
  match v with
  | .str s => exact readsString_of_isText hv
  | .null | .bool _ | .int _ | .float _ | .arr _ | .obj _ => exact hv

theorem skipSpace_append {blank s : Str} (h : ∀ c ∈ blank, isJsonSpace c = true) :
    skipSpace (blank ++ s) = skipSpace s :=
  List.dropWhile_append_of_pos h

theorem skipSpace_cons {c : CodePoint} (h : isJsonSpace c = false) (t : Str) :
    skipSpace (c :: t) = c :: t := by
  simp [skipSpace, h]

/-- The first character of a number, and the second after a sign. -/
def StartsNumber (s : Str) : Prop :=
  ∃ c t, s = c :: t ∧
    (isDigit c = true ∨ c = 45 ∧ ∃ d u, t = d :: u ∧ isDigit d = true)

theorem Notation.Valid.startsNumber {t : Notation} (ht : t.Valid) (neg : Bool)
    (rest : Str) :
    StartsNumber ((if neg then [45] else []) ++ (t.text ++ rest)) := by
  obtain ⟨c, u, hw, hc⟩ : ∃ c u, t.whole = c :: u ∧ isDigit c = true := by
    rcases ht.whole with hw | ⟨hdigits, c, u, hw, -⟩
    · exact ⟨48, [], hw, by decide⟩
    · exact ⟨c, u, hw, hdigits c (by simp [hw])⟩
  rcases neg with _ | _
  · exact ⟨c, _, by rw [Notation.text, hw]; rfl, Or.inl hc⟩
  · exact ⟨45, _, rfl, Or.inr ⟨rfl, c, _, by rw [Notation.text, hw]; rfl, hc⟩⟩

/-- A number is none of the values with a name. -/
theorem find?_literals_eq_none {o : LoadsOptions} {s : Str} (h : StartsNumber s) :
    ((literals o).find? fun l => l.1.isPrefixOf s) = none := by
  obtain ⟨c, t, rfl, hc⟩ := h
  have hne : ∀ x : CodePoint, 57 < x.val → x ≠ c := by
    rintro x hx rfl
    rcases hc with hc | ⟨rfl, -⟩
    · simp only [isDigit, Bool.and_eq_true, decide_eq_true_eq] at hc
      omega
    · exact absurd hx (by decide)
  have hsign : ∀ x : CodePoint, 57 < x.val → ∀ p, List.isPrefixOf (45 :: x :: p) (c :: t) = false := by
    intro x hx p
    rcases hc with hc | ⟨rfl, d, u, rfl, hd⟩
    · have : (45 : CodePoint) ≠ c := by
        rintro rfl
        exact absurd hc (by decide)
      simp [List.isPrefixOf, this]
    · have : x ≠ d := by
        rintro rfl
        simp only [isDigit, Bool.and_eq_true, decide_eq_true_eq] at hd
        omega
      simp [List.isPrefixOf, this]
  have hfirst : ∀ x : CodePoint, 57 < x.val → ∀ p, List.isPrefixOf (x :: p) (c :: t) = false := by
    intro x hx p
    simp [List.isPrefixOf, hne x hx]
  rw [List.find?_eq_none]
  intro l hl
  simp only [literals, List.mem_append, List.mem_cons, List.not_mem_nil, or_false] at hl
  rw [Bool.not_eq_true]
  rcases hl with (rfl | rfl | rfl) | hl
  · exact hfirst 110 (by decide) _
  · exact hfirst 116 (by decide) _
  · exact hfirst 102 (by decide) _
  · split_ifs at hl
    · simp only [List.mem_cons, List.not_mem_nil, or_false] at hl
      rcases hl with rfl | rfl | rfl
      · exact hfirst 78 (by decide) _
      · exact hfirst 73 (by decide) _
      · exact hsign 73 (by decide) _
    · simp at hl

theorem scanScalar_number {o : LoadsOptions} {s : Str} (h : StartsNumber s) :
    scanScalar o s = scanNumber o s := by
  have hfind := find?_literals_eq_none (o := o) h
  obtain ⟨c, t, rfl, hc⟩ := h
  have hquote : c ≠ 34 := by
    rintro rfl
    rcases hc with hc | ⟨hc, -⟩
    · exact absurd hc (by decide)
    · exact absurd hc (by decide)
  rw [scanScalar, if_neg hquote, hfind]

theorem reads_int {o : LoadsOptions} {z : ℤ}
    (hz : (jsonNat z.natAbs).length ≤ o.maxDigits) {rest : Str}
    (hrest : EndsNumber rest) :
    scanScalar o (intText z ++ rest) = some (.int z, rest) := by
  have hvalid : Notation.Valid ⟨jsonNat z.natAbs, [], none⟩ :=
    ⟨Notation.wholeDigits_jsonNat _, by simp⟩
  have htext : intText z ++ rest = (if decide (z < 0) then [45] else []) ++
      ((⟨jsonNat z.natAbs, [], none⟩ : Notation).text ++ rest) := by
    simp [intText, Notation.text]
  rw [htext, scanScalar_number (hvalid.startsNumber _ _), scanNumber,
    readNotation_text _ hvalid hrest, Option.bind_some]
  simp only [and_self, if_true, hz, digitsValue_jsonNat, Option.some.injEq,
    Prod.mk.injEq, Json.int.injEq, and_true]
  by_cases hneg : z < 0
  · simp only [hneg, decide_true, if_true]
    omega
  · simp only [hneg, decide_false, Bool.false_eq_true, if_false]
    omega

theorem reads_float {o : LoadsOptions} (x : Double) {rest : Str}
    (hrest : EndsNumber rest) :
    scanScalar o (x.repr ++ rest) = some (.float (.finite x), rest) := by
  rw [Double.repr, List.append_assoc,
    scanScalar_number (x.valid_written.startsNumber _ _), scanNumber,
    readNotation_text _ x.valid_written hrest, Option.bind_some]
  dsimp only
  rw [if_neg x.written_isFloat, x.value_written]
  rfl

theorem reads_string {o : LoadsOptions} {style : JsonStyle} {s : Str}
    (hs : style.ReadsString s)
    (rest : Str) : scanScalar o (style.string s ++ rest) = some (.str s, rest) := by
  have hcons : style.string s ++ rest = 34 :: ((style.string s).tail ++ rest) := rfl
  rw [hcons, scanScalar, if_pos rfl, hs]
  rfl

/-- A scalar is read back. -/
theorem reads_scalar {o : LoadsOptions} {style : JsonStyle} {v : Json}
    (harr : ∀ items, v ≠ .arr items) (hobj : ∀ fields, v ≠ .obj fields)
    (hv : ScalarReadsBack o style v) : Reads (scanScalar o) style v := by
  intro rest hrest
  rcases v with _ | b | z | x | s | items | fields
  · rfl
  · rcases b with _ | _ <;> rfl
  · exact reads_int hv hrest
  · obtain ⟨d, rfl⟩ := hv
    exact reads_float d hrest
  · exact reads_string hv rest
  · exact absurd rfl (harr items)
  · exact absurd rfl (hobj fields)

/-- The text of a value starts neither with space nor with a bracket that closes. -/
def StartsValue (s : Str) : Prop :=
  ∃ c t, s = c :: t ∧ isJsonSpace c = false ∧ c ≠ 93 ∧ c ≠ 125

theorem StartsNumber.startsValue {s : Str} (h : StartsNumber s) : StartsValue s := by
  obtain ⟨c, t, rfl, hc⟩ := h
  refine ⟨c, t, rfl, ?_⟩
  rcases hc with hc | ⟨rfl, -⟩
  · simp only [isDigit, Bool.and_eq_true, decide_eq_true_eq] at hc
    have hne : ∀ x : CodePoint, (x.val < 48 ∨ 57 < x.val) → c ≠ x := by
      rintro x hx rfl
      omega
    refine ⟨?_, hne 93 (by decide), hne 125 (by decide)⟩
    simp [isJsonSpace, hne 32 (by decide), hne 9 (by decide), hne 10 (by decide),
      hne 13 (by decide)]
  · decide

theorem startsValue_text {o : LoadsOptions} {style : JsonStyle} {v : Json}
    (hv : ReadsBack o style v) (rest : Str) : StartsValue (v.text style ++ rest) := by
  have hplain (c : CodePoint) (t : Str)
      (hc : isJsonSpace c = false ∧ c ≠ 93 ∧ c ≠ 125) : StartsValue (c :: t) :=
    ⟨c, t, rfl, hc⟩
  rcases v with _ | b | z | x | s | items | fields
  · exact hplain 110 _ (by decide)
  · rcases b with _ | _
    · exact hplain 102 _ (by decide)
    · exact hplain 116 _ (by decide)
  · have hvalid : Notation.Valid ⟨jsonNat z.natAbs, [], none⟩ :=
      ⟨Notation.wholeDigits_jsonNat _, by simp⟩
    have hstart := (hvalid.startsNumber (decide (z < 0)) rest).startsValue
    simpa [Json.text, intText, Notation.text] using hstart
  · obtain ⟨d, rfl⟩ := hv
    have hstart := (d.valid_written.startsNumber d.neg rest).startsValue
    simpa [Json.text, PyFloat.text, Double.repr] using hstart
  · exact hplain 34 _ (by decide)
  · rcases items with _ | ⟨v, items⟩
    · exact hplain 91 _ (by decide)
    · exact hplain 91 _ (by decide)
  · rcases fields with _ | ⟨f, fields⟩
    · exact hplain 123 _ (by decide)
    · exact hplain 123 _ (by decide)

/-! ## Containers -/

theorem endsNumber_cons {c : CodePoint} (hc : isDigit c = false ∧ c ≠ dot ∧ c ≠ 101 ∧
    c ≠ 69) (t : Str) : EndsNumber (c :: t) := by
  intro d hd
  obtain rfl := Option.some.inj hd
  exact hc

section

variable {o : LoadsOptions} {style : JsonStyle} {read : Str → Option (Json × Str)}

theorem StartsValue.skipSpace {s : Str} (h : StartsValue s) : skipSpace s = s := by
  obtain ⟨c, t, rfl, hc, -⟩ := h
  exact skipSpace_cons hc t

theorem readItems_text (hstyle : style.Sound) {v : Json} {items : List Json}
    (hv : ReadsBack o style v ∧ Reads read style v)
    (hitems : ∀ w ∈ items, ReadsBack o style w ∧ Reads read style w) {n : ℕ}
    (hn : items.length < n) (rest : Str) :
    readItems read n (v.text style ++ (itemsText style items ++ rest)) =
      some (v :: items, rest) := by
  induction items generalizing v n with
  | nil =>
      obtain ⟨k, rfl⟩ : ∃ k, n = k + 1 := ⟨n - 1, by simp at hn; omega⟩
      have hread := hv.2 (93 :: rest) (endsNumber_cons (by decide) rest)
      have htext : itemsText style [] ++ rest = 93 :: rest := rfl
      rw [readItems, htext, hread, Option.bind_some, skipSpace_cons (by decide)]
      rfl
  | cons w items ih =>
      obtain ⟨k, rfl⟩ : ∃ k, n = k + 1 := ⟨n - 1, by simp at hn; omega⟩
      obtain ⟨blank, hsep, hblank⟩ := hstyle.item
      have htext : itemsText style (w :: items) ++ rest =
          44 :: (blank ++ (w.text style ++ (itemsText style items ++ rest))) := by
        rw [itemsText, hsep]
        simp only [List.cons_append, List.append_assoc]
      have hread := hv.2 _ (endsNumber_cons (c := 44) (by decide)
        (blank ++ (w.text style ++ (itemsText style items ++ rest))))
      have hrest := ih (hitems w (by simp)) (fun x hx => hitems x (by simp [hx]))
        (n := k) (by simpa using hn)
      rw [readItems, htext, hread, Option.bind_some, skipSpace_cons (by decide)]
      dsimp only
      rw [if_neg (by decide), if_pos rfl, skipSpace_append hblank,
        (startsValue_text (hitems w (by simp)).1 _).skipSpace, hrest]
      rfl

theorem readField_text (hstyle : style.Sound) {f : Str × Json} (hkey : style.ReadsString f.1)
    (hf : ReadsBack o style f.2 ∧ Reads read style f.2) (rest : Str)
    (hrest : EndsNumber rest) :
    readField read (fieldText style f ++ rest) = some (f, rest) := by
  obtain ⟨k, v⟩ := f
  obtain ⟨blank, hsep, hblank⟩ := hstyle.key
  have htext : fieldText style (k, v) ++ rest =
      34 :: ((style.string k).tail ++ (58 :: (blank ++ (v.text style ++ rest)))) := by
    rw [fieldText, hsep, JsonStyle.string]
    simp only [List.cons_append, List.append_assoc, List.tail_cons]
  rw [htext, readField, if_pos rfl, hkey, Option.bind_some,
    skipSpace_cons (by decide)]
  dsimp only
  rw [if_pos rfl, skipSpace_append hblank, (startsValue_text hf.1 rest).skipSpace,
    hf.2 rest hrest]
  rfl

theorem readFields_text (hstyle : style.Sound) {f : Str × Json}
    {fields : List (Str × Json)}
    (hf : style.ReadsString f.1 ∧ ReadsBack o style f.2 ∧ Reads read style f.2)
    (hfields : ∀ g ∈ fields, style.ReadsString g.1 ∧ ReadsBack o style g.2 ∧ Reads read style g.2)
    {n : ℕ} (hn : fields.length < n) (rest : Str) :
    readFields read n (fieldText style f ++ (fieldsText style fields ++ rest)) =
      some (f :: fields, rest) := by
  induction fields generalizing f n with
  | nil =>
      obtain ⟨k, rfl⟩ : ∃ k, n = k + 1 := ⟨n - 1, by simp at hn; omega⟩
      have hread := readField_text hstyle hf.1 hf.2 (125 :: rest)
        (endsNumber_cons (by decide) rest)
      have htext : fieldsText style [] ++ rest = 125 :: rest := rfl
      rw [readFields, htext, hread, Option.bind_some, skipSpace_cons (by decide)]
      rfl
  | cons g fields ih =>
      obtain ⟨k, rfl⟩ : ∃ k, n = k + 1 := ⟨n - 1, by simp at hn; omega⟩
      obtain ⟨blank, hsep, hblank⟩ := hstyle.item
      have htext : fieldsText style (g :: fields) ++ rest =
          44 :: (blank ++ (fieldText style g ++ (fieldsText style fields ++ rest))) := by
        rw [fieldsText, hsep]
        simp only [List.cons_append, List.append_assoc]
      have hread := readField_text hstyle hf.1 hf.2 _ (endsNumber_cons (c := 44)
        (by decide)
        (blank ++ (fieldText style g ++ (fieldsText style fields ++ rest))))
      have hrest := ih (hfields g (by simp)) (fun x hx => hfields x (by simp [hx]))
        (n := k) (by simpa using hn)
      have hquote : skipSpace (fieldText style g ++ (fieldsText style fields ++ rest)) =
          fieldText style g ++ (fieldsText style fields ++ rest) := by
        obtain ⟨k, v⟩ := g
        exact skipSpace_cons (c := 34) (by decide) _
      rw [readFields, htext, hread, Option.bind_some, skipSpace_cons (by decide)]
      dsimp only
      rw [if_neg (by decide), if_pos rfl, skipSpace_append hblank, hquote, hrest]
      rfl

end

theorem dictSet_of_notMem {fields : List (Str × Json)} {k : Str} (v : Json)
    (h : k ∉ fields.map Prod.fst) : dictSet fields k v = fields ++ [(k, v)] := by
  rw [dictSet, if_neg (by simpa using h)]

/-- A dictionary whose items have different keys is the list of its items. -/
theorem dictOf_eq_self {pairs : List (Str × Json)}
    (h : (pairs.map Prod.fst).Nodup) : dictOf pairs = pairs := by
  have hfold : ∀ fields, ((fields ++ pairs).map Prod.fst).Nodup →
      pairs.foldl (fun fields p => dictSet fields p.1 p.2) fields = fields ++ pairs := by
    clear h
    induction pairs with
    | nil => simp
    | cons p pairs ih =>
        intro fields hnodup
        have hnot : p.1 ∉ fields.map Prod.fst := by
          rw [List.map_append, List.map_cons, List.nodup_middle] at hnodup
          exact fun hmem => (List.nodup_cons.mp hnodup).1 (by simp [hmem])
        rw [List.foldl_cons, dictSet_of_notMem _ hnot, ih _ (by simpa using hnodup)]
        simp
  exact hfold [] h

theorem length_lt_itemsText {style : JsonStyle} (hstyle : style.Sound)
    (items : List Json) : items.length < (itemsText style items).length := by
  obtain ⟨blank, hsep, -⟩ := hstyle.item
  induction items with
  | nil => simp [itemsText, lit]
  | cons v items ih =>
      rw [itemsText, hsep]
      simp only [List.length_append, List.length_cons]
      omega

theorem length_lt_fieldsText {style : JsonStyle} (hstyle : style.Sound)
    (fields : List (Str × Json)) : fields.length < (fieldsText style fields).length := by
  obtain ⟨blank, hsep, -⟩ := hstyle.item
  induction fields with
  | nil => simp [fieldsText, lit]
  | cons f fields ih =>
      rw [fieldsText, hsep]
      simp only [List.length_append, List.length_cons]
      omega

/-- A scalar is scanned at any depth. -/
theorem readValue_of_scanScalar {o : LoadsOptions} {d : ℕ} {s : Str}
    {r : Json × Str} (h : scanScalar o s = some r) : readValue o d s = some r := by
  have hopen : ∀ t, scanScalar o (91 :: t) = none ∧ scanScalar o (123 :: t) = none := by
    rcases o with ⟨digits, _ | _⟩ <;> exact fun t => ⟨rfl, rfl⟩
  rcases d with _ | d
  · exact h
  · rcases s with _ | ⟨c, t⟩
    · exact absurd h (by simp [scanScalar])
    · have hbracket : c ≠ 91 := by
        rintro rfl
        rw [(hopen t).1] at h
        exact absurd h (by simp)
      have hbrace : c ≠ 123 := by
        rintro rfl
        rw [(hopen t).2] at h
        exact absurd h (by simp)
      rw [readValue, if_neg hbracket, if_neg hbrace, h]

/-- A value is read back from its text. -/
theorem readValue_text {o : LoadsOptions} {style : JsonStyle} (hstyle : style.Sound)
    {v : Json} (hv : ReadsBack o style v) {d : ℕ} (hd : v.depth ≤ d) :
    Reads (readValue o d) style v := by
  induction v using Json.containers_induction generalizing d with
  | scalar v harr hobj =>
      intro rest hrest
      have hscalar : ScalarReadsBack o style v := by
        rcases v with _ | b | z | x | s | items | fields
        · trivial
        · trivial
        · exact hv
        · exact hv
        · exact hv
        · exact absurd rfl (harr items)
        · exact absurd rfl (hobj fields)
      exact readValue_of_scanScalar (reads_scalar harr hobj hscalar rest hrest)
  | arr items ih =>
      intro rest hrest
      obtain ⟨e, rfl⟩ : ∃ e, d = e + 1 :=
        ⟨d - 1, by simp only [Json.depth] at hd; omega⟩
      have hitems : ∀ w ∈ items, ReadsBack o style w ∧ Reads (readValue o e) style w := by
        intro w hw
        have hread : ReadsBack o style w := allItems_iff.mp hv w hw
        have hdepth := depth_le_of_mem_items hw
        exact ⟨hread, ih w hw hread (by simp only [Json.depth] at hd; omega)⟩
      rcases items with _ | ⟨v, items⟩
      · rfl
      · have htext : (Json.arr (v :: items)).text style ++ rest =
            91 :: (v.text style ++ (itemsText style items ++ rest)) := by
          rw [Json.text]
          simp [lit, ord]
        obtain ⟨c, t, hstart, -, hclose, -⟩ := startsValue_text
          (hitems v (by simp)).1 (itemsText style items ++ rest)
        have hskip := (startsValue_text (hitems v (by simp)).1
          (itemsText style items ++ rest)).skipSpace
        have hlen := length_lt_itemsText hstyle items
        have hread : readItems (readValue o e)
            ((v.text style ++ (itemsText style items ++ rest)).length + 1)
            (v.text style ++ (itemsText style items ++ rest)) =
              some (v :: items, rest) := by
          apply readItems_text hstyle (hitems v (by simp))
          · exact fun w hw => hitems w (by simp [hw])
          · simp only [List.length_append]
            omega
        rw [htext, readValue, if_pos rfl, readArray, hskip]
        rw [hstart] at hread ⊢
        dsimp only
        rw [if_neg hclose, hread]
        rfl
  | obj fields ih =>
      intro rest hrest
      obtain ⟨e, rfl⟩ : ∃ e, d = e + 1 :=
        ⟨d - 1, by simp only [Json.depth] at hd; omega⟩
      obtain ⟨hnodup, hall⟩ := hv
      have hfields : ∀ g ∈ fields, style.ReadsString g.1 ∧ ReadsBack o style g.2 ∧
          Reads (readValue o e) style g.2 := by
        intro g hg
        obtain ⟨hkey, hread⟩ := allFields_iff.mp hall g hg
        have hdepth := depth_le_of_mem_fields hg
        exact ⟨hkey, hread, ih g hg hread (by simp only [Json.depth] at hd; omega)⟩
      rcases fields with _ | ⟨f, fields⟩
      · rfl
      · have htext : (Json.obj (f :: fields)).text style ++ rest =
            123 :: (fieldText style f ++ (fieldsText style fields ++ rest)) := by
          rw [Json.text]
          simp [lit, ord]
        obtain ⟨t, hstart⟩ : ∃ t, fieldText style f ++ (fieldsText style fields ++ rest) =
            34 :: t := by
          obtain ⟨k, v⟩ := f
          exact ⟨_, rfl⟩
        have hlen := length_lt_fieldsText hstyle fields
        have hread : readFields (readValue o e)
            ((fieldText style f ++ (fieldsText style fields ++ rest)).length + 1)
            (fieldText style f ++ (fieldsText style fields ++ rest)) =
              some (f :: fields, rest) := by
          apply readFields_text hstyle (hfields f (by simp))
          · exact fun g hg => hfields g (by simp [hg])
          · simp only [List.length_append]
            omega
        rw [htext, readValue, if_neg (by decide), if_pos rfl, readObject]
        rw [hstart] at hread ⊢
        rw [skipSpace_cons (by decide)]
        dsimp only
        rw [if_neg (by decide), hread, Option.map_some, dictOf_eq_self hnodup]

theorem ReadsBack.jsonLoads {o : LoadsOptions} {style : JsonStyle} {v : Json}
    (hv : ReadsBack o style v) (hstyle : style.Sound) {d : ℕ} (hd : v.depth ≤ d) :
    jsonLoads o d (v.text style) = some v := by
  have hread := readValue_text hstyle hv hd [] (by simp [EndsNumber])
  have hskip := (startsValue_text hv []).skipSpace
  rw [List.append_nil] at hread hskip
  rw [Py.jsonLoads, hskip, hread]
  rfl

/-- What `json.dumps` has written, `json.loads` reads. -/
theorem jsonLoads_text {o : LoadsOptions} {style : JsonStyle} (hstyle : style.Sound)
    {v : Json} (hv : Readable o v) {d : ℕ} (hd : v.depth ≤ d) :
    jsonLoads o d (v.text style) = some v :=
  (hv.readsBack style).jsonLoads hstyle hd

example : (jsonLoads ⟨4300, false⟩ 2
    (lit " \x7b\"a\": [1, null], \"b\": -2.5e3, \"a\": \"\\u00E9\"\x7d ")).map
      (fun v => v.text compactStyle) =
    some (lit "\x7b\"a\":\"\\u00e9\",\"b\":-2500.0\x7d") := by
  decide +kernel

theorem compactStyle_sound : compactStyle.Sound := ⟨⟨[], rfl, by simp⟩, ⟨[], rfl, by simp⟩⟩

theorem compactRawStyle_sound : compactRawStyle.Sound := ⟨⟨[], rfl, by simp⟩, ⟨[], rfl, by simp⟩⟩

theorem spacedStyle_sound : spacedStyle.Sound :=
  ⟨⟨[32], rfl, by simp [isJsonSpace]⟩, ⟨[32], rfl, by simp [isJsonSpace]⟩⟩

end PromptCode.Py
