import PromptCode.ManifestReader
import PromptCode.Py.SameValue
import PromptCode.TrustedResult

/-!
# The canonical encoding

`_canonical` in `trusted_evaluator.py`: observed and expected values are compared, and
payloads signed, by the bytes of their texts with sorted keys.  A probe prints a text that is
decoded from UTF-8, so it has no surrogates, and of the values read from such texts no two
share an encoding.  The text of an executor's reply may hold surrogates of its own.
-/

namespace PromptCode

open Py

/-! ## Bytes -/

theorem asciiBytes_injective {s t : Str} (hs : IsAscii s) (ht : IsAscii t)
    (h : asciiBytes s = asciiBytes t) : s = t := by
  rw [← map_codePoint_asciiBytes hs, h, map_codePoint_asciiBytes ht]

theorem isAscii_of_digits {s : Str} (h : ∀ c ∈ s, isDigit c = true) : IsAscii s := by
  intro c hc
  have hdigit := h c hc
  simp only [isDigit, Bool.and_eq_true, decide_eq_true_eq] at hdigit
  omega

theorem IsAscii.cons {c : CodePoint} {s : Str} (hc : c.val < 128) (hs : IsAscii s) :
    IsAscii (c :: s) := by
  intro d hd
  rcases List.mem_cons.mp hd with rfl | hd
  · exact hc
  · exact hs d hd

theorem isAscii_nil : IsAscii [] := by
  intro c hc
  simp at hc

theorem isAscii_exponentText (e : ℤ) : IsAscii (Notation.exponentText e) := by
  have hdigits := isAscii_of_digits fun c hc =>
    Notation.isDigit_of_mem_exponentDigits (n := e.natAbs) hc
  refine IsAscii.cons (by decide) (IsAscii.cons ?_ hdigits)
  split_ifs <;> decide

theorem isAscii_text_of_valid {t : Notation} (h : t.Valid) : IsAscii t.text := by
  have hwhole : IsAscii t.whole := by
    rcases h.whole with hw | ⟨hdigits, -⟩
    · rw [hw]
      exact IsAscii.cons (by decide) isAscii_nil
    · exact isAscii_of_digits hdigits
  refine (hwhole.append ?_).append ?_
  · split_ifs
    · exact isAscii_nil
    · exact IsAscii.cons (by decide) (isAscii_of_digits h.fraction)
  · cases t.exponent with
    | none => exact isAscii_nil
    | some e => exact isAscii_exponentText e

theorem isAscii_floatText (x : PyFloat) : IsAscii x.text := by
  have hsign (neg : Bool) : IsAscii (if neg then [45] else []) := by
    cases neg with
    | true => exact IsAscii.cons (by decide) isAscii_nil
    | false => exact isAscii_nil
  cases x with
  | finite x => exact (hsign x.neg).append (isAscii_text_of_valid x.valid_written)
  | inf neg => exact (hsign neg).append (isAscii_of_all (by decide))
  | nan => exact isAscii_of_all (by decide)

theorem isAscii_string {style : JsonStyle} (hascii : style.ensureAscii = true) (s : Str) :
    IsAscii (style.string s) := by
  rw [JsonStyle.string, if_pos hascii]
  exact isAscii_jsonString s

/-- With `ensure_ascii` every text is ASCII. -/
theorem isAscii_jsonText {style : JsonStyle} (hascii : style.ensureAscii = true)
    (hitem : IsAscii style.itemSeparator) (hkey : IsAscii style.keySeparator) (v : Json) :
    IsAscii (v.text style) := by
  have hlit (s : Str) (h : s.all (fun c => c.val < 128) = true) : IsAscii s :=
    isAscii_of_all h
  have hitems (items : List Json) (h : ∀ v ∈ items, IsAscii (v.text style)) :
      IsAscii (itemsText style items) := by
    induction items with
    | nil => exact hlit (lit "]") (by decide)
    | cons v items ih =>
        exact hitem.append ((h v (by simp)).append (ih fun w hw => h w (by simp [hw])))
  have hfield (f : Str × Json) (h : IsAscii (f.2.text style)) : IsAscii (fieldText style f) := by
    obtain ⟨k, v⟩ := f
    exact (isAscii_string hascii k).append (hkey.append h)
  have hfields (fields : List (Str × Json)) (h : ∀ f ∈ fields, IsAscii (f.2.text style)) :
      IsAscii (fieldsText style fields) := by
    induction fields with
    | nil => exact hlit (lit "\x7d") (by decide)
    | cons f fields ih =>
        exact hitem.append ((hfield f (h f (by simp))).append (ih fun g hg => h g (by simp [hg])))
  induction v using Json.containers_induction with
  | scalar v harr hobj =>
      match v with
      | .null => exact hlit (lit "null") (by decide)
      | .bool true => exact hlit (lit "true") (by decide)
      | .bool false => exact hlit (lit "false") (by decide)
      | .int z =>
          have hsign : IsAscii (if z < 0 then [45] else []) := by
            split_ifs
            · exact IsAscii.cons (by decide) isAscii_nil
            · exact isAscii_nil
          exact hsign.append (isAscii_jsonNat _)
      | .float x => exact isAscii_floatText x
      | .str s => exact isAscii_string hascii s
      | .arr items => exact absurd rfl (harr items)
      | .obj fields => exact absurd rfl (hobj fields)
  | arr items ih =>
      rcases items with _ | ⟨v, items⟩
      · exact hlit (lit "[]") (by decide)
      · exact (hlit (lit "[") (by decide)).append
          ((ih v (by simp)).append (hitems items fun w hw => ih w (by simp [hw])))
  | obj fields ih =>
      rcases fields with _ | ⟨f, fields⟩
      · exact hlit (lit "\x7b\x7d") (by decide)
      · exact (hlit (lit "\x7b") (by decide)).append
          ((hfield f (ih f (by simp))).append (hfields fields fun g hg => ih g (by simp [hg])))

/-! ## The comparison -/

/-- A value that `json.loads` makes of a text without surrogates, with the digit limit of the
interpreter. -/
def FromText (v : Json) : Prop :=
  ∃ constants depth s, IsText s ∧ jsonLoads ⟨maxStrDigits, constants⟩ depth s = some v

/-- `json.dumps` meets neither a limit nor an infinity. -/
theorem exists_canonical {v : Json} (hv : FromText v) (hfinite : v.allFinite = true) :
    canonical v = .ok (asciiBytes (v.sortKeys.text compactStyle)) := by
  obtain ⟨constants, depth, s, hs, hloads⟩ := hv
  rw [canonical, if_neg (by simp [hfinite]),
    if_neg (by simp [(loaded_of_jsonLoads hs hloads).allWritten])]

theorem canonicalBytes_eq_iff_same {v w : Json} (hv : FromText v) (hw : FromText w)
    (hvf : v.allFinite = true) (hwf : w.allFinite = true) :
    asciiBytes (v.sortKeys.text compactStyle) = asciiBytes (w.sortKeys.text compactStyle) ↔
      v.same w = true := by
  have hascii : ∀ u : Json, IsAscii (u.text compactStyle) :=
    isAscii_jsonText rfl (isAscii_of_all (by decide)) (isAscii_of_all (by decide))
  obtain ⟨constants, depth, s, hs, hloads⟩ := hv
  obtain ⟨constants', depth', s', hs', hloads'⟩ := hw
  have hlimit (c : Bool) (u : Json) (h : Loaded ⟨maxStrDigits, c⟩ u) :
      Loaded ⟨maxStrDigits, true⟩ u := h
  rw [← sortedText_eq_iff_same compactStyle_sound rfl
    (hlimit _ _ (loaded_of_jsonLoads hs hloads)) (hlimit _ _ (loaded_of_jsonLoads hs' hloads'))
    hvf hwf]
  exact ⟨asciiBytes_injective (hascii _) (hascii _), fun h => h ▸ rfl⟩

/-- Two values read from texts have the same encoding exactly when they are the same, and a
case passes exactly when the observed value is the expected one. -/
theorem canonical_injective {v w : Json} (hv : FromText v) (hw : FromText w)
    (hvf : v.allFinite = true) (hwf : w.allFinite = true) :
    (∃ bytes, canonical v = .ok bytes) ∧
      (canonical v = canonical w ↔ v.same w = true) ∧
      ∀ (id probe : Text) (weight : ℕ), ∃ result,
        gradeCase ⟨id, weight, probe, w⟩ ⟨v, none⟩ = .ok result ∧
          (result.passed = true ↔ v.same w = true) := by
  have hbytes := canonicalBytes_eq_iff_same hv hw hvf hwf
  have hcv := exists_canonical hv hvf
  have hcw := exists_canonical hw hwf
  refine ⟨⟨_, hcv⟩, ?_, fun id probe weight => ?_⟩
  · rw [hcv, hcw, Except.ok.injEq]
    exact hbytes
  · refine ⟨⟨id, weight, decide (asciiBytes (v.sortKeys.text compactStyle) =
      asciiBytes (w.sortKeys.text compactStyle)), none⟩, ?_, ?_⟩
    · rw [gradeCase, hcv, hcw]
      rfl
    · rw [decide_eq_true_eq]
      exact hbytes

/-- Every value without pairs of surrogates is read from its own text. -/
theorem fromText_of_loaded {v : Json} (h : Loaded ⟨maxStrDigits, true⟩ v)
    (hfinite : v.allFinite = true) : FromText v :=
  ⟨true, v.depth, v.text compactStyle,
    (isAscii_jsonText rfl (isAscii_of_all (by decide)) (isAscii_of_all (by decide)) v).isText,
    (h.readsBack rfl hfinite).jsonLoads compactStyle_sound le_rfl⟩

/-- `json.loads` of a string that is written as it is. -/
theorem jsonLoads_raw (s : Str) :
    jsonLoads ⟨maxStrDigits, true⟩ 0 (34 :: (s.flatMap rawChar ++ [34])) = some (.str s) := by
  have hread : ReadsBack ⟨maxStrDigits, true⟩ compactRawStyle (.str s) := readsString_of_raw rfl s
  exact hread.jsonLoads compactRawStyle_sound le_rfl

/-- An object and its fields in another order. -/
theorem canonical_injective_on_objects :
    let v := Json.obj [(lit "a", .int 1), (lit "b", .bool true)]
    let w := Json.obj [(lit "b", .bool true), (lit "a", .int 1)]
    canonical v = canonical w ↔ v.same w = true := by
  have hone : (jsonNat (Int.natAbs 1)).length ≤ maxStrDigits := by decide
  have hkey (s : String) : Unpaired (lit s) := (isText_lit s).unpaired
  have hv : Loaded ⟨maxStrDigits, true⟩ (.obj [(lit "a", .int 1), (lit "b", .bool true)]) :=
    ⟨by decide, ⟨hkey _, hone⟩, ⟨hkey _, trivial⟩, trivial⟩
  have hw : Loaded ⟨maxStrDigits, true⟩ (.obj [(lit "b", .bool true), (lit "a", .int 1)]) :=
    ⟨by decide, ⟨hkey _, trivial⟩, ⟨hkey _, hone⟩, trivial⟩
  exact (canonical_injective (fromText_of_loaded hv rfl) (fromText_of_loaded hw rfl) rfl rfl).2.1

/-- A pair of surrogates that stand in the text itself is not joined, and has the encoding of
the character for which the pair stands. -/
theorem canonical_joins_surrogates :
    let v := Json.str [0xd83d, 0xde00]
    let w := Json.str [0x1f600]
    jsonLoads ⟨maxStrDigits, true⟩ 0 [34, 0xd83d, 0xde00, 34] = some v ∧
      jsonLoads ⟨maxStrDigits, true⟩ 0 [34, 0x1f600, 34] = some w ∧
      canonical v = canonical w ∧ v.same w = false := by
  have htext (s : Str) (h : s.flatMap rawChar = s) :
      jsonLoads ⟨maxStrDigits, true⟩ 0 (34 :: (s ++ [34])) = some (.str s) := by
    have hread := jsonLoads_raw s
    rwa [h] at hread
  refine ⟨htext [0xd83d, 0xde00] (by decide), htext [0x1f600] (by decide), ?_, ?_⟩
  · decide +kernel
  · decide +kernel

end PromptCode
