import PromptCode.SourceManifest

/-!
# Reading a stored manifest

The commit marker of a submission is the text that `json.dumps` wrote for its
manifest.  Reading such a text gives the manifest back.
-/

namespace PromptCode

open Py

/-- What follows a fixed word. -/
def expect (word s : Str) : Option Str :=
  if word.isPrefixOf s then some (s.drop word.length) else none

theorem expect_append (word s : Str) : expect word (word ++ s) = some s := by
  simp [expect]

def readRow (s : Str) : Option (ManifestRow × Str) := do
  let s ← expect (lit "\x7b\"path\": \"") s
  let (path, s) ← readString (s.length + 1) s
  let s ← expect (lit ", \"sha256\": \"") s
  let (sha256, s) ← readString (s.length + 1) s
  let s ← expect (lit ", \"size\": ") s
  let (size, s) := readNat s
  let s ← expect (lit "\x7d") s
  return ({ path := path, sha256 := sha256, size := size }, s)

/-- The rows up to the closing bracket, which ends the text. -/
def readRows : ℕ → Str → Option Manifest
  | 0, _ => none
  | n + 1, s => do
      let (row, s) ← readRow s
      if s = lit "]" then return [row]
      else
        let s ← expect (lit ", ") s
        let rows ← readRows n s
        return row :: rows

def parseManifest (s : Str) : Option Manifest := do
  let s ← expect (lit "[") s
  if s = lit "]" then return []
  else readRows s.length s

/-- `json.loads` on a text that `json.dumps` wrote for a manifest; `none` for
any other text. -/
def loadsManifest (raw : Bytes) : Option Manifest :=
  (parseManifest (raw.map fun b => codePoint b.toNat)).filter
    fun m => manifestJson m = raw

/-- The strings of a row can be written and read back. -/
structure ReadableRow (r : ManifestRow) : Prop where
  path : ∀ c ∈ r.path, isUnencodable c = false
  sha256 : ∀ c ∈ r.sha256, isUnencodable c = false

theorem dumpsRow_eq (r : ManifestRow) :
    dumpsRow (lit ", ") (lit ": ") r =
      lit "\x7b\"path\": \"" ++ (r.path.flatMap jsonChar ++ 34 ::
        (lit ", \"sha256\": \"" ++ (r.sha256.flatMap jsonChar ++ 34 ::
          (lit ", \"size\": " ++ (jsonNat r.size ++ lit "\x7d"))))) := by
  have hpath : lit "\x7b\"path\": \"" =
      [123] ++ jsonString (lit "path") ++ lit ": " ++ [34] := by decide
  have hsha : lit ", \"sha256\": \"" =
      lit ", " ++ jsonString (lit "sha256") ++ lit ": " ++ [34] := by decide
  have hsize : lit ", \"size\": " =
      lit ", " ++ jsonString (lit "size") ++ lit ": " := by decide
  have hclose : lit "\x7d" = [125] := by decide
  rw [dumpsRow, hpath, hsha, hsize, hclose, jsonString.eq_1 r.path,
    jsonString.eq_1 r.sha256]
  simp only [List.append_assoc, List.cons_append, List.nil_append]

theorem readRow_dumpsRow {r : ManifestRow} (hr : ReadableRow r) (rest : Str) :
    readRow (dumpsRow (lit ", ") (lit ": ") r ++ rest) = some (r, rest) := by
  have hlen (s t : Str) : s.length <
      (s.flatMap jsonChar ++ 34 :: t).length + 1 := by
    have hone (c : CodePoint) : 1 ≤ (jsonChar c).length := by
      unfold jsonChar
      cases jsonShortEscapes.lookup c.val with
      | some d => simp
      | none =>
          dsimp only
          split_ifs <;> simp [jsonUnicodeEscape]
    have hle : s.length ≤ (s.flatMap jsonChar).length := by
      induction s with
      | nil => simp
      | cons c s ih =>
          have := hone c
          simp only [List.flatMap_cons, List.length_append, List.length_cons]
          omega
    simp only [List.length_append, List.length_cons]
    omega
  have hnat : ∀ c, (lit "\x7d" ++ rest).head? = some c → isDigit c = false := by
    intro c hc
    obtain rfl : (125 : CodePoint) = c := by
      simpa [show lit "\x7d" = [125] by decide] using hc
    decide
  rw [dumpsRow_eq]
  simp only [List.append_assoc, List.cons_append]
  simp only [readRow, expect_append, Option.bind_eq_bind, Option.bind_some,
    readString_jsonString hr.path (hlen _ _),
    readString_jsonString hr.sha256 (hlen _ _), readNat_jsonNat _ hnat,
    Option.pure_def]

theorem readRows_dumps {m : Manifest} (hne : m ≠ [])
    (hm : ∀ r ∈ m, ReadableRow r) {n : ℕ} (hn : m.length ≤ n) :
    readRows n ((lit ", ").intercalate (m.map (dumpsRow (lit ", ") (lit ": "))) ++
      lit "]") = some m := by
  induction m generalizing n with
  | nil => exact absurd rfl hne
  | cons r m ih =>
      obtain ⟨k, rfl⟩ : ∃ k, n = k + 1 := ⟨n - 1, by simp at hn; omega⟩
      have hr := hm r (by simp)
      cases m with
      | nil =>
          simp [readRows, List.intercalate, readRow_dumpsRow hr]
      | cons r' m =>
          have hsep : (lit ", ").intercalate
              ((r :: r' :: m).map (dumpsRow (lit ", ") (lit ": "))) =
            dumpsRow (lit ", ") (lit ": ") r ++ (lit ", " ++
              (lit ", ").intercalate
                ((r' :: m).map (dumpsRow (lit ", ") (lit ": ")))) := by
            simp [List.intercalate_cons_cons]
          have hnotend (t : Str) : lit ", " ++ t ≠ lit "]" := by
            intro h
            have hhead := congrArg List.head? h
            rw [show lit ", " = 44 :: lit " " by decide,
              show lit "]" = [93] by decide, List.cons_append, List.head?_cons,
              List.head?_cons] at hhead
            exact absurd (Option.some.inj hhead) (by decide)
          rw [hsep, readRows]
          simp only [List.append_assoc, readRow_dumpsRow hr, Option.bind_eq_bind,
            Option.bind_some, if_neg (hnotend _), expect_append]
          rw [ih (by simp) (fun q hq => hm q (by simp [hq])) (by simpa using hn)]
          rfl

theorem isAscii_dumpsRow {itemSep keySep : Str} (hitem : IsAscii itemSep)
    (hkey : IsAscii keySep) (r : ManifestRow) :
    IsAscii (dumpsRow itemSep keySep r) := by
  have hbrace : IsAscii [123] ∧ IsAscii [125] := by
    constructor <;> (intro c hc; rw [List.mem_singleton.mp hc]; decide)
  unfold dumpsRow
  exact ((((((((((((hbrace.1.append (isAscii_jsonString _)).append hkey).append
    (isAscii_jsonString _)).append hitem).append (isAscii_jsonString _)).append
    hkey).append (isAscii_jsonString _)).append hitem).append
    (isAscii_jsonString _)).append hkey).append (isAscii_jsonNat _)).append
    hbrace.2)

/-- `json.dumps` of a manifest is ASCII, so its bytes are its UTF-8 form. -/
theorem isAscii_dumpsManifest {itemSep keySep : Str} (hitem : IsAscii itemSep)
    (hkey : IsAscii keySep) (m : Manifest) :
    IsAscii (dumpsManifest itemSep keySep m) := by
  have hrows : IsAscii (itemSep.intercalate (m.map (dumpsRow itemSep keySep))) := by
    induction m with
    | nil =>
        intro c hc
        simp at hc
    | cons r m ih =>
        cases m with
        | nil => simpa using isAscii_dumpsRow hitem hkey r
        | cons r' m =>
            rw [List.map_cons, List.map_cons, List.intercalate_cons_cons]
            exact ((isAscii_dumpsRow hitem hkey r).append hitem).append ih
  have hbracket : IsAscii [91] ∧ IsAscii [93] := by
    constructor <;> (intro c hc; rw [List.mem_singleton.mp hc]; decide)
  exact (hbracket.1.append hrows).append hbracket.2

theorem utf8Encode_dumpsManifest (m : Manifest) :
    utf8Encode (dumpsManifest (lit ", ") (lit ": ") m) = some (manifestJson m) :=
  utf8Encode_of_isAscii
    (isAscii_dumpsManifest (isAscii_of_all (by decide)) (isAscii_of_all (by decide)) m)

theorem map_codePoint_asciiBytes {s : Str} (hs : IsAscii s) :
    (asciiBytes s).map (fun b => codePoint b.toNat) = s := by
  rw [asciiBytes, List.map_map]
  conv_rhs => rw [← List.map_id s]
  refine List.map_congr_left fun c hc => ?_
  have hlt : c.val < 128 := hs c hc
  exact codePoint_eq (toNat_ofNat_of_lt (by omega))

theorem length_le_intercalate (m : Manifest) :
    m.length ≤
      ((lit ", ").intercalate (m.map (dumpsRow (lit ", ") (lit ": ")))).length := by
  have hpos (r : ManifestRow) : 1 ≤ (dumpsRow (lit ", ") (lit ": ") r).length := by
    simp only [dumpsRow, List.length_append, List.length_singleton]
    omega
  induction m with
  | nil => simp
  | cons r m ih =>
      cases m with
      | nil => simpa using hpos r
      | cons r' m =>
          rw [List.map_cons, List.map_cons, List.intercalate_cons_cons]
          have := hpos r
          simp only [List.length_append, List.length_cons, List.map_cons] at ih ⊢
          omega

/-- The marker text of a manifest is read as that manifest. -/
theorem loadsManifest_manifestJson {m : Manifest}
    (hm : ∀ r ∈ m, ReadableRow r) : loadsManifest (manifestJson m) = some m := by
  have hascii : IsAscii (dumpsManifest (lit ", ") (lit ": ") m) :=
    isAscii_dumpsManifest (isAscii_of_all (by decide)) (isAscii_of_all (by decide)) m
  have htext : (manifestJson m).map (fun b => codePoint b.toNat) =
      lit "[" ++ ((lit ", ").intercalate
        (m.map (dumpsRow (lit ", ") (lit ": "))) ++ lit "]") := by
    rw [manifestJson, map_codePoint_asciiBytes hascii, dumpsManifest,
      show lit "[" = [91] by decide, show lit "]" = [93] by decide,
      List.append_assoc]
  have hparse : parseManifest
      ((manifestJson m).map fun b => codePoint b.toNat) = some m := by
    rw [htext, parseManifest, expect_append]
    simp only [Option.bind_eq_bind, Option.bind_some]
    cases m with
    | nil => simp
    | cons r m =>
        have hlen := length_le_intercalate (r :: m)
        rw [if_neg, readRows_dumps (by simp) hm]
        · simp only [List.length_append]
          omega
        · intro h
          have := congrArg List.length h
          simp only [List.length_append, List.length_cons] at this hlen
          omega
  rw [loadsManifest, hparse]
  simp

/-! ## The commit marker -/

/-- What reading a stored marker gives: the sorted rows and their digest, or
nothing when the text is no manifest.  Texts that `json.dumps` did not write for
a manifest are left to the parameter, which may also raise. -/
def readMarker (foreign : Bytes → Except PyErr (Option (Manifest × Str)))
    (raw : Bytes) : Except PyErr (Option (Manifest × Str)) :=
  match loadsManifest raw with
  | none => foreign raw
  | some [] => .ok none
  | some (r :: rows) =>
      let sorted := sortedManifest (r :: rows)
      .ok (some (sorted, manifestDigest sorted))

end PromptCode
