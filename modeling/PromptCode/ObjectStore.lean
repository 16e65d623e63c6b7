import PromptCode.SourceManifest

/-!
# Object keys and the object store

`object_store.py`: the key of each object of a submission, and the two tests a
key has to pass, one on the relative path and one on the whole key.  The store
is a map from keys to bytes.
-/

namespace PromptCode

open Py FileTree

def manifestName : Str := lit "manifest.json"

def maxKeyBytes : ℕ := 1024

def isControl (c : CodePoint) : Bool := decide (c.val < 32 ∨ c.val = 127)

def dotParts : List Str := [[], lit ".", lit ".."]

/-! ## Keys -/

def normalizeRelPath (relPath : Str) : Except PyErr Str :=
  let raw := replaceBackslash relPath
  let path := PurePath.parse raw
  if raw = [] ∨ raw ≠ path.asPosix ∨ path.isAbsolute ∨
      path.parts.any (fun part => decide (part ∈ dotParts)) ∨
      raw.any isControl then
    .error (.value "Invalid object path")
  else .ok path.asPosix

def submissionPrefix (sessionId sourceDigest : Str) : Except PyErr Str :=
  let session := strip sessionId
  let digest := strip sourceDigest
  if session = [] ∨ digest = [] ∨
      (session ++ digest).any (fun c => decide (c = slash ∨ c = backslash)) then
    .error (.value "Invalid submission identity")
  else .ok (lit "submitted/" ++ session ++ slash :: digest)

def submissionKey (sessionId sourceDigest relPath : Str) : Except PyErr Str :=
  match submissionPrefix sessionId sourceDigest with
  | .error e => .error e
  | .ok pre =>
      match normalizeRelPath relPath with
      | .error e => .error e
      | .ok rel => .ok (pre ++ slash :: rel)

def manifestKey (sessionId sourceDigest : Str) : Except PyErr Str :=
  match submissionPrefix sessionId sourceDigest with
  | .error e => .error e
  | .ok pre => .ok (pre ++ slash :: manifestName)

/-- `_validate_key`. -/
def validateKey (key : Str) : Except PyErr Str :=
  if key = [] ∨ key.head? = some slash ∨ key.getLast? = some slash ∨
      contains (lit "//") key ∨ backslash ∈ key then
    .error (.value "Invalid object key")
  else
    match utf8Encode key with
    | none => .error .unicodeEncode
    | some encoded =>
        if maxKeyBytes < encoded.length ∨
            (split slash key).any (fun part => decide (part ∈ dotParts)) ∨
            key.any isControl then
          .error (.value "Invalid object key")
        else .ok key

/-! ## The store -/

/-- The stored objects and the per-object limit, zero for none. -/
structure ObjectStore where
  objects : Str → Option Bytes
  maxObjectBytes : ℕ

namespace ObjectStore

def put (store : ObjectStore) (key : Str) (data : Bytes) :
    Except PyErr ObjectStore :=
  match validateKey key with
  | .error e => .error e
  | .ok key =>
      if store.maxObjectBytes ≠ 0 ∧ store.maxObjectBytes < data.length then
        .error .objectTooLarge
      else .ok { store with objects := Function.update store.objects key (some data) }

def get (store : ObjectStore) (key : Str) : Except PyErr Bytes :=
  match validateKey key with
  | .error e => .error e
  | .ok key =>
      match store.objects key with
      | none => .error .objectNotFound
      | some data => .ok data

end ObjectStore

/-! ## Which names have a key -/

/-- The canonical form of a session id: a UUID. -/
structure IsSessionId (s : Str) : Prop where
  length : s.length = 36
  chars : ∀ c ∈ s, isHexDigit c = true ∨ c = ord '-'

instance : DecidablePred IsSessionId := fun s =>
  decidable_of_iff
    (s.length = 36 ∧ s.all (fun c => isHexDigit c || c == ord '-') = true)
    ⟨fun h => ⟨h.1, by simpa using h.2⟩, fun h => ⟨h.length, by simpa using h.chars⟩⟩

structure IsDigest (d : Str) : Prop where
  length : d.length = 64
  chars : ∀ c ∈ d, isHexDigit c = true

theorem isDigest_manifestDigest (m : Manifest) : IsDigest (manifestDigest m) :=
  ⟨manifestDigest_length m, fun _ hc => isHexDigit_of_mem_manifestDigest hc⟩

/-- The bytes left for a relative path: `submitted/`, a session id, a digest and
the slashes take 112. -/
def maxRelBytes : ℕ := 912

/-- The relative paths that both tests accept: proper components once backslash
is read as a slash, no control characters, and a UTF-8 form that fits. -/
structure Storable (rel : Str) : Prop where
  parts : ∀ part ∈ split slash (replaceBackslash rel), part ∉ dotParts
  no_control : ∀ c ∈ rel, isControl c = false
  fits : ∃ encoded, utf8Encode (replaceBackslash rel) = some encoded ∧
    encoded.length ≤ maxRelBytes

instance : DecidablePred Storable := fun rel =>
  decidable_of_iff
    (((split slash (replaceBackslash rel)).all fun p => decide (p ∉ dotParts)) ∧
      (rel.all fun c => !isControl c) ∧
      (utf8Encode (replaceBackslash rel)).any
        (fun b => decide (b.length ≤ maxRelBytes)) = true)
    (by
      constructor
      · rintro ⟨hparts, hctl, hfits⟩
        refine ⟨by simpa using hparts, by simpa using hctl, ?_⟩
        cases hb : utf8Encode (replaceBackslash rel) with
        | none => simp [hb] at hfits
        | some b => exact ⟨b, rfl, by simpa [hb] using hfits⟩
      · rintro ⟨hparts, hctl, b, hb, hlen⟩
        exact ⟨by simpa using hparts, by simpa using hctl, by simp [hb, hlen]⟩)

theorem mem_replaceBackslash_iff {s : Str} {c : CodePoint} (hslash : c ≠ slash)
    (hback : c ≠ backslash) : c ∈ replaceBackslash s ↔ c ∈ s := by
  simp only [replaceBackslash, List.mem_map]
  constructor
  · rintro ⟨d, hd, rfl⟩
    split_ifs at hslash ⊢ with h
    · exact absurd rfl hslash
    · exact hd
  · intro h
    exact ⟨c, h, by simp [hback]⟩

theorem isControl_replaceBackslash {s : Str} :
    (∀ c ∈ replaceBackslash s, isControl c = false) ↔
      ∀ c ∈ s, isControl c = false := by
  have hplain {c : CodePoint} (hc : isControl c = true) :
      c ≠ slash ∧ c ≠ backslash := by
    constructor <;> (rintro rfl; revert hc; decide)
  constructor
  all_goals
    intro h c hc
    by_contra hctl
    rw [Bool.not_eq_false] at hctl
    obtain ⟨hslash, hback⟩ := hplain hctl
  · rw [h c ((mem_replaceBackslash_iff hslash hback).mpr hc)] at hctl
    simp at hctl
  · rw [h c ((mem_replaceBackslash_iff hslash hback).mp hc)] at hctl
    simp at hctl

/-- A string whose parts are all proper begins and ends with a part and never
holds two slashes in a row. -/
theorem no_edge_slash {s : Str} (h : ∀ part ∈ split slash s, part ∉ dotParts) :
    s ≠ [] ∧ s.head? ≠ some slash ∧ s.getLast? ≠ some slash ∧
      contains (lit "//") s = false := by
  have hnil : ([] : Str) ∉ split slash s := fun hmem =>
    h [] hmem (by decide)
  have hempty : split slash ([] : Str) = [[]] := split_of_notMem (by simp)
  refine ⟨?_, ?_, ?_, ?_⟩
  · rintro rfl
    exact hnil (by simp [hempty])
  · intro hhead
    cases s with
    | nil => simp at hhead
    | cons c t =>
        obtain rfl : c = slash := by simpa using hhead
        apply hnil
        rw [show slash :: t = [] ++ slash :: t from rfl, split_append_cons_self,
          hempty]
        simp
  · intro hlast
    obtain ⟨t, rfl⟩ := List.getLast?_eq_some_iff.mp hlast
    apply hnil
    rw [split_append_cons_self, hempty]
    simp
  · rw [← Bool.not_eq_true, contains_eq_true_iff]
    rintro ⟨a, b, rfl⟩
    apply hnil
    rw [show lit "//" = [slash] ++ [slash] by decide, List.append_assoc,
      List.append_assoc, List.singleton_append, List.singleton_append,
      split_append_cons_self,
      show slash :: b = [] ++ slash :: b from rfl, split_append_cons_self, hempty]
    simp

theorem validateKey_ok_iff {key k : Str} :
    validateKey key = .ok k ↔
      k = key ∧ backslash ∉ key ∧ (∀ part ∈ split slash key, part ∉ dotParts) ∧
        (∃ encoded, utf8Encode key = some encoded ∧
          encoded.length ≤ maxKeyBytes) ∧
        ∀ c ∈ key, isControl c = false := by
  unfold validateKey
  constructor
  · intro h
    split_ifs at h with hedge
    push Not at hedge
    cases hencode : utf8Encode key with
    | none => simp [hencode] at h
    | some encoded =>
        simp only [hencode] at h
        split_ifs at h with hparts
        obtain rfl := Except.ok.inj h
        simp only [not_or, not_lt, Bool.not_eq_true, List.any_eq_false,
          decide_eq_true_eq] at hparts
        exact ⟨rfl, hedge.2.2.2.2, hparts.2.1, ⟨encoded, rfl, hparts.1⟩,
          hparts.2.2⟩
  · rintro ⟨rfl, hback, hparts, ⟨encoded, hencode, hlen⟩, hctl⟩
    obtain ⟨hne, hhead, hlast, hdouble⟩ := no_edge_slash hparts
    rw [if_neg (by simp [hne, hhead, hlast, hdouble, hback])]
    simp only [hencode]
    rw [if_neg]
    simp only [not_or, not_lt, Bool.not_eq_true, List.any_eq_false,
      decide_eq_true_eq]
    exact ⟨hlen, hparts, hctl⟩

theorem dotParts_iff_kept {part : Str} :
    part ∉ dotParts ↔ keptPart part = true ∧ part ≠ lit ".." := by
  simp [dotParts, keptPart_eq_true_iff, and_assoc]

/-- A relative path is accepted when all its parts are proper, and then only
its backslashes have changed. -/
theorem normalizeRelPath_ok_iff {rel r : Str} (hdot : rel ≠ lit ".") :
    normalizeRelPath rel = .ok r ↔
      r = replaceBackslash rel ∧
        (∀ part ∈ split slash (replaceBackslash rel), part ∉ dotParts) ∧
        ∀ c ∈ rel, isControl c = false := by
  rw [← isControl_replaceBackslash]
  have hdot' : replaceBackslash rel ≠ lit "." := by
    intro h
    apply hdot
    cases rel with
    | nil => simp [replaceBackslash, lit] at h
    | cons c t =>
        cases t with
        | nil =>
            have hc : (if c = backslash then slash else c) = dot := by
              simpa [replaceBackslash, lit, show ord '.' = dot by decide] using h
            split_ifs at hc with hb
            · exact absurd hc (by decide)
            · rw [hc]
              decide
        | cons d t =>
            have hlen := congrArg List.length h
            rw [show (lit ".").length = 1 by decide] at hlen
            simp [replaceBackslash] at hlen
  unfold normalizeRelPath
  generalize replaceBackslash rel = raw at hdot' ⊢
  dsimp only
  constructor
  · intro h
    split_ifs at h with hbad
    obtain rfl := Except.ok.inj h
    simp only [not_or, not_not, Bool.not_eq_true, List.any_eq_false,
      decide_eq_true_eq] at hbad
    obtain ⟨hne, hposix, habs, hparts, hctl⟩ := hbad
    have hroot : (PurePath.parse raw).root = [] := by
      simpa [PurePath.isAbsolute] using habs
    rw [PurePath.parts, if_pos hroot] at hparts
    refine ⟨hposix.symm, ?_, hctl⟩
    have htail : (PurePath.parse raw).tail ≠ [] := by
      intro h
      rw [PurePath.asPosix, if_pos ⟨hroot, h⟩] at hposix
      exact hdot' hposix
    have hraw : raw = join slash (PurePath.parse raw).tail := by
      rw [PurePath.asPosix, if_neg (fun h => htail h.2), hroot] at hposix
      simpa using hposix
    have hsplit : split slash raw = (PurePath.parse raw).tail := by
      conv_lhs => rw [hraw]
      refine split_join (fun p hp => ?_) htail
      exact notMem_of_mem_split (List.mem_filter.mp hp).1
    rw [hsplit]
    exact hparts
  · rintro ⟨hr, hparts, hctl⟩
    obtain ⟨hne, hhead, -, -⟩ := no_edge_slash hparts
    have hkept : (split slash raw).filter keptPart = split slash raw :=
      List.filter_eq_self.mpr fun p hp => (dotParts_iff_kept.mp (hparts p hp)).1
    have hparse : PurePath.parse raw = { root := [], tail := split slash raw } := by
      simp [PurePath.parse, splitroot_of_head_ne hhead, hkept]
    have hposix : (PurePath.parse raw).asPosix = raw := by
      simp [hparse, PurePath.asPosix, split_ne_nil, join_split]
    rw [if_neg, hposix, hr]
    rw [hposix]
    simp only [not_or, not_not, Bool.not_eq_true, List.any_eq_false,
      decide_eq_true_eq, ne_eq, true_and]
    refine ⟨hne, ?_, ?_, hctl⟩
    · simp [PurePath.isAbsolute, hparse]
    · simpa [PurePath.parts, hparse] using hparts

/-! ## Keys of a submission -/

/-- A character that no step of key building treats specially. -/
def isPlain (c : CodePoint) : Bool :=
  !isSpace c && c != slash && c != backslash && c != dot && !isControl c &&
    decide (c.val < 128)

theorem isPlain_iff {c : CodePoint} :
    isPlain c = true ↔ isSpace c = false ∧ c ≠ slash ∧ c ≠ backslash ∧ c ≠ dot ∧
      isControl c = false ∧ c.val < 128 := by
  simp [isPlain, and_assoc]

theorem isPlain_of_mem {s : Str} (hs : s.all isPlain = true) {c : CodePoint}
    (hc : c ∈ s) : isSpace c = false ∧ c ≠ slash ∧ c ≠ backslash ∧ c ≠ dot ∧
      isControl c = false ∧ c.val < 128 :=
  isPlain_iff.mp (List.all_eq_true.mp hs c hc)

theorem IsDigest.plain {d : Str} (hd : IsDigest d) {c : CodePoint} (hc : c ∈ d) :
    isSpace c = false ∧ c ≠ slash ∧ c ≠ backslash ∧ c ≠ dot ∧
      isControl c = false ∧ c.val < 128 := by
  have hdigits : (lit "0123456789abcdef").all isPlain = true := by decide
  exact isPlain_of_mem hdigits (by simpa [isHexDigit] using hd.chars c hc)

/-- The characters of session ids and digests are plain ASCII. -/
theorem IsSessionId.plain {s : Str} (hs : IsSessionId s) {c : CodePoint}
    (hc : c ∈ s) : isSpace c = false ∧ c ≠ slash ∧ c ≠ backslash ∧ c ≠ dot ∧
      isControl c = false ∧ c.val < 128 := by
  have hchars : (lit "0123456789abcdef-").all isPlain = true := by decide
  have hlit : lit "0123456789abcdef-" = lit "0123456789abcdef" ++ [ord '-'] := by
    decide
  refine isPlain_of_mem hchars ?_
  rw [hlit, List.mem_append, List.mem_singleton]
  simpa [isHexDigit] using hs.chars c hc

theorem plain_submitted {c : CodePoint} (hc : c ∈ lit "submitted/") :
    isControl c = false ∧ c.val < 128 := by
  have hplain : (lit "submitted").all isPlain = true := by decide
  have hlit : lit "submitted/" = lit "submitted" ++ [slash] := by decide
  rw [hlit, List.mem_append, List.mem_singleton] at hc
  rcases hc with hc | rfl
  · exact (isPlain_of_mem hplain hc).2.2.2.2
  · decide

/-- `submitted/<session>/<digest>`. -/
def prefixOf (s d : Str) : Str := lit "submitted/" ++ s ++ slash :: d

theorem submissionPrefix_eq {s d : Str} (hs : IsSessionId s) (hd : IsDigest d) :
    submissionPrefix s d = .ok (prefixOf s d) := by
  have hstrips : strip s = s := strip_eq_self fun c hc => (hs.plain hc).1
  have hstripd : strip d = d := strip_eq_self fun c hc => (hd.plain hc).1
  have hsne : s ≠ [] := by
    rintro rfl
    simpa using hs.length
  have hdne : d ≠ [] := by
    rintro rfl
    simpa using hd.length
  have hany : ((s ++ d).any fun c => decide (c = slash ∨ c = backslash)) = false := by
    rw [List.any_eq_false]
    intro c hc
    rcases List.mem_append.mp hc with hc | hc
    · simp [(hs.plain hc).2.1, (hs.plain hc).2.2.1]
    · simp [(hd.plain hc).2.1, (hd.plain hc).2.2.1]
  unfold submissionPrefix
  rw [hstrips, hstripd]
  dsimp only
  rw [if_neg (by rw [hany]; simp [hsne, hdne]), prefixOf]

theorem split_prefixOf {s d : Str} (hs : IsSessionId s) (hd : IsDigest d)
    (raw : Str) :
    split slash (prefixOf s d ++ slash :: raw) =
      [lit "submitted", s, d] ++ split slash raw := by
  have hlit : lit "submitted/" = lit "submitted" ++ slash :: [] := by decide
  rw [prefixOf, hlit]
  simp only [List.append_assoc, List.cons_append, List.nil_append]
  rw [split_append_cons (by decide), split_append_cons
    (fun h => (hs.plain h).2.1 rfl), split_append_cons
    (fun h => (hd.plain h).2.1 rfl)]

theorem notMem_dotParts_of_no_dot {part : Str} (hne : part ≠ [])
    (hdot : dot ∉ part) : part ∉ dotParts := by
  intro h
  simp only [dotParts, List.mem_cons, List.not_mem_nil, or_false] at h
  rcases h with rfl | rfl | rfl
  · exact hne rfl
  · exact hdot (by decide)
  · exact hdot (by decide)

theorem utf8Encode_prefixOf {s d : Str} (hs : IsSessionId s) (hd : IsDigest d) :
    ∃ encoded, utf8Encode (prefixOf s d ++ [slash]) = some encoded ∧
      encoded.length = 112 := by
  have hascii : IsAscii (prefixOf s d ++ [slash]) := by
    intro c hc
    simp only [prefixOf, List.mem_append, List.mem_cons, List.not_mem_nil,
      or_false] at hc
    rcases hc with ((hc | hc) | rfl | hc) | rfl
    · exact (plain_submitted hc).2
    · exact (hs.plain hc).2.2.2.2.2
    · decide
    · exact (hd.plain hc).2.2.2.2.2
    · decide
  refine ⟨_, utf8Encode_of_isAscii hascii, ?_⟩
  simp [asciiBytes, prefixOf, hs.length, hd.length,
    show (lit "submitted/").length = 10 by decide]

/-- The names with a key that the store accepts. -/
theorem exists_key_iff_storable {s d rel : Str} (hs : IsSessionId s)
    (hd : IsDigest d) (hdot : rel ≠ lit ".") :
    (∃ key, submissionKey s d rel = .ok key ∧ validateKey key = .ok key) ↔
      Storable rel := by
  obtain ⟨pre, hpre, hlen⟩ := utf8Encode_prefixOf hs hd
  have hencode (raw : Str) : utf8Encode (prefixOf s d ++ slash :: raw) =
      (utf8Encode raw).map fun b => pre ++ b := by
    rw [show prefixOf s d ++ slash :: raw = (prefixOf s d ++ [slash]) ++ raw by
      simp, utf8Encode_append, hpre]
    rfl
  simp only [submissionKey, submissionPrefix_eq hs hd]
  constructor
  · rintro ⟨key, hkey, hvalid⟩
    cases hnorm : normalizeRelPath rel with
    | error e => simp [hnorm] at hkey
    | ok r =>
        simp only [hnorm] at hkey
        obtain rfl := Except.ok.inj hkey
        obtain ⟨rfl, hparts, hctl⟩ := (normalizeRelPath_ok_iff hdot).mp hnorm
        obtain ⟨-, -, -, ⟨encoded, henc, hle⟩, -⟩ := validateKey_ok_iff.mp hvalid
        rw [hencode, Option.map_eq_some_iff] at henc
        obtain ⟨b, hb, rfl⟩ := henc
        refine ⟨hparts, hctl, b, hb, ?_⟩
        rw [List.length_append, hlen, maxKeyBytes] at hle
        rw [maxRelBytes]
        omega
  · rintro ⟨hparts, hctl, b, hb, hle⟩
    refine ⟨prefixOf s d ++ slash :: replaceBackslash rel, ?_, ?_⟩
    · rw [(normalizeRelPath_ok_iff hdot).mpr ⟨rfl, hparts, hctl⟩]
    · have hctl' := isControl_replaceBackslash.mpr hctl
      refine validateKey_ok_iff.mpr ⟨rfl, ?_, ?_, ⟨pre ++ b, ?_, ?_⟩, ?_⟩
      · simp only [prefixOf, List.mem_append, List.mem_cons, not_or]
        exact ⟨⟨⟨by decide, fun h => (hs.plain h).2.2.1 rfl⟩, by decide,
          fun h => (hd.plain h).2.2.1 rfl⟩, by decide,
          backslash_notMem_replaceBackslash rel⟩
      · intro part hpart
        rw [split_prefixOf hs hd, List.mem_append] at hpart
        rcases hpart with hpart | hpart
        · simp only [List.mem_cons, List.not_mem_nil, or_false] at hpart
          rcases hpart with rfl | rfl | rfl
          · decide
          · refine notMem_dotParts_of_no_dot ?_ fun h => (hs.plain h).2.2.2.1 rfl
            rintro rfl
            simpa using hs.length
          · refine notMem_dotParts_of_no_dot ?_ fun h => (hd.plain h).2.2.2.1 rfl
            rintro rfl
            simpa using hd.length
        · exact hparts part hpart
      · rw [hencode, hb]
        rfl
      · rw [List.length_append, hlen, maxKeyBytes]
        rw [maxRelBytes] at hle
        omega
      · intro c hc
        simp only [prefixOf, List.mem_append, List.mem_cons] at hc
        rcases hc with ((hc | hc) | rfl | hc) | rfl | hc
        · exact (plain_submitted hc).1
        · exact (hs.plain hc).2.2.2.2.1
        · decide
        · exact (hd.plain hc).2.2.2.2.1
        · decide
        · exact hctl' c hc

end PromptCode
