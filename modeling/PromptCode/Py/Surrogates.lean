import Mathlib.Data.List.Chain
import PromptCode.Py.JsonLoads

/-!
# Surrogates in JSON strings

A text without surrogates can still escape one.  `json.loads` joins the escapes of a high
and a low surrogate, so in what it reads from such a text no high surrogate stands directly
before a low one; every string of this kind is read back from what `json.dumps` writes.
-/

namespace PromptCode.Py

def isHighSurrogate (c : CodePoint) : Bool := 0xd800 ≤ c.val && c.val < 0xdc00

def isLowSurrogate (c : CodePoint) : Bool := 0xdc00 ≤ c.val && c.val < 0xe000

/-- No high surrogate stands directly before a low one. -/
def Unpaired (s : Str) : Prop :=
  s.IsChain fun c d => ¬ (isHighSurrogate c = true ∧ isLowSurrogate d = true)

theorem unpaired_cons {c : CodePoint} {s : Str} :
    Unpaired (c :: s) ↔ (isHighSurrogate c = true → ∀ d ∈ s.head?, isLowSurrogate d = false) ∧
      Unpaired s := by
  unfold Unpaired
  rw [List.isChain_cons]
  refine and_congr ⟨fun h hc d hd => ?_, fun h d hd hpair => ?_⟩ Iff.rfl
  · exact Bool.eq_false_iff.mpr fun hlow => h d hd ⟨hc, hlow⟩
  · rw [h hpair.1 d hd] at hpair
    exact absurd hpair.2 (by decide)

theorem IsText.unpaired {s : Str} (h : IsText s) : Unpaired s := by
  induction s with
  | nil => exact List.IsChain.nil
  | cons c s ih =>
      refine unpaired_cons.mpr ⟨fun hc => ?_, ih fun d hd => h d (by simp [hd])⟩
      have hplain := h c (by simp)
      simp only [isHighSurrogate, Bool.and_eq_true, decide_eq_true_eq] at hc
      simp only [isSurrogate, Bool.and_eq_false_iff, decide_eq_false_iff_not] at hplain
      omega

/-! ## Writing -/

theorem readLowSurrogate_of_ne {high : ℕ} {s : Str} (h : ∀ t, s ≠ backslash :: 117 :: t) :
    readLowSurrogate high s = none := by
  unfold readLowSurrogate
  split_ifs
  · rcases s with _ | ⟨b, _ | ⟨u, t⟩⟩
    · rfl
    · rfl
    · refine if_neg ?_
      rintro ⟨rfl, rfl⟩
      exact h t rfl
  · rfl

/-- The escape of a low surrogate is written for a low surrogate only. -/
theorem readLowSurrogate_jsonChar {high : ℕ} {d : CodePoint}
    (hd : isLowSurrogate d = false) (rest : Str) :
    readLowSurrogate high (jsonChar d ++ rest) = none := by
  have hescape : ∀ n < 0x10000, ¬ (0xdc00 ≤ n ∧ n < 0xe000) → ∀ rest,
      readLowSurrogate high (jsonUnicodeEscape n ++ rest) = none := by
    intro n hn hlow rest
    unfold readLowSurrogate
    split_ifs
    · simp [jsonUnicodeEscape, readHex4_hexDigits hn, Option.filter, hlow]
    · rfl
  unfold jsonChar
  rcases hshort : jsonShortEscapes.lookup d.val with _ | e
  · obtain ⟨-, hslash⟩ := ne_of_lookup_eq_none hshort
    simp only [isLowSurrogate, Bool.and_eq_false_iff, decide_eq_false_iff_not] at hd
    dsimp only
    split_ifs with hprint hbmp
    · apply readLowSurrogate_of_ne
      intro t ht
      exact hslash (List.cons.inj ht).1
    · exact hescape _ hbmp (by omega) rest
    · have hlt := d.isLt
      rw [List.append_assoc]
      exact hescape _ (by omega) (by omega) _
  · have hall : ∀ p ∈ jsonShortEscapes, p.2 ≠ 117 := by decide
    obtain ⟨before, after, heq, -⟩ := List.lookup_eq_some_iff.mp hshort
    have hu := hall (d.val, e) (by simp [heq])
    apply readLowSurrogate_of_ne
    intro t ht
    exact hu (List.cons.inj (List.cons.inj ht).2).1

/-- A high surrogate that is not before a low one is read back. -/
theorem readString_high {c : CodePoint} (hc : isHighSurrogate c = true) {after : Str}
    (hafter : readLowSurrogate c.val after = none) (n : ℕ) :
    readString (n + 1) (jsonChar c ++ after) =
      (readString n after).map fun t => (c :: t.1, t.2) := by
  simp only [isHighSurrogate, Bool.and_eq_true, decide_eq_true_eq] at hc
  have hshort : jsonShortEscapes.lookup c.val = none := by
    rw [List.lookup_eq_none_iff]
    intro p hp
    have hsmall : ∀ p ∈ jsonShortEscapes, p.1 < 0xd800 := by decide
    have hlt := hsmall p hp
    exact bne_iff_ne.mpr (by omega)
  have hcode : (Fin.ofNat 0x110000 c.val : CodePoint) = c :=
    Fin.ext (Nat.mod_eq_of_lt c.isLt)
  have hescape : readEscape ((jsonUnicodeEscape c.val).tail ++ after) = some (c, after) := by
    simp only [jsonUnicodeEscape, List.tail_cons, List.cons_append, List.nil_append,
      readEscape, if_true, readHex4_hexDigits (show c.val < 0x10000 by omega),
      Option.map_some, hafter, hcode]
  have htext : jsonChar c ++ after = backslash :: ((jsonUnicodeEscape c.val).tail ++ after) := by
    unfold jsonChar
    rw [hshort]
    dsimp only
    rw [if_neg (by omega), if_pos (by omega)]
    rfl
  rw [htext, readString, if_neg (by decide), if_pos rfl, hescape]
  rfl

theorem readString_unpaired {s : Str} (hs : Unpaired s) {n : ℕ} (hn : s.length < n)
    (rest : Str) : readString n (s.flatMap jsonChar ++ 34 :: rest) = some (s, rest) := by
  induction s generalizing n with
  | nil =>
      obtain ⟨k, rfl⟩ : ∃ k, n = k + 1 := ⟨n - 1, by simp at hn; omega⟩
      simp [readString]
  | cons c s ih =>
      obtain ⟨k, rfl⟩ : ∃ k, n = k + 1 := ⟨n - 1, by simp at hn; omega⟩
      obtain ⟨hhigh, hs⟩ := unpaired_cons.mp hs
      have hnext := ih hs (n := k) (by simpa using hn)
      rw [List.flatMap_cons, List.append_assoc]
      by_cases hc : isHighSurrogate c = true
      · have hafter : readLowSurrogate c.val (s.flatMap jsonChar ++ 34 :: rest) = none := by
          rcases s with _ | ⟨d, s⟩
          · apply readLowSurrogate_of_ne
            intro t ht
            exact absurd (List.cons.inj ht).1 (by decide)
          · rw [List.flatMap_cons, List.append_assoc]
            exact readLowSurrogate_jsonChar (hhigh hc d rfl) _
        rw [readString_high hc hafter, hnext]
        rfl
      · have hplain : ReadsAs (jsonChar c) c := by
          apply readsAs_jsonChar
          simpa only [isHighSurrogate, Bool.and_eq_true, decide_eq_true_eq] using hc
        rw [hplain, hnext]
        rfl

theorem jsonChar_ne_nil (c : CodePoint) : jsonChar c ≠ [] := by
  unfold jsonChar
  rcases jsonShortEscapes.lookup c.val with _ | d
  · dsimp only
    split_ifs <;> simp [jsonUnicodeEscape]
  · simp

theorem readsString_of_unpaired {style : JsonStyle} (hascii : style.ensureAscii = true)
    {s : Str} (hs : Unpaired s) : style.ReadsString s := by
  intro rest
  have hlen := length_le_flatMap fun c (_ : c ∈ s) => jsonChar_ne_nil c
  rw [JsonStyle.string, List.tail_cons, List.append_assoc, if_pos hascii]
  refine readString_unpaired hs ?_ rest
  simp only [List.length_append]
  omega

/-- A string that is written as it is, is read back, surrogates or not. -/
theorem readsString_of_raw {style : JsonStyle} (hraw : style.ensureAscii = false) (s : Str) :
    style.ReadsString s := by
  intro rest
  have hlen := length_le_flatMap fun c (_ : c ∈ s) => (readsAs_rawChar c).ne_nil
  rw [JsonStyle.string, List.tail_cons, List.append_assoc, if_neg (by simp [hraw])]
  refine readString_flatMap (fun c _ => readsAs_rawChar c) ?_ rest
  simp only [List.length_append]
  omega

/-! ## Reading -/

/-- What follows the part that has been read has no surrogates either. -/
theorem IsText.of_suffix {s t : Str} (h : IsText s) (hsuffix : t <:+ s) : IsText t :=
  fun c hc => h c (hsuffix.subset hc)

theorem readHex4_spec {s rest : Str} {n : ℕ} (h : readHex4 s = some (n, rest)) :
    n < 0x10000 ∧ rest <:+ s := by
  have hdigit : ∀ c x, hexValue c = some x → x < 16 := by
    intro c x hx
    unfold hexValue at hx
    split_ifs at hx
    all_goals
      have hvalue := Option.some.inj hx
      omega
  match s with
  | a :: b :: c :: d :: t =>
      simp only [readHex4, Option.bind_eq_bind, Option.bind_eq_some_iff, Option.pure_def,
        Option.some.injEq, Prod.mk.injEq] at h
      obtain ⟨x, hx, y, hy, z, hz, w, hw, rfl, rfl⟩ := h
      have h1 := hdigit a x hx
      have h2 := hdigit b y hy
      have h3 := hdigit c z hz
      have h4 := hdigit d w hw
      exact ⟨by omega, [a, b, c, d], rfl⟩
  | [] | [_] | [_, _] | [_, _, _] => exact absurd h (by simp [readHex4])

theorem readLowSurrogate_spec {high low : ℕ} {s rest : Str}
    (h : readLowSurrogate high s = some (low, rest)) :
    0xdc00 ≤ low ∧ low < 0xe000 ∧ 0xd800 ≤ high ∧ high < 0xdc00 ∧ rest <:+ s := by
  unfold readLowSurrogate at h
  split_ifs at h with hhigh
  match s with
  | b :: u :: t =>
      dsimp only at h
      split_ifs at h
      obtain ⟨hread, hlow⟩ := Option.filter_eq_some_iff.mp h
      have hlow := of_decide_eq_true hlow
      obtain ⟨-, hsuffix⟩ := readHex4_spec hread
      exact ⟨hlow.1, hlow.2, hhigh.1, hhigh.2, hsuffix.trans ⟨[b, u], rfl⟩⟩
  | [] | [_] => exact absurd h (by simp)

/-- Whether the escape of a low surrogate comes next does not depend on the high one. -/
theorem readLowSurrogate_eq_none {n : ℕ} (hn : 0xd800 ≤ n ∧ n < 0xdc00) {s : Str}
    (h : readLowSurrogate n s = none) (high : ℕ) : readLowSurrogate high s = none := by
  unfold readLowSurrogate at h ⊢
  rw [if_pos hn] at h
  split_ifs
  · exact h
  · rfl

/-- An escape that reads as a high surrogate is not followed by that of a low one, and only
the escape of a low surrogate reads as one. -/
theorem readEscape_spec {s rest : Str} {c : CodePoint} (h : readEscape s = some (c, rest)) :
    rest <:+ s ∧
      (isHighSurrogate c = true → ∀ high, readLowSurrogate high rest = none) ∧
      (isLowSurrogate c = true → ∃ r, readLowSurrogate 0xd800 (backslash :: s) = some r) := by
  rcases s with _ | ⟨d, s⟩
  · exact absurd h (by simp [readEscape])
  · rw [readEscape] at h
    split_ifs at h with hu
    · subst hu
      obtain ⟨⟨n, t⟩, hread, hr⟩ := Option.map_eq_some_iff.mp h
      obtain ⟨hn, hsuffix⟩ := readHex4_spec hread
      dsimp only at hr
      cases hlow : readLowSurrogate n t with
      | some low =>
          rw [hlow] at hr
          obtain ⟨rfl, rfl⟩ := Prod.mk.inj hr
          obtain ⟨h1, h2, h3, h4, hsuffix'⟩ := readLowSurrogate_spec hlow
          refine ⟨(hsuffix'.trans hsuffix).trans (List.suffix_cons _ _), ?_, ?_⟩
          all_goals
            intro hc
            simp only [isHighSurrogate, isLowSurrogate, Fin.val_ofNat, Bool.and_eq_true,
              decide_eq_true_eq] at hc
            omega
      | none =>
          rw [hlow] at hr
          obtain ⟨rfl, rfl⟩ := Prod.mk.inj hr
          refine ⟨hsuffix.trans (List.suffix_cons _ _), fun hc high => ?_, fun hc => ?_⟩
          · simp only [isHighSurrogate, Fin.val_ofNat, Bool.and_eq_true, decide_eq_true_eq] at hc
            exact readLowSurrogate_eq_none (by omega) hlow high
          · simp only [isLowSurrogate, Fin.val_ofNat, Bool.and_eq_true, decide_eq_true_eq] at hc
            refine ⟨(n, t), ?_⟩
            unfold readLowSurrogate
            rw [if_pos (by decide)]
            dsimp only
            rw [if_pos ⟨rfl, rfl⟩, hread]
            exact Option.filter_eq_some_iff.mpr ⟨rfl, decide_eq_true (by dsimp only; omega)⟩
    · obtain ⟨e, hfind, hr⟩ := Option.map_eq_some_iff.mp h
      obtain ⟨rfl, rfl⟩ := Prod.mk.inj hr
      have hsmall : ∀ e ∈ jsonReadEscapes, e.1 < 0x80 := by decide
      have hlt := hsmall e (List.mem_of_find?_eq_some hfind)
      refine ⟨List.suffix_cons _ _, ?_, ?_⟩
      all_goals
        intro hc
        simp only [isHighSurrogate, isLowSurrogate, Fin.val_ofNat, Bool.and_eq_true,
          decide_eq_true_eq] at hc
        omega

/-- What is read up to the closing quote. -/
theorem readString_spec {n : ℕ} {s t rest : Str} (hs : IsText s)
    (h : readString n s = some (t, rest)) :
    rest <:+ s ∧ Unpaired t ∧ ((∃ d ∈ t.head?, isLowSurrogate d = true) →
      ∃ r, readLowSurrogate 0xd800 s = some r) := by
  induction n generalizing s t with
  | zero => exact absurd h (by simp [readString])
  | succ n ih =>
      rcases s with _ | ⟨c, s⟩
      · exact absurd h (by simp [readString])
      · have htail : IsText s := hs.of_suffix (List.suffix_cons _ _)
        rw [readString] at h
        split_ifs at h with hquote hslash hcontrol
        · obtain ⟨rfl, rfl⟩ := Prod.mk.inj (Option.some.inj h)
          exact ⟨List.suffix_cons _ _, List.IsChain.nil, by simp⟩
        · subst hslash
          obtain ⟨⟨d, u⟩, hescape, hread⟩ := Option.bind_eq_some_iff.mp h
          obtain ⟨⟨w, v⟩, hnext, hr⟩ := Option.map_eq_some_iff.mp hread
          obtain ⟨rfl, rfl⟩ := Prod.mk.inj hr
          obtain ⟨hsuffix, hhigh, hlow⟩ := readEscape_spec hescape
          obtain ⟨hsuffix', hunpaired, hhead⟩ := ih (htail.of_suffix hsuffix) hnext
          refine ⟨(hsuffix'.trans hsuffix).trans (List.suffix_cons _ _),
            unpaired_cons.mpr ⟨fun hd e he => ?_, hunpaired⟩, ?_⟩
          · by_contra hlow'
            obtain ⟨r, hr⟩ := hhead ⟨e, he, by simpa using hlow'⟩
            rw [hhigh hd] at hr
            exact absurd hr (by simp)
          · rintro ⟨e, he, hlow'⟩
            obtain rfl := Option.some.inj he
            exact hlow hlow'
        · obtain ⟨⟨w, v⟩, hnext, hr⟩ := Option.map_eq_some_iff.mp h
          obtain ⟨rfl, rfl⟩ := Prod.mk.inj hr
          obtain ⟨hsuffix, hunpaired, -⟩ := ih htail hnext
          have hplain := hs c (by simp)
          simp only [isSurrogate, Bool.and_eq_false_iff, decide_eq_false_iff_not] at hplain
          refine ⟨hsuffix.trans (List.suffix_cons _ _),
            unpaired_cons.mpr ⟨fun hc => ?_, hunpaired⟩, ?_⟩
          · simp only [isHighSurrogate, Bool.and_eq_true, decide_eq_true_eq] at hc
            omega
          · rintro ⟨e, he, hlow⟩
            obtain rfl := Option.some.inj he
            simp only [isLowSurrogate, Bool.and_eq_true, decide_eq_true_eq] at hlow
            omega

/-! ## Values -/

def ScalarLoaded (o : LoadsOptions) : Json → Prop
  | .int z => (jsonNat z.natAbs).length ≤ o.maxDigits
  | .str s => Unpaired s
  | _ => True

/-- A value as `json.loads` makes it: no pair of surrogates, no integer beyond the limit, no
key twice. -/
def Loaded (o : LoadsOptions) : Json → Prop := Json.All (ScalarLoaded o) Unpaired

theorem Loaded.readsBack {o : LoadsOptions} {style : JsonStyle} {v : Json} (h : Loaded o v)
    (hascii : style.ensureAscii = true) (hfinite : v.allFinite = true) :
    ReadsBack o style v := by
  induction v using Json.containers_induction with
  | scalar v harr hobj =>
      match v with
      | .null | .bool _ => trivial
      | .int _ => exact h
      | .float (.finite d) => exact ⟨d, rfl⟩
      | .str s => exact readsString_of_unpaired hascii h
      | .arr items => exact absurd rfl (harr items)
      | .obj fields => exact absurd rfl (hobj fields)
  | arr items ih =>
      apply allItems_iff.mpr
      intro v hv
      exact ih v hv (allItems_iff.mp h v hv) (everyItem_iff.mp hfinite v hv)
  | obj fields ih =>
      refine ⟨h.1, allFields_iff.mpr ?_⟩
      intro f hf
      obtain ⟨hkey, hv⟩ := allFields_iff.mp h.2 f hf
      exact ⟨readsString_of_unpaired hascii hkey, ih f hf hv (everyField_iff.mp hfinite f hf)⟩

theorem Loaded.allWritten {constants : Bool} {v : Json} (h : Loaded ⟨maxStrDigits, constants⟩ v) :
    v.allWritten = true := by
  induction v using Json.containers_induction with
  | scalar v harr hobj =>
      match v with
      | .null | .bool _ | .float _ | .str _ => rfl
      | .int _ => exact decide_eq_true h
      | .arr items => exact absurd rfl (harr items)
      | .obj fields => exact absurd rfl (hobj fields)
  | arr items ih =>
      exact everyItem_iff.mpr fun v hv => ih v hv (allItems_iff.mp h v hv)
  | obj fields ih =>
      exact everyField_iff.mpr fun f hf => ih f hf (allFields_iff.mp h.2 f hf).2

/-- What is read from a text without surrogates is such a value. -/
def ReadsLoaded (o : LoadsOptions) (read : Str → Option (Json × Str)) : Prop :=
  ∀ s v rest, IsText s → read s = some (v, rest) → Loaded o v ∧ rest <:+ s

theorem digitsValue_lt {s : Str} (h : ∀ c ∈ s, isDigit c = true) :
    digitsValue s < 10 ^ s.length := by
  induction s using List.reverseRecOn with
  | nil => simp [digitsValue]
  | append_singleton s c ih =>
      have hs := ih fun d hd => h d (by simp [hd])
      have hc := h c (by simp)
      simp only [isDigit, Bool.and_eq_true, decide_eq_true_eq] at hc
      rw [digitsValue_append, List.length_append, List.length_singleton, pow_one, pow_succ]
      have hone : digitsValue [c] = c.val - 48 := by simp [digitsValue]
      omega

theorem readWhole_spec {s w rest : Str} (h : readWhole s = some (w, rest)) :
    rest <:+ s ∧ 0 < w.length ∧ ∀ c ∈ w, isDigit c = true := by
  rcases s with _ | ⟨c, t⟩
  · exact absurd h (by simp [readWhole])
  · rw [readWhole] at h
    split_ifs at h with hzero hdigit
    · obtain ⟨rfl, rfl⟩ := Prod.mk.inj (Option.some.inj h)
      exact ⟨List.suffix_cons _ _, by simp, by simp [isDigit]⟩
    · obtain ⟨rfl, rfl⟩ := Prod.mk.inj (Option.some.inj h)
      refine ⟨List.dropWhile_suffix _, ?_, fun d hd => List.mem_takeWhile_imp hd⟩
      simp [hdigit]

theorem readFraction_suffix (s : Str) : (readFraction s).2 <:+ s := by
  rcases s with _ | ⟨c, t⟩
  · exact List.suffix_refl _
  · rw [readFraction]
    split_ifs
    · exact (List.dropWhile_suffix _).trans (List.suffix_cons _ _)
    · exact List.suffix_refl _

theorem readSign_suffix (s : Str) : (readSign s).2 <:+ s := by
  rcases s with _ | ⟨c, t⟩
  · exact List.suffix_refl _
  · rw [readSign]
    split_ifs
    · exact List.suffix_cons _ _
    · exact List.suffix_cons _ _
    · exact List.suffix_refl _

theorem readExponent_suffix (s : Str) : (readExponent s).2 <:+ s := by
  rcases s with _ | ⟨c, t⟩
  · exact List.suffix_refl _
  · rw [readExponent]
    dsimp only
    by_cases hexp : (c = 101 ∨ c = 69) ∧ (readSign t).2.takeWhile isDigit ≠ []
    · rw [if_pos hexp]
      exact ((List.dropWhile_suffix _).trans (readSign_suffix t)).trans (List.suffix_cons _ _)
    · rw [if_neg hexp]

theorem readMinus_suffix (s : Str) : (readMinus s).2 <:+ s := by
  rcases s with _ | ⟨c, t⟩
  · exact List.suffix_refl _
  · rw [readMinus]
    split_ifs
    · exact List.suffix_cons _ _
    · exact List.suffix_refl _

theorem readsLoaded_scanNumber (o : LoadsOptions) : ReadsLoaded o (scanNumber o) := by
  intro s v rest _ h
  unfold scanNumber readNotation at h
  dsimp only at h
  obtain ⟨r, hr, hvalue⟩ := Option.bind_eq_some_iff.mp h
  obtain ⟨⟨w, u⟩, hwhole, rfl⟩ := Option.map_eq_some_iff.mp hr
  obtain ⟨hsuffix, hpos, hdigits⟩ := readWhole_spec hwhole
  have hrest : (readExponent (readFraction u).2).2 <:+ s :=
    (((readExponent_suffix _).trans (readFraction_suffix u)).trans hsuffix).trans
      (readMinus_suffix s)
  dsimp only at hvalue
  by_cases hint : (readFraction u).1 = [] ∧ (readExponent (readFraction u).2).1 = none
  · rw [if_pos hint] at hvalue
    obtain ⟨hlimit, hnumber⟩ := Option.ite_none_right_eq_some.mp hvalue
    obtain ⟨rfl, rfl⟩ := Prod.mk.inj (Option.some.inj hnumber)
    have hlen : (jsonNat (digitsValue w)).length ≤ w.length := by
      rw [jsonNat, List.length_map]
      exact Nat.toDigits_length _ _ _ hpos (digitsValue_lt hdigits)
    refine ⟨?_, hrest⟩
    change (jsonNat (Int.natAbs _)).length ≤ o.maxDigits
    split_ifs
    · rw [Int.natAbs_neg, Int.natAbs_natCast]
      exact hlen.trans hlimit
    · rw [Int.natAbs_natCast]
      exact hlen.trans hlimit
  · rw [if_neg hint] at hvalue
    obtain ⟨rfl, rfl⟩ := Prod.mk.inj (Option.some.inj hvalue)
    exact ⟨trivial, hrest⟩

theorem readsLoaded_scanScalar (o : LoadsOptions) : ReadsLoaded o (scanScalar o) := by
  intro s v rest hs h
  rcases s with _ | ⟨c, t⟩
  · exact absurd h (by simp [scanScalar])
  · rw [scanScalar] at h
    split_ifs at h with hquote
    · obtain ⟨⟨u, w⟩, hread, hr⟩ := Option.map_eq_some_iff.mp h
      obtain ⟨rfl, rfl⟩ := Prod.mk.inj hr
      obtain ⟨hsuffix, hunpaired, -⟩ :=
        readString_spec (hs.of_suffix (List.suffix_cons _ _)) hread
      exact ⟨hunpaired, hsuffix.trans (List.suffix_cons _ _)⟩
    · cases hfind : (literals o).find? fun l => l.1.isPrefixOf (c :: t) with
      | none =>
          rw [hfind] at h
          exact readsLoaded_scanNumber o _ _ _ hs h
      | some l =>
          rw [hfind] at h
          obtain ⟨rfl, rfl⟩ := Prod.mk.inj (Option.some.inj h)
          refine ⟨?_, List.drop_suffix _ _⟩
          have hall : ∀ l ∈ literals o, Loaded o l.2 := by
            intro l hl
            unfold literals at hl
            rcases List.mem_append.mp hl with hl | hl
            · fin_cases hl <;> trivial
            · split_ifs at hl
              · fin_cases hl <;> trivial
              · simp at hl
          exact hall l (List.mem_of_find?_eq_some hfind)

theorem mem_dictSet {fields : List (Str × Json)} {k : Str} {v : Json} {f : Str × Json}
    (h : f ∈ dictSet fields k v) : f = (k, v) ∨ f ∈ fields := by
  unfold dictSet at h
  split_ifs at h
  · obtain ⟨g, hg, hf⟩ := List.mem_map.mp h
    split_ifs at hf
    · exact Or.inl hf.symm
    · exact Or.inr (hf ▸ hg)
  · rcases List.mem_append.mp h with h | h
    · exact Or.inr h
    · exact Or.inl (List.mem_singleton.mp h)

theorem nodup_dictSet {fields : List (Str × Json)} (k : Str) (v : Json)
    (h : (fields.map Prod.fst).Nodup) : ((dictSet fields k v).map Prod.fst).Nodup := by
  unfold dictSet
  split_ifs with hk
  · have hkeys : (fields.map fun f => if f.1 = k then (k, v) else f).map Prod.fst =
        fields.map Prod.fst := by
      rw [List.map_map]
      apply List.map_congr_left
      intro f _
      simp only [Function.comp_apply]
      split_ifs with hf
      · exact hf.symm
      · rfl
    rw [hkeys]
    exact h
  · rw [List.map_append, List.map_singleton]
    refine h.append (List.nodup_singleton k) ?_
    simpa using hk

theorem dictOf_spec (pairs : List (Str × Json)) :
    ((dictOf pairs).map Prod.fst).Nodup ∧ ∀ f ∈ dictOf pairs, f ∈ pairs := by
  have hfold : ∀ (pairs fields : List (Str × Json)), (fields.map Prod.fst).Nodup →
      ((pairs.foldl (fun fields p => dictSet fields p.1 p.2) fields).map Prod.fst).Nodup ∧
        ∀ f ∈ pairs.foldl (fun fields p => dictSet fields p.1 p.2) fields,
          f ∈ fields ∨ f ∈ pairs := by
    intro pairs
    induction pairs with
    | nil => exact fun fields h => ⟨h, fun f hf => Or.inl hf⟩
    | cons p pairs ih =>
        intro fields h
        obtain ⟨hnodup, hmem⟩ := ih _ (nodup_dictSet p.1 p.2 h)
        refine ⟨hnodup, fun f hf => ?_⟩
        rcases hmem f hf with hf | hf
        · rcases mem_dictSet hf with rfl | hf
          · exact Or.inr (by simp)
          · exact Or.inl hf
        · exact Or.inr (by simp [hf])
  obtain ⟨hnodup, hmem⟩ := hfold pairs [] (by simp)
  refine ⟨hnodup, fun f hf => ?_⟩
  rcases hmem f hf with hf | hf
  · exact absurd hf (by simp)
  · exact hf

section

variable {o : LoadsOptions} {read : Str → Option (Json × Str)}

theorem skipSpace_suffix {s t : Str} {c : CodePoint} (h : skipSpace s = c :: t) : t <:+ s :=
  (List.suffix_cons c t).trans (h ▸ List.dropWhile_suffix _)

theorem readItems_loaded (hread : ReadsLoaded o read) {n : ℕ} {s rest : Str}
    {items : List Json} (hs : IsText s) (h : readItems read n s = some (items, rest)) :
    (∀ v ∈ items, Loaded o v) ∧ rest <:+ s := by
  induction n generalizing s items with
  | zero => exact absurd h (by simp [readItems])
  | succ n ih =>
      obtain ⟨⟨v, u⟩, hv, hnext⟩ := Option.bind_eq_some_iff.mp h
      obtain ⟨hloaded, hsuffix⟩ := hread s v u hs hv
      dsimp only at hnext
      cases hskip : skipSpace u with
      | nil => rw [hskip] at hnext; exact absurd hnext (by simp)
      | cons c t =>
          rw [hskip] at hnext
          have htail : t <:+ s := (skipSpace_suffix hskip).trans hsuffix
          dsimp only at hnext
          split_ifs at hnext with hclose hcomma
          · obtain ⟨rfl, rfl⟩ := Prod.mk.inj (Option.some.inj hnext)
            exact ⟨by simpa using hloaded, htail⟩
          · obtain ⟨⟨vs, w⟩, hvs, hr⟩ := Option.map_eq_some_iff.mp hnext
            obtain ⟨rfl, rfl⟩ := Prod.mk.inj hr
            have hskipped : skipSpace t <:+ s := (List.dropWhile_suffix _).trans htail
            obtain ⟨hall, hrest⟩ := ih (hs.of_suffix hskipped) hvs
            exact ⟨List.forall_mem_cons.mpr ⟨hloaded, hall⟩, hrest.trans hskipped⟩

theorem readArray_loaded (hread : ReadsLoaded o read) : ReadsLoaded o (readArray read) := by
  intro s v rest hs h
  unfold readArray at h
  cases hskip : skipSpace s with
  | nil => rw [hskip] at h; exact absurd h (by simp)
  | cons c u =>
      rw [hskip] at h
      dsimp only at h
      split_ifs at h with hclose
      · obtain ⟨rfl, rfl⟩ := Prod.mk.inj (Option.some.inj h)
        exact ⟨trivial, skipSpace_suffix hskip⟩
      · obtain ⟨⟨vs, w⟩, hvs, hr⟩ := Option.map_eq_some_iff.mp h
        obtain ⟨rfl, rfl⟩ := Prod.mk.inj hr
        have hskipped : c :: u <:+ s := hskip ▸ List.dropWhile_suffix _
        obtain ⟨hall, hrest⟩ := readItems_loaded hread (hs.of_suffix hskipped) hvs
        exact ⟨allItems_iff.mpr hall, hrest.trans hskipped⟩

theorem readField_loaded (hread : ReadsLoaded o read) {s rest : Str} {f : Str × Json}
    (hs : IsText s) (h : readField read s = some (f, rest)) :
    (Unpaired f.1 ∧ Loaded o f.2) ∧ rest <:+ s := by
  rcases s with _ | ⟨c, t⟩
  · exact absurd h (by simp [readField])
  · rw [readField] at h
    split_ifs at h with hquote
    obtain ⟨⟨k, u⟩, hkey, hnext⟩ := Option.bind_eq_some_iff.mp h
    obtain ⟨hsuffix, hunpaired, -⟩ :=
      readString_spec (hs.of_suffix (List.suffix_cons _ _)) hkey
    dsimp only at hnext
    cases hskip : skipSpace u with
    | nil => rw [hskip] at hnext; exact absurd hnext (by simp)
    | cons d w =>
        rw [hskip] at hnext
        dsimp only at hnext
        split_ifs at hnext with hcolon
        obtain ⟨⟨v, x⟩, hv, hr⟩ := Option.map_eq_some_iff.mp hnext
        obtain ⟨rfl, rfl⟩ := Prod.mk.inj hr
        have hskipped : skipSpace w <:+ c :: t :=
          (((List.dropWhile_suffix _).trans (skipSpace_suffix hskip)).trans hsuffix).trans
            (List.suffix_cons _ _)
        obtain ⟨hloaded, hrest⟩ := hread _ _ _ (hs.of_suffix hskipped) hv
        exact ⟨⟨hunpaired, hloaded⟩, hrest.trans hskipped⟩

theorem readFields_loaded (hread : ReadsLoaded o read) {n : ℕ} {s rest : Str}
    {fields : List (Str × Json)} (hs : IsText s)
    (h : readFields read n s = some (fields, rest)) :
    (∀ f ∈ fields, Unpaired f.1 ∧ Loaded o f.2) ∧ rest <:+ s := by
  induction n generalizing s fields with
  | zero => exact absurd h (by simp [readFields])
  | succ n ih =>
      obtain ⟨⟨f, u⟩, hf, hnext⟩ := Option.bind_eq_some_iff.mp h
      obtain ⟨hloaded, hsuffix⟩ := readField_loaded hread hs hf
      dsimp only at hnext
      cases hskip : skipSpace u with
      | nil => rw [hskip] at hnext; exact absurd hnext (by simp)
      | cons c t =>
          rw [hskip] at hnext
          have htail : t <:+ s := (skipSpace_suffix hskip).trans hsuffix
          dsimp only at hnext
          split_ifs at hnext with hclose hcomma
          · obtain ⟨rfl, rfl⟩ := Prod.mk.inj (Option.some.inj hnext)
            exact ⟨by simpa using hloaded, htail⟩
          · obtain ⟨⟨fs, w⟩, hfs, hr⟩ := Option.map_eq_some_iff.mp hnext
            obtain ⟨rfl, rfl⟩ := Prod.mk.inj hr
            have hskipped : skipSpace t <:+ s := (List.dropWhile_suffix _).trans htail
            obtain ⟨hall, hrest⟩ := ih (hs.of_suffix hskipped) hfs
            exact ⟨List.forall_mem_cons.mpr ⟨hloaded, hall⟩, hrest.trans hskipped⟩

theorem readObject_loaded (hread : ReadsLoaded o read) : ReadsLoaded o (readObject read) := by
  intro s v rest hs h
  unfold readObject at h
  cases hskip : skipSpace s with
  | nil => rw [hskip] at h; exact absurd h (by simp)
  | cons c u =>
      rw [hskip] at h
      dsimp only at h
      split_ifs at h with hclose
      · obtain ⟨rfl, rfl⟩ := Prod.mk.inj (Option.some.inj h)
        exact ⟨⟨List.nodup_nil, trivial⟩, skipSpace_suffix hskip⟩
      · obtain ⟨⟨fs, w⟩, hfs, hr⟩ := Option.map_eq_some_iff.mp h
        obtain ⟨rfl, rfl⟩ := Prod.mk.inj hr
        have hskipped : c :: u <:+ s := hskip ▸ List.dropWhile_suffix _
        obtain ⟨hall, hrest⟩ := readFields_loaded hread (hs.of_suffix hskipped) hfs
        obtain ⟨hnodup, hmem⟩ := dictOf_spec fs
        exact ⟨⟨hnodup, allFields_iff.mpr fun f hf => hall f (hmem f hf)⟩,
          hrest.trans hskipped⟩

end

theorem readsLoaded_readValue (o : LoadsOptions) (d : ℕ) : ReadsLoaded o (readValue o d) := by
  induction d with
  | zero => exact readsLoaded_scanScalar o
  | succ d ih =>
      intro s v rest hs h
      rcases s with _ | ⟨c, t⟩
      · exact absurd h (by simp [readValue])
      · have htail : IsText t := hs.of_suffix (List.suffix_cons _ _)
        rw [readValue] at h
        split_ifs at h
        · obtain ⟨hloaded, hrest⟩ := readArray_loaded ih _ _ _ htail h
          exact ⟨hloaded, hrest.trans (List.suffix_cons _ _)⟩
        · obtain ⟨hloaded, hrest⟩ := readObject_loaded ih _ _ _ htail h
          exact ⟨hloaded, hrest.trans (List.suffix_cons _ _)⟩
        · exact readsLoaded_scanScalar o _ _ _ hs h

theorem loaded_of_jsonLoads {o : LoadsOptions} {d : ℕ} {s : Str} {v : Json} (hs : IsText s)
    (h : jsonLoads o d s = some v) : Loaded o v := by
  obtain ⟨⟨w, rest⟩, hread, hr⟩ := Option.bind_eq_some_iff.mp h
  obtain ⟨-, hr⟩ := Option.ite_none_right_eq_some.mp hr
  obtain rfl := Option.some.inj hr
  exact (readsLoaded_readValue o d _ _ _ (hs.of_suffix (List.dropWhile_suffix _)) hread).1

end PromptCode.Py
