import PromptCode.Registry

/-!
# The policy tests and the walked components

The policy of `registry.py` reads a path as text, `contained_file` walks its
components.  This file compares the two readings.  They differ in two places:
`lstrip("./")` eats the dot of a leading `.reference`, and a part that the walk
drops can stand where the policy looks for the file name or strips blanks.
-/

namespace PromptCode

open Py

/-- The components `contained_file` walks. -/
def walkedParts (relPath : Str) : List Str :=
  (split slash (replaceBackslash relPath)).filter keptPart

/-- Dots and slashes, the last of them a dot, and then `reference`. -/
def hidesReference (relPath : Str) : Bool :=
  let raw := replaceBackslash relPath
  (raw.takeWhile isDotOrSlash).getLast? == some dot &&
    (lit "reference").isPrefixOf (lower (raw.dropWhile isDotOrSlash))

/-- The walk drops the first or the last part of the path. -/
def dropsEdgePart (relPath : Str) : Bool :=
  let parts := split slash (replaceBackslash relPath)
  !(keptPart (parts.headD []) && keptPart (parts.getLastD []))

/-- A frozen name at an end of the path, blanks at the path's ends stripped: the
first part is a frozen folder, or the last a frozen folder or file name. -/
def frozenEnds : List Str → Bool
  | [] => false
  | [p] =>
      let name := lower (strip p)
      decide (strip p = []) || frozenFolder name || frozenName name
  | p :: q :: rest =>
      let name := lower (rstrip isSpace ((q :: rest).getLastD []))
      frozenFolder (lower (lstrip isSpace p)) || frozenFolder name ||
        frozenName name

/-- The policy's reading of the path agrees with the walk's. -/
structure PolicySeesFile (relPath : Str) : Prop where
  reference : hidesReference relPath = false
  ends : dropsEdgePart relPath = true → frozenEnds (walkedParts relPath) = false

instance (relPath : Str) : Decidable (PolicySeesFile relPath) :=
  decidable_of_iff
    (hidesReference relPath = false ∧
      (dropsEdgePart relPath = true → frozenEnds (walkedParts relPath) = false))
    ⟨fun h => ⟨h.1, h.2⟩, fun h => ⟨h.reference, h.ends⟩⟩

/-! ## Blocked fragments -/

theorem isDotOrSlash_iff {c : CodePoint} :
    isDotOrSlash c = true ↔ c = dot ∨ c = slash := by
  simp [isDotOrSlash]

/-- Only `.reference` begins with a character that `lstrip("./")` removes. -/
theorem fragment_cases {frag : Str} (h : frag ∈ blockedNameFragments) :
    lower frag = dot :: lit "reference" ∨
      ∃ c t, lower frag = c :: t ∧ isDotOrSlash c = false := by
  have hall : ∀ f ∈ blockedNameFragments, lower f = dot :: lit "reference" ∨
      (lower f).head?.any (fun c => !isDotOrSlash c) = true := by
    decide
  rcases hall frag h with href | hhead
  · exact Or.inl href
  · cases hf : lower frag with
    | nil => simp [hf] at hhead
    | cons c t => exact Or.inr ⟨c, t, rfl, by simpa [hf] using hhead⟩

theorem lower_of_all_dotOrSlash {s : Str}
    (h : ∀ c ∈ s, isDotOrSlash c = true) : lower s = s := by
  induction s with
  | nil => rfl
  | cons c s ih =>
      have hc : c.val < 65 := by
        rcases isDotOrSlash_iff.mp (h c (by simp)) with rfl | rfl <;> decide
      rw [lower_cons, lowerChar_of_lt hc, ih fun d hd => h d (by simp [hd])]
      rfl

theorem isDotOrSlash_of_mem_takeWhile {s : Str} {c : CodePoint}
    (h : c ∈ s.takeWhile isDotOrSlash) : isDotOrSlash c = true :=
  List.mem_takeWhile_imp h

/-- A word that starts inside a run of other characters starts at its end. -/
theorem infix_append_cases {pre rest w : Str} {c : CodePoint} {t : Str}
    (hw : w = c :: t) (h : w <:+: pre ++ rest) :
    w <:+: rest ∨ ∃ a b, pre = a ++ c :: b ∧ t <+: b ++ rest := by
  obtain ⟨x, y, hxy⟩ := h
  rcases List.append_eq_append_iff.mp
      (show x ++ (w ++ y) = pre ++ rest by simpa using hxy) with
    ⟨b, rfl, hb⟩ | ⟨b, rfl, hb⟩
  · cases b with
    | nil => exact Or.inl ⟨[], y, by simpa using hb⟩
    | cons d b =>
        subst hw
        obtain ⟨rfl, htail⟩ := List.cons.inj (by simpa using hb)
        exact Or.inr ⟨x, b, rfl, ⟨y, htail⟩⟩
  · exact Or.inl ⟨b, y, by simp [← hb]⟩

theorem prefix_of_prefix_append_cons {w p r : Str} {sep : CodePoint}
    (hsep : sep ∉ w) (h : w <+: p ++ sep :: r) : w <+: p := by
  by_cases hlen : w.length ≤ p.length
  · exact List.prefix_of_prefix_length_le h (List.prefix_append _ _) hlen
  · have hsub : p ++ [sep] <+: w := by
      have hbelow : p ++ [sep] <+: p ++ sep :: r := ⟨r, by simp⟩
      refine List.prefix_of_prefix_length_le hbelow h ?_
      simp only [List.length_append, List.length_singleton]
      omega
    exact absurd (hsub.subset (by simp)) hsep

/-- A cut of a string falls inside one part of its split. -/
theorem exists_part_of_append (sep : CodePoint) (x y : Str) :
    ∃ u v, u ++ v ∈ split sep (x ++ y) ∧ sep ∉ v ∧
      (y = v ∨ ∃ r, y = v ++ sep :: r) := by
  have hlast : ∃ u, x = u ∧ sep ∉ u ∨ ∃ r, x = r ++ sep :: u ∧ sep ∉ u := by
    obtain ⟨p, hp, hx | ⟨r, hx⟩⟩ := exists_first_part sep x.reverse
    · exact ⟨x, Or.inl ⟨rfl, by simpa [← hx] using hp⟩⟩
    · refine ⟨p.reverse, Or.inr ⟨r.reverse, ?_, by simpa using hp⟩⟩
      simpa using congrArg List.reverse hx
  obtain ⟨v, hv, hy⟩ := exists_first_part sep y
  have hfirst {u : Str} (hu : sep ∉ u) : u ++ v ∈ split sep (u ++ y) := by
    have huv : sep ∉ u ++ v := by simp [hu, hv]
    rcases hy with rfl | ⟨r, rfl⟩
    · simp [split_of_notMem huv]
    · rw [← List.append_assoc, split_append_cons huv]
      simp
  obtain ⟨u, ⟨rfl, hu⟩ | ⟨r, rfl, hu⟩⟩ := hlast
  · exact ⟨x, v, hfirst hu, hv, hy⟩
  · refine ⟨u, v, ?_, hv, hy⟩
    rw [List.append_assoc, List.cons_append, split,
      List.splitOn_append_cons_self, List.mem_append]
    exact Or.inr (hfirst hu)

theorem holdsBlockedFragment_eq_true_iff {name : Str} :
    holdsBlockedFragment name = true ↔
      ∃ frag ∈ blockedNameFragments, lower frag <:+: lower name := by
  simp [holdsBlockedFragment]

/-- The path lowered, with its leading dots and slashes set apart. -/
theorem lower_raw_eq (raw : Str) :
    lower raw = raw.takeWhile isDotOrSlash ++
      lower (raw.dropWhile isDotOrSlash) := by
  conv_lhs => rw [← List.takeWhile_append_dropWhile (p := isDotOrSlash) (l := raw)]
  rw [lower_append, lower_of_all_dotOrSlash fun c hc =>
    isDotOrSlash_of_mem_takeWhile hc]

/-- A path the policy does not block can hold a blocked component only by
hiding the dot of `.reference` from it. -/
theorem hidesReference_of_blocked_part {relPath part : Str}
    (hblocked : isBlockedPath relPath = false)
    (hpart : part ∈ walkedParts relPath)
    (hfrag : holdsBlockedFragment part = true) :
    hidesReference relPath = true := by
  obtain ⟨frag, hmem, hinfix⟩ := holdsBlockedFragment_eq_true_iff.mp hfrag
  have hraw : lower frag <:+: lower (replaceBackslash relPath) :=
    hinfix.trans (lower_isInfix (isInfix_of_mem_split (List.mem_filter.mp hpart).1))
  have hrest : ¬ lower frag <:+:
      lower ((replaceBackslash relPath).dropWhile isDotOrSlash) := by
    intro h
    have : holdsBlockedFragment
        ((replaceBackslash relPath).dropWhile isDotOrSlash) = true :=
      holdsBlockedFragment_eq_true_iff.mpr ⟨frag, hmem, h⟩
    simp [isBlockedPath, lstrip, this] at hblocked
  rw [lower_raw_eq (replaceBackslash relPath)] at hraw
  obtain ⟨c, t, hct⟩ : ∃ c t, lower frag = c :: t := by
    rcases fragment_cases hmem with h | ⟨c, t, h, -⟩
    · exact ⟨_, _, h⟩
    · exact ⟨c, t, h⟩
  rcases infix_append_cases hct hraw with h | ⟨a, b, hpre, ht⟩
  · exact absurd h hrest
  · have hpremem {d : CodePoint} (hd : d ∈ a ++ c :: b) : isDotOrSlash d = true := by
      rw [← hpre] at hd
      exact isDotOrSlash_of_mem_takeWhile hd
    have href : lower frag = dot :: lit "reference" := by
      rcases fragment_cases hmem with h | ⟨c', t', h, hc'⟩
      · exact h
      · rw [hct] at h
        obtain ⟨rfl, -⟩ := List.cons.inj h
        simp [hpremem (d := c) (by simp)] at hc'
    obtain ⟨rfl, rfl⟩ := List.cons.inj (hct.symm.trans href)
    have hb : b = [] := by
      cases b with
      | nil => rfl
      | cons d b =>
          have hhead : lit "reference" = 114 :: lit "eference" := by decide
          rw [hhead, List.cons_append, List.cons_prefix_cons] at ht
          have hd := hpremem (d := d) (by simp)
          rw [← ht.1] at hd
          exact absurd hd (by decide)
    subst hb
    simp only [hidesReference, hpre, Bool.and_eq_true, beq_iff_eq,
      List.isPrefixOf_iff_prefix]
    exact ⟨by simp, by simpa using ht⟩

theorem exists_blocked_part_of_hidesReference {relPath : Str}
    (h : hidesReference relPath = true) :
    ∃ part ∈ walkedParts relPath, holdsBlockedFragment part = true := by
  simp only [hidesReference, Bool.and_eq_true, beq_iff_eq,
    List.isPrefixOf_iff_prefix] at h
  obtain ⟨hdot, href⟩ := h
  obtain ⟨a, hpre⟩ := List.getLast?_eq_some_iff.mp hdot
  generalize hrest : (replaceBackslash relPath).dropWhile isDotOrSlash = rest at href
  have hraw : replaceBackslash relPath = a ++ dot :: rest := by
    rw [← List.takeWhile_append_dropWhile (p := isDotOrSlash)
      (l := replaceBackslash relPath), hpre, hrest]
    simp
  obtain ⟨u, v, hmem, hv, hy⟩ := exists_part_of_append slash a (dot :: rest)
  obtain ⟨v', rfl, hv'⟩ : ∃ v', v = dot :: v' ∧
      (rest = v' ∨ ∃ r, rest = v' ++ slash :: r) := by
    rcases hy with rfl | ⟨r, hr⟩
    · exact ⟨rest, rfl, Or.inl rfl⟩
    · cases v with
      | nil => exact absurd (List.cons.inj hr).1 (by decide)
      | cons d v =>
          obtain ⟨rfl, htail⟩ := List.cons.inj hr
          exact ⟨v, rfl, Or.inr ⟨r, htail⟩⟩
  have href' : lit "reference" <+: lower v' := by
    rcases hv' with rfl | ⟨r, rfl⟩
    · exact href
    · rw [lower_append, lower_cons, lowerChar_of_lt (by decide),
        List.singleton_append] at href
      exact prefix_of_prefix_append_cons (by decide) href
  have hv'ne : v' ≠ [] := by
    rintro rfl
    exact absurd href' (by decide)
  refine ⟨u ++ dot :: v', List.mem_filter.mpr ⟨hraw ▸ hmem, ?_⟩, ?_⟩
  · refine keptPart_eq_true_iff.mpr ⟨by simp, ?_⟩
    intro heq
    have hlen := congrArg List.length heq
    have hpos := List.length_pos_of_ne_nil hv'ne
    have hone : (lit ".").length = 1 := by decide
    simp only [List.length_append, List.length_cons] at hlen
    omega
  · refine holdsBlockedFragment_eq_true_iff.mpr
      ⟨lit ".reference", by decide, ?_⟩
    obtain ⟨t, ht⟩ := href'
    refine ⟨lower u, t, ?_⟩
    rw [lower_append, lower_cons, lowerChar_of_lt (by decide), ← ht,
      show lower (lit ".reference") = dot :: lit "reference" by decide]
    simp

/-! ## Frozen names -/

theorem isSpace_slash : isSpace slash = false := by decide

theorem rstrip_join_append_singleton (mid : List Str) (q : Str) :
    rstrip isSpace (join slash (mid ++ [q])) =
      join slash (mid ++ [rstrip isSpace q]) := by
  induction mid with
  | nil => simp
  | cons m mid ih =>
      rw [List.cons_append, List.cons_append,
        join_cons_of_ne_nil _ _ (by simp), join_cons_of_ne_nil _ _ (by simp),
        rstrip_append_cons _ _ isSpace_slash, ih]

/-- Stripping a joined path strips its two end parts. -/
theorem strip_join (p q : Str) (mid : List Str) :
    strip (join slash (p :: (mid ++ [q]))) =
      join slash (lstrip isSpace p :: (mid ++ [rstrip isSpace q])) := by
  rw [strip, join_cons_of_ne_nil _ _ (by simp),
    lstrip_append_cons _ _ isSpace_slash, rstrip_append_cons _ _ isSpace_slash,
    rstrip_join_append_singleton, ← join_cons_of_ne_nil _ _ (by simp)]

/-- What the policy's parts of a path have in common: no separator of either
kind and no NUL. -/
def PlainPart (p : Str) : Prop :=
  slash ∉ p ∧ backslash ∉ p ∧ (0 : CodePoint) ∉ p

theorem replaceBackslash_of_notMem {s : Str} (h : backslash ∉ s) :
    replaceBackslash s = s := by
  induction s with
  | nil => rfl
  | cons c s ih =>
      simp only [List.mem_cons, not_or] at h
      simp [replaceBackslash, Ne.symm h.1]
      simpa [replaceBackslash] using ih h.2

theorem backslash_notMem_replaceBackslash (s : Str) :
    backslash ∉ replaceBackslash s := by
  intro h
  obtain ⟨c, -, hc⟩ := List.mem_map.mp h
  by_cases hb : c = backslash
  · rw [if_pos hb] at hc
    exact absurd hc (by decide)
  · rw [if_neg hb] at hc
    exact hb hc

theorem replaceBackslash_idem (s : Str) :
    replaceBackslash (replaceBackslash s) = replaceBackslash s :=
  replaceBackslash_of_notMem (backslash_notMem_replaceBackslash s)

theorem isFrozenPath_replaceBackslash (s : Str) :
    isFrozenPath (replaceBackslash s) = isFrozenPath s := by
  simp only [isFrozenPath, replaceBackslash_idem]

theorem mem_join_iff {sep c : CodePoint} (hc : c ≠ sep) {parts : List Str} :
    c ∈ join sep parts ↔ ∃ p ∈ parts, c ∈ p := by
  induction parts with
  | nil => simp [join]
  | cons p parts ih =>
      by_cases hne : parts = []
      · simp [hne]
      · rw [join_cons_of_ne_nil _ _ hne]
        simp [hc, ih]

/-- The frozen test on the parts of a path that is neither empty nor holds a
NUL once its ends are stripped. -/
theorem isFrozenPath_of_strip_eq {relPath : Str} (parts : List Str)
    (hback : backslash ∉ relPath)
    (hstrip : strip relPath = join slash parts) (hne : parts ≠ [])
    (hslash : ∀ p ∈ parts, slash ∉ p) (hnul : ∀ p ∈ parts, (0 : CodePoint) ∉ p)
    (hempty : parts ≠ [[]]) :
    isFrozenPath relPath =
      ((parts.map lower).any frozenFolder ||
        frozenName ((parts.map lower).getLastD [])) := by
  have hjoin : join slash parts ≠ [] := by
    cases parts with
    | nil => simp at hne
    | cons p rest =>
        cases rest with
        | nil => simpa using hempty
        | cons q rest => simp [join_cons_cons]
  have hzero : (0 : CodePoint) ∉ join slash parts := by
    rw [mem_join_iff (by decide)]
    rintro ⟨p, hp, h⟩
    exact hnul p hp h
  simp only [isFrozenPath, replaceBackslash_of_notMem hback, hstrip]
  rw [if_neg (by simp [hjoin, hzero]), split_lower (by decide),
    split_join hslash hne]

theorem isFrozenPath_singleton {p : Str} (hp : PlainPart p)
    (hblank : strip p ≠ []) :
    isFrozenPath p =
      (frozenFolder (lower (strip p)) || frozenName (lower (strip p))) := by
  have hmem {c : CodePoint} (hc : c ∈ strip p) : c ∈ p :=
    mem_of_mem_lstrip (mem_of_mem_rstrip hc)
  rw [isFrozenPath_of_strip_eq [strip p] hp.2.1 (by simp)
    (by simp) ?_ ?_ (by simpa using hblank)]
  · simp
  · intro q hq
    rw [List.mem_singleton.mp hq]
    exact fun h => hp.1 (hmem h)
  · intro q hq
    rw [List.mem_singleton.mp hq]
    exact fun h => hp.2.2 (hmem h)

theorem getLastD_cons_append_singleton {α : Type} (a b d : α) (l : List α) :
    (a :: (l ++ [b])).getLastD d = b := by
  rw [← List.cons_append]
  exact List.getLastD_concat ..

theorem isFrozenPath_join {p q : Str} {mid : List Str} (hp : PlainPart p)
    (hq : PlainPart q) (hmid : ∀ m ∈ mid, PlainPart m) :
    isFrozenPath (join slash (p :: (mid ++ [q]))) =
      (frozenFolder (lower (lstrip isSpace p)) ||
        mid.any (fun m => frozenFolder (lower m)) ||
        frozenFolder (lower (rstrip isSpace q)) ||
        frozenName (lower (rstrip isSpace q))) := by
  have hparts {c : CodePoint} {m : Str}
      (hm : m ∈ lstrip isSpace p :: (mid ++ [rstrip isSpace q])) (hc : c ∈ m) :
      ∃ m', PlainPart m' ∧ c ∈ m' := by
    rcases List.mem_cons.mp hm with rfl | hm
    · exact ⟨p, hp, mem_of_mem_lstrip hc⟩
    · rcases List.mem_append.mp hm with hm | hm
      · exact ⟨m, hmid m hm, hc⟩
      · rw [List.mem_singleton.mp hm] at hc
        exact ⟨q, hq, mem_of_mem_rstrip hc⟩
  have hback : backslash ∉ join slash (p :: (mid ++ [q])) := by
    rw [mem_join_iff (by decide)]
    rintro ⟨m, hm, h⟩
    rcases List.mem_cons.mp hm with rfl | hm
    · exact hp.2.1 h
    · rcases List.mem_append.mp hm with hm | hm
      · exact (hmid m hm).2.1 h
      · rw [List.mem_singleton.mp hm] at h
        exact hq.2.1 h
  rw [isFrozenPath_of_strip_eq _ hback (strip_join p q mid) (by simp) ?_ ?_
    (by simp)]
  · have hlast : ((lstrip isSpace p :: (mid ++ [rstrip isSpace q])).map
        lower).getLastD [] = lower (rstrip isSpace q) := by
      rw [List.map_cons, List.map_append]
      exact getLastD_cons_append_singleton _ _ _ _
    rw [hlast]
    simp [List.any_map, Function.comp_def, Bool.or_assoc]
  · intro m hm hc
    obtain ⟨m', hm', hmem⟩ := hparts hm hc
    exact hm'.1 hmem
  · intro m hm hc
    obtain ⟨m', hm', hmem⟩ := hparts hm hc
    exact hm'.2.2 hmem

theorem frozenFolder_lower_of_dropped {p : Str} (h : keptPart p = false) :
    frozenFolder (lower p) = false := by
  have hp : p = [] ∨ p = lit "." := by
    by_contra hne
    rw [not_or] at hne
    rw [keptPart_eq_true_iff.mpr hne] at h
    simp at h
  rcases hp with rfl | rfl <;> decide

theorem any_filter_frozenFolder (mid : List Str) :
    (mid.filter keptPart).any (fun m => frozenFolder (lower m)) =
      mid.any (fun m => frozenFolder (lower m)) := by
  induction mid with
  | nil => rfl
  | cons m mid ih =>
      by_cases hm : keptPart m = true
      · simp [hm, ih]
      · simp only [Bool.not_eq_true] at hm
        simp [hm, ih, frozenFolder_lower_of_dropped hm]

/-- Parts dropped between two kept ends do not change the frozen test. -/
theorem isFrozenPath_join_filter {parts : List Str}
    (hplain : ∀ p ∈ parts, PlainPart p) (hne : parts ≠ [])
    (hhead : keptPart (parts.headD []) = true)
    (hlast : keptPart (parts.getLastD []) = true) :
    isFrozenPath (join slash (parts.filter keptPart)) =
      isFrozenPath (join slash parts) := by
  obtain ⟨p, rest, rfl⟩ := List.exists_cons_of_ne_nil hne
  rcases List.eq_nil_or_concat rest with rfl | ⟨mid, q, rfl⟩
  · simp only [List.headD_cons] at hhead
    simp [hhead]
  · simp only [List.headD_cons] at hhead
    have hq : keptPart q = true := by
      rwa [List.concat_eq_append, getLastD_cons_append_singleton] at hlast
    simp only [List.concat_eq_append] at hplain ⊢
    have hpp := hplain p (by simp)
    have hqq := hplain q (by simp)
    have hmid : ∀ m ∈ mid, PlainPart m := fun m hm => hplain m (by simp [hm])
    rw [List.filter_cons_of_pos hhead, List.filter_append,
      List.filter_cons_of_pos hq, List.filter_nil,
      isFrozenPath_join hpp hqq hmid,
      isFrozenPath_join hpp hqq fun m hm => hmid m (List.mem_filter.mp hm).1,
      any_filter_frozenFolder]

/-! ## The two readings compared -/

theorem plainPart_of_mem_split {relPath p : Str}
    (hnul : (0 : CodePoint) ∉ relPath)
    (hp : p ∈ split slash (replaceBackslash relPath)) : PlainPart p := by
  have hsub := (isInfix_of_mem_split hp).subset
  refine ⟨notMem_of_mem_split hp, fun h => ?_, fun h => ?_⟩
  · exact backslash_notMem_replaceBackslash relPath (hsub h)
  · obtain ⟨c, hc, hzero⟩ := List.mem_map.mp (hsub h)
    by_cases hb : c = backslash
    · rw [if_pos hb] at hzero
      exact absurd hzero (by decide)
    · rw [if_neg hb] at hzero
      exact hnul (hzero ▸ hc)

theorem frozenEnds_append_singleton (p q : Str) (mid : List Str) :
    frozenEnds (p :: (mid ++ [q])) =
      (frozenFolder (lower (lstrip isSpace p)) ||
        frozenFolder (lower (rstrip isSpace q)) ||
        frozenName (lower (rstrip isSpace q))) := by
  cases mid with
  | nil => simp [frozenEnds]
  | cons m mid =>
      have hlast : (m :: (mid ++ [q])).getLastD [] = q :=
        getLastD_cons_append_singleton _ _ _ _
      simp only [List.cons_append, frozenEnds, hlast]

theorem isFrozenPath_of_strip_eq_nil {p : Str} (hback : backslash ∉ p)
    (h : strip p = []) : isFrozenPath p = true := by
  simp [isFrozenPath, replaceBackslash_of_notMem hback, h]

/-- With a part dropped at an end, what lies between the two ends of the walk
lies between the two ends of the path. -/
theorem mem_middle_of_drops {first last p q m : Str} {mid walkedMid : List Str}
    (hwalk : (first :: (mid ++ [last])).filter keptPart =
      p :: (walkedMid ++ [q]))
    (hdrops : ¬ (keptPart first = true ∧ keptPart last = true))
    (hm : m ∈ walkedMid) : m ∈ mid := by
  have hmid : m ∈ mid.filter keptPart := by
    by_cases hfirst : keptPart first = true
    · have hlast : ¬ keptPart last = true := fun h => hdrops ⟨hfirst, h⟩
      rw [List.filter_cons_of_pos hfirst, List.filter_append,
        List.filter_cons_of_neg hlast, List.filter_nil, List.append_nil] at hwalk
      rw [(List.cons.inj hwalk).2]
      simp [hm]
    · rw [List.filter_cons_of_neg hfirst, List.filter_append] at hwalk
      by_cases hlast : keptPart last = true
      · rw [List.filter_cons_of_pos hlast, List.filter_nil, ← List.cons_append]
          at hwalk
        rw [(List.append_inj' hwalk rfl).1]
        simp [hm]
      · rw [List.filter_cons_of_neg hlast, List.filter_nil, List.append_nil]
          at hwalk
        rw [hwalk]
        simp [hm]
  exact (List.mem_filter.mp hmid).1

/-- For a path the policy does not freeze, the walked components are frozen
only by a name at an end of the walk, and then a part was dropped there. -/
theorem isFrozenPath_walkedParts {relPath : Str}
    (hfrozen : isFrozenPath relPath = false) (hnul : (0 : CodePoint) ∉ relPath)
    (hne : walkedParts relPath ≠ []) :
    isFrozenPath (join slash (walkedParts relPath)) =
      (dropsEdgePart relPath && frozenEnds (walkedParts relPath)) := by
  generalize hps : split slash (replaceBackslash relPath) = parts
  have hplain : ∀ p ∈ parts, PlainPart p := fun p hp =>
    plainPart_of_mem_split hnul (hps ▸ hp)
  have hwalk : walkedParts relPath = parts.filter keptPart := by
    rw [walkedParts, hps]
  have hpartsne : parts ≠ [] := hps ▸ split_ne_nil _ _
  have hraw : isFrozenPath (join slash parts) = false := by
    rw [← hps, join_split, isFrozenPath_replaceBackslash, hfrozen]
  have hplainwalk : ∀ p ∈ walkedParts relPath, PlainPart p := fun p hp =>
    hplain p (List.mem_filter.mp (hwalk ▸ hp)).1
  by_cases hends : keptPart (parts.headD []) = true ∧
      keptPart (parts.getLastD []) = true
  · have hkeeps : dropsEdgePart relPath = false := by
      simp only [dropsEdgePart, hps, hends.1, hends.2, Bool.and_self,
        Bool.not_true]
    rw [hwalk, isFrozenPath_join_filter hplain hpartsne hends.1 hends.2, hraw,
      hkeeps, Bool.false_and]
  · have hdrops : dropsEdgePart relPath = true := by
      simp only [dropsEdgePart, hps, Bool.not_eq_true', Bool.and_eq_false_iff]
      by_contra h
      simp only [not_or, Bool.not_eq_false] at h
      exact hends h
    rw [hdrops, Bool.true_and]
    obtain ⟨p, rest, hpr⟩ := List.exists_cons_of_ne_nil hne
    rw [hpr] at hplainwalk ⊢
    rcases List.eq_nil_or_concat rest with rfl | ⟨walkedMid, q, rfl⟩
    · have hp := hplainwalk p (by simp)
      rw [join_singleton]
      by_cases hblank : strip p = []
      · simp [frozenEnds, hblank, isFrozenPath_of_strip_eq_nil hp.2.1 hblank]
      · simp [frozenEnds, hblank, isFrozenPath_singleton hp hblank]
    · rw [List.concat_eq_append] at hpr hplainwalk ⊢
      have hmidfree : walkedMid.any (fun m => frozenFolder (lower m)) = false := by
        obtain ⟨first, tail, hft⟩ := List.exists_cons_of_ne_nil hpartsne
        rcases List.eq_nil_or_concat tail with rfl | ⟨mid, last, rfl⟩
        · have hlen := congrArg List.length (hwalk.symm.trans hpr)
          have hle := List.length_filter_le keptPart parts
          rw [hlen, hft] at hle
          simp at hle
        · rw [List.concat_eq_append] at hft
          rw [hft] at hplain hraw hends
          rw [isFrozenPath_join (hplain first (by simp)) (hplain last (by simp))
            fun m hm => hplain m (by simp [hm])] at hraw
          simp only [Bool.or_eq_false_iff] at hraw
          have hwalk' : (first :: (mid ++ [last])).filter keptPart =
              p :: (walkedMid ++ [q]) := by
            rw [← hft, ← hwalk, hpr]
          have hends' : ¬ (keptPart first = true ∧ keptPart last = true) := by
            rwa [List.headD_cons, getLastD_cons_append_singleton] at hends
          rw [List.any_eq_false]
          intro m hm
          exact List.any_eq_false.mp hraw.1.1.2 m
            (mem_middle_of_drops hwalk' hends' hm)
      rw [isFrozenPath_join (hplainwalk p (by simp)) (hplainwalk q (by simp))
        (fun m hm => hplainwalk m (by simp [hm])), hmidfree,
        frozenEnds_append_singleton]
      simp

/-- For a path the policy lets pass, the walked components are free of blocked
and frozen names exactly when the policy's reading is the walk's. -/
theorem walkedParts_allowed_iff {relPath : Str}
    (hblocked : isBlockedPath relPath = false)
    (hfrozen : isFrozenPath relPath = false)
    (hnul : (0 : CodePoint) ∉ relPath) (hne : walkedParts relPath ≠ []) :
    ((∀ part ∈ walkedParts relPath, holdsBlockedFragment part = false) ∧
        isFrozenPath (join slash (walkedParts relPath)) = false) ↔
      PolicySeesFile relPath := by
  rw [isFrozenPath_walkedParts hfrozen hnul hne]
  constructor
  · rintro ⟨hparts, hends⟩
    refine ⟨?_, fun hdrops => by simpa [hdrops] using hends⟩
    rw [← Bool.not_eq_true]
    intro hhides
    obtain ⟨part, hmem, hfrag⟩ := exists_blocked_part_of_hidesReference hhides
    rw [hparts part hmem] at hfrag
    simp at hfrag
  · rintro ⟨href, hends⟩
    refine ⟨fun part hmem => ?_, ?_⟩
    · rw [← Bool.not_eq_true]
      intro hfrag
      have := hidesReference_of_blocked_part hblocked hmem hfrag
      simp [href] at this
    · rw [Bool.and_eq_false_iff, ← Bool.not_eq_true]
      by_cases hdrops : dropsEdgePart relPath = true
      · exact Or.inr (hends hdrops)
      · exact Or.inl hdrops

end PromptCode
