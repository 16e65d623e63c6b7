import Mathlib.Data.List.Infix
import Mathlib.Tactic.SplitIfs

/-!
# Fenced text

Sections of a text between an opening and a closing tag, read from each opening tag to the
first closing tag that follows.  The characters of the text carry a mark; the reader does not
look at it.
-/

namespace PromptCode

/-! ## Replacement -/

section Replace

variable {α : Type} [DecidableEq α]

/-- The replacement of `old`, after the first `skip` characters are dropped. -/
def replaceFrom (old new : List α) : List α → ℕ → List α
  | [], _ => []
  | _ :: s, skip + 1 => replaceFrom old new s skip
  | c :: s, 0 =>
      if old <+: c :: s then new ++ replaceFrom old new s (old.length - 1)
      else c :: replaceFrom old new s 0

/-- `s.replace(old, new)`, where `old` is not empty. -/
def replaceAll (old new s : List α) : List α := replaceFrom old new s 0

theorem replaceFrom_eq_drop (old new s : List α) (skip : ℕ) :
    replaceFrom old new s skip = replaceAll old new (s.drop skip) := by
  induction s generalizing skip with
  | nil => cases skip <;> rfl
  | cons c s ih =>
      cases skip with
      | zero => rfl
      | succ skip => exact ih skip

variable {lead : α} {old new : List α}

/-- What a replaced text begins with it began with before, up to the next `lead`. -/
theorem prefix_of_prefix_replaceAll {w s : List α} (hlead : lead ∉ w)
    (h : w <+: replaceAll (lead :: old) (lead :: new) s) : w <+: s := by
  induction s generalizing w with
  | nil => exact h
  | cons c s ih =>
      cases w with
      | nil => exact List.nil_prefix
      | cons d w =>
          unfold replaceAll replaceFrom at h
          split_ifs at h with hprefix
          · obtain ⟨rfl, -⟩ := List.cons_prefix_cons.mp h
            exact absurd List.mem_cons_self hlead
          · obtain ⟨rfl, hrest⟩ := List.cons_prefix_cons.mp h
            have hw : lead ∉ w := fun hmem => hlead (List.mem_cons_of_mem _ hmem)
            exact List.cons_prefix_cons.mpr ⟨rfl, ih hw hrest⟩

/-- The replaced text does not hold what was replaced, when a new occurrence cannot begin in
the replacement. -/
theorem not_infix_replaceAll (hold : lead ∉ old) (hnew : lead ∉ new)
    (hbreak : ∀ s, ¬ old <+: new ++ s) (s : List α) :
    ¬ (lead :: old) <:+: replaceAll (lead :: old) (lead :: new) s := by
  induction hlength : s.length using Nat.strong_induction_on generalizing s with
  | _ n ih =>
      subst hlength
      cases s with
      | nil =>
          intro h
          exact List.cons_ne_nil _ _ (List.infix_nil.mp h)
      | cons c s =>
          intro h
          unfold replaceAll replaceFrom at h
          split_ifs at h with hprefix
          · rw [replaceFrom_eq_drop] at h
            have hshorter : (s.drop ((lead :: old).length - 1)).length < (c :: s).length := by
              rw [List.length_drop]
              simp only [List.length_cons]
              omega
            have hrest := ih _ hshorter _ rfl
            have hnone (u : List α) (hu : lead ∉ u) :
                ¬ (lead :: old) <:+: u ++ replaceAll (lead :: old) (lead :: new)
                  (s.drop ((lead :: old).length - 1)) := by
              induction u with
              | nil => exact hrest
              | cons d u ihu =>
                  intro hinfix
                  rcases List.infix_cons_iff.mp hinfix with hpre | hinfix
                  · obtain ⟨rfl, -⟩ := List.cons_prefix_cons.mp hpre
                    exact hu List.mem_cons_self
                  · exact ihu (fun hmem => hu (List.mem_cons_of_mem _ hmem)) hinfix
            rcases List.infix_cons_iff.mp h with hpre | hinfix
            · exact hbreak _ (List.cons_prefix_cons.mp hpre).2
            · exact hnone new hnew hinfix
          · rcases List.infix_cons_iff.mp h with hpre | hinfix
            · obtain ⟨rfl, hrest⟩ := List.cons_prefix_cons.mp hpre
              have hold' : old <+: s := prefix_of_prefix_replaceAll hold hrest
              exact hprefix (List.cons_prefix_cons.mpr ⟨rfl, hold'⟩)
            · exact ih s.length (Nat.lt_succ_self _) s rfl hinfix

end Replace

/-! ## Reading -/

structure Fence (α : Type) where
  opening : List α
  closing : List α
  deriving DecidableEq

/-- A text with a mark on each character. -/
abbrev Marked (α : Type) := List (α × Bool)

/-- Whether the reader is inside a section, and what it has read of it. -/
inductive ScanState (α : Type) where
  | outside
  | inside (fence : Fence α) (content : Marked α)

/-- What is not in a section, and the sections in order. -/
structure Scanned (α : Type) where
  outside : Marked α
  sections : List (Fence α × Marked α)

namespace Scanned

variable {α : Type}

def addOutside (s : Marked α) (r : Scanned α) : Scanned α := { r with outside := s ++ r.outside }

def addSection (fence : Fence α) (content : Marked α) (r : Scanned α) : Scanned α :=
  { r with sections := (fence, content) :: r.sections }

end Scanned

section Marks

variable {α : Type}

/-- Text without marks. -/
def unmarked (u : List α) : Marked α := u.map fun c => (c, false)

/-- Marked text between two characters without marks. -/
def framed (fill : α) (v : List α) : Marked α :=
  (fill, false) :: (v.map fun c => (c, true)) ++ [(fill, false)]

theorem map_fst_unmarked (u : List α) : (unmarked u).map Prod.fst = u := by
  simp [unmarked, Function.comp_def]

theorem map_fst_framed (fill : α) (v : List α) :
    (framed fill v).map Prod.fst = fill :: v ++ [fill] := by
  simp [framed, Function.comp_def]

theorem not_marked_of_mem_unmarked {u : List α} {c : α × Bool} (h : c ∈ unmarked u) :
    c.2 = false := by
  obtain ⟨a, -, rfl⟩ := List.mem_map.mp h
  rfl

/-- No closing tag begins inside a content that is framed by `fill`. -/
theorem not_prefix_of_framed {f : Fence α} {v u w t : List α} {b : α} (hb : b ∉ f.closing)
    (hne : f.closing ≠ []) (hv : ¬ f.closing <:+: v) (h : b :: v ++ [b] = u ++ w) (hw : w ≠ []) :
    ¬ f.closing <+: w ++ t := by
  intro hprefix
  obtain ⟨y, d, rfl⟩ := (List.eq_nil_or_concat' w).resolve_left hw
  rw [← List.append_assoc] at h
  obtain ⟨hy, hd⟩ := List.append_inj' h rfl
  obtain rfl := List.singleton_inj.mp hd
  rcases List.prefix_or_prefix_of_prefix hprefix (List.prefix_append (y ++ [b]) t) with hpre | hpre
  · rcases List.prefix_concat_iff.mp hpre with heq | hpre
    · exact hb (heq ▸ List.mem_append_right _ (List.mem_singleton_self b))
    · have hinfix : f.closing <:+: b :: v :=
        hpre.isInfix.trans (hy ▸ (List.suffix_append u y).isInfix)
      rcases List.infix_cons_iff.mp hinfix with hpre | hinfix
      · rcases List.prefix_cons_iff.mp hpre with hnil | ⟨tag, htag, -⟩
        · exact hne hnil
        · exact hb (htag ▸ List.mem_cons_self)
      · exact hv hinfix
  · exact hb (hpre.subset (List.mem_append_right _ (List.mem_singleton_self b)))

end Marks

section Scan

variable {α : Type} [DecidableEq α] (fences : List (Fence α))

/-- The fence whose opening tag the text begins with. -/
def openedBy (s : Marked α) : Option (Fence α) :=
  fences.find? fun f => decide (f.opening <+: s.map Prod.fst)

/-- Reads the text; the next `skip` characters belong to a tag.  A section that is not closed
is none. -/
def scan : Marked α → ℕ → ScanState α → Scanned α
  | [], _, .outside => ⟨[], []⟩
  | [], _, .inside _ content => ⟨content, []⟩
  | c :: s, skip + 1, st => (scan s skip st).addOutside [c]
  | c :: s, 0, .outside =>
      match openedBy fences (c :: s) with
      | some f => (scan s (f.opening.length - 1) (.inside f [])).addOutside [c]
      | none => (scan s 0 .outside).addOutside [c]
  | c :: s, 0, .inside f content =>
      if f.closing <+: (c :: s).map Prod.fst then
        ((scan s (f.closing.length - 1) .outside).addOutside [c]).addSection f content
      else scan s 0 (.inside f (content ++ [c]))

/-- All sections of a text. -/
def readFences (s : Marked α) : Scanned α := scan fences s 0 .outside

/-- The content that has been read so far. -/
def ScanState.content : ScanState α → Marked α
  | .outside => []
  | .inside _ content => content

/-- Every character is outside, or in just one section. -/
theorem scan_perm (s : Marked α) (skip : ℕ) (st : ScanState α) :
    ((scan fences s skip st).outside ++
      (scan fences s skip st).sections.flatMap Prod.snd).Perm (st.content ++ s) := by
  induction s generalizing skip st with
  | nil => cases st <;> exact List.Perm.refl _
  | cons c s ih =>
      rw [List.perm_iff_count]
      intro a
      cases skip with
      | succ skip =>
          have hscan : scan fences (c :: s) (skip + 1) st =
              (scan fences s skip st).addOutside [c] := by cases st <;> rfl
          have hcount := (ih skip st).count_eq a
          rw [hscan]
          simp only [Scanned.addOutside, List.count_append, List.count_cons, List.count_nil]
            at hcount ⊢
          omega
      | zero =>
          cases st with
          | outside =>
              simp only [scan, ScanState.content]
              cases openedBy fences (c :: s) with
              | none => exact ((ih 0 .outside).cons c).count_eq a
              | some f => exact ((ih (f.opening.length - 1) (.inside f [])).cons c).count_eq a
          | inside f content =>
              simp only [scan, ScanState.content]
              split_ifs
              · have hcount := (ih (f.closing.length - 1) .outside).count_eq a
                simp only [Scanned.addSection, Scanned.addOutside, ScanState.content,
                  List.flatMap_cons, List.count_append, List.count_cons, List.count_nil]
                  at hcount ⊢
                omega
              · have hcount := (ih 0 (.inside f (content ++ [c]))).count_eq a
                simp only [ScanState.content, List.append_assoc] at hcount
                exact hcount

/-! ### What is read of a text that is built up -/

variable {fences} {s : Marked α} {st : ScanState α}

theorem scan_skip (u : Marked α) :
    scan fences (u ++ s) u.length st = (scan fences s 0 st).addOutside u := by
  induction u with
  | nil => rfl
  | cons c u ih =>
      have hscan : scan fences (c :: (u ++ s)) (u.length + 1) st =
          (scan fences (u ++ s) u.length st).addOutside [c] := by cases st <;> rfl
      rw [List.cons_append, List.length_cons, hscan, ih]
      rfl

/-- A text with the given sections and nothing marked outside of them, wherever it stands. -/
def Fenced (fences : List (Fence α)) (m : Marked α) (sections : List (Fence α × Marked α)) :
    Prop :=
  ∃ out : Marked α, (∀ c ∈ out, c.2 = false) ∧ ∀ s,
    scan fences (m ++ s) 0 .outside =
      ⟨out ++ (scan fences s 0 .outside).outside, sections ++ (scan fences s 0 .outside).sections⟩

/-- A text that has a marked character outside of its sections, wherever it is read on. -/
def Leaky (fences : List (Fence α)) (m : Marked α) : Prop :=
  ∀ s, ∃ c ∈ (scan fences (m ++ s) 0 .outside).outside, c.2 = true

variable {m m' : Marked α} {sections sections' : List (Fence α × Marked α)}

theorem Fenced.nil : Fenced fences [] [] := ⟨[], by simp, fun _ => rfl⟩

theorem Fenced.append (h : Fenced fences m sections) (h' : Fenced fences m' sections') :
    Fenced fences (m ++ m') (sections ++ sections') := by
  obtain ⟨out, hout, hscan⟩ := h
  obtain ⟨out', hout', hscan'⟩ := h'
  refine ⟨out ++ out', fun c hc => ?_, fun s => ?_⟩
  · rcases List.mem_append.mp hc with hc | hc
    · exact hout c hc
    · exact hout' c hc
  · rw [List.append_assoc, hscan, hscan']
    simp only [List.append_assoc]

theorem Fenced.leaky_append (h : Fenced fences m sections) (h' : Leaky fences m') :
    Leaky fences (m ++ m') := by
  obtain ⟨out, -, hscan⟩ := h
  intro s
  obtain ⟨c, hc, hmark⟩ := h' s
  refine ⟨c, ?_, hmark⟩
  rw [List.append_assoc, hscan]
  exact List.mem_append_right _ hc

theorem Leaky.append (h : Leaky fences m) (m' : Marked α) : Leaky fences (m ++ m') := by
  intro s
  obtain ⟨c, hc, hmark⟩ := h (m' ++ s)
  exact ⟨c, by rwa [List.append_assoc], hmark⟩

/-- Texts with their sections, joined by a text without any. -/
theorem Fenced.join {sep : Marked α} (hsep : Fenced fences sep []) {parts : List (Marked α)}
    {found : List (List (Fence α × Marked α))} (h : List.Forall₂ (Fenced fences) parts found) :
    Fenced fences (sep.intercalate parts) found.flatten := by
  induction h with
  | nil => exact Fenced.nil
  | @cons p found ps founds hp hps ih =>
      cases hps with
      | nil =>
          rw [List.intercalate_singleton, List.flatten_cons, List.flatten_nil, List.append_nil]
          exact hp
      | cons hq hqs =>
          rw [List.intercalate_cons_cons, List.flatten_cons, List.append_assoc]
          exact hp.append (hsep.append ih)

theorem Leaky.join {sep : Marked α} (hsep : Fenced fences sep []) {parts : List (Marked α)}
    (hparts : ∀ p ∈ parts, (∃ found, Fenced fences p found) ∨ Leaky fences p)
    (h : ∃ p ∈ parts, Leaky fences p) : Leaky fences (sep.intercalate parts) := by
  induction parts with
  | nil =>
      obtain ⟨p, hp, -⟩ := h
      exact absurd hp List.not_mem_nil
  | cons p parts ih =>
      obtain ⟨q, hq, hleaky⟩ := h
      have hrest : Leaky fences p ∨ ∃ q ∈ parts, Leaky fences q := by
        rcases List.mem_cons.mp hq with rfl | hq
        · exact Or.inl hleaky
        · exact Or.inr ⟨q, hq, hleaky⟩
      cases parts with
      | nil =>
          rw [List.intercalate_singleton]
          exact hrest.resolve_right fun ⟨q, hq, _⟩ => absurd hq List.not_mem_nil
      | cons q parts =>
          rw [List.intercalate_cons_cons, List.append_assoc]
          rcases hparts p List.mem_cons_self with ⟨found, hfenced⟩ | hleaky
          · rcases hrest with hleaky | hrest
            · exact hleaky.append _
            · exact hfenced.leaky_append (hsep.leaky_append
                (ih (fun r hr => hparts r (List.mem_cons_of_mem _ hr)) hrest))
          · exact hleaky.append _

theorem Fenced.read (h : Fenced fences m sections) :
    (readFences fences m).sections = sections ∧
      ∀ c ∈ (readFences fences m).outside, c.2 = false := by
  obtain ⟨out, hout, hscan⟩ := h
  have hread := hscan []
  rw [List.append_nil] at hread
  unfold readFences
  rw [hread]
  simp only [scan, List.append_nil]
  exact ⟨trivial, hout⟩

theorem Leaky.read (h : Leaky fences m) : ∃ c ∈ (readFences fences m).outside, c.2 = true := by
  have hread := h []
  rwa [List.append_nil] at hread

/-- A marked character that is not in a section, since none is open. -/
theorem leaky_cons (a : α) (m : Marked α) : Leaky fences ((a, true) :: m) := by
  intro s
  refine ⟨(a, true), ?_, rfl⟩
  rw [List.cons_append]
  simp only [scan]
  cases openedBy fences ((a, true) :: (m ++ s)) <;> exact List.mem_cons_self

section Tags

variable {lead : α} {f : Fence α}

/-- Tags that can be told apart: each begins with `lead`, no opening tag begins another one,
and `fill` is in no closing tag. -/
structure Distinct (fences : List (Fence α)) (lead fill : α) : Prop where
  opening : ∀ f ∈ fences, f.opening.head? = some lead
  closing : ∀ f ∈ fences, f.closing ≠ []
  different : ∀ f ∈ fences, ∀ g ∈ fences, f.opening <+: g.opening → f = g
  fill : ∀ f ∈ fences, fill ∉ f.closing

variable {fill : α}

theorem Fenced.plain (hd : Distinct fences lead fill) {u : List α} (hu : lead ∉ u) :
    Fenced fences (unmarked u) [] := by
  induction u with
  | nil => exact Fenced.nil
  | cons c u ih =>
      have hc : Fenced fences [(c, false)] [] := by
        refine ⟨[(c, false)], by simp, fun s => ?_⟩
        have hnone : openedBy fences ((c, false) :: s) = none := by
          refine List.find?_eq_none.mpr fun g hg hprefix => hu ?_
          have hhead := hd.opening g hg
          cases hopening : g.opening with
          | nil =>
              rw [hopening] at hhead
              cases hhead
          | cons d tag =>
              rw [hopening] at hhead
              obtain rfl : d = lead := Option.some.inj hhead
              have hprefix' := of_decide_eq_true hprefix
              rw [hopening, List.map_cons] at hprefix'
              obtain ⟨rfl, -⟩ := List.cons_prefix_cons.mp hprefix'
              exact List.mem_cons_self
        simp only [List.singleton_append, scan, hnone]
        rfl
      exact hc.append (ih fun hmem => hu (List.mem_cons_of_mem _ hmem))

/-- A content that ends before a closing tag is read up to it. -/
theorem scan_content {content acc : Marked α}
    (hnone : ∀ u v, content = u ++ v → v ≠ [] →
      ¬ f.closing <+: v.map Prod.fst ++ (f.closing ++ s.map Prod.fst)) (hclosing : f.closing ≠ [])
    (close : Marked α) (hclose : close.map Prod.fst = f.closing) :
    scan fences (content ++ (close ++ s)) 0 (.inside f acc) =
      ((scan fences s 0 .outside).addOutside close).addSection f (acc ++ content) := by
  induction content generalizing acc with
  | nil =>
      cases close with
      | nil => exact absurd hclose.symm hclosing
      | cons c close =>
          have hprefix : f.closing <+: (c :: (close ++ s)).map Prod.fst := by
            rw [← List.cons_append, List.map_append, hclose]
            exact List.prefix_append _ _
          have hlength : f.closing.length - 1 = close.length := by
            rw [← hclose, List.length_map, List.length_cons, Nat.add_sub_cancel]
          simp only [List.nil_append, List.cons_append, scan, if_pos hprefix, hlength, scan_skip,
            List.append_nil]
          rfl
  | cons c content ih =>
      have hno : ¬ f.closing <+: (c :: (content ++ (close ++ s))).map Prod.fst := by
        have h := hnone [] (c :: content) rfl (List.cons_ne_nil _ _)
        rwa [← hclose, ← List.map_append, ← List.map_append, List.cons_append, hclose] at h
      have hnone' : ∀ u v, content = u ++ v → v ≠ [] →
          ¬ f.closing <+: v.map Prod.fst ++ (f.closing ++ s.map Prod.fst) := by
        intro u v huv hv
        exact hnone (c :: u) v (by rw [huv, List.cons_append]) hv
      simp only [List.cons_append, scan, if_neg hno]
      rw [ih hnone', List.append_assoc, List.singleton_append]

theorem openedBy_opening (hd : Distinct fences lead fill) (hf : f ∈ fences)
    (hs : f.opening <+: s.map Prod.fst) : openedBy fences s = some f := by
  cases hopened : openedBy fences s with
  | none => exact absurd (decide_eq_true hs) (List.find?_eq_none.mp hopened f hf)
  | some g =>
      have hg : g ∈ fences := List.mem_of_find?_eq_some hopened
      have hprefix : g.opening <+: s.map Prod.fst :=
        of_decide_eq_true (List.find?_some hopened :)
      rcases List.prefix_or_prefix_of_prefix hs hprefix with h | h
      · rw [hd.different f hf g hg h]
      · rw [hd.different g hg f hf h]

theorem scan_framed (hd : Distinct fences lead fill) (hf : f ∈ fences) {v : List α}
    (hv : ¬ f.closing <:+: v) :
    scan fences (framed fill v ++ (unmarked f.closing ++ s)) 0 (.inside f []) =
      ((scan fences s 0 .outside).addOutside (unmarked f.closing)).addSection f
        (framed fill v) := by
  have hnone : ∀ u w, framed fill v = u ++ w → w ≠ [] →
      ¬ f.closing <+: w.map Prod.fst ++ (f.closing ++ s.map Prod.fst) := by
    intro u w huw hw
    have hmap : fill :: v ++ [fill] = u.map Prod.fst ++ w.map Prod.fst := by
      rw [← map_fst_framed, huw, List.map_append]
    exact not_prefix_of_framed (hd.fill f hf) (hd.closing f hf) hv hmap
      (List.map_eq_nil_iff.not.mpr hw)
  exact scan_content hnone (hd.closing f hf) _ (map_fst_unmarked _)

/-- A fence around a text that does not hold the closing tag. -/
theorem Fenced.fence (hd : Distinct fences lead fill) (hf : f ∈ fences) {v : List α}
    (hv : ¬ f.closing <:+: v) :
    Fenced fences (unmarked f.opening ++ (framed fill v ++ unmarked f.closing))
      [(f, framed fill v)] := by
  refine ⟨unmarked f.opening ++ unmarked f.closing, fun c hc => ?_, fun s => ?_⟩
  · rcases List.mem_append.mp hc with hc | hc
    · exact not_marked_of_mem_unmarked hc
    · exact not_marked_of_mem_unmarked hc
  · cases hopening : f.opening with
    | nil =>
        have hhead := hd.opening f hf
        rw [hopening] at hhead
        cases hhead
    | cons o tag =>
        have hopened (s : Marked α) :
            openedBy fences ((o, false) :: (unmarked tag ++ s)) = some f := by
          refine openedBy_opening hd hf ?_
          rw [hopening, List.map_cons, List.map_append, map_fst_unmarked]
          exact List.cons_prefix_cons.mpr ⟨rfl, List.prefix_append _ _⟩
        have hlength : f.opening.length - 1 = (unmarked tag).length := by
          rw [hopening, unmarked, List.length_cons, List.length_map, Nat.add_sub_cancel]
        have hscan (s : Marked α) : scan fences ((o, false) :: (unmarked tag ++ s)) 0 .outside =
            (scan fences s 0 (.inside f [])).addOutside (unmarked (o :: tag)) := by
          simp only [scan, hopened, hlength, scan_skip]
          rfl
        have hassoc : unmarked (o :: tag) ++ (framed fill v ++ unmarked f.closing) ++ s =
            (o, false) :: (unmarked tag ++ (framed fill v ++ (unmarked f.closing ++ s))) := by
          simp only [unmarked, List.map_cons, List.cons_append, List.append_assoc]
        rw [hassoc, hscan, scan_framed hd hf hv]
        simp only [Scanned.addOutside, Scanned.addSection, List.append_assoc, List.singleton_append]

end Tags

end Scan

end PromptCode
