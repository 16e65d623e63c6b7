import Mathlib.Data.List.MinMax
import Mathlib.Data.List.Perm.Basic
import Mathlib.Order.Defs.LinearOrder

/-!
# Greedy pairing

The items of one list choose, one after the other, the best of the candidates that are left:
the first of the best ones, unless none reaches the threshold.  A score may be missing, and
the pairing stops at the first item that meets such a candidate.  Over all orders of the
candidates the pairings are those in which an item may choose any of its best candidates.
-/

namespace PromptCode.Greedy

variable {α β S : Type*} [LinearOrder S]

section

variable (score : α → β → Option S) (threshold : S)

/-- The pairing of the items with the candidates, and the scores of the pairs. -/
inductive Run : List α → List β → Option (List S) → Prop
  | done (cands : List β) : Run [] cands (some [])
  | stop {e : α} {es : List α} {cands : List β} {c : β} (hc : c ∈ cands)
      (h : score e c = none) : Run (e :: es) cands none
  | take {e : α} {es : List α} {before after : List β} {c : β} {s : S}
      {outs : Option (List S)} (hc : score e c = some s) (hs : threshold ≤ s)
      (hbefore : ∀ d ∈ before, ∃ t, score e d = some t ∧ t < s)
      (hafter : ∀ d ∈ after, ∃ t, score e d = some t ∧ t ≤ s)
      (rest : Run es (before ++ after) outs) :
      Run (e :: es) (before ++ c :: after) (outs.map (s :: ·))
  | skip {e : α} {es : List α} {cands : List β} {outs : Option (List S)}
      (h : ∀ d ∈ cands, ∃ t, score e d = some t ∧ t < threshold) (rest : Run es cands outs) :
      Run (e :: es) cands outs

/-- The pairings in which each item may choose any of its best candidates. -/
inductive Choice : List α → List β → Option (List S) → Prop
  | done (cands : List β) : Choice [] cands (some [])
  | stop {e : α} {es : List α} {cands : List β} {c : β} (hc : c ∈ cands)
      (h : score e c = none) : Choice (e :: es) cands none
  | take {e : α} {es : List α} {cands left : List β} {c : β} {s : S}
      {outs : Option (List S)} (hperm : cands.Perm (c :: left)) (hc : score e c = some s)
      (hs : threshold ≤ s) (hleft : ∀ d ∈ left, ∃ t, score e d = some t ∧ t ≤ s)
      (rest : Choice es left outs) : Choice (e :: es) cands (outs.map (s :: ·))
  | skip {e : α} {es : List α} {cands : List β} {outs : Option (List S)}
      (h : ∀ d ∈ cands, ∃ t, score e d = some t ∧ t < threshold)
      (rest : Choice es cands outs) : Choice (e :: es) cands outs

end

variable {score : α → β → Option S} {threshold : S}

/-! ## The first of the best candidates -/

/-- A nonempty list has a first largest element. -/
theorem exists_first_max (v : β → S) {cands : List β} (hne : cands ≠ []) :
    ∃ before c after, cands = before ++ c :: after ∧ (∀ d ∈ before, v d < v c) ∧
      ∀ d ∈ after, v d ≤ v c := by
  induction cands with
  | nil => exact absurd rfl hne
  | cons a cands ih =>
      rcases eq_or_ne cands [] with rfl | hcands
      · exact ⟨[], a, [], rfl, by simp, by simp⟩
      · obtain ⟨before, c, after, rfl, hbefore, hafter⟩ := ih hcands
        rcases le_or_gt (v c) (v a) with hle | hgt
        · refine ⟨[], a, before ++ c :: after, rfl, by simp, ?_⟩
          intro d hd
          rcases List.mem_append.mp hd with hd | hd
          · exact (hbefore d hd).le.trans hle
          · rcases List.mem_cons.mp hd with rfl | hd
            · exact hle
            · exact (hafter d hd).trans hle
        · refine ⟨a :: before, c, after, rfl, ?_, hafter⟩
          intro d hd
          rcases List.mem_cons.mp hd with rfl | hd
          · exact hgt
          · exact hbefore d hd

/-- There is only one first largest element. -/
theorem first_max_unique {v : β → S} {before after before' after' : List β} {c c' : β}
    (h : before ++ c :: after = before' ++ c' :: after') (hbefore : ∀ d ∈ before, v d < v c)
    (hafter : ∀ d ∈ after, v d ≤ v c) (hbefore' : ∀ d ∈ before', v d < v c')
    (hafter' : ∀ d ∈ after', v d ≤ v c') : before = before' ∧ c = c' ∧ after = after' := by
  rcases List.append_eq_append_iff.mp h with ⟨mid, rfl, hmid⟩ | ⟨mid, rfl, hmid⟩
  · rcases mid with _ | ⟨m, mid⟩
    · obtain ⟨rfl, rfl⟩ := List.cons.inj hmid
      simp
    · obtain ⟨rfl, rfl⟩ := List.cons.inj hmid
      have hlt := hbefore' c (by simp)
      exact absurd (hafter c' (by simp)) (not_le.mpr hlt)
  · rcases mid with _ | ⟨m, mid⟩
    · obtain ⟨rfl, rfl⟩ := List.cons.inj hmid
      simp
    · obtain ⟨rfl, rfl⟩ := List.cons.inj hmid
      have hlt := hbefore c' (by simp)
      exact absurd (hafter' c (by simp)) (not_le.mpr hlt)

/-- Every order of the candidates has a pairing. -/
theorem exists_run (score : α → β → Option S) (threshold : S) (es : List α)
    (cands : List β) : ∃ outs, Run score threshold es cands outs := by
  induction es generalizing cands with
  | nil => exact ⟨some [], Run.done cands⟩
  | cons e es ih =>
      by_cases hstop : ∃ c ∈ cands, score e c = none
      · obtain ⟨c, hc, hnone⟩ := hstop
        exact ⟨none, Run.stop hc hnone⟩
      · have hsome : ∀ c ∈ cands, ∃ t, score e c = some t := by
          intro c hc
          by_contra hno
          refine hstop ⟨c, hc, Option.eq_none_iff_forall_not_mem.mpr ?_⟩
          exact fun t ht => hno ⟨t, ht⟩
        by_cases hskip : ∀ c ∈ cands, ∃ t, score e c = some t ∧ t < threshold
        · obtain ⟨outs, hrest⟩ := ih cands
          exact ⟨outs, Run.skip hskip hrest⟩
        · push Not at hskip
          obtain ⟨w, hw, hlarge⟩ := hskip
          obtain ⟨before, c, after, rfl, hbefore, hafter⟩ := exists_first_max
            (fun c => (score e c).getD threshold) (List.ne_nil_of_mem hw)
          obtain ⟨s, hs⟩ := hsome c (by simp)
          obtain ⟨t, ht⟩ := hsome w hw
          have hvalue : ∀ d ∈ before ++ c :: after, ∃ t, score e d = some t ∧
              (score e d).getD threshold = t := by
            intro d hd
            obtain ⟨t, ht⟩ := hsome d hd
            exact ⟨t, ht, by rw [ht, Option.getD_some]⟩
          have hmax : t ≤ s := by
            have hle : (score e w).getD threshold ≤ (score e c).getD threshold := by
              rcases List.mem_append.mp hw with hw | hw
              · exact (hbefore w hw).le
              · rcases List.mem_cons.mp hw with rfl | hw
                · exact le_rfl
                · exact hafter w hw
            rwa [ht, hs, Option.getD_some, Option.getD_some] at hle
          obtain ⟨outs, hrest⟩ := ih (before ++ after)
          refine ⟨_, Run.take hs ((hlarge t ht).trans hmax) ?_ ?_ hrest⟩
          · intro d hd
            obtain ⟨t, ht, -⟩ := hvalue d (by simp [hd])
            have hlt := hbefore d hd
            rw [ht, hs, Option.getD_some, Option.getD_some] at hlt
            exact ⟨t, ht, hlt⟩
          · intro d hd
            obtain ⟨t, ht, -⟩ := hvalue d (by simp [hd])
            have hle := hafter d hd
            rw [ht, hs, Option.getD_some, Option.getD_some] at hle
            exact ⟨t, ht, hle⟩

/-- An item scores at most once. -/
theorem Run.length_le {es : List α} {cands : List β} {scores : List S}
    (h : Run score threshold es cands (some scores)) : scores.length ≤ es.length := by
  generalize hres : some scores = outs at h
  induction h generalizing scores with
  | done cands =>
      obtain rfl := Option.some.inj hres
      exact le_rfl
  | stop hc h => cases hres
  | take hc hs hbefore hafter _ ih =>
      obtain ⟨rest, rfl, rfl⟩ := Option.map_eq_some_iff.mp hres.symm
      exact Nat.succ_le_succ (ih rfl)
  | skip h _ ih => exact (ih hres).trans (Nat.le_succ _)

/-! ## Orders of the candidates -/

theorem Run.choice {es : List α} {cands : List β} {outs : Option (List S)}
    (h : Run score threshold es cands outs) : Choice score threshold es cands outs := by
  induction h with
  | done cands => exact Choice.done cands
  | stop hc h => exact Choice.stop hc h
  | take hc hs hbefore hafter _ ih =>
      refine Choice.take List.perm_middle hc hs ?_ ih
      intro d hd
      rcases List.mem_append.mp hd with hd | hd
      · obtain ⟨t, ht, hlt⟩ := hbefore d hd
        exact ⟨t, ht, hlt.le⟩
      · exact hafter d hd
  | skip h _ ih => exact Choice.skip h ih

theorem Choice.perm {es : List α} {cands cands' : List β} {outs : Option (List S)}
    (h : Choice score threshold es cands outs) (hperm : cands'.Perm cands) :
    Choice score threshold es cands' outs := by
  induction h generalizing cands' with
  | done cands => exact Choice.done cands'
  | stop hc h => exact Choice.stop (hperm.mem_iff.mpr hc) h
  | take hsplit hc hs hleft rest _ => exact Choice.take (hperm.trans hsplit) hc hs hleft rest
  | skip h _ ih =>
      exact Choice.skip (fun d hd => h d (hperm.mem_iff.mp hd)) (ih hperm)

/-- A pairing with a choice is the pairing of some order of the candidates. -/
theorem Choice.exists_run {es : List α} {cands : List β} {outs : Option (List S)}
    (h : Choice score threshold es cands outs) :
    ∃ cands', cands'.Perm cands ∧ Run score threshold es cands' outs := by
  induction h with
  | done cands => exact ⟨cands, List.Perm.refl _, Run.done cands⟩
  | stop hc h => exact ⟨_, List.Perm.refl _, Run.stop hc h⟩
  | @take e es cands left c s outs hperm hc hs hleft _ ih =>
      obtain ⟨left', hleft', hrun⟩ := ih
      refine ⟨c :: left', (hleft'.cons c).trans hperm.symm, ?_⟩
      refine (Run.take hc hs (by simp) ?_ hrun : Run score threshold (e :: es) ([] ++ c :: left') _)
      exact fun d hd => hleft d (hleft'.mem_iff.mp hd)
  | skip h _ ih =>
      obtain ⟨cands', hperm, hrun⟩ := ih
      exact ⟨cands', hperm, Run.skip (fun d hd => h d (hperm.mem_iff.mp hd)) hrun⟩

/-- What is made of a pairing does not depend on which of its best candidates an item
chooses. -/
def Settled {γ : Type*} (score : α → β → Option S) (threshold : S)
    (total : Option (List S) → γ) (es : List α) (cands : List β) : Prop :=
  ∀ outs outs', Choice score threshold es cands outs →
    Choice score threshold es cands outs' → total outs = total outs'

/-- What is made of the pairing is the same for all orders of the candidates when it is
settled, and only then. -/
theorem forall_perm_iff_settled {γ : Type*} {total : Option (List S) → γ}
    {value : List β → γ} {es : List α}
    (hvalue : ∀ cands outs, Run score threshold es cands outs → value cands = total outs)
    (cands : List β) :
    (∀ cands' : List β, cands'.Perm cands → value cands' = value cands) ↔
      Settled score threshold total es cands := by
  constructor
  · intro hsame outs outs' h h'
    obtain ⟨order, hperm, hrun⟩ := h.exists_run
    obtain ⟨order', hperm', hrun'⟩ := h'.exists_run
    calc total outs = value order := (hvalue order outs hrun).symm
      _ = value cands := hsame order hperm
      _ = value order' := (hsame order' hperm').symm
      _ = total outs' := hvalue order' outs' hrun'
  · intro hsettled cands' hperm
    obtain ⟨outs, hrun⟩ := Greedy.exists_run score threshold es cands
    obtain ⟨outs', hrun'⟩ := Greedy.exists_run score threshold es cands'
    rw [hvalue cands outs hrun, hvalue cands' outs' hrun']
    exact hsettled outs' outs (hrun'.choice.perm hperm.symm) hrun.choice

/-! ## Which pairs are compared -/

section

variable (v : α → β → S) (threshold)

/-- What is left of the candidates when an item has chosen. -/
def Leaves (e : α) (cands left : List β) : Prop :=
  (∃ before c after, cands = before ++ c :: after ∧ threshold ≤ v e c ∧
    (∀ d ∈ before, v e d < v e c) ∧ (∀ d ∈ after, v e d ≤ v e c) ∧ left = before ++ after) ∨
  ((∀ d ∈ cands, v e d < threshold) ∧ left = cands)

/-- The item is compared with the candidate when its turn comes. -/
def Meets : List α → List β → α → β → Prop
  | [], _, _, _ => False
  | e :: es, cands, x, y =>
      (x = e ∧ y ∈ cands) ∨ ∃ left, Leaves threshold v e cands left ∧ Meets es left x y

end

variable {v : α → β → S}

theorem Leaves.unique {e : α} {cands left left' : List β}
    (h : Leaves threshold v e cands left) (h' : Leaves threshold v e cands left') :
    left = left' := by
  rcases h with ⟨before, c, after, rfl, hc, hbefore, hafter, rfl⟩ | ⟨hsmall, rfl⟩
  · rcases h' with ⟨before', c', after', heq, -, hbefore', hafter', rfl⟩ | ⟨hsmall, rfl⟩
    · obtain ⟨rfl, -, rfl⟩ := first_max_unique heq hbefore hafter hbefore' hafter'
      rfl
    · exact absurd (hsmall c (by simp)) (not_lt.mpr hc)
  · rcases h' with ⟨before', c', after', rfl, hc', -, -, -⟩ | ⟨-, rfl⟩
    · exact absurd (hsmall c' (by simp)) (not_lt.mpr hc')
    · rfl

/-- The pairing does not stop when every pair that it compares has a score. -/
theorem Run.isSome_iff (hv : ∀ e c s, score e c = some s → v e c = s) {es : List α}
    {cands : List β} {outs : Option (List S)} (h : Run score threshold es cands outs) :
    outs.isSome ↔ ∀ x y, Meets threshold v es cands x y → (score x y).isSome := by
  induction h with
  | done cands => simp [Meets]
  | @stop e es cands c hc h =>
      simp only [Option.isSome_none, Bool.false_eq_true, false_iff, not_forall]
      exact ⟨e, c, Or.inl ⟨rfl, hc⟩, by simp [h]⟩
  | @take e es before after c s outs hc hs hbefore hafter _ ih =>
      have hleaves : Leaves threshold v e (before ++ c :: after) (before ++ after) := by
        refine Or.inl ⟨before, c, after, rfl, by rwa [hv e c s hc], ?_, ?_, rfl⟩
        · intro d hd
          obtain ⟨t, ht, hlt⟩ := hbefore d hd
          rwa [hv e d t ht, hv e c s hc]
        · intro d hd
          obtain ⟨t, ht, hle⟩ := hafter d hd
          rwa [hv e d t ht, hv e c s hc]
      rw [Option.isSome_map, ih]
      constructor
      · rintro hrest x y (⟨rfl, hy⟩ | ⟨left, hleft, hmeets⟩)
        · rcases List.mem_append.mp hy with hy | hy
          · obtain ⟨t, ht, -⟩ := hbefore y hy
            simp [ht]
          · rcases List.mem_cons.mp hy with rfl | hy
            · simp [hc]
            · obtain ⟨t, ht, -⟩ := hafter y hy
              simp [ht]
        · obtain rfl := hleft.unique hleaves
          exact hrest x y hmeets
      · exact fun hall x y hmeets => hall x y (Or.inr ⟨_, hleaves, hmeets⟩)
  | @skip e es cands outs h _ ih =>
      have hleaves : Leaves threshold v e cands cands := by
        refine Or.inr ⟨?_, rfl⟩
        intro d hd
        obtain ⟨t, ht, hlt⟩ := h d hd
        rwa [hv e d t ht]
      rw [ih]
      constructor
      · rintro hrest x y (⟨rfl, hy⟩ | ⟨left, hleft, hmeets⟩)
        · obtain ⟨t, ht, -⟩ := h y hy
          simp [ht]
        · obtain rfl := hleft.unique hleaves
          exact hrest x y hmeets
      · exact fun hall x y hmeets => hall x y (Or.inr ⟨_, hleaves, hmeets⟩)

/-! ## A list paired with itself -/

/-- When no candidate suits an item better than its own copy does, each item scores what its
own copy does: a copy is never taken before the turn of its item. -/
theorem Run.self {score : α → α → Option S} {top : α → S} {es cands : List α}
    (hsub : es.Sublist cands) (hown : ∀ e ∈ es, score e e = some (top e))
    (htop : ∀ e ∈ es, ∀ c ∈ cands, ∀ t, score e c = some t → t ≤ top e) {outs : List S}
    (h : Run score threshold es cands (some outs)) :
    outs = (es.map top).filter (threshold ≤ ·) := by
  induction es generalizing cands outs with
  | nil =>
      cases h
      rfl
  | cons e es ih =>
      have hmem : e ∈ cands := hsub.subset (by simp)
      have howne := hown e (by simp)
      generalize hres : some outs = res at h
      cases h with
      | stop hc h => cases hres
      | @take _ _ before after c s outs' hc hs hbefore hafter hrest =>
          obtain ⟨outs', rfl, rfl⟩ := Option.map_eq_some_iff.mp hres.symm
          have hle : s ≤ top e := htop e (by simp) c (by simp) s hc
          have hnot : e ∉ before := by
            intro hin
            obtain ⟨t, ht, hlt⟩ := hbefore e hin
            obtain rfl := Option.some.inj (ht.symm.trans howne)
            exact absurd hle (not_le.mpr hlt)
          have hs' : s = top e := by
            rcases List.mem_append.mp hmem with hin | hin
            · exact absurd hin hnot
            · rcases List.mem_cons.mp hin with rfl | hin
              · exact Option.some.inj (hc.symm.trans howne)
              · obtain ⟨t, ht, hle'⟩ := hafter e hin
                obtain rfl := Option.some.inj (ht.symm.trans howne)
                exact le_antisymm hle hle'
          have hlater : (e :: es).Sublist (c :: after) := by
            obtain ⟨l, r, heq, hl, hr⟩ := List.sublist_append_iff.mp hsub
            rcases l with _ | ⟨a, l⟩
            · rw [heq, List.nil_append]
              exact hr
            · obtain rfl : e = a := (List.cons.inj heq).1
              exact absurd (hl.subset (by simp)) hnot
          have hrestSub : es.Sublist (before ++ after) := by
            apply List.Sublist.trans _ (List.sublist_append_right before after)
            rcases List.cons_sublist_cons'.mp hlater with hin | ⟨-, hin⟩
            · exact (List.sublist_cons_self e es).trans hin
            · exact hin
          have hrec := ih hrestSub (fun d hd => hown d (by simp [hd]))
            (fun d hd b hb t ht => htop d (by simp [hd]) b (by
              rcases List.mem_append.mp hb with hb | hb
              · simp [hb]
              · simp [hb]) t ht) hrest
          rw [hrec, List.map_cons, List.filter_cons_of_pos (by simpa [← hs'] using hs), hs']
      | skip h hrest =>
          obtain ⟨t, ht, hlt⟩ := h e hmem
          obtain rfl := Option.some.inj (ht.symm.trans howne)
          rw [List.map_cons, List.filter_cons_of_neg (by simpa using hlt)]
          subst hres
          exact ih ((List.sublist_cons_self e es).trans hsub)
            (fun d hd => hown d (by simp [hd]))
            (fun d hd b hb t ht => htop d (by simp [hd]) b hb t ht) hrest

end PromptCode.Greedy
