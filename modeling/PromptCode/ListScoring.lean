import PromptCode.Greedy
import PromptCode.Scorer

/-!
# The order of the items of a list

The loops of `_list_accuracy` are a greedy pairing of the expected items with the candidates.
So the value is the same for all orders of the candidates exactly when it does not matter
which of several best candidates an item takes.
-/

namespace PromptCode.Scorer

open Py Greedy

variable (py : Interpreter)

/-- The similarity of an expected item and a candidate, unless the comparison raises. -/
def itemScore (expected got : Json) : Option UnitFloat :=
  (itemMatch py got expected).toOption.bind UnitFloat.ofFloat

/-- The similarity from which on two items are paired: 0.5. -/
def halfScore : UnitFloat := ⟨⟨false, 2 ^ 52, 1021, by decide⟩, rfl, by decide +kernel⟩

/-- The value of a pairing of so many expected items. -/
def listTotal (n : ℕ) (outs : Option (List UnitFloat)) : Option PyFloat :=
  outs.map fun scores => ((scores.map UnitFloat.toFloat).foldl PyFloat.add .zero).divNat n

/-- The candidates that are left, with their indices. -/
def remaining (got : List Json) (used : List ℕ) : List (Json × ℕ) :=
  got.zipIdx.filter fun c => c.2 ∉ used

/-- A round of the inner loop over the candidates that are left. -/
def bestStep (expected : Json) (best : PyFloat × Option ℕ) (c : Json × ℕ) :
    Except ScoreErr (PyFloat × Option ℕ) :=
  (itemMatch py c.1 expected).map fun s => if best.1.lt s then (s, some c.2) else best

variable {py}

theorem itemScore_eq_some {expected got : Json} {s : UnitFloat} :
    itemScore py expected got = some s ↔ itemMatch py got expected = .ok s.toFloat := by
  unfold itemScore
  constructor
  · intro h
    cases hmatch : itemMatch py got expected with
    | error e => simp [hmatch, Except.toOption] at h
    | ok x =>
        obtain ⟨t, rfl⟩ := isUnit_itemMatch hmatch
        simp only [hmatch, Except.toOption, Option.bind_some, UnitFloat.ofFloat_toFloat,
          Option.some.injEq] at h
        rw [h]
  · intro h
    rw [h]
    exact UnitFloat.ofFloat_toFloat s

theorem itemScore_eq_none {expected got : Json} (h : itemScore py expected got = none) :
    ∃ e, itemMatch py got expected = .error e := by
  cases hmatch : itemMatch py got expected with
  | error e => exact ⟨e, rfl⟩
  | ok x =>
      obtain ⟨t, rfl⟩ := isUnit_itemMatch hmatch
      rw [itemScore_eq_some.mpr hmatch] at h
      cases h

theorem isSome_itemScore_iff {expected got : Json} :
    (itemScore py expected got).isSome ↔ ItemComparable py got expected := by
  rw [← exists_itemMatch_iff]
  constructor
  · intro h
    obtain ⟨s, hs⟩ := Option.isSome_iff_exists.mp h
    exact ⟨_, itemScore_eq_some.mp hs⟩
  · rintro ⟨x, hx⟩
    obtain ⟨s, rfl⟩ := isUnit_itemMatch hx
    rw [itemScore_eq_some.mpr hx]
    rfl

theorem units_ofDecimal_half :
    (Double.ofDecimal false 5 (-1)).map Double.units = some halfScore.units := by
  decide +kernel

theorem toFloat_half : halfScore.toFloat = .ofDecimal 5 (-1) := by
  obtain ⟨x, hx, hunits⟩ := Option.map_eq_some_iff.mp units_ofDecimal_half
  have hdouble : halfScore.double = x :=
    Double.ext_of_units (Double.neg_of_nearest hx).symm hunits.symm
  rw [PyFloat.ofDecimal, hx, UnitFloat.toFloat, hdouble]
  rfl

/-! ## The inner loop -/

theorem foldlM_skip {α β : Type} (p : α → Prop) [DecidablePred p]
    (f : β → α → Except ScoreErr β) (l : List α) (init : β) :
    l.foldlM (fun acc a => if p a then .ok acc else f acc a) init =
      (l.filter fun a => ¬ p a).foldlM f init := by
  induction l generalizing init with
  | nil => rfl
  | cons a l ih =>
      rw [List.foldlM_cons]
      by_cases ha : p a
      · rw [if_pos ha, List.filter_cons_of_neg (by simpa using ha), ← ih]
        rfl
      · rw [if_neg ha, List.filter_cons_of_pos (by simpa using ha), List.foldlM_cons]
        exact bind_congr ih

theorem bestCandidate_eq (got : List Json) (used : List ℕ) (expected : Json) :
    bestCandidate py got used expected =
      (remaining got used).foldlM (bestStep py expected) (.zero, none) := by
  exact foldlM_skip (fun c : Json × ℕ => c.2 ∈ used) (bestStep py expected) got.zipIdx _

/-- Candidates that are not better leave the best one. -/
theorem foldlM_bestStep_of_le {expected : Json} {cands : List (Json × ℕ)} {t : UnitFloat}
    {j : Option ℕ} (h : ∀ c ∈ cands, ∃ s, itemScore py expected c.1 = some s ∧ s ≤ t) :
    cands.foldlM (bestStep py expected) (t.toFloat, j) = .ok (t.toFloat, j) := by
  induction cands with
  | nil => rfl
  | cons c cands ih =>
      obtain ⟨s, hs, hle⟩ := h c (by simp)
      have hstep : bestStep py expected (t.toFloat, j) c = .ok (t.toFloat, j) := by
        rw [bestStep, itemScore_eq_some.mp hs, Except.map,
          if_neg (by rw [UnitFloat.lt_toFloat]; exact not_lt.mpr hle)]
      rw [List.foldlM_cons, hstep]
      exact ih fun d hd => h d (by simp [hd])

/-- Candidates below a score leave a best one below it. -/
theorem foldlM_bestStep_of_lt {expected : Json} {cands : List (Json × ℕ)} {s t : UnitFloat}
    {j : Option ℕ} (ht : t < s)
    (h : ∀ c ∈ cands, ∃ r, itemScore py expected c.1 = some r ∧ r < s) :
    ∃ r k, cands.foldlM (bestStep py expected) (t.toFloat, j) = .ok (r.toFloat, k) ∧ r < s := by
  induction cands generalizing t j with
  | nil => exact ⟨t, j, rfl, ht⟩
  | cons c cands ih =>
      obtain ⟨r, hr, hlt⟩ := h c (by simp)
      rw [List.foldlM_cons, bestStep, itemScore_eq_some.mp hr, Except.map]
      have hrest : ∀ d ∈ cands, ∃ r, itemScore py expected d.1 = some r ∧ r < s :=
        fun d hd => h d (by simp [hd])
      split_ifs
      · exact ih hlt hrest
      · exact ih ht hrest

theorem foldlM_bestStep_error {expected : Json} {cands : List (Json × ℕ)}
    {best : PyFloat × Option ℕ}
    (h : ∃ c ∈ cands, itemScore py expected c.1 = none) :
    ∃ e, cands.foldlM (bestStep py expected) best = .error e := by
  induction cands generalizing best with
  | nil =>
      obtain ⟨c, hc, -⟩ := h
      exact absurd hc (by simp)
  | cons c cands ih =>
      rw [List.foldlM_cons]
      cases hstep : bestStep py expected best c with
      | error e => exact ⟨e, rfl⟩
      | ok next =>
          apply ih
          obtain ⟨d, hd, hnone⟩ := h
          rcases List.mem_cons.mp hd with rfl | hd
          · obtain ⟨e, he⟩ := itemScore_eq_none hnone
            simp [bestStep, he, Except.map] at hstep
          · exact ⟨d, hd, hnone⟩

/-- The first of the best candidates is found. -/
theorem foldlM_bestStep_split {expected : Json} {before after : List (Json × ℕ)}
    {c : Json × ℕ} {s : UnitFloat} (hpos : UnitFloat.zero < s)
    (hc : itemScore py expected c.1 = some s)
    (hbefore : ∀ d ∈ before, ∃ t, itemScore py expected d.1 = some t ∧ t < s)
    (hafter : ∀ d ∈ after, ∃ t, itemScore py expected d.1 = some t ∧ t ≤ s) :
    (before ++ c :: after).foldlM (bestStep py expected) (.zero, none) =
      .ok (s.toFloat, some c.2) := by
  obtain ⟨r, k, hr, hlt⟩ := foldlM_bestStep_of_lt (j := none) hpos hbefore
  rw [UnitFloat.toFloat_zero] at hr
  have hstep : bestStep py expected (r.toFloat, k) c = .ok (s.toFloat, some c.2) := by
    rw [bestStep, itemScore_eq_some.mp hc, Except.map,
      if_pos (UnitFloat.lt_toFloat.mpr hlt)]
  rw [List.foldlM_append, hr]
  change (c :: after).foldlM (bestStep py expected) (r.toFloat, k) = _
  rw [List.foldlM_cons, hstep]
  exact foldlM_bestStep_of_le hafter

/-! ## The outer loop -/

theorem halfScore_pos : UnitFloat.zero < halfScore := by
  rw [UnitFloat.lt_iff]
  decide +kernel

theorem take_of_le {p : Pairing} {s : UnitFloat} {j : ℕ} (h : halfScore ≤ s) :
    p.take (s.toFloat, some j) = ⟨p.correct.add s.toFloat, j :: p.used⟩ := by
  rw [Pairing.take, ← toFloat_half, if_pos (UnitFloat.ge_toFloat.mpr h)]

theorem take_of_lt {p : Pairing} {s : UnitFloat} {j : Option ℕ} (h : s < halfScore) :
    p.take (s.toFloat, j) = p := by
  cases j with
  | none => rfl
  | some j =>
      rw [Pairing.take, ← toFloat_half,
        if_neg (by rw [UnitFloat.ge_toFloat]; exact not_le.mpr h)]

theorem mem_remaining {got : List Json} {used : List ℕ} {c : Json × ℕ} :
    c ∈ remaining got used ↔ c ∈ got.zipIdx ∧ c.2 ∉ used := by
  simp [remaining]

theorem nodup_remaining (got : List Json) (used : List ℕ) :
    ((remaining got used).map Prod.snd).Nodup :=
  List.Nodup.sublist (List.filter_sublist.map _) (List.nodup_zipIdx_map_snd got)

/-- The chosen candidate is no longer left. -/
theorem remaining_cons {got : List Json} {used : List ℕ} {before after : List (Json × ℕ)}
    {c : Json × ℕ} (h : remaining got used = before ++ c :: after) :
    remaining got (c.2 :: used) = before ++ after := by
  have hnodup := nodup_remaining got used
  rw [h, List.map_append, List.map_cons, List.nodup_middle, List.nodup_cons,
    ← List.map_append] at hnodup
  have hfilter : remaining got (c.2 :: used) = (remaining got used).filter (·.2 ≠ c.2) := by
    rw [remaining, remaining, List.filter_filter]
    refine List.filter_congr fun d _ => ?_
    simp only [List.mem_cons, not_or, Bool.decide_and, ne_eq]
  have hkeep : ∀ l : List (Json × ℕ), (∀ d ∈ l, d ∈ before ++ after) →
      l.filter (fun d => decide (d.2 ≠ c.2)) = l := by
    intro l hl
    refine List.filter_eq_self.mpr fun d hd => ?_
    rw [decide_eq_true_eq]
    intro heq
    exact hnodup.1 (heq ▸ List.mem_map_of_mem (hl d hd))
  rw [hfilter, h, List.filter_append, List.filter_cons_of_neg (by simp),
    hkeep before fun d hd => by simp [hd], hkeep after fun d hd => by simp [hd]]

/-- The loops compute the greedy pairing with the candidates that are left. -/
theorem pairItems_of_run {got expected : List Json} {cands : List Json}
    {outs : Option (List UnitFloat)} (h : Run (itemScore py) halfScore expected cands outs)
    {p : Pairing} (hcands : (remaining got p.used).map Prod.fst = cands) :
    (pairItems py got p expected).toOption.map Pairing.correct =
      outs.map fun scores => (scores.map UnitFloat.toFloat).foldl PyFloat.add p.correct := by
  induction h generalizing p with
  | done cands => rfl
  | @stop e es cands c hc hnone =>
      rw [← hcands, List.mem_map] at hc
      obtain ⟨d, hd, rfl⟩ := hc
      obtain ⟨err, herr⟩ : ∃ err, (remaining got p.used).foldlM (bestStep py e) (.zero, none) =
          .error err := foldlM_bestStep_error ⟨d, hd, hnone⟩
      rw [pairItems, List.foldlM_cons, bestCandidate_eq, herr]
      rfl
  | @take e es before after c s outs hc hs hbefore hafter _ ih =>
      obtain ⟨before', rest, hsplit, rfl, hrest⟩ := List.map_eq_append_iff.mp hcands
      obtain ⟨d, after', rfl, rfl, rfl⟩ := List.map_eq_cons_iff.mp hrest
      have hbest := foldlM_bestStep_split (halfScore_pos.trans_le hs) hc
        (fun a ha => hbefore a.1 (List.mem_map_of_mem ha))
        (fun a ha => hafter a.1 (List.mem_map_of_mem ha))
      have hnext := ih (p := ⟨p.correct.add s.toFloat, d.2 :: p.used⟩)
        (by rw [remaining_cons hsplit, List.map_append])
      rw [pairItems, List.foldlM_cons, bestCandidate_eq, hsplit, hbest, Except.map,
        take_of_le hs, Option.map_map]
      exact hnext
  | @skip e es cands outs hsmall _ ih =>
      have hcand : ∀ a ∈ remaining got p.used, ∃ r, itemScore py e a.1 = some r ∧
          r < halfScore := by
        intro a ha
        exact hsmall a.1 (hcands ▸ List.mem_map_of_mem ha)
      obtain ⟨r, k, hr, hlt⟩ := foldlM_bestStep_of_lt (j := none) halfScore_pos hcand
      rw [UnitFloat.toFloat_zero] at hr
      have hnext := ih hcands
      rw [pairItems, List.foldlM_cons, bestCandidate_eq, hr, Except.map, take_of_lt hlt]
      exact hnext

/-- `_list_accuracy` is the value of the greedy pairing. -/
theorem listAccuracy_of_run {got expected : List Json} {outs : Option (List UnitFloat)}
    (hne : expected ≠ []) (h : Run (itemScore py) halfScore expected got outs) :
    (listAccuracy py got expected).toOption = listTotal expected.length outs := by
  have hcands : (remaining got []).map Prod.fst = got := by
    rw [remaining, List.filter_eq_self.mpr (by simp), List.zipIdx_map_fst]
  have hpair := pairItems_of_run h (p := {}) hcands
  have htotal : listTotal expected.length outs = (outs.map fun scores =>
      (scores.map UnitFloat.toFloat).foldl PyFloat.add ({} : Pairing).correct).map
        fun x => x.divNat expected.length := by
    cases outs <;> rfl
  rw [listAccuracy, if_neg (by simpa using hne), htotal, ← hpair]
  cases pairItems py got {} expected <;> rfl

/-- Every value of `_list_accuracy` is a score. -/
theorem isUnit_listAccuracy {got expected : List Json} {x : PyFloat}
    (h : listAccuracy py got expected = .ok x) : x.IsUnit := by
  by_cases hne : expected = []
  · subst hne
    obtain rfl := Except.ok.inj h
    split_ifs
    · exact PyFloat.isUnit_one
    · exact PyFloat.isUnit_zero
  · obtain ⟨outs, hrun⟩ := exists_run (itemScore py) halfScore expected got
    have hvalue := listAccuracy_of_run hne hrun
    rw [h] at hvalue
    obtain ⟨scores, rfl, rfl⟩ := Option.map_eq_some_iff.mp hvalue.symm
    have hlength := hrun.length_le
    have hsum : ∀ (scores : List UnitFloat) (n : ℕ) (total : PyFloat),
        PyFloat.IsSum n total → PyFloat.IsSum (n + scores.length)
          ((scores.map UnitFloat.toFloat).foldl PyFloat.add total) := by
      intro scores
      induction scores with
      | nil => exact fun n total htotal => htotal
      | cons s scores ih =>
          intro n total htotal
          have hnext := ih (n + 1) _ (htotal.add s)
          rw [List.length_cons, show n + (scores.length + 1) = n + 1 + scores.length by omega]
          exact hnext
    have htotal := (hsum scores 0 _ PyFloat.isSum_zero).mono
      (show 0 + scores.length ≤ expected.length by omega)
    exact htotal.divNat (List.length_pos_iff.mpr hne)

/-! ## Orders of the candidates -/

/-- A list whose items match themselves fully scores 1 in its own order. -/
theorem listAccuracy_self {items : List Json}
    (hself : ∀ v ∈ items, itemMatch py v v = .ok .one) (hlength : items.length ≤ 2 ^ 53)
    {x : PyFloat} (h : listAccuracy py items items = .ok x) : x = .one := by
  by_cases hne : items = []
  · subst hne
    exact (Except.ok.inj h).symm
  · obtain ⟨outs, hrun⟩ := exists_run (itemScore py) halfScore items items
    have hvalue := listAccuracy_of_run hne hrun
    rw [h] at hvalue
    obtain ⟨scores, rfl, rfl⟩ := Option.map_eq_some_iff.mp hvalue.symm
    have hone : ∀ v ∈ items, itemScore py v v = some ((fun _ => UnitFloat.one) v) := by
      intro v hv
      exact itemScore_eq_some.mpr (UnitFloat.toFloat_one ▸ hself v hv)
    have hscores := hrun.self (List.Sublist.refl _) hone (fun _ _ _ _ t _ => t.le_one')
    rw [List.filter_eq_self.mpr (by
      intro s hs
      obtain ⟨v, -, rfl⟩ := List.mem_map.mp hs
      exact decide_eq_true halfScore.le_one')] at hscores
    have hones : ∀ s ∈ scores.map UnitFloat.toFloat, s = PyFloat.one := by
      intro s hs
      rw [hscores, List.map_map] at hs
      obtain ⟨v, -, rfl⟩ := List.mem_map.mp hs
      exact UnitFloat.toFloat_one
    have hcount : (scores.map UnitFloat.toFloat).length = items.length := by
      rw [hscores, List.length_map, List.length_map]
    have hsum := PyFloat.isCount_foldl_ones hones PyFloat.isCount_zero (by omega)
    rw [Nat.zero_add, hcount] at hsum
    exact hsum.divNat_self (List.length_pos_iff.mpr hne)

/-- The value of the list does not depend on which of several best candidates an expected
item takes. -/
def TiesHarmless (py : Interpreter) (got expected : List Json) : Prop :=
  Settled (itemScore py) halfScore (listTotal expected.length) expected got

/-- The value is the same for all orders of the candidates when ties are harmless, and only
then. -/
theorem listAccuracy_perm_iff (got expected : List Json) :
    (∀ got', got'.Perm got →
      (listAccuracy py got' expected).toOption = (listAccuracy py got expected).toOption) ↔
      TiesHarmless py got expected := by
  by_cases hne : expected = []
  · subst hne
    constructor
    · intro _ outs outs' h h'
      cases h
      cases h'
      rfl
    · intro _ got' hperm
      rw [listAccuracy, listAccuracy, hperm.isEmpty_eq]
      rfl
  · exact forall_perm_iff_settled (fun cands outs h => listAccuracy_of_run hne h) got

/-- The value lies between 0 and 1; a list scores 1 in its own order when its items match
themselves fully, and in every other order when ties are harmless; and the order of the
candidates does not matter exactly when ties are harmless. -/
theorem listAccuracy_order (py : Interpreter) (got expected : List Json) :
    (∀ x, listAccuracy py got expected = .ok x → x.IsUnit) ∧
    ((∀ v ∈ expected, itemMatch py v v = .ok .one) → expected.length ≤ 2 ^ 53 →
      got = expected ∨ got.Perm expected ∧ TiesHarmless py got expected →
      ∀ x, listAccuracy py got expected = .ok x → x = .one) ∧
    ((∀ got', got'.Perm got →
      (listAccuracy py got' expected).toOption = (listAccuracy py got expected).toOption) ↔
      TiesHarmless py got expected) := by
  refine ⟨fun x => isUnit_listAccuracy, ?_, listAccuracy_perm_iff got expected⟩
  rintro hself hlength (rfl | ⟨hperm, hties⟩) x hx
  · exact listAccuracy_self hself hlength hx
  · have hsame := (listAccuracy_perm_iff got expected).mpr hties expected hperm.symm
    rw [hx] at hsame
    cases hown : listAccuracy py expected expected with
    | error e =>
        rw [hown] at hsame
        cases hsame
    | ok y =>
        rw [hown] at hsame
        obtain rfl := Option.some.inj hsame
        exact listAccuracy_self hself hlength hown

/-- An item that takes a candidate within its tolerance leaves a worse one to the next
item. -/
theorem listAccuracy_order_matters :
    let py : Interpreter := ⟨.ascii, 1000, 1000, 1000⟩
    let expected := [Json.int 1001, Json.int 1000]
    let got := [Json.int 1000, Json.int 1001]
    got.Perm expected ∧ (∀ v ∈ expected, itemMatch py v v = .ok .one) ∧
      listAccuracy py got expected = .ok (.ofDecimal 95 (-2)) ∧
      listAccuracy py expected expected = .ok .one := by
  refine ⟨List.Perm.swap _ _ _, ?_, ?_, ?_⟩
  · decide +kernel
  · decide +kernel
  · decide +kernel

end PromptCode.Scorer
