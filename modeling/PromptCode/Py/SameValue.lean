import PromptCode.Py.Equality
import PromptCode.Py.Surrogates

/-!
# The same JSON value

Equality of values with their types: `true`, `1` and `1.0` differ, the order of the keys of
an object does not count.  Two values with finite floats are the same exactly when sorting
their keys makes them equal, and those made by `json.loads` exactly when the texts of their
sorted forms are equal.
-/

namespace PromptCode.Py

mutual

/-- The same value; a float is known by its `repr`. -/
def Json.same : Json → Json → Bool
  | .null, .null => true
  | .bool b, .bool c => b == c
  | .int z, .int w => z == w
  | .float x, .float y => x.text == y.text
  | .str s, .str t => s == t
  | .arr items, .arr items' => sameItems items items'
  | .obj fields, .obj fields' => fields.length == fields'.length && sameFields fields fields'
  | _, _ => false

def sameItems : List Json → List Json → Bool
  | [], [] => true
  | v :: items, w :: items' => v.same w && sameItems items items'
  | _, _ => false

/-- The other object has the same value under the key. -/
def sameField : Str × Json → List (Str × Json) → Bool
  | (k, v), fields => match fields.lookup k with
      | none => false
      | some w => v.same w

def sameFields : List (Str × Json) → List (Str × Json) → Bool
  | [], _ => true
  | f :: fields, fields' => sameField f fields' && sameFields fields fields'

end

/-! ## Sorted keys -/

/-- Sorting by a key that no two elements share forgets the order and nothing else. -/
theorem insertionSort_eq_iff_perm {α β : Type} [LinearOrder β] {key : α → β} {l l' : List α}
    (hl : (l.map key).Nodup) :
    l.insertionSort (fun a b => key a ≤ key b) =
      l'.insertionSort (fun a b => key a ≤ key b) ↔ l.Perm l' := by
  have hperm (l : List α) := List.perm_insertionSort (fun a b => key a ≤ key b) l
  have : Std.Total fun a b : α => key a ≤ key b := ⟨fun a b => le_total (key a) (key b)⟩
  have : IsTrans α fun a b => key a ≤ key b := ⟨fun _ _ _ => le_trans⟩
  constructor
  · intro h
    exact (hperm l).symm.trans (h ▸ hperm l')
  · intro h
    refine List.Perm.eq_of_pairwise ?_ (List.pairwise_insertionSort _ l)
      (List.pairwise_insertionSort _ l') (((hperm l).trans h).trans (hperm l').symm)
    intro a b ha hb hab hba
    have ha : a ∈ l := (hperm l).mem_iff.mp ha
    have hb : b ∈ l := h.mem_iff.mpr ((hperm l').mem_iff.mp hb)
    exact List.inj_on_of_nodup_map hl ha hb (le_antisymm hab hba)

theorem lookup_eq_some_iff_mem {β : Type} {fields : List (Str × β)} {k : Str} {v : β}
    (h : (fields.map Prod.fst).Nodup) : fields.lookup k = some v ↔ (k, v) ∈ fields := by
  induction fields with
  | nil => simp
  | cons f fields ih =>
      obtain ⟨hf, hrest⟩ := List.nodup_cons.mp h
      rw [List.lookup_cons, List.mem_cons]
      by_cases hk : k = f.1
      · have hnot : (k, v) ∉ fields := fun hmem => hf (hk ▸ List.mem_map_of_mem hmem)
        subst hk
        simp only [BEq.rfl, Option.some.injEq, hnot, or_false]
        exact ⟨fun hv => hv ▸ rfl, fun hv => (congrArg Prod.snd hv).symm⟩
      · have hne : (k, v) ≠ f := fun heq => hk (heq ▸ rfl)
        rw [beq_eq_false_iff_ne.mpr hk]
        simp only [hne, false_or]
        exact ih hrest

/-- Two objects whose keys differ have the same fields when one has as many as the other, and
all of them. -/
theorem perm_iff_lookup {β : Type} {l l' : List (Str × β)} (hl : (l.map Prod.fst).Nodup)
    (hl' : (l'.map Prod.fst).Nodup) :
    l.Perm l' ↔ l.length = l'.length ∧ ∀ f ∈ l, l'.lookup f.1 = some f.2 := by
  constructor
  · exact fun h => ⟨h.length_eq, fun f hf =>
      (lookup_eq_some_iff_mem hl').mpr (h.mem_iff.mp hf)⟩
  · rintro ⟨hlen, hall⟩
    have hsub : l ⊆ l' := fun f hf => (lookup_eq_some_iff_mem hl').mp (hall f hf)
    exact (List.subperm_of_subset hl.of_map hsub).perm_of_length_le hlen.ge

theorem itemsSortKeys_eq_map (items : List Json) :
    itemsSortKeys items = items.map Json.sortKeys := by
  induction items with
  | nil => rfl
  | cons v items ih => rw [itemsSortKeys, ih, List.map_cons]

theorem fieldsSortKeys_eq_map (fields : List (Str × Json)) :
    fieldsSortKeys fields = fields.map fun f => (f.1, f.2.sortKeys) := by
  induction fields with
  | nil => rfl
  | cons f fields ih =>
      obtain ⟨k, v⟩ := f
      rw [fieldsSortKeys, ih, List.map_cons, fieldSortKeys]

theorem keys_fieldsSortKeys (fields : List (Str × Json)) :
    (fieldsSortKeys fields).map Prod.fst = fields.map Prod.fst := by
  rw [fieldsSortKeys_eq_map, List.map_map]
  rfl

theorem forall₂_congr_of_mem {α β : Type} {R S : α → β → Prop} {l : List α} {l' : List β}
    (h : ∀ a ∈ l, ∀ b ∈ l', (R a b ↔ S a b)) : List.Forall₂ R l l' ↔ List.Forall₂ S l l' := by
  induction l generalizing l' with
  | nil => rw [List.forall₂_nil_left_iff, List.forall₂_nil_left_iff]
  | cons a l ih =>
      cases l' with
      | nil => simp
      | cons b l' =>
          rw [List.forall₂_cons, List.forall₂_cons, h a (by simp) b (by simp),
            ih fun c hc d hd => h c (by simp [hc]) d (by simp [hd])]

theorem sameItems_iff {items items' : List Json} :
    sameItems items items' = true ↔ List.Forall₂ (fun v w => v.same w = true) items items' := by
  induction items generalizing items' with
  | nil => cases items' <;> simp [sameItems]
  | cons v items ih => cases items' <;> simp [sameItems, ih]

theorem sameFields_iff {fields fields' : List (Str × Json)} :
    sameFields fields fields' = true ↔
      ∀ f ∈ fields, ∃ w, fields'.lookup f.1 = some w ∧ f.2.same w = true := by
  induction fields with
  | nil => simp [sameFields]
  | cons f fields ih =>
      obtain ⟨k, v⟩ := f
      rw [sameFields, Bool.and_eq_true, ih, List.forall_mem_cons]
      refine and_congr_left fun _ => ?_
      rw [sameField]
      cases fields'.lookup k <;> simp

/-- The `repr` of a double identifies it. -/
theorem Double.repr_injective {x y : Double} (h : x.repr = y.repr) : x = y := by
  have hread (z : Double) : scanScalar ⟨0, false⟩ (z.repr ++ []) = some (.float (.finite z), []) :=
    reads_float z (by simp [EndsNumber])
  have hxy := hread x
  rw [h, hread y] at hxy
  simpa using hxy.symm

theorem sortKeys_scalar {v : Json} (harr : ∀ items, v ≠ .arr items)
    (hobj : ∀ fields, v ≠ .obj fields) : v.sortKeys = v := by
  cases v with
  | arr items => exact absurd rfl (harr items)
  | obj fields => exact absurd rfl (hobj fields)
  | null | bool _ | int _ | float _ | str _ => rfl

theorem sortKeys_obj_eq_iff {fields fields' : List (Str × Json)}
    (h : (fields.map Prod.fst).Nodup) (h' : (fields'.map Prod.fst).Nodup) :
    (Json.obj fields).sortKeys = (Json.obj fields').sortKeys ↔
      fields.length = fields'.length ∧
        ∀ f ∈ fields, ∃ w, fields'.lookup f.1 = some w ∧ f.2.sortKeys = w.sortKeys := by
  have hkeys (l : List (Str × Json)) (hl : (l.map Prod.fst).Nodup) :
      ((l.map fun f => (f.1, f.2.sortKeys)).map Prod.fst).Nodup := by
    rw [← fieldsSortKeys_eq_map, keys_fieldsSortKeys]
    exact hl
  have hlookup (k : Str) (v : Json) :
      (fields'.map fun f => (f.1, f.2.sortKeys)).lookup k = some v ↔
        ∃ w, fields'.lookup k = some w ∧ v = w.sortKeys := by
    rw [lookup_eq_some_iff_mem (hkeys _ h'), List.mem_map]
    constructor
    · rintro ⟨⟨k', w⟩, hmem, heq⟩
      obtain ⟨rfl, rfl⟩ := Prod.mk.inj heq
      exact ⟨w, (lookup_eq_some_iff_mem h').mpr hmem, rfl⟩
    · rintro ⟨w, hw, rfl⟩
      exact ⟨(k, w), (lookup_eq_some_iff_mem h').mp hw, rfl⟩
  rw [Json.sortKeys, Json.sortKeys, Json.obj.injEq, fieldsSortKeys_eq_map,
    fieldsSortKeys_eq_map, insertionSort_eq_iff_perm (hkeys _ h),
    perm_iff_lookup (hkeys _ h) (hkeys _ h'), List.length_map, List.length_map,
    List.forall_mem_map]
  simp only [hlookup]

/-- Values are the same when sorting their keys makes them equal. -/
theorem sortKeys_eq_iff_same {scalar : Json → Prop} {key : Str → Prop} {v w : Json}
    (hv : v.All scalar key) (hw : w.All scalar key) (hvf : v.allFinite = true)
    (hwf : w.allFinite = true) : v.sortKeys = w.sortKeys ↔ v.same w = true := by
  induction v using Json.containers_induction generalizing w with
  | scalar v harr hobj =>
      rw [sortKeys_scalar harr hobj]
      cases v
      case arr items => exact absurd rfl (harr items)
      case obj fields => exact absurd rfl (hobj fields)
      case float x =>
          cases w
          case float y =>
              rcases x with x | _ | _
              case finite =>
                  rcases y with y | _ | _
                  case finite =>
                      simp only [Json.sortKeys, Json.same, PyFloat.text, Json.float.injEq,
                        PyFloat.finite.injEq, beq_iff_eq]
                      exact ⟨fun h => h ▸ rfl, Double.repr_injective⟩
                  all_goals cases hwf
              all_goals cases hvf
          all_goals simp [Json.sortKeys, Json.same]
      all_goals cases w <;> simp [Json.sortKeys, Json.same]
  | arr items ih =>
      cases w
      case arr items' =>
          have hitems := allItems_iff.mp hv
          have hitems' := allItems_iff.mp hw
          have hfinite := everyItem_iff.mp hvf
          have hfinite' := everyItem_iff.mp hwf
          rw [Json.sortKeys, Json.sortKeys, Json.arr.injEq, itemsSortKeys_eq_map,
            itemsSortKeys_eq_map, Json.same, sameItems_iff, ← List.forall₂_eq_eq_eq,
            List.forall₂_map_left_iff, List.forall₂_map_right_iff]
          refine forall₂_congr_of_mem fun v hv w hw => ?_
          exact ih v hv (hitems v hv) (hitems' w hw) (hfinite v hv) (hfinite' w hw)
      all_goals simp [Json.sortKeys, Json.same]
  | obj fields ih =>
      cases w
      case obj fields' =>
          have hfields := allFields_iff.mp hv.2
          have hfields' := allFields_iff.mp hw.2
          have hfinite := everyField_iff.mp hvf
          have hfinite' := everyField_iff.mp hwf
          rw [sortKeys_obj_eq_iff hv.1 hw.1, Json.same, Bool.and_eq_true, beq_iff_eq,
            sameFields_iff]
          refine and_congr_right fun _ => forall₂_congr fun f hf => exists_congr fun u => ?_
          refine and_congr_right fun hu => ?_
          have hmem := (lookup_eq_some_iff_mem hw.1).mp hu
          exact ih f hf (hfields f hf).2 (hfields' _ hmem).2 (hfinite f hf) (hfinite' _ hmem)
      all_goals simp [Json.sortKeys, Json.same]

/-! ## Texts -/

theorem Json.All.sortKeys {scalar : Json → Prop} {key : Str → Prop} {v : Json}
    (h : v.All scalar key) : v.sortKeys.All scalar key := by
  induction v using Json.containers_induction with
  | scalar v harr hobj => exact (sortKeys_scalar harr hobj).symm ▸ h
  | arr items ih =>
      rw [Json.sortKeys, itemsSortKeys_eq_map]
      refine allItems_iff.mpr (List.forall_mem_map.mpr ?_)
      exact fun v hv => ih v hv (allItems_iff.mp h v hv)
  | obj fields ih =>
      have hperm := List.perm_insertionSort (fun f g : Str × Json => f.1 ≤ g.1)
        (fieldsSortKeys fields)
      rw [Json.sortKeys]
      refine ⟨(hperm.map Prod.fst).nodup_iff.mpr (keys_fieldsSortKeys fields ▸ h.1),
        allFields_iff.mpr fun f hf => ?_⟩
      rw [hperm.mem_iff, fieldsSortKeys_eq_map] at hf
      obtain ⟨g, hg, rfl⟩ := List.mem_map.mp hf
      obtain ⟨hkey, hvalue⟩ := allFields_iff.mp h.2 g hg
      exact ⟨hkey, ih g hg hvalue⟩

theorem every_sortKeys {p : Json → Bool} {v : Json} (h : v.every p = true) :
    v.sortKeys.every p = true := by
  induction v using Json.containers_induction with
  | scalar v harr hobj => exact (sortKeys_scalar harr hobj).symm ▸ h
  | arr items ih =>
      rw [Json.sortKeys, itemsSortKeys_eq_map]
      refine everyItem_iff.mpr (List.forall_mem_map.mpr ?_)
      exact fun v hv => ih v hv (everyItem_iff.mp h v hv)
  | obj fields ih =>
      rw [Json.sortKeys]
      refine everyField_iff.mpr fun f hf => ?_
      rw [(List.perm_insertionSort _ _).mem_iff, fieldsSortKeys_eq_map] at hf
      obtain ⟨g, hg, rfl⟩ := List.mem_map.mp hf
      exact ih g hg (everyField_iff.mp h g hg)

/-- What `json.dumps` writes for values of `json.loads` tells them apart. -/
theorem Loaded.text_injective {o : LoadsOptions} {style : JsonStyle} (hstyle : style.Sound)
    (hascii : style.ensureAscii = true) {v w : Json} (hv : Loaded o v) (hw : Loaded o w)
    (hvf : v.allFinite = true) (hwf : w.allFinite = true)
    (h : v.text style = w.text style) : v = w := by
  have hread := (hv.readsBack hascii hvf).jsonLoads hstyle (le_max_left v.depth w.depth)
  have hread' := (hw.readsBack hascii hwf).jsonLoads hstyle (le_max_right v.depth w.depth)
  rw [h, hread'] at hread
  exact (Option.some.inj hread).symm

theorem sortedText_eq_iff_same {o : LoadsOptions} {style : JsonStyle} (hstyle : style.Sound)
    (hascii : style.ensureAscii = true) {v w : Json} (hv : Loaded o v) (hw : Loaded o w)
    (hvf : v.allFinite = true) (hwf : w.allFinite = true) :
    v.sortKeys.text style = w.sortKeys.text style ↔ v.same w = true := by
  rw [← sortKeys_eq_iff_same hv hw hvf hwf]
  refine ⟨fun h => ?_, fun h => h ▸ rfl⟩
  exact Loaded.text_injective hstyle hascii hv.sortKeys hw.sortKeys (every_sortKeys hvf)
    (every_sortKeys hwf) h

/-! ## Strings compared -/

theorem StartsNumber.ne_quote {s t : Str} (h : StartsNumber s) : s ≠ 34 :: t := by
  obtain ⟨c, u, rfl, hc⟩ := h
  intro heq
  obtain ⟨rfl, -⟩ := List.cons.inj heq
  rcases hc with hc | ⟨hc, -⟩
  · exact absurd hc (by decide)
  · exact absurd hc (by decide)

theorem startsNumber_intText (z : ℤ) : StartsNumber (intText z) := by
  have hvalid : Notation.Valid ⟨jsonNat z.natAbs, [], none⟩ :=
    ⟨Notation.wholeDigits_jsonNat _, by simp⟩
  have hstart := hvalid.startsNumber (decide (z < 0)) []
  simpa [intText, Notation.text] using hstart

theorem startsNumber_repr (x : Double) : StartsNumber x.repr := by
  have hstart := x.valid_written.startsNumber x.neg []
  simpa [Double.repr] using hstart

theorem floatForm_ne_quote (x : PyFloat) (t : Str) :
    x.canonical.sortKeys.text compactRawStyle ≠ 34 :: t := by
  cases x with
  | finite x =>
      unfold PyFloat.canonical
      dsimp only
      split_ifs
      · exact (startsNumber_intText _).ne_quote
      · exact (startsNumber_repr x).ne_quote
  | inf neg =>
      intro h
      cases neg with
      | true => exact absurd (List.cons.inj h).1 (by decide)
      | false => exact absurd (List.cons.inj h).1 (by decide)
  | nan =>
      intro h
      exact absurd (List.cons.inj h).1 (by decide)

/-- Only a string has a text that starts with a quote. -/
theorem Json.eq_str_of_form {v : Json} {t : Str} (h : v.form = 34 :: t) : ∃ s, v = .str s := by
  match v with
  | .str s => exact ⟨s, rfl⟩
  | .null => exact absurd (List.cons.inj h).1 (by decide)
  | .bool true => exact absurd h (startsNumber_intText 1).ne_quote
  | .bool false => exact absurd h (startsNumber_intText 0).ne_quote
  | .int z => exact absurd h (startsNumber_intText z).ne_quote
  | .float x => exact absurd h (floatForm_ne_quote x t)
  | .arr items =>
      have hhead : (Json.arr (itemsSortKeys (itemsCanonical items))).text compactRawStyle =
          34 :: t := h
      cases hitems : itemsSortKeys (itemsCanonical items) with
      | nil =>
          rw [hitems] at hhead
          exact absurd (List.cons.inj hhead).1 (by decide)
      | cons w rest =>
          rw [hitems] at hhead
          exact absurd (List.cons.inj hhead).1 (by decide)
  | .obj fields =>
      have hhead : (Json.obj fields).canonical.sortKeys.text compactRawStyle = 34 :: t := h
      rw [Json.canonical, Json.sortKeys] at hhead
      cases hfields : (fieldsSortKeys (fieldsCanonical fields)).insertionSort
          (fun f g => f.1 ≤ g.1) with
      | nil =>
          rw [hfields] at hhead
          exact absurd (List.cons.inj hhead).1 (by decide)
      | cons f rest =>
          rw [hfields] at hhead
          exact absurd (List.cons.inj hhead).1 (by decide)

/-- Only the same string is equal to a string. -/
theorem Json.eq_str_iff {v : Json} {s : Str} : v.eq (.str s) = true ↔ v = .str s := by
  have hread (t : Str) : scanScalar ⟨0, true⟩ ((Json.str t).form) = some (.str t, []) := by
    have hraw : compactRawStyle.ReadsString t := readsString_of_raw rfl t
    have h := reads_string (o := ⟨0, true⟩) hraw []
    rwa [List.append_nil] at h
  constructor
  · intro h
    simp only [Json.eq, Bool.and_eq_true, decide_eq_true_eq] at h
    obtain ⟨t, rfl⟩ := eq_str_of_form (v := v) h.1
    have heq := hread t
    rw [h.1, hread s] at heq
    simpa using heq.symm
  · rintro rfl
    simp only [Json.eq, Bool.and_eq_true, decide_eq_true_eq, true_and]
    intro h
    exact absurd (List.cons.inj h).1 (by decide)

example : (Json.obj [(lit "a", .int 1), (lit "b", .null)]).same
      (.obj [(lit "b", .null), (lit "a", .int 1)]) = true ∧
    (Json.bool true).same (.int 1) = false ∧
    (jsonLoads ⟨maxStrDigits, false⟩ 0 (lit "1.0")).map (Json.same (.int 1)) = some false := by
  decide +kernel

end PromptCode.Py
