import PromptCode.Py.Err
import PromptCode.Py.SameValue

/-!
# Complete test reports

`complete_report` in `execution_feedback.py`: the records of a report, which candidate code
can write, are compared with the tests that have to run by membership of pairs in sets.  A
record whose id or phase is a list or an object cannot be looked up in a set.
-/

namespace PromptCode.ExecutionFeedback

open Py

/-! ## The report -/

def phases : List Str := [lit "setup", lit "call", lit "teardown"]

/-- What has to be reported: every test in every phase. -/
def expectedKeys (expectedIds : List Str) : List (Str × Str) :=
  expectedIds.flatMap fun testId => phases.map fun phase => (testId, phase)

/-- The pair under which a record is looked up in a set. -/
structure Key where
  id : Json
  phase : Json

def Key.hashable (key : Key) : Bool := key.id.hashable && key.phase.hashable

def Key.isIn (key : Key) (set : List Key) : Bool :=
  set.any fun other => key.id.eq other.id && key.phase.eq other.phase

def strKey (key : Str × Str) : Key := ⟨.str key.1, .str key.2⟩

/-- The loop over the records: the keys collected, or none when it returns `False`. -/
def collectKeys (expected : List Key) (actual : List Key) :
    List Json → Except PyErr (Option (List Key))
  | [] => .ok (some actual)
  | .obj record :: records =>
      if (Json.getField record (lit "outcome")).eq (.str (lit "passed")) = false then .ok none
      else
        let key : Key := ⟨Json.getField record (lit "id"), Json.getField record (lit "phase")⟩
        if key.hashable = false then .error .type
        else if key.isIn expected = false ∨ key.isIn actual = true then .ok none
        else collectKeys expected (key :: actual) records
  | _ :: _ => .ok none

/-- `actual == expected` for two sets. -/
def sameKeys (actual expected : List Key) : Bool :=
  actual.all (fun key => key.isIn expected) && expected.all fun key => key.isIn actual

/-- `complete_report`; the ids are strings. -/
def completeReport (report : Json) (expectedIds : List Str) : Except PyErr Bool :=
  if expectedIds = [] ∨ expectedIds.length ≠ expectedIds.dedup.length then .ok false
  else
    match report with
    | .obj fields =>
        if (Json.getField fields (lit "version")).eq (.int 1) = false ∨
            (match Json.getField fields (lit "complete") with | .bool b => b | _ => false) = false ∨
            (Json.getField fields (lit "exit_code")).eq (.int 0) = false then .ok false
        else
          match Json.getField fields (lit "records") with
          | .arr records => do
              let expected := (expectedKeys expectedIds).map strKey
              match ← collectKeys expected [] records with
              | none => return false
              | some actual => return sameKeys actual expected
          | _ => .ok false
    | _ => .ok false

/-! ## What a complete report is -/

/-- The record says that a test passed in a phase. -/
def Passed (record : Json) (key : Str × Str) : Prop :=
  ∃ fields, record = .obj fields ∧ Json.getField fields (lit "id") = .str key.1 ∧
    Json.getField fields (lit "phase") = .str key.2 ∧ Json.getField fields (lit "outcome") = .str (lit "passed")

/-- The records are those of all tests in all phases, in some order. -/
def PassedOnce (expectedIds : List Str) (records : List Json) : Prop :=
  ∃ keys, keys.Perm (expectedKeys expectedIds) ∧ List.Forall₂ Passed records keys

/-- The report is complete; `same` compares its numbers with what they should be. -/
structure Complete (same : Json → Json → Bool) (expectedIds : List Str)
    (fields : List (Str × Json)) : Prop where
  ne_nil : expectedIds ≠ []
  nodup : expectedIds.Nodup
  version : same (Json.getField fields (lit "version")) (.int 1) = true
  complete : Json.getField fields (lit "complete") = .bool true
  exitCode : same (Json.getField fields (lit "exit_code")) (.int 0) = true
  records : ∃ records, Json.getField fields (lit "records") = .arr records ∧
    PassedOnce expectedIds records

def IsComplete (same : Json → Json → Bool) (expectedIds : List Str) (report : Json) : Prop :=
  ∃ fields, report = .obj fields ∧ Complete same expectedIds fields

/-- The records that the loop takes without returning, after those of the pairs `seen`: they
passed, and each is the first one of an expected pair. -/
structure Taken (expectedIds : List Str) (seen : List (Str × Str)) (records : List Json)
    (keys : List (Str × Str)) : Prop where
  passed : List.Forall₂ Passed records keys
  expected : ∀ key ∈ keys, key ∈ expectedKeys expectedIds
  nodup : (keys ++ seen).Nodup

/-- A record that passed has an id and a phase that can be looked up. -/
def LooksUp (record : Json) : Prop :=
  ∀ fields, record = .obj fields → Json.getField fields (lit "outcome") = .str (lit "passed") →
    (Json.getField fields (lit "id")).hashable = true ∧ (Json.getField fields (lit "phase")).hashable = true

/-- Every record that the loop reaches can be looked up, or is dismissed before. -/
def ReachesHashable (expectedIds : List Str) (report : Json) : Prop :=
  ∀ fields records, report = .obj fields → expectedIds ≠ [] → expectedIds.Nodup →
    (Json.getField fields (lit "version")).eq (.int 1) = true →
    Json.getField fields (lit "complete") = .bool true →
    (Json.getField fields (lit "exit_code")).eq (.int 0) = true →
    Json.getField fields (lit "records") = .arr records →
    ∀ before record after keys, records = before ++ record :: after →
      Taken expectedIds [] before keys → LooksUp record

/-- The numbers of a report that Python accepts are integers; `true` and `1.0` are equal to `1`,
`false` and `0.0` to `0`. -/
def NumbersTyped (expectedIds : List Str) (report : Json) : Prop :=
  ∀ fields, report = .obj fields → Complete Json.eq expectedIds fields →
    Json.getField fields (lit "version") = .int 1 ∧
      Json.getField fields (lit "exit_code") = .int 0

/-! ## One record -/

section

variable {expectedIds : List Str} {record : Json} {records : List Json} {key : Str × Str}
  {keys : List (Str × Str)}

theorem isIn_map_strKey {key : Key} {set : List (Str × Str)} :
    key.isIn (set.map strKey) = true ↔ ∃ k ∈ set, key = strKey k := by
  unfold Key.isIn
  rw [List.any_map, List.any_eq_true]
  refine exists_congr fun k => and_congr_right fun _ => ?_
  obtain ⟨id, phase⟩ := key
  simp only [Function.comp_apply, strKey, Bool.and_eq_true, Json.eq_str_iff, Key.mk.injEq]

theorem strKey_injective : Function.Injective strKey := by
  rintro ⟨id, phase⟩ ⟨id', phase'⟩ h
  simpa [strKey] using h

theorem strKey_isIn : (strKey key).isIn (keys.map strKey) = true ↔ key ∈ keys := by
  rw [isIn_map_strKey]
  exact ⟨fun ⟨k, hk, heq⟩ => strKey_injective heq ▸ hk, fun h => ⟨key, h, rfl⟩⟩

/-- A record that passed, is expected and has not been seen, is taken. -/
theorem collectKeys_passed (h : Passed record key) (hkey : key ∈ expectedKeys expectedIds)
    (hnew : key ∉ keys) :
    collectKeys ((expectedKeys expectedIds).map strKey) (keys.map strKey) (record :: records) =
      collectKeys ((expectedKeys expectedIds).map strKey) ((key :: keys).map strKey)
        records := by
  obtain ⟨fields, rfl, hid, hphase, houtcome⟩ := h
  have hpassed : (Json.getField fields (lit "outcome")).eq (.str (lit "passed")) = true :=
    Json.eq_str_iff.mpr houtcome
  have hin : (strKey key).isIn ((expectedKeys expectedIds).map strKey) = true :=
    strKey_isIn.mpr hkey
  have hnot : (strKey key).isIn (keys.map strKey) = false := by
    rw [← Bool.not_eq_true, strKey_isIn]
    exact hnew
  have hkey' : (⟨Json.getField fields (lit "id"), Json.getField fields (lit "phase")⟩ : Key) = strKey key := by
    rw [hid, hphase, strKey]
  rw [collectKeys, if_neg (by simp [hpassed])]
  dsimp only
  rw [hkey', if_neg (by simp [strKey, Key.hashable, Json.hashable]),
    if_neg (by simp [hin, hnot])]
  rfl

/-- A record that passed and cannot be looked up raises. -/
theorem collectKeys_unhashable {expected actual : List Key} (h : ¬ LooksUp record) :
    collectKeys expected actual (record :: records) = .error .type := by
  unfold LooksUp at h
  push Not at h
  obtain ⟨fields, rfl, houtcome, hkey⟩ := h
  rw [collectKeys, if_neg (by simp [Json.eq_str_iff.mpr houtcome])]
  refine if_pos ?_
  rw [← Bool.not_eq_true, Key.hashable, Bool.and_eq_true]
  exact fun hboth => hkey hboth.1 hboth.2

/-- Any other record ends the loop. -/
theorem collectKeys_other (hlook : LooksUp record)
    (h : ∀ key ∈ expectedKeys expectedIds, key ∉ keys → ¬ Passed record key) :
    collectKeys ((expectedKeys expectedIds).map strKey) (keys.map strKey) (record :: records) =
      .ok none := by
  match record with
  | .obj fields =>
      rw [collectKeys]
      by_cases houtcome : Json.getField fields (lit "outcome") = .str (lit "passed")
      · obtain ⟨hid, hphase⟩ := hlook fields rfl houtcome
        rw [if_neg (by simp [Json.eq_str_iff.mpr houtcome]),
          if_neg (by simp [Key.hashable, hid, hphase])]
        refine if_pos ?_
        by_contra hboth
        obtain ⟨hin, hnot⟩ := not_or.mp hboth
        obtain ⟨key, hkey, heq⟩ := isIn_map_strKey.mp (Bool.not_eq_false _ ▸ hin)
        rw [heq, strKey_isIn] at hnot
        obtain ⟨hid', hphase'⟩ := Key.mk.inj heq
        exact h key hkey hnot ⟨fields, rfl, hid', hphase', houtcome⟩
      · refine if_pos ?_
        rw [← Bool.not_eq_true, Json.eq_str_iff]
        exact houtcome
  | .null | .bool _ | .int _ | .float _ | .str _ | .arr _ => rfl

theorem Passed.unique {other : Str × Str} (h : Passed record key) (h' : Passed record other) :
    key = other := by
  obtain ⟨fields, rfl, hid, hphase, -⟩ := h
  obtain ⟨fields', heq, hid', hphase', -⟩ := h'
  obtain rfl := Json.obj.inj heq
  rw [hid, Json.str.injEq] at hid'
  rw [hphase, Json.str.injEq] at hphase'
  exact Prod.ext hid' hphase'

theorem Passed.looksUp (h : Passed record key) : LooksUp record := by
  obtain ⟨fields, rfl, hid, hphase, -⟩ := h
  intro fields' heq _
  obtain rfl := Json.obj.inj heq
  rw [hid, hphase]
  exact ⟨rfl, rfl⟩

/-! ## The loop -/

theorem taken_cons {seen : List (Str × Str)} :
    Taken expectedIds seen (record :: records) keys ↔
      ∃ key rest, keys = key :: rest ∧ Passed record key ∧ key ∈ expectedKeys expectedIds ∧
        Taken expectedIds (key :: seen) records rest := by
  constructor
  · rintro ⟨hpassed, hexpected, hnodup⟩
    obtain ⟨key, rest, hkey, hrest, rfl⟩ := List.forall₂_cons_left_iff.mp hpassed
    refine ⟨key, rest, rfl, hkey, hexpected key (by simp), hrest,
      fun k hk => hexpected k (by simp [hk]), ?_⟩
    exact List.nodup_middle.mpr hnodup
  · rintro ⟨key, rest, rfl, hkey, hmem, hpassed, hexpected, hnodup⟩
    exact ⟨List.Forall₂.cons hkey hpassed, List.forall_mem_cons.mpr ⟨hmem, hexpected⟩,
      List.nodup_middle.mp hnodup⟩

/-- The loop collects the pairs of its records when it takes all of them. -/
theorem collectKeys_eq_some_iff {seen : List (Str × Str)} (hseen : seen.Nodup)
    {actual : List Key} :
    collectKeys ((expectedKeys expectedIds).map strKey) (seen.map strKey) records =
        .ok (some actual) ↔
      ∃ keys, Taken expectedIds seen records keys ∧
        actual = (keys.reverse ++ seen).map strKey := by
  induction records generalizing seen with
  | nil =>
      have htaken : ∀ keys, Taken expectedIds seen [] keys ↔ keys = [] := by
        intro keys
        constructor
        · exact fun h => List.forall₂_nil_left_iff.mp h.passed
        · rintro rfl
          exact ⟨List.Forall₂.nil, by simp, hseen⟩
      simp only [htaken, exists_eq_left, collectKeys, Except.ok.injEq, Option.some.injEq,
        List.reverse_nil, List.nil_append]
      exact eq_comm
  | cons record records ih =>
      by_cases hlook : LooksUp record
      · by_cases hkey : ∃ key ∈ expectedKeys expectedIds, key ∉ seen ∧ Passed record key
        · obtain ⟨key, hmem, hnew, hpassed⟩ := hkey
          rw [collectKeys_passed hpassed hmem hnew, ih (List.nodup_cons.mpr ⟨hnew, hseen⟩)]
          constructor
          · rintro ⟨rest, htaken, rfl⟩
            exact ⟨key :: rest, taken_cons.mpr ⟨key, rest, rfl, hpassed, hmem, htaken⟩, by simp⟩
          · rintro ⟨keys, htaken, rfl⟩
            obtain ⟨other, rest, rfl, hother, -, hrest⟩ := taken_cons.mp htaken
            obtain rfl := hpassed.unique hother
            exact ⟨rest, hrest, by simp⟩
        · push Not at hkey
          rw [collectKeys_other hlook hkey]
          refine iff_of_false (by simp) ?_
          rintro ⟨keys, htaken, -⟩
          obtain ⟨key, rest, rfl, hpassed, hmem, hrest⟩ := taken_cons.mp htaken
          have hnew : key ∉ seen := (List.nodup_cons.mp
            (List.nodup_append'.mp hrest.nodup).2.1).1
          exact hkey key hmem hnew hpassed
      · rw [collectKeys_unhashable hlook]
        refine iff_of_false (by simp) ?_
        rintro ⟨keys, htaken, -⟩
        obtain ⟨key, rest, rfl, hpassed, -⟩ := taken_cons.mp htaken
        exact hlook hpassed.looksUp

/-- The loop raises when it reaches a record that cannot be looked up. -/
theorem collectKeys_eq_error_iff {seen : List (Str × Str)} (hseen : seen.Nodup) :
    (∃ e, collectKeys ((expectedKeys expectedIds).map strKey) (seen.map strKey) records =
        .error e) ↔
      ∃ before record after keys, records = before ++ record :: after ∧
        Taken expectedIds seen before keys ∧ ¬ LooksUp record := by
  induction records generalizing seen with
  | nil => simp [collectKeys]
  | cons record records ih =>
      by_cases hlook : LooksUp record
      · by_cases hkey : ∃ key ∈ expectedKeys expectedIds, key ∉ seen ∧ Passed record key
        · obtain ⟨key, hmem, hnew, hpassed⟩ := hkey
          rw [collectKeys_passed hpassed hmem hnew, ih (List.nodup_cons.mpr ⟨hnew, hseen⟩)]
          constructor
          · rintro ⟨before, bad, after, rest, rfl, htaken, hbad⟩
            exact ⟨record :: before, bad, after, key :: rest, rfl,
              taken_cons.mpr ⟨key, rest, rfl, hpassed, hmem, htaken⟩, hbad⟩
          · rintro ⟨before, bad, after, keys, hsplit, htaken, hbad⟩
            rcases before with _ | ⟨first, before⟩
            · obtain ⟨rfl, -⟩ := List.cons.inj hsplit
              exact absurd hlook hbad
            · obtain ⟨rfl, rfl⟩ := List.cons.inj hsplit
              obtain ⟨other, rest, rfl, hother, -, hrest⟩ := taken_cons.mp htaken
              obtain rfl := hpassed.unique hother
              exact ⟨before, bad, after, rest, rfl, hrest, hbad⟩
        · push Not at hkey
          rw [collectKeys_other hlook hkey]
          refine iff_of_false (by simp) ?_
          rintro ⟨before, bad, after, keys, hsplit, htaken, hbad⟩
          rcases before with _ | ⟨first, before⟩
          · obtain ⟨rfl, -⟩ := List.cons.inj hsplit
            exact hbad hlook
          · obtain ⟨rfl, rfl⟩ := List.cons.inj hsplit
            obtain ⟨key, rest, rfl, hpassed, hmem, hrest⟩ := taken_cons.mp htaken
            have hnew : key ∉ seen := (List.nodup_cons.mp
              (List.nodup_append'.mp hrest.nodup).2.1).1
            exact hkey key hmem hnew hpassed
      · rw [collectKeys_unhashable hlook]
        refine iff_of_true ⟨_, rfl⟩ ⟨[], record, records, [], rfl, ?_, hlook⟩
        exact ⟨List.Forall₂.nil, by simp, hseen⟩

theorem nodup_expectedKeys (h : expectedIds.Nodup) : (expectedKeys expectedIds).Nodup :=
  h.product (by decide)

/-- The set of the collected pairs is the expected one when they are its permutation. -/
theorem sameKeys_iff (hids : expectedIds.Nodup) (h : Taken expectedIds [] records keys) :
    sameKeys ((keys.reverse ++ []).map strKey) ((expectedKeys expectedIds).map strKey) = true ↔
      keys.Perm (expectedKeys expectedIds) := by
  have hnodup : keys.Nodup := List.append_nil keys ▸ h.nodup
  rw [List.append_nil]
  simp only [sameKeys, Bool.and_eq_true, List.all_map, List.all_eq_true, Function.comp_apply,
    strKey_isIn, List.mem_reverse]
  constructor
  · rintro ⟨-, hall⟩
    exact (hnodup.subperm fun k hk => h.expected k hk).antisymm
      ((nodup_expectedKeys hids).subperm hall)
  · exact fun hperm => ⟨h.expected, fun k hk => hperm.mem_iff.mpr hk⟩

/-- Whether the whole list of records has been taken, and leaves nothing out. -/
theorem passedOnce_iff (hids : expectedIds.Nodup) :
    PassedOnce expectedIds records ↔ ∃ keys, Taken expectedIds [] records keys ∧
      sameKeys ((keys.reverse ++ []).map strKey) ((expectedKeys expectedIds).map strKey) = true := by
  constructor
  · rintro ⟨keys, hperm, hpassed⟩
    have htaken : Taken expectedIds [] records keys := by
      refine ⟨hpassed, fun k hk => hperm.mem_iff.mp hk, ?_⟩
      rw [List.append_nil]
      exact hperm.nodup_iff.mpr (nodup_expectedKeys hids)
    exact ⟨keys, htaken, (sameKeys_iff hids htaken).mpr hperm⟩
  · rintro ⟨keys, htaken, hsame⟩
    exact ⟨keys, (sameKeys_iff hids htaken).mp hsame, htaken.passed⟩

end

/-! ## The whole report -/

section

variable {expectedIds : List Str} {report : Json} {fields : List (Str × Json)}
  {records : List Json}

/-- The checks before the records. -/
structure Headed (expectedIds : List Str) (fields : List (Str × Json)) (records : List Json) :
    Prop where
  ne_nil : expectedIds ≠ []
  nodup : expectedIds.Nodup
  version : (Json.getField fields (lit "version")).eq (.int 1) = true
  complete : Json.getField fields (lit "complete") = .bool true
  exitCode : (Json.getField fields (lit "exit_code")).eq (.int 0) = true
  records : Json.getField fields (lit "records") = .arr records

theorem completeReport_of_headed (h : Headed expectedIds fields records) :
    completeReport (.obj fields) expectedIds =
      (collectKeys ((expectedKeys expectedIds).map strKey) [] records).map fun
        | none => false
        | some actual => sameKeys actual ((expectedKeys expectedIds).map strKey) := by
  have hids : ¬ (expectedIds = [] ∨ expectedIds.length ≠ expectedIds.dedup.length) := by
    rw [h.nodup.dedup]
    simp [h.ne_nil]
  unfold completeReport
  rw [if_neg hids]
  dsimp only
  rw [h.complete, if_neg (by simp [h.version, h.exitCode]), h.records]
  dsimp only
  cases collectKeys ((expectedKeys expectedIds).map strKey) [] records with
  | error e => rfl
  | ok keys => cases keys <;> rfl

theorem completeReport_of_not_headed
    (h : ∀ fields records, report = .obj fields → ¬ Headed expectedIds fields records) :
    completeReport report expectedIds = .ok false := by
  unfold completeReport
  by_cases hids : expectedIds = [] ∨ expectedIds.length ≠ expectedIds.dedup.length
  · rw [if_pos hids]
  · rw [if_neg hids]
    obtain ⟨hne, hlen⟩ := not_or.mp hids
    have hnodup : expectedIds.Nodup := by
      rw [← List.dedup_eq_self]
      exact (List.dedup_sublist expectedIds).eq_of_length (not_not.mp hlen).symm
    match report with
    | .obj fields =>
        dsimp only
        split_ifs with hhead
        · rfl
        · cases hrecords : Json.getField fields (lit "records") with
          | arr records =>
              refine absurd ?_ (h fields records rfl)
              simp only [not_or, Bool.not_eq_false] at hhead
              refine ⟨hne, hnodup, hhead.1, ?_, hhead.2.2, hrecords⟩
              cases hcomplete : Json.getField fields (lit "complete") with
              | bool b =>
                  rw [hcomplete] at hhead
                  rw [show b = true from hhead.2.1]
              | _ => simp [hcomplete] at hhead
          | _ => rfl
    | .null | .bool _ | .int _ | .float _ | .str _ | .arr _ => rfl

/-- The code accepts the complete reports, with numbers compared as Python does. -/
theorem completeReport_eq_true_iff :
    completeReport report expectedIds = .ok true ↔ IsComplete Json.eq expectedIds report := by
  by_cases hhead : ∃ fields records, report = .obj fields ∧ Headed expectedIds fields records
  · obtain ⟨fields, records, rfl, hhead⟩ := hhead
    have hcomplete : IsComplete Json.eq expectedIds (.obj fields) ↔
        PassedOnce expectedIds records := by
      constructor
      · rintro ⟨fields', heq, hc⟩
        obtain rfl := Json.obj.inj heq
        obtain ⟨records', hrecords, hpassed⟩ := hc.records
        rw [hhead.records, Json.arr.injEq] at hrecords
        exact hrecords ▸ hpassed
      · exact fun hpassed => ⟨fields, rfl, hhead.ne_nil, hhead.nodup, hhead.version,
          hhead.complete, hhead.exitCode, records, hhead.records, hpassed⟩
    have hcollect : ∀ actual, collectKeys ((expectedKeys expectedIds).map strKey) [] records =
        .ok (some actual) ↔ ∃ keys, Taken expectedIds [] records keys ∧
          actual = (keys.reverse ++ []).map strKey :=
      fun actual => collectKeys_eq_some_iff List.nodup_nil
    rw [hcomplete, passedOnce_iff hhead.nodup, completeReport_of_headed hhead]
    constructor
    · intro hok
      cases hkeys : collectKeys ((expectedKeys expectedIds).map strKey) [] records with
      | error e => simp [hkeys, Except.map] at hok
      | ok collected =>
          cases collected with
          | none => simp [hkeys, Except.map] at hok
          | some actual =>
              obtain ⟨keys, htaken, rfl⟩ := (hcollect actual).mp hkeys
              rw [hkeys] at hok
              exact ⟨keys, htaken, Except.ok.inj hok⟩
    · rintro ⟨keys, htaken, hsame⟩
      rw [(hcollect _).mpr ⟨keys, htaken, rfl⟩, ← hsame]
      rfl
  · refine iff_of_false ?_ ?_
    · rw [completeReport_of_not_headed fun fields records hreport hc =>
        hhead ⟨fields, records, hreport, hc⟩]
      simp
    · rintro ⟨fields, rfl, hc⟩
      obtain ⟨records, hrecords, -⟩ := hc.records
      exact hhead ⟨fields, records, rfl, hc.ne_nil, hc.nodup, hc.version, hc.complete,
        hc.exitCode, hrecords⟩

theorem completeReport_raises_iff :
    (∃ e, completeReport report expectedIds = .error e) ↔ ¬ ReachesHashable expectedIds report := by
  by_cases hhead : ∃ fields records, report = .obj fields ∧ Headed expectedIds fields records
  · obtain ⟨fields, records, rfl, hhead⟩ := hhead
    have hreach : ReachesHashable expectedIds (.obj fields) ↔
        ∀ before record after keys, records = before ++ record :: after →
          Taken expectedIds [] before keys → LooksUp record := by
      constructor
      · exact fun h => h fields records rfl hhead.ne_nil hhead.nodup hhead.version
          hhead.complete hhead.exitCode hhead.records
      · intro h fields' records' heq _ _ _ _ _ hrecords
        obtain rfl := Json.obj.inj heq
        rw [hhead.records, Json.arr.injEq] at hrecords
        exact hrecords ▸ h
    have hraises : (∃ e, completeReport (.obj fields) expectedIds = .error e) ↔
        ∃ e, collectKeys ((expectedKeys expectedIds).map strKey) ([].map strKey) records =
          .error e := by
      rw [completeReport_of_headed hhead, List.map_nil]
      cases collectKeys ((expectedKeys expectedIds).map strKey) [] records <;>
        simp [Except.map]
    rw [hraises, collectKeys_eq_error_iff List.nodup_nil, hreach]
    push Not
    rfl
  · have hfalse := completeReport_of_not_headed fun fields records hreport hc =>
      hhead ⟨fields, records, hreport, hc⟩
    rw [hfalse]
    refine iff_of_false (by simp) ?_
    intro hreach
    refine hreach ?_
    intro fields records hreport hne hnodup hversion hcomplete hexit hrecords
    exact absurd ⟨fields, records, hreport, hne, hnodup, hversion, hcomplete, hexit, hrecords⟩
      hhead

theorem eq_int_of_same {v : Json} {n : ℤ} (h : v.same (.int n) = true) : v = .int n := by
  cases v <;> simp_all [Json.same]

/-- With numbers compared by type, a report is complete when Python finds it so and its numbers
are integers. -/
theorem isComplete_same_iff (hnumbers : NumbersTyped expectedIds report) :
    IsComplete Json.same expectedIds report ↔ IsComplete Json.eq expectedIds report := by
  constructor
  · rintro ⟨fields, rfl, hc⟩
    refine ⟨fields, rfl, hc.ne_nil, hc.nodup, ?_, hc.complete, ?_, hc.records⟩
    · rw [eq_int_of_same hc.version]
      decide +kernel
    · rw [eq_int_of_same hc.exitCode]
      decide +kernel
  · rintro ⟨fields, rfl, hc⟩
    obtain ⟨hversion, hexit⟩ := hnumbers fields rfl hc
    refine ⟨fields, rfl, hc.ne_nil, hc.nodup, ?_, hc.complete, ?_, hc.records⟩
    · rw [hversion]
      decide +kernel
    · rw [hexit]
      decide +kernel

theorem forall₂_append_left {α β : Type} {R : α → β → Prop} {l₁ l₂ : List α} {m : List β} :
    List.Forall₂ R (l₁ ++ l₂) m ↔
      ∃ m₁ m₂, m = m₁ ++ m₂ ∧ List.Forall₂ R l₁ m₁ ∧ List.Forall₂ R l₂ m₂ := by
  constructor
  · intro h
    induction l₁ generalizing m with
    | nil => exact ⟨[], m, rfl, List.Forall₂.nil, h⟩
    | cons a l₁ ih =>
        obtain ⟨b, rest, hb, hrest, rfl⟩ := List.forall₂_cons_left_iff.mp h
        obtain ⟨m₁, m₂, rfl, h₁, h₂⟩ := ih hrest
        exact ⟨b :: m₁, m₂, rfl, List.Forall₂.cons hb h₁, h₂⟩
  · rintro ⟨m₁, m₂, rfl, h₁, h₂⟩
    exact List.rel_append h₁ h₂

/-- The pairs of the records of two complete reports that differ in one place only. -/
theorem passed_of_replaced {same : Json → Json → Bool} {fields fields' : List (Str × Json)}
    {before replaced after : List Json} {record : Json}
    (h : Complete same expectedIds fields) (h' : Complete same expectedIds fields')
    (hrecords : Json.getField fields (lit "records") = .arr (before ++ record :: after))
    (hrecords' : Json.getField fields' (lit "records") = .arr (before ++ (replaced ++ after))) :
    ∃ record' key, replaced = [record'] ∧ Passed record key ∧ Passed record' key := by
  obtain ⟨all, hall, keys, hperm, hpassed⟩ := h.records
  obtain ⟨all', hall', keys', hperm', hpassed'⟩ := h'.records
  obtain rfl := Json.arr.inj (hrecords.symm.trans hall)
  obtain rfl := Json.arr.inj (hrecords'.symm.trans hall')
  have hkeys := hperm.trans hperm'.symm
  have hlen := hpassed.length_eq
  have hlen' := hpassed'.length_eq
  have hsize := hkeys.length_eq
  simp only [List.length_append, List.length_cons] at hlen hlen'
  obtain ⟨record', rfl⟩ := List.length_eq_one_iff.mp (show replaced.length = 1 by omega)
  obtain ⟨front, rest, rfl, hfront, hrest⟩ := forall₂_append_left.mp hpassed
  obtain ⟨front', rest', rfl, hfront', hrest'⟩ := forall₂_append_left.mp hpassed'
  obtain ⟨key, back, hkey, hback, rfl⟩ := List.forall₂_cons_left_iff.mp hrest
  obtain ⟨key', back', hkey', hback', rfl⟩ := List.forall₂_cons_left_iff.mp hrest'
  have hunique : Relator.RightUnique Passed := fun _ _ _ h h' => h.unique h'
  obtain rfl := List.right_unique_forall₂' hunique hfront hfront'
  obtain rfl := List.right_unique_forall₂' hunique hback hback'
  have hcons := (List.perm_append_left_iff front).mp hkeys
  have hsingle : [key].Perm [key'] := (List.perm_append_right_iff back).mp hcons
  obtain rfl := List.singleton_perm_singleton.mp hsingle
  exact ⟨record', key, rfl, hkey, hkey'⟩

/-- The function returns, and returns true for the complete reports only. -/
def Decides (same : Json → Json → Bool) (report : Json) (expectedIds : List Str) : Prop :=
  ∃ accepted, completeReport report expectedIds = .ok accepted ∧
    (accepted = true ↔ IsComplete same expectedIds report)

theorem decides_eq_iff :
    Decides Json.eq report expectedIds ↔ ReachesHashable expectedIds report := by
  constructor
  · rintro ⟨accepted, hok, -⟩
    by_contra hreach
    obtain ⟨e, he⟩ := completeReport_raises_iff.mpr hreach
    rw [he] at hok
    exact absurd hok (by simp)
  · intro hreach
    cases hresult : completeReport report expectedIds with
    | error e => exact absurd hreach (completeReport_raises_iff.mp ⟨e, hresult⟩)
    | ok accepted =>
        refine ⟨accepted, hresult, ?_⟩
        rw [← completeReport_eq_true_iff, hresult, Except.ok.injEq]

/-- Reports are judged rightly exactly when every record that is reached can be looked up, and,
where the types of the numbers count, the numbers of a report that is accepted are integers.
Two accepted reports that differ in one place of their records have one record there, for the
same test and phase. -/
theorem completeReport_decides_iff (report : Json) (expectedIds : List Str) :
    (Decides Json.eq report expectedIds ↔ ReachesHashable expectedIds report) ∧
      (Decides Json.same report expectedIds ↔
        ReachesHashable expectedIds report ∧ NumbersTyped expectedIds report) ∧
      ∀ fields fields' before replaced after record, report = .obj fields →
        Json.getField fields (lit "records") = .arr (before ++ record :: after) →
        Json.getField fields' (lit "records") = .arr (before ++ (replaced ++ after)) →
        completeReport report expectedIds = .ok true →
        completeReport (.obj fields') expectedIds = .ok true →
        ∃ record' key, replaced = [record'] ∧ Passed record key ∧ Passed record' key := by
  refine ⟨decides_eq_iff, ⟨?_, ?_⟩, ?_⟩
  · rintro ⟨accepted, hok, htrue⟩
    have hreach : ReachesHashable expectedIds report := by
      by_contra hreach
      obtain ⟨e, he⟩ := completeReport_raises_iff.mpr hreach
      rw [he] at hok
      exact absurd hok (by simp)
    refine ⟨hreach, ?_⟩
    rintro fields rfl hc
    have haccepted := completeReport_eq_true_iff.mpr ⟨fields, rfl, hc⟩
    obtain rfl := Except.ok.inj (hok.symm.trans haccepted)
    obtain ⟨fields', heq, hc'⟩ := htrue.mp rfl
    obtain rfl := Json.obj.inj heq
    exact ⟨eq_int_of_same hc'.version, eq_int_of_same hc'.exitCode⟩
  · rintro ⟨hreach, hnumbers⟩
    obtain ⟨accepted, hok, htrue⟩ := decides_eq_iff.mpr hreach
    exact ⟨accepted, hok, htrue.trans (isComplete_same_iff hnumbers).symm⟩
  · rintro fields fields' before replaced after record rfl hrecords hrecords' hok hok'
    obtain ⟨_, heq, hc⟩ := completeReport_eq_true_iff.mp hok
    obtain ⟨_, heq', hc'⟩ := completeReport_eq_true_iff.mp hok'
    obtain rfl := Json.obj.inj heq
    obtain rfl := Json.obj.inj heq'
    exact passed_of_replaced hc hc' hrecords hrecords'

/-- A record whose id is a list. -/
theorem completeReport_raises_on_list_id :
    let record := Json.obj [(lit "id", .arr []), (lit "phase", .str (lit "setup")),
      (lit "outcome", .str (lit "passed"))]
    let report := Json.obj [(lit "version", .int 1), (lit "complete", .bool true),
      (lit "exit_code", .int 0), (lit "records", .arr [record])]
    completeReport report [lit "test_a"] = .error .type ∧
      completeReport (.obj [(lit "version", .bool true), (lit "complete", .bool true),
        (lit "exit_code", .bool false), (lit "records", .arr (phases.map fun phase =>
          .obj [(lit "id", .str (lit "test_a")), (lit "phase", .str phase),
            (lit "outcome", .str (lit "passed"))]))]) [lit "test_a"] = .ok true := by
  refine ⟨?_, ?_⟩
  · decide +kernel
  · decide +kernel

end

end PromptCode.ExecutionFeedback
