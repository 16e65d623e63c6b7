import PromptCode.DurableSubmission

/-!
# When a durable submission comes back unchanged

The files of a submission and its commit marker share one key space, and a
backslash in a name is read as a slash.  A frozen source makes the round trip
exactly when its names stay clear of both.
-/

namespace PromptCode

open Py FileTree

/-- The persisted submission is fetched as it was frozen, and persisting it
again changes no object. -/
structure RoundTrip (foreign : ForeignMarker) (store : ObjectStore) (s : Str)
    (m : Manifest) (source : Tree) : Prop where
  fetched : ∃ t, fetchSubmission foreign store s (manifestDigest m) m = .ok t ∧
    (∀ path data, t.fileAt path = some data ↔ source.fileAt path = some data) ∧
    verifySnapshot (manifestDigest m) (lit "source") (some t) (manifestDigest m) =
      .ok m
  again : ∃ p store', persistSubmission foreign store s (manifestDigest m) m
    source = (.ok p, store') ∧ store'.objects = store.objects

/-- What the round trip needs of the names and of the store before it. -/
structure RoundTripReady (foreign : ForeignMarker) (store : ObjectStore)
    (s : Str) (m : Manifest) (source : Tree) : Prop where
  no_backslash : ∀ r ∈ m, backslash ∉ r.path
  /-- Where everything is taken to be stored already, the stored objects are the
  files themselves and not other bytes with the same digests. -/
  same_bytes : alreadyPersisted foreign store s (manifestDigest m) m = .ok true →
    ∀ r ∈ m, ∀ key data, submissionKey s (manifestDigest m) r.path = .ok key →
      store.get key = .ok data → source.fileAt (relParts r.path) = some data
  /-- A file in the place of the commit marker has the marker's own text. -/
  marker_free : alreadyPersisted foreign store s (manifestDigest m) m = .ok false →
    ∀ data, source.fileAt [manifestName] = some data → data = manifestJson m

section

variable {workspace source : Tree} {files : List SourceItem}
  {foreign : ForeignMarker} {store store' : ObjectStore} {s p : Str}

theorem relParts_manifestName : relParts manifestName = [manifestName] := by
  decide

/-- After a successful upload every object is the file it is named after,
unless a file has the name of the marker and another text. -/
theorem served_of_persist (h : FrozenSource workspace files source)
    (hpersist : persistSubmission foreign store s
      (manifestDigest (manifestOf files)) (manifestOf files) source =
        (.ok p, store'))
    (hready : RoundTripReady foreign store s (manifestOf files) source) :
    Served store' p source (manifestOf files) := by
  obtain ⟨hpre, -, -, hcases⟩ := persistSubmission_ok hpersist
  rw [sortedManifest_manifestOf] at hcases
  have hrows : ∀ r ∈ manifestOf files, r.path ≠ lit "." ∧ backslash ∉ r.path := by
    intro r hr
    obtain ⟨f, hf, rfl⟩ := mem_manifestOf.mp hr
    exact ⟨h.path_ne_dot hf, hready.no_backslash _ hr⟩
  rcases hcases with ⟨halready, rfl⟩ | ⟨halready, store₁, hup, hput⟩
  · intro r hr
    have hverified : verifiedObjects store' s (manifestDigest (manifestOf files))
        (manifestOf files) = .ok true := by
      unfold alreadyPersisted at halready
      cases hcommitted : committedManifest foreign store' s
          (manifestDigest (manifestOf files)) with
      | error e => simp [hcommitted] at halready
      | ok c =>
          cases c with
          | none => simp [hcommitted] at halready
          | some rows => simpa [hcommitted] using halready
    obtain ⟨key, data, hkey, hget, -, -⟩ :=
      verifiedObjects_true_iff.mp hverified r hr
    have hbytes := hready.same_bytes halready r hr key data hkey hget
    obtain ⟨rfl, hnorm⟩ := submissionKey_ok hpre (hrows r hr).1 (hrows r hr).2 hkey
    obtain ⟨hvalid, hobj⟩ := get_ok_iff.mp hget
    exact ⟨hnorm, hvalid, by rw [hobj, hbytes]⟩
  · have hpersisted := persisted_of_upload hpre hrows hup hput
    intro r hr
    refine ⟨(hpersisted.valid r hr).1, (hpersisted.valid r hr).2, ?_⟩
    by_cases hname : r.path = manifestName
    · obtain ⟨data, hdata, -, -⟩ := h.row_data hr
      rw [hname, relParts_manifestName] at hdata
      rw [hname, relParts_manifestName, hpersisted.marker, hdata,
        hready.marker_free halready data hdata]
    · exact hpersisted.stored r hr hname

/-- A persisted and served submission is recognised as persisted. -/
theorem alreadyPersisted_of_served (h : FrozenSource workspace files source)
    (hpre : submissionPrefix s (manifestDigest (manifestOf files)) = .ok p)
    (hvalid : validateKey (keyOf p manifestName) = .ok (keyOf p manifestName))
    (hmarker : store.objects (keyOf p manifestName) =
      some (manifestJson (manifestOf files)))
    (hserved : Served store p source (manifestOf files)) :
    alreadyPersisted foreign store s (manifestDigest (manifestOf files))
      (manifestOf files) = .ok true := by
  have hloads := loadsManifest_manifestJson (m := manifestOf files)
    fun r hr => h.readableRow hr
  obtain ⟨r, rows, hrows⟩ :=
    List.exists_cons_of_ne_nil (manifestOf_ne_nil h.ne_nil)
  have hread : readMarker foreign (manifestJson (manifestOf files)) =
      .ok (some (manifestOf files, manifestDigest (manifestOf files))) := by
    unfold readMarker
    rw [hloads, hrows]
    dsimp only
    rw [← hrows, sortedManifest_manifestOf]
  have hcommitted : committedManifest foreign store s
      (manifestDigest (manifestOf files)) = .ok (some (manifestOf files)) := by
    have hget : store.get (keyOf p manifestName) =
        .ok (manifestJson (manifestOf files)) :=
      get_ok_iff.mpr ⟨hvalid, hmarker⟩
    unfold committedManifest
    rw [manifestKey, hpre]
    dsimp only
    rw [show p ++ slash :: manifestName = keyOf p manifestName from rfl, hget]
    dsimp only
    rw [hread]
    dsimp only
    rw [if_pos rfl]
  unfold alreadyPersisted
  rw [hcommitted]
  dsimp only
  rw [verifiedObjects_true_iff]
  intro r hr
  obtain ⟨hnorm, hkey, hobj⟩ := hserved r hr
  obtain ⟨data, hdata, hrow, -⟩ := h.row_data hr
  refine ⟨_, data, submissionKey_eq hpre hnorm,
    get_ok_iff.mpr ⟨hkey, hobj.trans hdata⟩, ?_, ?_⟩
  · rw [hrow]
    rfl
  · rw [hrow]
    rfl

theorem roundTrip_of_ready (h : FrozenSource workspace files source)
    (hpersist : persistSubmission foreign store s
      (manifestDigest (manifestOf files)) (manifestOf files) source =
        (.ok p, store'))
    (hready : RoundTripReady foreign store s (manifestOf files) source) :
    RoundTrip foreign store' s (manifestOf files) source := by
  have hserved := served_of_persist h hpersist hready
  obtain ⟨hpre, hmne, hdigest, hcases⟩ := persistSubmission_ok hpersist
  rw [sortedManifest_manifestOf] at hcases
  constructor
  · obtain ⟨t, hfetch, hcopy⟩ := fetchSubmission_of_served foreign h hpre hserved
    refine ⟨t, hfetch, fun path data => ?_, ?_⟩
    · rw [hcopy.fileAt, h.copy.fileAt]
    · exact verifySnapshot_of_manifest (hcopy.manifest h.of_workspace.list) hmne
  · refine ⟨p, store', ?_, rfl⟩
    apply persistSubmission_of_already hmne hdigest hpre
    rw [sortedManifest_manifestOf]
    rcases hcases with ⟨halready, rfl⟩ | ⟨halready, store₁, hup, hput⟩
    · exact halready
    · have hrows : ∀ r ∈ manifestOf files,
          r.path ≠ lit "." ∧ backslash ∉ r.path := by
        intro r hr
        obtain ⟨f, hf, rfl⟩ := mem_manifestOf.mp hr
        exact ⟨h.path_ne_dot hf, hready.no_backslash _ hr⟩
      have hpersisted := persisted_of_upload hpre hrows hup hput
      exact alreadyPersisted_of_served h hpre hpersisted.marker_valid
        hpersisted.marker hserved

theorem ready_of_roundTrip (h : FrozenSource workspace files source)
    (hpersist : persistSubmission foreign store s
      (manifestDigest (manifestOf files)) (manifestOf files) source =
        (.ok p, store'))
    (htrip : RoundTrip foreign store' s (manifestOf files) source) :
    RoundTripReady foreign store s (manifestOf files) source := by
  obtain ⟨hpre, hmne, -, hcases⟩ := persistSubmission_ok hpersist
  obtain ⟨t, hfetch, hsame, -⟩ := htrip.fetched
  obtain ⟨contents, hcontents, hwritten⟩ := fetchSubmission_ok hmne hfetch
  rw [sortedManifest_manifestOf] at hcases hcontents
  have hback : ∀ r ∈ manifestOf files, backslash ∉ r.path := by
    intro r hr
    obtain ⟨f, hf, rfl⟩ := mem_manifestOf.mp hr
    have hfile : t.fileAt f.1 = some f.2 := (hsame _ _).mpr (h.fileAt hf)
    have hparts := backslash_notMem_of_fetched hwritten hfile
    intro hmem
    obtain ⟨n, hn, hbn⟩ := (mem_join_iff (by decide)).mp hmem
    exact hparts n hn hbn
  have hrows : ∀ r ∈ manifestOf files, r.path ≠ lit "." ∧ backslash ∉ r.path := by
    intro r hr
    obtain ⟨f, hf, rfl⟩ := mem_manifestOf.mp hr
    exact ⟨h.path_ne_dot hf, hback _ hr⟩
  have hnodup : ((manifestOf files).map fun r => relParts r.path).Nodup := by
    have hperm := h.filesInOrder_perm.map Prod.fst
    rw [filesInOrder, List.map_map] at hperm
    exact hperm.nodup_iff.mpr h.of_workspace.list.nodup
  have hobject : ∀ r ∈ manifestOf files,
      source.fileAt (relParts r.path) = store'.objects (keyOf p r.path) := by
    intro r hr
    rw [← fileAt_of_fetched hpre hnodup hrows hcontents hwritten hr]
    obtain ⟨data, hdata, -, -⟩ := h.row_data hr
    rw [hdata, (hsame _ _).mpr hdata]
  refine ⟨hback, ?_, ?_⟩
  · intro halready r hr key data hkey hget
    rcases hcases with ⟨-, rfl⟩ | ⟨hfalse, -⟩
    · obtain ⟨rfl, -⟩ := submissionKey_ok hpre (hrows r hr).1 (hrows r hr).2 hkey
      rw [hobject r hr, (get_ok_iff.mp hget).2]
    · rw [halready] at hfalse
      simp at hfalse
  · intro halready data hdata
    rcases hcases with ⟨htrue, -⟩ | ⟨-, store₁, hup, hput⟩
    · rw [halready] at htrue
      simp at htrue
    · have hpersisted := persisted_of_upload hpre hrows hup hput
      have hmem : ([manifestName], data) ∈ files :=
        (h.copy.fileAt _ _).mp hdata
      have hr : itemRow ([manifestName], data) ∈ manifestOf files :=
        mem_manifestOf.mpr ⟨_, hmem, rfl⟩
      have hpath : (itemRow ([manifestName], data)).path = manifestName :=
        join_singleton slash _
      have hstored := hobject _ hr
      rw [hpath, relParts_manifestName, hdata, hpersisted.marker] at hstored
      exact Option.some.inj hstored

end

/-- A frozen submission that was persisted makes the round trip exactly when no
name holds a backslash, no file but the marker's own text stands in the place of
the marker, and nothing stored before passes for a file it is not. -/
theorem durable_round_trip_iff {workspace source : Tree} {m : Manifest}
    {foreign : ForeignMarker} {store store' : ObjectStore} {s p : Str}
    (hworkspace : ValidTree workspace)
    (hfreeze : manifestInto workspace = .ok (m, source)) (hne : m ≠ [])
    (hpersist : persistSubmission foreign store s (manifestDigest m) m source =
      (.ok p, store')) :
    RoundTrip foreign store' s m source ↔
      RoundTripReady foreign store s m source := by
  obtain ⟨files, hfrozen, rfl⟩ := frozenSource_of_manifestInto hworkspace hfreeze hne
  exact ⟨ready_of_roundTrip hfrozen hpersist, roundTrip_of_ready hfrozen hpersist⟩

/-! ## A submission that does not come back -/

def emptyStore : ObjectStore where
  objects := fun _ => none
  maxObjectBytes := 0

/-- Nothing is taken to be stored already in the empty store. -/
theorem alreadyPersisted_emptyStore {foreign : ForeignMarker} {s : Str}
    {m rows : Manifest} (hs : IsSessionId s) :
    alreadyPersisted foreign emptyStore s (manifestDigest m) rows = .ok false := by
  have hd := isDigest_manifestDigest m
  have hget : emptyStore.get (keyOf (prefixOf s (manifestDigest m)) manifestName) =
      .error .objectNotFound :=
    get_eq_notFound_iff.mpr ⟨(validKey_of_storable hs hd (by decide) (by decide)
      storable_manifestName).2, rfl⟩
  simp only [alreadyPersisted, committedManifest, manifestKey,
    submissionPrefix_eq hs hd]
  rw [show prefixOf s (manifestDigest m) ++ slash :: manifestName =
    keyOf (prefixOf s (manifestDigest m)) manifestName from rfl, hget]

def someSession : Str := lit "01234567-89ab-cdef-0123-456789abcdef"

/-- A source with names of its own that goes into the empty store. -/
theorem exists_persisted {workspace : Tree} {files : List SourceItem}
    (hworkspace : ValidTree workspace)
    (hfiles : sourceContents workspace = .ok files) (hne : files ≠ [])
    (hnames : ∀ f ∈ files, Storable (join slash f.1) ∧
      backslash ∉ join slash f.1) (foreign : ForeignMarker) :
    ∃ source store' p, FrozenSource workspace files source ∧
      manifestInto workspace = .ok (manifestOf files, source) ∧
      persistSubmission foreign emptyStore someSession
        (manifestDigest (manifestOf files)) (manifestOf files) source =
          (.ok p, store') := by
  obtain ⟨source, hinto, hcopy⟩ := manifestInto_of_ok hworkspace hfiles
  have hfrozen : FrozenSource workspace files source :=
    ⟨hfiles, sourceOf_of_ok hworkspace hfiles, hcopy, hne⟩
  obtain ⟨store', hpersist⟩ := persistSubmission_succeeds foreign emptyStore
    someSession hfrozen (by decide)
    { storable := fun f hf => (hnames f hf).1
      no_backslash := fun f hf => (hnames f hf).2
      fits := fun f hf => Or.inl rfl
      fits_manifest := Or.inl rfl
      readable := fun raw hraw => by simp [emptyStore] at hraw }
  exact ⟨source, store', _, hfrozen, hinto, hpersist⟩

theorem durable_round_trip_iff_single_file :
    ∃ m source store' p,
      manifestInto (singleFileDisk "a.py" "a").workspace = .ok (m, source) ∧
      persistSubmission (fun _ => .ok none) emptyStore someSession
        (manifestDigest m) m source = (.ok p, store') ∧
      (RoundTrip (fun _ => .ok none) store' someSession m source ↔
        RoundTripReady (fun _ => .ok none) emptyStore someSession m source) := by
  have hvalid : ValidTree (singleFileDisk "a.py" "a").workspace := by decide
  have hfiles : sourceContents (singleFileDisk "a.py" "a").workspace =
      .ok [([lit "a.py"], [97])] := by decide
  obtain ⟨source, store', p, -, hinto, hpersist⟩ := exists_persisted hvalid hfiles
    (by decide) (by decide) fun _ => .ok none
  exact ⟨_, source, store', p, hinto, hpersist, durable_round_trip_iff hvalid hinto
    (manifestOf_ne_nil (by decide)) hpersist⟩

/-- A workspace in which the candidate has saved a file `manifest.json`. -/
def savedManifestJson : Except PyErr Unit × SessionDisk :=
  writeFile roomyCapacity (singleFileDisk "a.py" "a") manifestName (lit "x")

/-- The saved `manifest.json` is replaced by the commit marker in the store, and
the submission does not come back. -/
theorem saved_manifest_json_lost :
    savedManifestJson.1 = .ok () ∧
      ∃ m source store' p,
        manifestInto savedManifestJson.2.workspace = .ok (m, source) ∧ m ≠ [] ∧
        persistSubmission (fun _ => .ok none) emptyStore someSession
          (manifestDigest m) m source = (.ok p, store') ∧
        ¬ RoundTrip (fun _ => .ok none) store' someSession m source := by
  have hvalid : ValidTree savedManifestJson.2.workspace := by decide
  have hfiles : sourceContents savedManifestJson.2.workspace =
      .ok [([lit "a.py"], [97]), ([manifestName], [120])] := by decide
  obtain ⟨source, store', p, hfrozen, hinto, hpersist⟩ :=
    exists_persisted hvalid hfiles (by decide) (by decide) fun _ => .ok none
  refine ⟨by decide, _, source, store', p, hinto, manifestOf_ne_nil (by decide),
    hpersist, fun htrip => ?_⟩
  have hready := ready_of_roundTrip hfrozen hpersist htrip
  have hfile : source.fileAt [manifestName] = some [120] :=
    (hfrozen.copy.fileAt _ _).mpr (by simp)
  have hhead := congrArg List.head?
    (hready.marker_free (alreadyPersisted_emptyStore (by decide)) _ hfile)
  simp [manifestJson, dumpsManifest, asciiBytes] at hhead

end PromptCode
