import PromptCode.SubmissionRuns

/-!
# The commit marker

The manifest is put last and every put is checked against the row it is for, so the
objects of a submission never change once they are there: the store of a submission only
grows, and a marker stands for all its files.
-/

namespace PromptCode

open Py FileTree Transition

/-- A store without anything below the prefix of a submission. -/
structure FreshStore (id : SubmissionId) where
  store : ObjectStore
  fresh : ∀ rel, store.objects (keyOf id.pre rel) = none

def CommitState.start {id : SubmissionId} (store : FreshStore id) : CommitState :=
  ⟨store.store, fun _ => none, fun _ => none⟩

/-- What a download returns: every row of a manifest with the digest, each with the bytes
that the row describes, in a tree that verifies against the digest. -/
def Fetched (id : SubmissionId) (m : Manifest) (source : Tree) : Prop :=
  ∃ (rows : Manifest) (contents : List (Str × Bytes)), (m ≠ [] → rows = sortedManifest m) ∧
    manifestDigest rows = id.digest ∧
    List.Forall₂ (fun r c => normalizeRelPath r.path = .ok c.1 ∧ r.Verifies c.2) rows
      contents ∧
    writeContents .nil contents = .ok source ∧
    ∃ m', verifySnapshot id.digest (lit "source") (some source) id.digest = .ok m'

/-- Every row of the manifest has its object, with the bytes that the row describes. -/
def Complete (id : SubmissionId) (store : ObjectStore) (rows : Manifest) : Prop :=
  ∀ r ∈ rows, ∃ key data, submissionKey id.session id.digest r.path = .ok key ∧
    store.get key = .ok data ∧ r.Verifies data

/-- What the readers of two states of one run can rely on. -/
structure CommitSafe (foreign : ForeignMarker) (id : SubmissionId) (st st' : CommitState) :
    Prop where
  /-- A manifest that is read as committed is complete. -/
  committed : ∀ rows, committedManifest foreign st.store id.session id.digest =
    .ok (some rows) → manifestDigest rows = id.digest ∧ Complete id st.store rows
  /-- Two downloads return the same files. -/
  same : ∀ u v m m' source source', st.readers u = some ⟨m, .ended (.ok source)⟩ →
    st'.readers v = some ⟨m', .ended (.ok source')⟩ → source' = source
  /-- A download that begins after one has succeeded returns them too, with the same
  manifest or with any of the digest. -/
  keeps : ∀ u v m m' source result, st.readers u = some ⟨m, .ended (.ok source)⟩ →
    st.readers v = none → st'.readers v = some ⟨m', .ended result⟩ →
    (m' = m ∨ m' ≠ [] ∧ manifestDigest (sortedManifest m') = id.digest) →
    result = .ok source

def CommitAction.manifest? : CommitAction → Option Manifest
  | .persist _ m _ | .fetch _ m => some m
  | .advance _ | .stop _ | .read _ => none

/-- A file of a source that is uploaded. -/
def IsUploaded (actions : List CommitAction) (data : Bytes) : Prop :=
  ∃ t m source path, CommitAction.persist t m source ∈ actions ∧
    source.fileAt path = some data

/-- The run holds two manifests of the digest, or two files with one hash. -/
inductive Collides (id : SubmissionId) (actions : List CommitAction) : Prop where
  | manifests (a b : CommitAction) (m m' : Manifest) (ha : a ∈ actions) (hb : b ∈ actions)
      (hm : a.manifest? = some m) (hm' : b.manifest? = some m') (hne : m ≠ [])
      (hne' : m' ≠ []) (hdigest : manifestDigest (sortedManifest m) = id.digest)
      (hdigest' : manifestDigest (sortedManifest m') = id.digest)
      (hrows : sortedManifest m ≠ sortedManifest m')
  | files (data data' : Bytes) (hdata : IsUploaded actions data)
      (hdata' : IsUploaded actions data') (hsha : sha256Hex data = sha256Hex data')
      (hne : data ≠ data')

/-! ## Rows and objects -/

/-- The object of a row, under its normalized path. -/
structure RowStored (id : SubmissionId) (store : ObjectStore) (r : ManifestRow)
    (c : Str × Bytes) : Prop where
  path : normalizeRelPath r.path = .ok c.1
  valid : validateKey (keyOf id.pre c.1) = .ok (keyOf id.pre c.1)
  object : store.objects (keyOf id.pre c.1) = some c.2
  verifies : r.Verifies c.2

/-- The second store holds what the first one holds. -/
def Grows (store store' : ObjectStore) : Prop :=
  ∀ k data, store.objects k = some data → store'.objects k = some data

section

variable {id : SubmissionId} {store store' : ObjectStore} {r : ManifestRow}
  {c c' : Str × Bytes} {source : Tree}

theorem grows_self (store : ObjectStore) : Grows store store := fun _ _ h => h

theorem Grows.trans {store'' : ObjectStore} (h : Grows store store')
    (h' : Grows store' store'') : Grows store store'' :=
  fun k data hk => h' k data (h k data hk)

theorem Grows.get (h : Grows store store') {key : Str} {data : Bytes}
    (hget : store.get key = .ok data) : store'.get key = .ok data := by
  rw [get_ok_iff] at hget ⊢
  exact ⟨hget.1, h _ _ hget.2⟩

theorem RowStored.mono (h : RowStored id store r c) (hgrows : Grows store store') :
    RowStored id store' r c :=
  ⟨h.path, h.valid, hgrows _ _ h.object, h.verifies⟩

theorem RowStored.unique (h : RowStored id store r c) (h' : RowStored id store r c') :
    c = c' := by
  have hpath := Except.ok.inj (h.path.symm.trans h'.path)
  have hobject := h'.object
  rw [← hpath, h.object] at hobject
  exact Prod.ext hpath (Option.some.inj hobject)

theorem forall₂_rowStored_mono {rows : Manifest} {contents : List (Str × Bytes)}
    (h : List.Forall₂ (RowStored id store) rows contents) (hgrows : Grows store store') :
    List.Forall₂ (RowStored id store') rows contents :=
  h.imp fun _ _ hrow => hrow.mono hgrows

theorem forall₂_rowStored_unique {rows : Manifest} {contents contents' : List (Str × Bytes)}
    (h : List.Forall₂ (RowStored id store) rows contents)
    (h' : List.Forall₂ (RowStored id store) rows contents') : contents = contents' := by
  induction h generalizing contents' with
  | nil => exact (List.forall₂_nil_left_iff.mp h').symm
  | cons hrow _ ih =>
      obtain ⟨c', rest', hrow', hrest', rfl⟩ := List.forall₂_cons_left_iff.mp h'
      rw [hrow.unique hrow', ih hrest']

/-- A normalized path is its own. -/
theorem normalizeRelPath_normalized {rel raw : Str} (h : normalizeRelPath raw = .ok rel) :
    normalizeRelPath rel = .ok rel := by
  obtain rfl := normalizeRelPath_eq h
  have hslash : replaceBackslash (replaceBackslash raw) = replaceBackslash raw :=
    replaceBackslash_of_notMem (backslash_notMem_replaceBackslash raw)
  rw [normalizeRelPath] at h ⊢
  rw [hslash]
  exact h

theorem submissionKey_of_path (id : SubmissionId) {rel raw : Str}
    (h : normalizeRelPath raw = .ok rel) :
    submissionKey id.session id.digest raw = .ok (keyOf id.pre rel) := by
  rw [submissionKey, id.pre_eq]
  dsimp only
  rw [h]
  rfl

theorem fetchRow_iff : fetchRow store id.session id.digest r = .ok c ↔
    RowStored id store r c := by
  rw [fetchRow]
  constructor
  · intro h
    rcases hpath : normalizeRelPath r.path with e | rel
    · rw [hpath] at h
      cases h
    rw [hpath] at h
    dsimp only at h
    rw [submissionKey_of_path id (normalizeRelPath_normalized hpath)] at h
    dsimp only at h
    rcases hget : store.get (keyOf id.pre rel) with e | data
    · rw [hget] at h
      rcases e <;> cases h
    rw [hget] at h
    dsimp only at h
    split_ifs at h with hbad
    obtain rfl := Except.ok.inj h
    obtain ⟨hvalid, hobject⟩ := get_ok_iff.mp hget
    push Not at hbad
    exact ⟨hpath, hvalid, hobject, hbad⟩
  · intro h
    rw [h.path]
    dsimp only
    rw [submissionKey_of_path id (normalizeRelPath_normalized h.path)]
    dsimp only
    rw [get_ok_iff.mpr ⟨h.valid, h.object⟩]
    dsimp only
    rw [if_neg (by simp [h.verifies.1, h.verifies.2])]

/-- What the upload of a row has checked before its put. -/
structure RowRead (id : SubmissionId) (source : Tree) (r : ManifestRow) (c : Str × Bytes) :
    Prop where
  path : normalizeRelPath r.path = .ok c.1
  valid : validateKey (keyOf id.pre c.1) = .ok (keyOf id.pre c.1)
  read : readBytes source c.1 = .ok c.2
  verifies : r.Verifies c.2

theorem rowPut_ok {o : Option (Str × Bytes)}
    (h : rowPut store id.session id.digest source r = .ok o) :
    ∃ c, RowRead id source r c ∧
      ((o = none ∧ store.objects (keyOf id.pre c.1) = some c.2) ∨
        o = some (keyOf id.pre c.1, c.2)) := by
  rw [rowPut] at h
  rcases hpath : normalizeRelPath r.path with e | rel
  · rw [hpath] at h
    cases h
  rw [hpath] at h
  dsimp only at h
  rcases hread : readBytes source rel with e | data
  · rw [hread] at h
    cases h
  rw [hread] at h
  dsimp only at h
  split_ifs at h with hbad
  push Not at hbad
  rw [submissionKey_of_path id (normalizeRelPath_normalized hpath)] at h
  dsimp only at h
  refine ⟨(rel, data), ?_⟩
  rcases hget : store.get (keyOf id.pre rel) with e | stored
  · rw [hget] at h
    rcases e
    case objectNotFound =>
      obtain rfl := Except.ok.inj h
      exact ⟨⟨hpath, (get_eq_notFound_iff.mp hget).1, hread, hbad⟩, .inr rfl⟩
    all_goals cases h
  · rw [hget] at h
    dsimp only at h
    obtain ⟨hvalid, hobject⟩ := get_ok_iff.mp hget
    split_ifs at h with hsame
    · obtain rfl := Except.ok.inj h
      exact ⟨⟨hpath, hvalid, hread, hbad⟩, .inl ⟨rfl, hsame ▸ hobject⟩⟩
    · obtain rfl := Except.ok.inj h
      exact ⟨⟨hpath, hvalid, hread, hbad⟩, .inr rfl⟩

theorem isUnencodable_of_utf8Encode {s : Str} {b : Bytes} (h : utf8Encode s = some b)
    {c : CodePoint} (hc : c ∈ s) : isUnencodable c = false := by
  induction s generalizing b with
  | nil => exact nomatch hc
  | cons a s ih =>
      simp only [utf8Encode, Option.bind_eq_bind, Option.bind_eq_some_iff,
        Option.pure_def, Option.some.injEq] at h
      obtain ⟨b₁, hchar, b₂, hrest, rfl⟩ := h
      rcases List.mem_cons.mp hc with rfl | hc
      · have hplain : isSurrogate c = false := by
          rw [encodeChar] at hchar
          rw [isSurrogate]
          split_ifs at hchar with h₁ h₂ h₃
          · simp
            omega
          · simp
            omega
          · simpa [isSurrogate] using h₃
          · simpa [isSurrogate] using h₃
        rw [isUnencodable, hplain]
        rfl
      · exact ih hrest hc

/-- The rows of stored objects can be written to a marker and read back. -/
theorem RowStored.readable (h : RowStored id store r c) : ReadableRow r := by
  refine ⟨fun d hd => ?_, fun d hd => ?_⟩
  · obtain ⟨-, -, -, ⟨encoded, hencode, -⟩, -⟩ := validateKey_ok_iff.mp h.valid
    by_cases hback : d = backslash
    · rw [hback]
      decide
    · apply isUnencodable_of_utf8Encode hencode
      rw [keyOf, normalizeRelPath_eq h.path]
      refine List.mem_append_right _ (List.mem_cons_of_mem _ ?_)
      exact List.mem_map.mpr ⟨d, hd, if_neg hback⟩
  · rw [← h.verifies.2] at hd
    exact isUnencodable_of_isHexDigit (isHexDigit_of_mem_sha256Hex hd)

end

/-! ## The invariant -/

/-- The rows of the one manifest that the uploads agree on. -/
structure IsSubmission (id : SubmissionId) (rows : Manifest) : Prop where
  ne_nil : rows ≠ []
  sorted : sortedManifest rows = rows
  digest : manifestDigest rows = id.digest
  names : NamesFiles rows

/-- The objects are files of the sources, each described by the first row of its path, and
a marker stands for all rows. -/
structure StoreOk (id : SubmissionId) (rows : Manifest) (A : Bytes → Prop)
    (store : ObjectStore) : Prop where
  objects : ∀ rel data, rel ≠ manifestName →
    store.objects (keyOf id.pre rel) = some data →
    A data ∧ ∀ q, (rows.find? fun q => replaceBackslash q.path = rel) = some q →
      q.Verifies data
  marker : ∀ raw, store.objects (keyOf id.pre manifestName) = some raw →
    raw = manifestJson rows ∧ IsSubmission id rows ∧
      ∀ q ∈ rows, ∃ c, RowStored id store q c

/-- The rows that an upload has done with. -/
def UploadedRows (id : SubmissionId) (store : ObjectStore) (source : Tree)
    (done : Manifest) : Prop :=
  ∀ q ∈ done, ∃ c, RowRead id source q c ∧ store.objects (keyOf id.pre c.1) = some c.2

structure PersistRun.Ok (id : SubmissionId) (rows : Manifest) (A : Bytes → Prop)
    (store : ObjectStore) (r : PersistRun) : Prop where
  rows_eq : r.rows = rows
  submission : IsSubmission id rows
  files : ∀ path data, r.source.fileAt path = some data → A data
  phase : match r.phase with
    | .uploading rest => ∃ done, rows = done ++ rest ∧ UploadedRows id store r.source done
    | .putting key data rest => ∃ done q c, rows = done ++ q :: rest ∧
        UploadedRows id store r.source done ∧ RowRead id r.source q c ∧
        key = keyOf id.pre c.1 ∧ data = c.2
    | _ => True

/-- A download without a manifest has read the marker; one with a manifest has these
rows. -/
structure FetchRun.Reads (id : SubmissionId) (rows : Manifest) (store : ObjectStore)
    (m : Manifest) : Prop where
  digest : manifestDigest rows = id.digest
  marker : m = [] →
    store.get (keyOf id.pre manifestName) = .ok (manifestJson rows)
  trusted : m ≠ [] → sortedManifest m = rows

def FetchRun.Ok (id : SubmissionId) (rows : Manifest) (store : ObjectStore) (r : FetchRun) :
    Prop :=
  match r.phase with
  | .reading rest contents => ∃ done, rows = done ++ rest ∧
      List.Forall₂ (RowStored id store) done contents ∧
      FetchRun.Reads id rows store r.manifest
  | .ended (.ok source) => ∃ contents,
      List.Forall₂ (RowStored id store) rows contents ∧
      materialize id contents = .ok source ∧ FetchRun.Reads id rows store r.manifest
  | _ => True

structure CommitOk (id : SubmissionId) (rows : Manifest) (A : Bytes → Prop)
    (st : CommitState) : Prop where
  store : StoreOk id rows A st.store
  uploads : ∀ t r, st.uploads t = some r → r.Ok id rows A st.store
  readers : ∀ u r, st.readers u = some r → r.Ok id rows st.store
  manifests : ∀ u r, st.readers u = some r → r.manifest ≠ [] →
    manifestDigest (sortedManifest r.manifest) = id.digest → sortedManifest r.manifest = rows

/-- What an action brings belongs to the one submission. -/
def Belongs (id : SubmissionId) (rows : Manifest) (A : Bytes → Prop) (a : CommitAction) :
    Prop :=
  (∀ m, a.manifest? = some m → m ≠ [] → manifestDigest (sortedManifest m) = id.digest →
    sortedManifest m = rows) ∧
  ∀ t m source, a = .persist t m source → ∀ path data, source.fileAt path = some data →
    A data

section

variable {foreign : ForeignMarker} {id : SubmissionId} {rows : Manifest}
  {A : Bytes → Prop} {store store' : ObjectStore} {source : Tree} {st : CommitState}

theorem UploadedRows.mono {done : Manifest} (h : UploadedRows id store source done)
    (hgrows : Grows store store') : UploadedRows id store' source done := by
  intro q hq
  obtain ⟨c, hread, hobject⟩ := h q hq
  exact ⟨c, hread, hgrows _ _ hobject⟩

theorem UploadedRows.append_one {done : Manifest} (h : UploadedRows id store source done)
    {q : ManifestRow} {c : Str × Bytes} (hread : RowRead id source q c)
    (hobject : store.objects (keyOf id.pre c.1) = some c.2) :
    UploadedRows id store source (done ++ [q]) := by
  intro q' hq'
  rcases List.mem_append.mp hq' with hq' | hq'
  · exact h q' hq'
  · obtain rfl := List.mem_singleton.mp hq'
    exact ⟨c, hread, hobject⟩

theorem PersistRun.Ok.mono {r : PersistRun} (h : r.Ok id rows A store)
    (hgrows : Grows store store') : r.Ok id rows A store' := by
  refine ⟨h.rows_eq, h.submission, h.files, ?_⟩
  have hphase := h.phase
  rcases hr : r.phase with _ | rest | rest | ⟨key, data, rest⟩ | _
  case uploading =>
    rw [hr] at hphase
    obtain ⟨done, hrows, huploaded⟩ := hphase
    exact ⟨done, hrows, huploaded.mono hgrows⟩
  case putting =>
    rw [hr] at hphase
    obtain ⟨done, q, c, hrows, huploaded, hrest⟩ := hphase
    exact ⟨done, q, c, hrows, huploaded.mono hgrows, hrest⟩
  all_goals trivial

theorem FetchRun.Reads.mono {m : Manifest} (h : FetchRun.Reads id rows store m)
    (hgrows : Grows store store') : FetchRun.Reads id rows store' m :=
  ⟨h.digest, fun hm => hgrows.get (h.marker hm), h.trusted⟩

theorem FetchRun.Ok.mono {r : FetchRun} (h : r.Ok id rows store)
    (hgrows : Grows store store') : r.Ok id rows store' := by
  rw [FetchRun.Ok] at h ⊢
  rcases hr : r.phase with _ | ⟨rest, contents⟩ | (e | source)
  case reading =>
    rw [hr] at h
    obtain ⟨done, hrows, hstored, hreads⟩ := h
    exact ⟨done, hrows, forall₂_rowStored_mono hstored hgrows, hreads.mono hgrows⟩
  case ended.ok =>
    rw [hr] at h
    obtain ⟨contents, hstored, hsource, hreads⟩ := h
    exact ⟨contents, forall₂_rowStored_mono hstored hgrows, hsource, hreads.mono hgrows⟩
  all_goals trivial

/-- A put of a row finds nothing under its key, or the same bytes. -/
theorem StoreOk.put_row (h : StoreOk id rows A store)
    (hapart : ∀ a b, A a → A b → sha256Hex a = sha256Hex b → a = b)
    (hnames : NamesFiles rows) (hfiles : ∀ path data, source.fileAt path = some data → A data)
    {done rest : Manifest} {q : ManifestRow} {c : Str × Bytes}
    (hrows : rows = done ++ q :: rest) (huploaded : UploadedRows id store source done)
    (hread : RowRead id source q c)
    (hput : store.put (keyOf id.pre c.1) c.2 = .ok store') :
    Grows store store' ∧ StoreOk id rows A store' ∧
      store'.objects (keyOf id.pre c.1) = some c.2 := by
  obtain ⟨-, -, hobjects⟩ := put_ok hput
  have hpath : replaceBackslash q.path = c.1 := (normalizeRelPath_eq hread.path).symm
  have hname : c.1 ≠ manifestName := by
    rw [← hpath]
    exact hnames q (by simp [hrows])
  have hdata : A c.2 := hfiles _ _ (readBytes_ok hread.read)
  have hfirst : ∃ q₁, (rows.find? fun q => replaceBackslash q.path = c.1) = some q₁ ∧
      q₁.Verifies c.2 := by
    rw [hrows, List.find?_append]
    rcases hfind : done.find? fun q => replaceBackslash q.path = c.1 with _ | q₁
    · refine ⟨q, ?_, hread.verifies⟩
      rw [hfind, Option.none_or, List.find?_cons_of_pos (by simpa using hpath)]
    · obtain ⟨c₁, hread₁, -⟩ := huploaded q₁ (List.mem_of_find?_eq_some hfind)
      have hpath₁ : replaceBackslash q₁.path = c.1 := by
        simpa using List.find?_some hfind
      have hrel : c₁.1 = c.1 := (normalizeRelPath_eq hread₁.path).trans hpath₁
      have hbytes := hread₁.read
      rw [hrel, hread.read] at hbytes
      refine ⟨q₁, by rw [hfind]; rfl, ?_⟩
      rw [Except.ok.inj hbytes]
      exact hread₁.verifies
  obtain ⟨q₁, hfind, hverifies⟩ := hfirst
  have hgrows : Grows store store' := by
    intro k data hk
    rw [hobjects]
    by_cases hkey : k = keyOf id.pre c.1
    · subst hkey
      obtain ⟨hold, hrow⟩ := h.objects _ _ hname hk
      have hsame := hapart _ _ hold hdata
        ((hrow q₁ hfind).2.trans hverifies.2.symm)
      rw [Function.update_self, hsame]
    · rw [Function.update_of_ne hkey]
      exact hk
  refine ⟨hgrows, ⟨?_, ?_⟩, by rw [hobjects, Function.update_self]⟩
  · intro rel data hrel hobject
    rw [hobjects] at hobject
    by_cases hkey : rel = c.1
    · subst hkey
      rw [Function.update_self, Option.some.injEq] at hobject
      subst hobject
      refine ⟨hdata, fun q' hq' => ?_⟩
      rw [Option.some.inj (hq'.symm.trans hfind)]
      exact hverifies
    · rw [Function.update_of_ne fun heq => hkey (keyOf_injective _ heq)] at hobject
      exact h.objects rel data hrel hobject
  · intro raw hraw
    rw [hobjects, Function.update_of_ne fun heq => hname (keyOf_injective _ heq).symm] at hraw
    obtain ⟨htext, hsubmission, hstored⟩ := h.marker raw hraw
    refine ⟨htext, hsubmission, fun q hq => ?_⟩
    obtain ⟨c, hc⟩ := hstored q hq
    exact ⟨c, hc.mono hgrows⟩

/-- The marker is put when all rows are there. -/
theorem StoreOk.put_marker (h : StoreOk id rows A store) (hsubmission : IsSubmission id rows)
    (huploaded : UploadedRows id store source rows)
    (hput : putManifest store id.session id.digest rows = .ok store') :
    Grows store store' ∧ StoreOk id rows A store' := by
  obtain ⟨-, hobjects⟩ := putManifest_ok id.pre_eq hput
  have hgrows : Grows store store' := by
    intro k data hk
    rw [hobjects]
    by_cases hkey : k = keyOf id.pre manifestName
    · subst hkey
      rw [Function.update_self, (h.marker data hk).1]
    · rw [Function.update_of_ne hkey]
      exact hk
  refine ⟨hgrows, ⟨?_, ?_⟩⟩
  · intro rel data hrel hobject
    rw [hobjects, Function.update_of_ne fun heq => hrel (keyOf_injective _ heq)] at hobject
    exact h.objects rel data hrel hobject
  · intro raw hraw
    rw [hobjects, Function.update_self, Option.some.injEq] at hraw
    refine ⟨hraw.symm, hsubmission, fun q hq => ?_⟩
    obtain ⟨c, hread, hobject⟩ := huploaded q hq
    exact ⟨c, hread.path, hread.valid, hgrows _ _ hobject, hread.verifies⟩

theorem StoreOk.readMarker (h : StoreOk id rows A store) {raw : Bytes}
    (hobject : store.objects (keyOf id.pre manifestName) = some raw) :
    PromptCode.readMarker foreign raw = .ok (some (rows, id.digest)) := by
  obtain ⟨rfl, hsubmission, hstored⟩ := h.marker raw hobject
  have hloads : loadsManifest (manifestJson rows) = some rows :=
    loadsManifest_manifestJson fun q hq => (hstored q hq).choose_spec.readable
  obtain ⟨q, rest, hcons⟩ := List.exists_cons_of_ne_nil hsubmission.ne_nil
  rw [PromptCode.readMarker, hloads]
  conv_lhs => rw [hcons]
  dsimp only
  rw [← hcons, hsubmission.sorted, hsubmission.digest]

/-- A marker is read as the manifest that it stands for. -/
theorem StoreOk.committed (h : StoreOk id rows A store) {rows' : Manifest}
    (hread : committedManifest foreign store id.session id.digest = .ok (some rows')) :
    rows' = rows ∧ store.get (keyOf id.pre manifestName) = .ok (manifestJson rows) ∧
      IsSubmission id rows ∧ ∀ q ∈ rows, ∃ c, RowStored id store q c := by
  have hkey : id.pre ++ slash :: manifestName = keyOf id.pre manifestName := rfl
  rw [committedManifest, manifestKey, id.pre_eq] at hread
  dsimp only at hread
  rw [hkey] at hread
  rcases hget : store.get (keyOf id.pre manifestName) with e | raw
  · rw [hget] at hread
    rcases e <;> cases hread
  · obtain ⟨-, hobject⟩ := get_ok_iff.mp hget
    obtain ⟨rfl, hsubmission, hstored⟩ := h.marker raw hobject
    rw [hget] at hread
    dsimp only at hread
    rw [h.readMarker hobject] at hread
    dsimp only at hread
    rw [if_pos rfl] at hread
    exact ⟨(Option.some.inj (Except.ok.inj hread)).symm, rfl, hsubmission, hstored⟩

theorem StoreOk.committed_of_get (h : StoreOk id rows A store)
    (hget : store.get (keyOf id.pre manifestName) = .ok (manifestJson rows)) :
    committedManifest foreign store id.session id.digest = .ok (some rows) := by
  have hkey : id.pre ++ slash :: manifestName = keyOf id.pre manifestName := rfl
  rw [committedManifest, manifestKey, id.pre_eq]
  dsimp only
  rw [hkey, hget]
  dsimp only
  rw [h.readMarker (get_ok_iff.mp hget).2]
  dsimp only
  rw [if_pos rfl]

/-! ## The steps -/

theorem PersistRun.Ok.step (foreign : ForeignMarker) {r : PersistRun} (h : r.Ok id rows A store)
    (hstore : StoreOk id rows A store)
    (hapart : ∀ a b, A a → A b → sha256Hex a = sha256Hex b → a = b) :
    Grows store (persistStep foreign id store r).1 ∧
      StoreOk id rows A (persistStep foreign id store r).1 ∧
      PersistRun.Ok id rows A (persistStep foreign id store r).1
        { r with phase := (persistStep foreign id store r).2 } := by
  -- the store stays, and the phase knows nothing more
  have hstay : ∀ phase : PersistPhase,
      (match phase with
        | .uploading rest => ∃ done, rows = done ++ rest ∧
            UploadedRows id store r.source done
        | .putting key data rest => ∃ done q c, rows = done ++ q :: rest ∧
            UploadedRows id store r.source done ∧ RowRead id r.source q c ∧
            key = keyOf id.pre c.1 ∧ data = c.2
        | _ => True) →
      Grows store store ∧ StoreOk id rows A store ∧
        PersistRun.Ok id rows A store { r with phase := phase } :=
    fun phase hphase => ⟨grows_self store, hstore, h.rows_eq, h.submission, h.files, hphase⟩
  have hfirst : ∃ done, rows = done ++ r.rows ∧ UploadedRows id store r.source done :=
    ⟨[], h.rows_eq.symm, nofun⟩
  have hphase := h.phase
  rw [persistStep]
  rcases hr : r.phase with _ | rest | rest | ⟨key, data, rest⟩ | _
  case begun =>
    rcases committedManifest foreign store id.session id.digest with e | _ | m
    · exact hstay .ended trivial
    · exact hstay _ hfirst
    · exact hstay (.verifying _) trivial
  case verifying =>
    rcases rest with _ | ⟨q, rest⟩
    · exact hstay .ended trivial
    dsimp only
    rcases verifiedObjects store id.session id.digest [q] with e | _ | _
    · exact hstay .ended trivial
    · exact hstay _ hfirst
    · exact hstay (.verifying _) trivial
  case uploading =>
    rw [hr] at hphase
    obtain ⟨done, hrows, huploaded⟩ := hphase
    rcases rest with _ | ⟨q, rest⟩
    · rw [List.append_nil] at hrows
      dsimp only
      rcases hput : putManifest store id.session id.digest r.rows with e | store'
      · exact hstay .ended trivial
      · rw [h.rows_eq] at hput
        obtain ⟨hgrows, hstore'⟩ := hstore.put_marker h.submission (hrows ▸ huploaded) hput
        exact ⟨hgrows, hstore', h.rows_eq, h.submission, h.files, trivial⟩
    · dsimp only
      rcases hrow : rowPut store id.session id.digest r.source q with e | o
      · exact hstay .ended trivial
      obtain ⟨c, hread, ⟨rfl, hobject⟩ | rfl⟩ := rowPut_ok hrow
      · exact hstay (.uploading rest) ⟨done ++ [q], by simp [hrows],
          huploaded.append_one hread hobject⟩
      · exact hstay (.putting _ _ rest) ⟨done, q, c, hrows, huploaded, hread, rfl, rfl⟩
  case putting =>
    rw [hr] at hphase
    obtain ⟨done, q, c, hrows, huploaded, hread, rfl, rfl⟩ := hphase
    dsimp only
    rcases hput : store.put (keyOf id.pre c.1) c.2 with e | store'
    · exact hstay .ended trivial
    · obtain ⟨hgrows, hstore', hobject⟩ := hstore.put_row hapart h.submission.names h.files
        hrows huploaded hread hput
      exact ⟨hgrows, hstore', h.rows_eq, h.submission, h.files, done ++ [q], by simp [hrows],
        (huploaded.mono hgrows).append_one hread hobject⟩
  case ended => exact hstay .ended trivial

theorem FetchRun.Ok.step {r : FetchRun} (h : r.Ok id rows store)
    (hstore : StoreOk id rows A store)
    (hmanifest : r.manifest ≠ [] →
      manifestDigest (sortedManifest r.manifest) = id.digest →
      sortedManifest r.manifest = rows) :
    FetchRun.Ok id rows store { r with phase := fetchStep foreign id store r } := by
  rw [fetchStep]
  rw [FetchRun.Ok] at h
  rcases hr : r.phase with _ | ⟨_ | ⟨q, rest⟩, contents⟩ | result
  case begun =>
    dsimp only
    by_cases hm : r.manifest ≠ []
    · simp only [if_pos hm]
      by_cases hdigest : manifestDigest (sortedManifest r.manifest) = id.digest
      · rw [if_neg (not_not.mpr hdigest)]
        have hrows := hmanifest hm hdigest
        exact ⟨[], hrows.symm, .nil, hrows ▸ hdigest, fun hnil => absurd hnil hm,
          fun _ => hrows⟩
      · rw [if_pos hdigest]
        trivial
    · simp only [if_neg hm]
      rcases hread : committedManifest foreign store id.session id.digest with e | _ | rows'
      · trivial
      · trivial
      · obtain ⟨rfl, hget, hsubmission, -⟩ := hstore.committed hread
        dsimp only
        rw [if_neg (not_not.mpr hsubmission.digest)]
        exact ⟨[], rfl, .nil, hsubmission.digest, fun _ => hget, fun hne => absurd hne hm⟩
  case reading.nil =>
    rw [hr] at h
    obtain ⟨done, hrows, hstored, hreads⟩ := h
    rw [List.append_nil] at hrows
    subst hrows
    dsimp only
    rcases hsource : materialize id contents with e | source
    · trivial
    · exact ⟨contents, hstored, hsource, hreads⟩
  case reading.cons =>
    rw [hr] at h
    obtain ⟨done, hrows, hstored, hreads⟩ := h
    dsimp only
    rcases hrow : fetchRow store id.session id.digest q with e | c
    · trivial
    · refine ⟨done ++ [q], by simp [hrows], ?_, hreads⟩
      exact List.rel_append hstored (.cons (fetchRow_iff.mp hrow) .nil)
  case ended =>
    rw [hr] at h
    exact h

end

section

variable {foreign : ForeignMarker} {id : SubmissionId} {rows : Manifest}
  {A : Bytes → Prop} {st : CommitState} {a : CommitAction}

theorem sortedManifest_perm (m : Manifest) : (sortedManifest m).Perm m :=
  List.perm_insertionSort _ _

theorem sortedManifest_idem (m : Manifest) :
    sortedManifest (sortedManifest m) = sortedManifest m := by
  have : Std.Total fun a b : ManifestRow => a.path ≤ b.path :=
    ⟨fun a b => le_total a.path b.path⟩
  have : IsTrans ManifestRow fun a b => a.path ≤ b.path :=
    ⟨fun _ _ _ => le_trans⟩
  exact List.Pairwise.insertionSort_eq (List.pairwise_insertionSort _ _)

/-- Only the upload that moves is other than before. -/
theorem CommitOk.setUpload (h : CommitOk id rows A st) {store : ObjectStore}
    (hgrows : Grows st.store store) (hstore : StoreOk id rows A store) {t : ℕ}
    {r : PersistRun} (hr : r.Ok id rows A store) :
    CommitOk id rows A ({ st with store := store }.setUpload t r) := by
  refine ⟨hstore, fun t' r' ht' => ?_, fun u r' hu => (h.readers u r' hu).mono hgrows,
    h.manifests⟩
  by_cases heq : t' = t
  · subst heq
    rw [CommitState.setUpload_self, Option.some.injEq] at ht'
    exact ht' ▸ hr
  · rw [CommitState.setUpload_of_ne heq] at ht'
    exact (h.uploads t' r' ht').mono hgrows

theorem CommitOk.setReader (h : CommitOk id rows A st) {u : ℕ} {r : FetchRun}
    (hr : r.Ok id rows st.store)
    (hmanifest : r.manifest ≠ [] →
      manifestDigest (sortedManifest r.manifest) = id.digest →
      sortedManifest r.manifest = rows) :
    CommitOk id rows A (st.setReader u r) := by
  refine ⟨h.store, h.uploads, fun u' r' hu' => ?_, fun u' r' hu' => ?_⟩
  all_goals
    by_cases heq : u' = u
    · subst heq
      rw [CommitState.setReader_self, Option.some.injEq] at hu'
      subst hu'
      assumption
    rw [CommitState.setReader_of_ne heq] at hu'
  · exact h.readers u' r' hu'
  · exact h.manifests u' r' hu'

theorem CommitOk.act (foreign : ForeignMarker) (h : CommitOk id rows A st)
    (hapart : ∀ a b, A a → A b → sha256Hex a = sha256Hex b → a = b)
    (ha : Belongs id rows A a) :
    Grows st.store (commitAct foreign id st a).store ∧
      CommitOk id rows A (commitAct foreign id st a) := by
  have hself : Grows st.store st.store ∧ CommitOk id rows A st := ⟨grows_self _, h⟩
  obtain ⟨hmanifest, hsource⟩ := ha
  rcases a with ⟨t, m, source⟩ | t | t | ⟨u, m⟩ | u
  case persist =>
    rw [commitAct]
    split_ifs with hstart
    · obtain ⟨-, hm, hnames, hdigest⟩ := hstart
      have hrows := hmanifest m rfl hm hdigest
      have hperm := sortedManifest_perm m
      have hsubmission : IsSubmission id rows := by
        refine ⟨?_, ?_, hrows ▸ hdigest, ?_⟩
        · rw [← hrows]
          exact fun hnil => hm (List.perm_nil.mp (hnil ▸ hperm).symm)
        · rw [← hrows]
          exact sortedManifest_idem m
        · rw [← hrows]
          exact fun q hq => hnames q (hperm.mem_iff.mp hq)
      exact ⟨grows_self _, h.setUpload (grows_self _) h.store
        ⟨hrows, hsubmission, hsource t m source rfl, trivial⟩⟩
    · exact hself
  case advance =>
    rw [commitAct]
    rcases hr : st.uploads t with _ | r
    · exact hself
    · have hstep := (h.uploads t r hr).step foreign h.store hapart
      exact ⟨hstep.1, h.setUpload hstep.1 hstep.2.1 hstep.2.2⟩
  case stop =>
    rw [commitAct]
    rcases hr : st.uploads t with _ | r
    · exact hself
    · have hrun := h.uploads t r hr
      exact ⟨grows_self _, h.setUpload (grows_self _) h.store
        ⟨hrun.rows_eq, hrun.submission, hrun.files, trivial⟩⟩
  case fetch =>
    rw [commitAct]
    split_ifs
    · exact ⟨grows_self _, h.setReader trivial (hmanifest m rfl)⟩
    · exact hself
  case read =>
    rw [commitAct]
    rcases hr : st.readers u with _ | r
    · exact hself
    · have hown := h.manifests u r hr
      exact ⟨grows_self _, h.setReader ((h.readers u r hr).step h.store hown) hown⟩

theorem CommitOk.run (foreign : ForeignMarker)
    (hapart : ∀ a b, A a → A b → sha256Hex a = sha256Hex b → a = b)
    (h : CommitOk id rows A st) {actions : List CommitAction}
    (hall : ∀ a ∈ actions, Belongs id rows A a) :
    Grows st.store (Transition.run (commitAct foreign id) st actions).store ∧
      CommitOk id rows A (Transition.run (commitAct foreign id) st actions) := by
  have hbelongs : Throughout (commitAct foreign id) (fun _ a => Belongs id rows A a) st
      actions := throughout_of_forall hall
  exact invariant_run (fun st' => Grows st.store st'.store ∧ CommitOk id rows A st')
    (fun _ _ h' ha => ⟨h'.1.trans (h'.2.act foreign hapart ha).1,
      (h'.2.act foreign hapart ha).2⟩)
    ⟨grows_self _, h⟩ hbelongs

theorem CommitOk.start (store : FreshStore id) :
    CommitOk id rows A (CommitState.start store) := by
  refine ⟨⟨fun rel data _ hobject => ?_, fun raw hraw => ?_⟩, nofun, nofun, nofun⟩
  · exact nomatch (store.fresh rel).symm.trans hobject
  · exact nomatch (store.fresh manifestName).symm.trans hraw

/-- What a download has got together, whatever the store holds. -/
def FetchRun.Sound (id : SubmissionId) (r : FetchRun) : Prop :=
  match r.phase with
  | .begun => True
  | .reading rest contents => ∃ rows done, rows = done ++ rest ∧
      (r.manifest ≠ [] → rows = sortedManifest r.manifest) ∧
      manifestDigest rows = id.digest ∧
      List.Forall₂ (fun r c => normalizeRelPath r.path = .ok c.1 ∧ r.Verifies c.2) done
        contents
  | .ended (.ok source) => Fetched id r.manifest source
  | .ended (.error _) => True

theorem materialize_ok {contents : List (Str × Bytes)} {source : Tree}
    (h : materialize id contents = .ok source) : writeContents .nil contents = .ok source ∧
      ∃ m, verifySnapshot id.digest (lit "source") (some source) id.digest = .ok m := by
  rw [materialize] at h
  rcases hwrite : writeContents .nil contents with e | source'
  · rw [hwrite] at h
    exact nomatch h
  rw [hwrite] at h
  dsimp only at h
  rcases hverify : verifySnapshot id.digest (lit "source") (some source') id.digest with e | m
  · rw [hverify] at h
    exact nomatch h
  rw [hverify] at h
  obtain rfl := Except.ok.inj h
  exact ⟨rfl, m, hverify⟩

theorem FetchRun.Sound.step {r : FetchRun} {store : ObjectStore} (h : r.Sound id) :
    FetchRun.Sound id { r with phase := fetchStep foreign id store r } := by
  rw [fetchStep]
  rw [FetchRun.Sound] at h
  rcases hr : r.phase with _ | ⟨_ | ⟨q, rest⟩, contents⟩ | result
  case begun =>
    dsimp only
    rcases hrows : (if r.manifest ≠ [] then .ok (some (sortedManifest r.manifest))
      else committedManifest foreign store id.session id.digest) with e | _ | rows
    · simp only [hrows]
      trivial
    · simp only [hrows]
      trivial
    simp only [hrows]
    split_ifs with hdigest
    · trivial
    · refine ⟨rows, [], rfl, fun hm => ?_, not_not.mp hdigest, .nil⟩
      rw [if_pos hm] at hrows
      exact (Option.some.inj (Except.ok.inj hrows)).symm
  case reading.nil =>
    rw [hr] at h
    obtain ⟨rows, done, hrows, hmanifest, hdigest, hread⟩ := h
    rw [List.append_nil] at hrows
    subst hrows
    dsimp only
    rcases hsource : materialize id contents with e | source
    · trivial
    · exact ⟨rows, contents, hmanifest, hdigest, hread, materialize_ok hsource⟩
  case reading.cons =>
    rw [hr] at h
    obtain ⟨rows, done, hrows, hmanifest, hdigest, hread⟩ := h
    dsimp only
    rcases hrow : fetchRow store id.session id.digest q with e | c
    · trivial
    · have hstored := fetchRow_iff.mp hrow
      exact ⟨rows, done ++ [q], by simp [hrows], hmanifest, hdigest,
        List.rel_append hread (.cons ⟨hstored.path, hstored.verifies⟩ .nil)⟩
  case ended =>
    rw [hr] at h
    exact h

theorem sound_run (store : FreshStore id) (actions : List CommitAction) {u : ℕ}
    {r : FetchRun}
    (hr : (run (commitAct foreign id) (.start store) actions).readers u = some r) :
    r.Sound id := by
  have hall : ∀ u r, (run (commitAct foreign id) (.start store) actions).readers u =
      some r → r.Sound id := by
    refine invariant_run_of_step (fun st : CommitState => ∀ u r, st.readers u = some r →
      r.Sound id) (fun st a h => ?_) nofun
    have hset : ∀ v r', r'.Sound id → ∀ u r, (st.setReader v r').readers u = some r →
        r.Sound id := by
      intro v r' hr' u r hu
      by_cases heq : u = v
      · rw [heq, CommitState.setReader_self, Option.some.injEq] at hu
        exact hu ▸ hr'
      · rw [CommitState.setReader_of_ne heq] at hu
        exact h u r hu
    rcases a with ⟨t, m, source⟩ | t | t | ⟨v, m⟩ | v
    case persist =>
      rw [commitAct]
      split_ifs <;> exact h
    case advance =>
      rw [commitAct]
      rcases st.uploads t <;> exact h
    case stop =>
      rw [commitAct]
      rcases st.uploads t <;> exact h
    case fetch =>
      rw [commitAct]
      split_ifs
      · exact hset v ⟨m, .begun⟩ trivial
      · exact h
    case read =>
      rw [commitAct]
      rcases hv : st.readers v with _ | r
      · exact h
      · exact hset v _ (h v r hv).step
  exact hall u r hr

/-! ## A later download -/

/-- A download that cannot but return the files of an earlier one. -/
def FetchRun.Keeps (id : SubmissionId) (rows : Manifest) (store : ObjectStore)
    (contents₀ : List (Str × Bytes)) (source : Tree) (r : FetchRun) : Prop :=
  match r.phase with
  | .begun => FetchRun.Reads id rows store r.manifest
  | .reading rest contents => ∃ more, contents₀ = contents ++ more ∧
      List.Forall₂ (RowStored id store) rest more
  | .ended result => result = .ok source

section

variable {store store' : ObjectStore} {contents₀ : List (Str × Bytes)} {source : Tree}
  {r : FetchRun}

theorem FetchRun.Keeps.mono (h : r.Keeps id rows store contents₀ source)
    (hgrows : Grows store store') : r.Keeps id rows store' contents₀ source := by
  rw [FetchRun.Keeps] at h ⊢
  rcases hr : r.phase with _ | ⟨rest, contents⟩ | result
  · rw [hr] at h
    exact FetchRun.Reads.mono h hgrows
  · rw [hr] at h
    obtain ⟨more, heq, hstored⟩ := h
    exact ⟨more, heq, forall₂_rowStored_mono hstored hgrows⟩
  · rw [hr] at h
    exact h

theorem FetchRun.Keeps.step (h : r.Keeps id rows store contents₀ source)
    (hstore : StoreOk id rows A store)
    (hcontents : List.Forall₂ (RowStored id store) rows contents₀)
    (hsource : materialize id contents₀ = .ok source) :
    FetchRun.Keeps id rows store contents₀ source
      { r with phase := fetchStep foreign id store r } := by
  rw [fetchStep]
  rw [FetchRun.Keeps] at h
  rcases hr : r.phase with _ | ⟨_ | ⟨q, rest⟩, contents⟩ | result
  case begun =>
    rw [hr] at h
    have hread : (if r.manifest ≠ [] then .ok (some (sortedManifest r.manifest))
        else committedManifest foreign store id.session id.digest) = .ok (some rows) := by
      split_ifs with hm
      · rw [h.trusted hm]
      · exact hstore.committed_of_get (h.marker (not_not.mp hm))
    simp only [hread]
    rw [if_neg (not_not.mpr h.digest)]
    exact ⟨contents₀, rfl, hcontents⟩
  case reading.nil =>
    rw [hr] at h
    obtain ⟨more, heq, hstored⟩ := h
    obtain rfl := List.forall₂_nil_left_iff.mp hstored
    rw [List.append_nil] at heq
    exact heq ▸ hsource
  case reading.cons =>
    rw [hr] at h
    obtain ⟨more, heq, hstored⟩ := h
    obtain ⟨c, rest', hrow, hrest, rfl⟩ := List.forall₂_cons_left_iff.mp hstored
    dsimp only
    rw [fetchRow_iff.mpr hrow]
    exact ⟨rest', by simp [heq], hrest⟩
  case ended =>
    rw [hr] at h
    exact h

end

/-- From a state where a download has succeeded, one that has not begun there returns the
same files. -/
theorem CommitOk.keeps (hapart : ∀ a b, A a → A b → sha256Hex a = sha256Hex b → a = b)
    (h : CommitOk id rows A st) {u v : ℕ} {m m' : Manifest} {source : Tree}
    (hu : st.readers u = some ⟨m, .ended (.ok source)⟩) (hv : st.readers v = none)
    (hm : m' = m ∨ m' ≠ [] ∧ manifestDigest (sortedManifest m') = id.digest)
    {actions : List CommitAction} (hall : ∀ a ∈ actions, Belongs id rows A a)
    {result : Except PyErr Tree}
    (hend : (Transition.run (commitAct foreign id) st actions).readers v =
      some ⟨m', .ended result⟩) : result = .ok source := by
  obtain ⟨contents₀, hstored, hsource, hreads⟩ := h.readers u _ hu
  have hbelongs : Throughout (commitAct foreign id) (fun _ a => Belongs id rows A a) st
      actions := throughout_of_forall hall
  have hrun := invariant_run (fun st' : CommitState => Grows st.store st'.store ∧
    CommitOk id rows A st' ∧ ∀ r, st'.readers v = some r → r.manifest = m' →
      r.Keeps id rows st'.store contents₀ source) ?_
    ⟨grows_self _, h, fun r hr => nomatch hv.symm.trans hr⟩ hbelongs
  · exact hrun.2.2 _ hend rfl
  rintro st' a ⟨hgrows, hok, hkeeps⟩ ha
  obtain ⟨hstep, hok'⟩ := hok.act foreign hapart ha
  refine ⟨hgrows.trans hstep, hok', ?_⟩
  have hkept : ∀ r, st'.readers v = some r → r.manifest = m' →
      r.Keeps id rows (commitAct foreign id st' a).store contents₀ source :=
    fun r hr hrm => (hkeeps r hr hrm).mono hstep
  rcases a with ⟨t, m₁, source₁⟩ | t | t | ⟨w, m₁⟩ | w
  case persist =>
    rw [commitAct] at hkept ⊢
    split_ifs at hkept ⊢ <;> exact hkept
  case advance =>
    rw [commitAct] at hkept ⊢
    rcases hr : st'.uploads t with _ | r
    · rw [hr] at hkept
      exact hkept
    · rw [hr] at hkept
      exact hkept
  case stop =>
    rw [commitAct] at hkept ⊢
    rcases hr : st'.uploads t with _ | r
    · rw [hr] at hkept
      exact hkept
    · rw [hr] at hkept
      exact hkept
  case fetch =>
    have hbegin : m₁ = m' → FetchRun.Reads id rows st'.store m₁ := by
      rintro rfl
      rcases hm with rfl | ⟨hm, hdigest⟩
      · exact hreads.mono hgrows
      · exact ⟨hreads.digest, fun hnil => absurd hnil hm,
          fun _ => ha.1 _ rfl hm hdigest⟩
    rw [commitAct] at hkept ⊢
    split_ifs at hkept ⊢
    · intro r hr hrm
      by_cases heq : v = w
      · rw [heq, CommitState.setReader_self, Option.some.injEq] at hr
        subst hr
        exact hbegin hrm
      · rw [CommitState.setReader_of_ne heq] at hr
        exact hkept r hr hrm
    · exact hkept
  case read =>
    rw [commitAct] at hkept ⊢
    rcases hw : st'.readers w with _ | r'
    · rw [hw] at hkept
      exact hkept
    · rw [hw] at hkept
      intro r hr hrm
      by_cases heq : v = w
      · dsimp only at hr
        rw [heq, CommitState.setReader_self, Option.some.injEq] at hr
        subst hr
        exact (hkeeps r' (heq ▸ hw) hrm).step hok.store
          (forall₂_rowStored_mono hstored hgrows) hsource
      · dsimp only at hr
        rw [CommitState.setReader_of_ne heq] at hr
        exact hkept r hr hrm

theorem CommitOk.same (h : CommitOk id rows A st) {st' : CommitState}
    (h' : CommitOk id rows A st') (hgrows : Grows st.store st'.store) {u v : ℕ}
    {m m' : Manifest} {source source' : Tree}
    (hu : st.readers u = some ⟨m, .ended (.ok source)⟩)
    (hv : st'.readers v = some ⟨m', .ended (.ok source')⟩) : source' = source := by
  obtain ⟨contents, hstored, hsource, -⟩ := h.readers u _ hu
  obtain ⟨contents', hstored', hsource', -⟩ := h'.readers v _ hv
  have hsame := forall₂_rowStored_unique (forall₂_rowStored_mono hstored hgrows) hstored'
  rw [← hsame, hsource] at hsource'
  exact (Except.ok.inj hsource').symm

theorem complete_of_rowStored {store : ObjectStore}
    (h : ∀ q ∈ rows, ∃ c, RowStored id store q c) : Complete id store rows := by
  intro q hq
  obtain ⟨c, hc⟩ := h q hq
  exact ⟨keyOf id.pre c.1, c.2, submissionKey_of_path id hc.path,
    get_ok_iff.mpr ⟨hc.valid, hc.object⟩, hc.verifies⟩

/-- The actions of a run without collisions agree on one manifest. -/
theorem exists_belongs {actions : List CommitAction} (h : ¬ Collides id actions) :
    ∃ rows, ∀ a ∈ actions, Belongs id rows (IsUploaded actions) a := by
  have hsource : ∀ a ∈ actions, ∀ t m source, a = .persist t m source →
      ∀ path data, source.fileAt path = some data → IsUploaded actions data :=
    fun a ha t m source heq path data hdata => ⟨t, m, source, path, heq ▸ ha, hdata⟩
  by_cases hsome : ∃ a ∈ actions, ∃ m, a.manifest? = some m ∧ m ≠ [] ∧
      manifestDigest (sortedManifest m) = id.digest
  · obtain ⟨a, ha, m, hm, hne, hdigest⟩ := hsome
    refine ⟨sortedManifest m, fun b hb => ⟨fun m' hm' hne' hdigest' => ?_, hsource b hb⟩⟩
    by_contra hrows
    exact h (.manifests b a m' m hb ha hm' hm hne' hne hdigest' hdigest hrows)
  · refine ⟨[], fun b hb => ⟨fun m' hm' hne' hdigest' => ?_, hsource b hb⟩⟩
    exact absurd ⟨b, hb, m', hm', hne', hdigest'⟩ hsome

end

end PromptCode
