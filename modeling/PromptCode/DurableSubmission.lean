import PromptCode.SubmissionStore

/-!
# The round trip of a durable submission

What `persist_submission` leaves in the store, what `fetch_submission` makes of
it, and when the two together give the frozen source back.
-/

namespace PromptCode

open Py FileTree

/-- A frozen source: the files read from a workspace and the copy made of
them. -/
structure FrozenSource (workspace : Tree) (files : List SourceItem)
    (source : Tree) : Prop where
  contents : sourceContents workspace = .ok files
  of_workspace : SourceOf workspace files
  copy : IsCopy files source
  ne_nil : files ≠ []

/-- What freezing reads and copies. -/
theorem frozenSource_of_manifestInto {workspace source : Tree} {m : Manifest}
    (hworkspace : ValidTree workspace)
    (h : manifestInto workspace = .ok (m, source)) (hne : m ≠ []) :
    ∃ files, FrozenSource workspace files source ∧ m = manifestOf files := by
  cases hfiles : sourceContents workspace with
  | error e => simp [manifestInto, hfiles] at h
  | ok files =>
      obtain ⟨t, ht, hcopy⟩ := manifestInto_of_ok hworkspace hfiles
      rw [ht] at h
      obtain ⟨rfl, rfl⟩ := Prod.mk.inj (Except.ok.inj h)
      refine ⟨files, ⟨hfiles, sourceOf_of_ok hworkspace hfiles, hcopy, ?_⟩, rfl⟩
      rintro rfl
      exact hne rfl

/-! ## Rows of a frozen source -/

section Rows

variable {workspace source : Tree} {files : List SourceItem}

theorem sortedManifest_manifestOf (files : List SourceItem) :
    sortedManifest (manifestOf files) = manifestOf files :=
  List.Pairwise.insertionSort_eq (manifestOf_pairwise files)

theorem manifestOf_ne_nil (hne : files ≠ []) : manifestOf files ≠ [] := by
  intro h
  have hperm := manifestOf_perm_map files
  rw [h, List.nil_perm] at hperm
  exact hne (List.map_eq_nil_iff.mp hperm)

theorem FrozenSource.manifest (h : FrozenSource workspace files source) :
    PromptCode.manifest source = .ok (manifestOf files) :=
  h.copy.manifest h.of_workspace.list

theorem FrozenSource.relParts (h : FrozenSource workspace files source)
    {f : SourceItem} (hf : f ∈ files) : relParts (itemRow f).path = f.1 :=
  relParts_join (h.of_workspace.list.ne_nil f hf)
    (h.of_workspace.list.components f hf)

theorem FrozenSource.fileAt (h : FrozenSource workspace files source)
    {f : SourceItem} (hf : f ∈ files) : source.fileAt f.1 = some f.2 :=
  (h.copy.fileAt f.1 f.2).mpr hf

theorem FrozenSource.not_blocked (h : FrozenSource workspace files source)
    {f : SourceItem} (hf : f ∈ files) :
    isBlockedPath (itemRow f).path = false :=
  ((h.of_workspace.mem_iff f.1 f.2).mp hf).not_blocked

theorem FrozenSource.path_ne_dot (h : FrozenSource workspace files source)
    {f : SourceItem} (hf : f ∈ files) : (itemRow f).path ≠ lit "." := by
  intro heq
  have hparts := h.relParts hf
  rw [heq, show PromptCode.relParts (lit ".") = [] by decide] at hparts
  exact h.of_workspace.list.ne_nil f hf hparts.symm

theorem FrozenSource.encodable (h : FrozenSource workspace files source)
    {f : SourceItem} (hf : f ∈ files) {c : CodePoint}
    (hc : c ∈ (itemRow f).path) : isUnencodable c = false := by
  by_cases hslash : c = slash
  · subst hslash
    decide
  · obtain ⟨p, hp, hcp⟩ := (mem_join_iff hslash).mp hc
    exact (h.of_workspace.list.components f hf p hp).encodable c hcp

theorem isUnencodable_of_isHexDigit {c : CodePoint} (h : isHexDigit c = true) :
    isUnencodable c = false := by
  have hall : (lit "0123456789abcdef").all (fun d => !isUnencodable d) = true := by
    decide
  simpa using List.all_eq_true.mp hall c (by simpa [isHexDigit] using h)

theorem FrozenSource.readableRow (h : FrozenSource workspace files source)
    {r : ManifestRow} (hr : r ∈ manifestOf files) : ReadableRow r := by
  obtain ⟨f, hf, rfl⟩ := mem_manifestOf.mp hr
  exact ⟨fun c hc => h.encodable hf hc,
    fun c hc => isUnencodable_of_isHexDigit (isHexDigit_of_mem_sha256Hex hc)⟩

/-- The files in the order of the manifest. -/
def filesInOrder (source : Tree) (m : Manifest) : List SourceItem :=
  m.map fun r => (relParts r.path, (source.fileAt (relParts r.path)).getD [])

theorem FrozenSource.filesInOrder_perm (h : FrozenSource workspace files source) :
    (filesInOrder source (manifestOf files)).Perm files := by
  have hperm := (manifestOf_perm_map files).map fun r =>
    (PromptCode.relParts r.path,
      (source.fileAt (PromptCode.relParts r.path)).getD [])
  refine hperm.trans (List.Perm.of_eq ?_)
  rw [List.map_map]
  conv_rhs => rw [← List.map_id files]
  refine List.map_congr_left fun f hf => ?_
  simp [h.relParts hf, h.fileAt hf]

end Rows

/-! ## One object -/

theorem get_ok_iff {store : ObjectStore} {key : Str} {data : Bytes} :
    store.get key = .ok data ↔
      validateKey key = .ok key ∧ store.objects key = some data := by
  unfold ObjectStore.get
  cases hvalid : validateKey key with
  | error e => simp
  | ok k =>
      obtain rfl := (validateKey_ok_iff.mp hvalid).1
      cases hobj : store.objects k with
      | none => simp [hobj]
      | some d => simp [hobj]

theorem get_eq_notFound_iff {store : ObjectStore} {key : Str} :
    store.get key = .error .objectNotFound ↔
      validateKey key = .ok key ∧ store.objects key = none := by
  unfold ObjectStore.get
  cases hvalid : validateKey key with
  | error e =>
      have hne : e ≠ .objectNotFound := by
        rintro rfl
        unfold validateKey at hvalid
        split_ifs at hvalid
        · simp at hvalid
        · cases hencode : utf8Encode key with
          | none => simp [hencode] at hvalid
          | some encoded =>
              simp only [hencode] at hvalid
              split_ifs at hvalid
              simp at hvalid
      simp [hne]
  | ok k =>
      obtain rfl := (validateKey_ok_iff.mp hvalid).1
      cases hobj : store.objects k with
      | none => simp [hobj]
      | some d => simp [hobj]

theorem put_ok {store store' : ObjectStore} {key : Str} {data : Bytes}
    (h : store.put key data = .ok store') :
    validateKey key = .ok key ∧ store'.maxObjectBytes = store.maxObjectBytes ∧
      store'.objects = Function.update store.objects key (some data) := by
  unfold ObjectStore.put at h
  cases hvalid : validateKey key with
  | error e => simp [hvalid] at h
  | ok k =>
      obtain rfl := (validateKey_ok_iff.mp hvalid).1
      simp only [hvalid] at h
      split_ifs at h
      obtain rfl := Except.ok.inj h
      exact ⟨rfl, rfl, rfl⟩

/-- The key of a relative path below a prefix. -/
def keyOf (pre rel : Str) : Str := pre ++ slash :: rel

theorem keyOf_injective (pre : Str) : Function.Injective (keyOf pre) := by
  intro a b h
  simpa [keyOf] using h

theorem replaceBackslash_eq_self {s : Str} (h : backslash ∉ s) :
    replaceBackslash s = s :=
  replaceBackslash_of_notMem h

theorem normalizeRelPath_ok_eq {rel r : Str} (hdot : rel ≠ lit ".")
    (hback : backslash ∉ rel) (h : normalizeRelPath rel = .ok r) : r = rel := by
  rw [((normalizeRelPath_ok_iff hdot).mp h).1, replaceBackslash_of_notMem hback]

theorem submissionKey_ok {s d rel key pre : Str}
    (hpre : submissionPrefix s d = .ok pre) (hdot : rel ≠ lit ".")
    (hback : backslash ∉ rel) (h : submissionKey s d rel = .ok key) :
    key = keyOf pre rel ∧ normalizeRelPath rel = .ok rel := by
  simp only [submissionKey, hpre] at h
  cases hnorm : normalizeRelPath rel with
  | error e => simp [hnorm] at h
  | ok r =>
      simp only [hnorm] at h
      obtain rfl := Except.ok.inj h
      obtain rfl := normalizeRelPath_ok_eq hdot hback hnorm
      exact ⟨rfl, rfl⟩

theorem submissionKey_eq {s d rel pre : Str} (hpre : submissionPrefix s d = .ok pre)
    (hnorm : normalizeRelPath rel = .ok rel) :
    submissionKey s d rel = .ok (keyOf pre rel) := by
  simp only [submissionKey, hpre, hnorm, keyOf]

/-! ## The upload -/

theorem readBytes_ok {source : Tree} {rel : Str} {data : Bytes}
    (h : readBytes source rel = .ok data) :
    source.fileAt (relParts rel) = some data := by
  unfold readBytes at h
  rw [Dir.fileAt_eq_some_iff]
  cases hget : source.get (relParts rel) with
  | none => simp [hget] at h
  | some x =>
      cases x with
      | file b =>
          simp only [hget] at h
          rw [Except.ok.inj h]
      | link t | special | dir e => simp [hget] at h

/-- What the upload of one row has checked and stored. -/
theorem uploadRow_ok {store store' : ObjectStore} {s d pre : Str} {source : Tree}
    {r : ManifestRow} (hpre : submissionPrefix s d = .ok pre)
    (hdot : r.path ≠ lit ".") (hback : backslash ∉ r.path)
    (h : uploadRow store s d source r = .ok store') :
    ∃ data, source.fileAt (relParts r.path) = some data ∧
      normalizeRelPath r.path = .ok r.path ∧
      validateKey (keyOf pre r.path) = .ok (keyOf pre r.path) ∧
      store'.objects =
        Function.update store.objects (keyOf pre r.path) (some data) := by
  unfold uploadRow at h
  cases hnorm : normalizeRelPath r.path with
  | error e => simp [hnorm] at h
  | ok rel =>
      obtain rfl := normalizeRelPath_ok_eq hdot hback hnorm
      simp only [hnorm] at h
      cases hread : readBytes source r.path with
      | error e => simp [hread] at h
      | ok data =>
          simp only [hread] at h
          split_ifs at h with hcheck
          rw [submissionKey_eq hpre hnorm] at h
          refine ⟨data, readBytes_ok hread, rfl, ?_⟩
          dsimp only at h
          cases hget : store.get (keyOf pre r.path) with
          | error e =>
              cases e <;> simp only [hget] at h
              case objectNotFound =>
                obtain ⟨hvalid, -, hobj⟩ := put_ok h
                exact ⟨hvalid, hobj⟩
              all_goals simp at h
          | ok stored =>
              obtain ⟨hvalid, hobj⟩ := get_ok_iff.mp hget
              simp only [hget] at h
              split_ifs at h with heq
              · obtain rfl := Except.ok.inj h
                refine ⟨hvalid, ?_⟩
                rw [← heq, ← hobj, Function.update_eq_self]
              · obtain ⟨hvalid', -, hobj'⟩ := put_ok h
                exact ⟨hvalid', hobj'⟩

/-- What the upload loop leaves in the store. -/
structure Uploaded (store store' : ObjectStore) (pre : Str) (source : Tree)
    (rows : Manifest) : Prop where
  valid : ∀ r ∈ rows, normalizeRelPath r.path = .ok r.path ∧
    validateKey (keyOf pre r.path) = .ok (keyOf pre r.path)
  stored : ∀ r ∈ rows,
    store'.objects (keyOf pre r.path) = source.fileAt (relParts r.path) ∧
      (source.fileAt (relParts r.path)).isSome = true
  other : ∀ k, (∀ r ∈ rows, k ≠ keyOf pre r.path) →
    store'.objects k = store.objects k

theorem uploadRows_ok {store store' : ObjectStore} {s d pre : Str} {source : Tree}
    {rows : Manifest} (hpre : submissionPrefix s d = .ok pre)
    (hrows : ∀ r ∈ rows, r.path ≠ lit "." ∧ backslash ∉ r.path)
    (h : uploadRows store s d source rows = (.ok (), store')) :
    Uploaded store store' pre source rows := by
  induction rows generalizing store with
  | nil =>
      obtain rfl : store = store' := by simpa [uploadRows] using h
      exact ⟨by simp, by simp, fun _ _ => rfl⟩
  | cons r rest ih =>
      simp only [uploadRows] at h
      cases hrow : uploadRow store s d source r with
      | error e => simp [hrow] at h
      | ok store₁ =>
          simp only [hrow] at h
          obtain ⟨data, hdata, hnorm, hvalid, hobj⟩ :=
            uploadRow_ok hpre (hrows r (by simp)).1 (hrows r (by simp)).2 hrow
          have hrest := ih (fun q hq => hrows q (by simp [hq])) h
          refine ⟨?_, ?_, ?_⟩
          · intro q hq
            rcases List.mem_cons.mp hq with rfl | hq
            · exact ⟨hnorm, hvalid⟩
            · exact hrest.valid q hq
          · intro q hq
            by_cases hmem : ∃ q' ∈ rest, q'.path = q.path
            · obtain ⟨q', hq', hpath⟩ := hmem
              rw [← hpath]
              exact hrest.stored q' hq'
            · push Not at hmem
              rcases List.mem_cons.mp hq with rfl | hq
              · rw [hrest.other _ fun q' hq' heq =>
                  hmem q' hq' (keyOf_injective pre heq).symm, hobj,
                  Function.update_self, hdata]
                exact ⟨rfl, rfl⟩
              · exact absurd rfl (hmem q hq)
          · intro k hk
            rw [hrest.other k fun q hq => hk q (by simp [hq]), hobj,
              Function.update_of_ne (hk r (by simp))]

/-- The two ways `persist_submission` returns. -/
theorem persistSubmission_ok {foreign : ForeignMarker}
    {store store' : ObjectStore} {s d p : Str} {m : Manifest} {source : Tree}
    (h : persistSubmission foreign store s d m source = (.ok p, store')) :
    submissionPrefix s d = .ok p ∧ m ≠ [] ∧ manifestDigest (sortedManifest m) = d ∧
      ((alreadyPersisted foreign store s d (sortedManifest m) = .ok true ∧
          store' = store) ∨
        (alreadyPersisted foreign store s d (sortedManifest m) = .ok false ∧
          ∃ store₁, uploadRows store s d source (sortedManifest m) =
              (.ok (), store₁) ∧
            putManifest store₁ s d (sortedManifest m) = .ok store')) := by
  unfold persistSubmission at h
  by_cases hne : m = []
  · simp [hne] at h
  by_cases hdigest : manifestDigest (sortedManifest m) = d
  swap
  · simp [hne, hdigest] at h
  rw [if_neg hne] at h
  dsimp only at h
  rw [if_neg (not_not.mpr hdigest)] at h
  cases halready : alreadyPersisted foreign store s d (sortedManifest m) with
  | error e => simp [halready] at h
  | ok already =>
      cases already with
      | true =>
          simp only [halready] at h
          obtain ⟨hpre, hstore⟩ := Prod.mk.inj h
          exact ⟨hpre, hne, hdigest, Or.inl ⟨rfl, hstore.symm⟩⟩
      | false =>
          simp only [halready] at h
          cases hup : uploadRows store s d source (sortedManifest m) with
          | mk result store₁ =>
              cases result with
              | error e => simp [hup] at h
              | ok u =>
                  simp only [hup] at h
                  cases hput : putManifest store₁ s d (sortedManifest m) with
                  | error e => simp [hput] at h
                  | ok store₂ =>
                      simp only [hput] at h
                      obtain ⟨hpre, rfl⟩ := Prod.mk.inj h
                      exact ⟨hpre, hne, hdigest,
                        Or.inr ⟨rfl, store₁, rfl, hput⟩⟩

theorem putManifest_ok {store store' : ObjectStore} {s d pre : Str}
    {rows : Manifest} (hpre : submissionPrefix s d = .ok pre)
    (h : putManifest store s d rows = .ok store') :
    validateKey (keyOf pre manifestName) = .ok (keyOf pre manifestName) ∧
      store'.objects = Function.update store.objects (keyOf pre manifestName)
        (some (manifestJson rows)) := by
  simp only [putManifest, manifestKey, hpre] at h
  obtain ⟨hvalid, -, hobj⟩ := put_ok h
  exact ⟨hvalid, hobj⟩

/-- What a reader finds after the manifest was written: the files' bytes, and
the manifest under its own key. -/
structure Persisted (store : ObjectStore) (pre : Str) (source : Tree)
    (rows : Manifest) : Prop where
  valid : ∀ r ∈ rows, normalizeRelPath r.path = .ok r.path ∧
    validateKey (keyOf pre r.path) = .ok (keyOf pre r.path)
  stored : ∀ r ∈ rows, r.path ≠ manifestName →
    store.objects (keyOf pre r.path) = source.fileAt (relParts r.path)
  marker_valid :
    validateKey (keyOf pre manifestName) = .ok (keyOf pre manifestName)
  marker : store.objects (keyOf pre manifestName) = some (manifestJson rows)

theorem persisted_of_upload {store store₁ store' : ObjectStore} {s d pre : Str}
    {source : Tree} {rows : Manifest} (hpre : submissionPrefix s d = .ok pre)
    (hrows : ∀ r ∈ rows, r.path ≠ lit "." ∧ backslash ∉ r.path)
    (hup : uploadRows store s d source rows = (.ok (), store₁))
    (hput : putManifest store₁ s d rows = .ok store') :
    Persisted store' pre source rows := by
  have huploaded := uploadRows_ok hpre hrows hup
  obtain ⟨hvalid, hobj⟩ := putManifest_ok hpre hput
  refine ⟨huploaded.valid, ?_, hvalid, ?_⟩
  · intro r hr hne
    rw [hobj, Function.update_of_ne fun heq => hne (keyOf_injective pre heq)]
    exact (huploaded.stored r hr).1
  · rw [hobj, Function.update_self]

/-! ## When the upload succeeds -/

/-- The store takes an object of this size. -/
def FitsObject (store : ObjectStore) (size : ℕ) : Prop :=
  store.maxObjectBytes = 0 ∨ size ≤ store.maxObjectBytes

theorem put_succeeds {key : Str} (store : ObjectStore) (data : Bytes)
    (hvalid : validateKey key = .ok key) (hfits : FitsObject store data.length) :
    ∃ store', store.put key data = .ok store' ∧
      store'.maxObjectBytes = store.maxObjectBytes := by
  have hsize : ¬ (store.maxObjectBytes ≠ 0 ∧ store.maxObjectBytes < data.length) := by
    rintro ⟨hne, hlt⟩
    rcases hfits with h | h
    · exact hne h
    · exact absurd hlt (not_lt.mpr h)
  unfold ObjectStore.put
  simp only [hvalid, if_neg hsize]
  exact ⟨_, rfl, rfl⟩

theorem readBytes_of_fileAt {source : Tree} {rel : Str} {data : Bytes}
    (h : source.fileAt (relParts rel) = some data) :
    readBytes source rel = .ok data := by
  unfold readBytes
  rw [Dir.fileAt_eq_some_iff.mp h]

theorem uploadRow_succeeds {store : ObjectStore} {s d pre : Str} {source : Tree}
    {r : ManifestRow} {data : Bytes} (hpre : submissionPrefix s d = .ok pre)
    (hnorm : normalizeRelPath r.path = .ok r.path)
    (hvalid : validateKey (keyOf pre r.path) = .ok (keyOf pre r.path))
    (hdata : source.fileAt (relParts r.path) = some data)
    (hrow : r = manifestRow r.path data) (hfits : FitsObject store data.length) :
    ∃ store', uploadRow store s d source r = .ok store' ∧
      store'.maxObjectBytes = store.maxObjectBytes := by
  have hcheck : ¬ (data.length ≠ r.size ∨ sha256Hex data ≠ r.sha256) := by
    rw [hrow]
    simp [manifestRow]
  have hput := put_succeeds store data hvalid hfits
  simp only [uploadRow, hnorm, readBytes_of_fileAt hdata, if_neg hcheck,
    submissionKey_eq hpre hnorm]
  cases hobj : store.objects (keyOf pre r.path) with
  | none =>
      rw [get_eq_notFound_iff.mpr ⟨hvalid, hobj⟩]
      exact hput
  | some stored =>
      rw [get_ok_iff.mpr ⟨hvalid, hobj⟩]
      dsimp only
      split_ifs
      · exact ⟨store, rfl, rfl⟩
      · exact hput

theorem uploadRows_succeeds {s d pre : Str} (store : ObjectStore) (source : Tree)
    (rows : Manifest) (hpre : submissionPrefix s d = .ok pre)
    (hrows : ∀ r ∈ rows, normalizeRelPath r.path = .ok r.path ∧
      validateKey (keyOf pre r.path) = .ok (keyOf pre r.path) ∧
      ∃ data, source.fileAt (relParts r.path) = some data ∧
        r = manifestRow r.path data ∧ FitsObject store data.length) :
    ∃ store', uploadRows store s d source rows = (.ok (), store') ∧
      store'.maxObjectBytes = store.maxObjectBytes := by
  induction rows generalizing store with
  | nil => exact ⟨store, rfl, rfl⟩
  | cons r rest ih =>
      obtain ⟨hnorm, hvalid, data, hdata, hrow, hfits⟩ := hrows r (by simp)
      obtain ⟨store₁, hup, hmax⟩ :=
        uploadRow_succeeds hpre hnorm hvalid hdata hrow hfits
      obtain ⟨store₂, hrest, hmax'⟩ := ih store₁ fun q hq => by
        obtain ⟨hn, hv, e, he, hq', hf⟩ := hrows q (by simp [hq])
        exact ⟨hn, hv, e, he, hq', by rwa [FitsObject, hmax]⟩
      exact ⟨store₂, by simp only [uploadRows, hup, hrest], hmax'.trans hmax⟩

/-! ## The download -/

theorem normalizeRelPath_eq {rel r : Str} (h : normalizeRelPath rel = .ok r) :
    r = replaceBackslash rel := by
  unfold normalizeRelPath at h
  dsimp only at h
  split_ifs at h with hbad
  simp only [not_or, not_not] at hbad
  rw [← Except.ok.inj h]
  exact hbad.2.1.symm

theorem notMem_relParts {rel : Str} {c : CodePoint} (hc : c ∉ rel) :
    ∀ n ∈ relParts rel, c ∉ n := by
  intro n hn hmem
  have hsplit := (List.mem_filter.mp hn).1
  have hsub : (splitroot rel).2 ⊆ rel := by
    unfold splitroot
    split_ifs
    · exact List.Subset.refl _
    · exact List.drop_subset _ _
    · exact List.drop_subset _ _
  exact hc (hsub ((isInfix_of_mem_split hsplit).subset hmem))

theorem containedObject_ok {rel : Str} {path : List Str}
    (h : containedObject rel = .ok path) :
    path = relParts (replaceBackslash rel) ∧ ∀ n ∈ path, backslash ∉ n := by
  unfold containedObject at h
  cases hnorm : normalizeRelPath rel with
  | error e => simp [hnorm] at h
  | ok r =>
      obtain rfl := normalizeRelPath_eq hnorm
      simp only [hnorm] at h
      split_ifs at h
      obtain rfl := Except.ok.inj h
      exact ⟨rfl, notMem_relParts (backslash_notMem_replaceBackslash rel)⟩

theorem writeContents_ok {t t' : Tree} {contents : List (Str × Bytes)}
    (h : writeContents t contents = .ok t') :
    (∀ c ∈ contents, containedObject c.1 =
        .ok (relParts (replaceBackslash c.1))) ∧
      t.writeAll (contents.map fun c =>
        (relParts (replaceBackslash c.1), c.2)) = some t' := by
  induction contents generalizing t with
  | nil =>
      obtain rfl := Except.ok.inj h
      exact ⟨by simp, rfl⟩
  | cons c rest ih =>
      obtain ⟨rel, data⟩ := c
      simp only [writeContents] at h
      cases hcont : containedObject rel with
      | error e => simp [hcont] at h
      | ok path =>
          obtain ⟨rfl, -⟩ := containedObject_ok hcont
          simp only [hcont] at h
          cases hwrite : t.write (relParts (replaceBackslash rel)) data with
          | none => simp [hwrite] at h
          | some t₁ =>
              simp only [hwrite] at h
              obtain ⟨hall, hrest⟩ := ih h
              refine ⟨?_, ?_⟩
              · intro c hc
                rcases List.mem_cons.mp hc with rfl | hc
                · exact hcont
                · exact hall c hc
              · rw [List.map_cons, Dir.writeAll, List.foldlM_cons, hwrite]
                exact hrest

theorem writeContents_eq {t t' : Tree} {contents : List (Str × Bytes)}
    (hcont : ∀ c ∈ contents, containedObject c.1 = .ok (relParts c.1))
    (h : t.writeAll (contents.map fun c => (relParts c.1, c.2)) = some t') :
    writeContents t contents = .ok t' := by
  induction contents generalizing t with
  | nil =>
      obtain rfl : t = t' := by simpa [Dir.writeAll] using h
      rfl
  | cons c rest ih =>
      obtain ⟨rel, data⟩ := c
      obtain ⟨t₁, hwrite, hrest⟩ : ∃ t₁, t.write (relParts rel) data = some t₁ ∧
          t₁.writeAll (rest.map fun c => (relParts c.1, c.2)) = some t' := by
        simpa [Dir.writeAll, Option.bind_eq_some_iff] using h
      simp only [writeContents, hcont (rel, data) (by simp), hwrite]
      exact ih (fun c hc => hcont c (by simp [hc])) hrest

theorem fetchRow_ok {store : ObjectStore} {s d pre : Str} {r : ManifestRow}
    {c : Str × Bytes} (hpre : submissionPrefix s d = .ok pre)
    (h : fetchRow store s d r = .ok c) :
    c.1 = replaceBackslash r.path ∧
      (r.path ≠ lit "." → backslash ∉ r.path →
        store.objects (keyOf pre r.path) = some c.2) := by
  unfold fetchRow at h
  cases hnorm : normalizeRelPath r.path with
  | error e => simp [hnorm] at h
  | ok rel =>
      simp only [hnorm] at h
      cases hkey : submissionKey s d rel with
      | error e => simp [hkey] at h
      | ok key =>
          simp only [hkey] at h
          cases hget : store.get key with
          | error e => cases e <;> simp [hget] at h
          | ok data =>
              simp only [hget] at h
              split_ifs at h
              obtain rfl := Except.ok.inj h
              refine ⟨normalizeRelPath_eq hnorm, fun hdot hback => ?_⟩
              obtain rfl := normalizeRelPath_ok_eq hdot hback hnorm
              obtain ⟨rfl, -⟩ := submissionKey_ok hpre hdot hback hkey
              exact (get_ok_iff.mp hget).2

theorem fetchRow_eq {store : ObjectStore} {s d pre : Str} {r : ManifestRow}
    {data : Bytes} (hpre : submissionPrefix s d = .ok pre)
    (hnorm : normalizeRelPath r.path = .ok r.path)
    (hvalid : validateKey (keyOf pre r.path) = .ok (keyOf pre r.path))
    (hobj : store.objects (keyOf pre r.path) = some data)
    (hrow : r = manifestRow r.path data) :
    fetchRow store s d r = .ok (r.path, data) := by
  have hget : store.get (keyOf pre r.path) = .ok data :=
    get_ok_iff.mpr ⟨hvalid, hobj⟩
  have hcheck : ¬ (data.length ≠ r.size ∨ sha256Hex data ≠ r.sha256) := by
    rw [hrow]
    simp [manifestRow]
  simp only [fetchRow, hnorm, submissionKey_eq hpre hnorm, hget, if_neg hcheck]

/-! ## What is verified -/

theorem verifiedObjects_true_iff {store : ObjectStore} {s d : Str}
    {rows : Manifest} :
    verifiedObjects store s d rows = .ok true ↔
      ∀ r ∈ rows, ∃ key data, submissionKey s d r.path = .ok key ∧
        store.get key = .ok data ∧ data.length = r.size ∧
        sha256Hex data = r.sha256 := by
  induction rows with
  | nil => simp [verifiedObjects]
  | cons r rest ih =>
      rw [List.forall_mem_cons, ← ih]
      simp only [verifiedObjects]
      cases hkey : submissionKey s d r.path with
      | error e => simp
      | ok key =>
          dsimp only
          cases hget : store.get key with
          | error e => cases e <;> simp [hget]
          | ok data =>
              by_cases hlen : data.length = r.size <;>
                by_cases hsha : sha256Hex data = r.sha256 <;>
                simp [hget, hlen, hsha]

theorem persistSubmission_of_already {foreign : ForeignMarker}
    {store : ObjectStore} {s d pre : Str} {m : Manifest} {source : Tree}
    (hne : m ≠ []) (hdigest : manifestDigest (sortedManifest m) = d)
    (hpre : submissionPrefix s d = .ok pre)
    (h : alreadyPersisted foreign store s d (sortedManifest m) = .ok true) :
    persistSubmission foreign store s d m source = (.ok pre, store) := by
  unfold persistSubmission
  rw [if_neg hne]
  dsimp only
  rw [if_neg (not_not.mpr hdigest), h, hpre]

/-- Checking stored objects raises nothing when every row has a valid key. -/
theorem verifiedObjects_isOk {store : ObjectStore} {s d pre : Str}
    {rows : Manifest} (hpre : submissionPrefix s d = .ok pre)
    (hrows : ∀ r ∈ rows, normalizeRelPath r.path = .ok r.path ∧
      validateKey (keyOf pre r.path) = .ok (keyOf pre r.path)) :
    ∃ b, verifiedObjects store s d rows = .ok b := by
  induction rows with
  | nil => exact ⟨true, rfl⟩
  | cons r rest ih =>
      obtain ⟨hnorm, hvalid⟩ := hrows r (by simp)
      obtain ⟨b, hrest⟩ := ih fun q hq => hrows q (by simp [hq])
      simp only [verifiedObjects, submissionKey_eq hpre hnorm]
      cases hobj : store.objects (keyOf pre r.path) with
      | none =>
          rw [get_eq_notFound_iff.mpr ⟨hvalid, hobj⟩]
          exact ⟨false, rfl⟩
      | some data =>
          rw [get_ok_iff.mpr ⟨hvalid, hobj⟩]
          dsimp only
          split_ifs
          · exact ⟨false, rfl⟩
          · exact ⟨b, hrest⟩

/-- The stored marker, if there is one, is read without raising. -/
def MarkerReadable (foreign : ForeignMarker) (store : ObjectStore) (pre : Str) :
    Prop :=
  ∀ raw, store.objects (keyOf pre manifestName) = some raw →
    ∃ reading, readMarker foreign raw = .ok reading

theorem committedManifest_isOk {foreign : ForeignMarker} {store : ObjectStore}
    {s d pre : Str} (hpre : submissionPrefix s d = .ok pre)
    (hvalid : validateKey (keyOf pre manifestName) = .ok (keyOf pre manifestName))
    (hread : MarkerReadable foreign store pre) :
    ∃ c, committedManifest foreign store s d = .ok c := by
  simp only [committedManifest, manifestKey, hpre]
  cases hobj : store.objects (keyOf pre manifestName) with
  | none =>
      rw [show pre ++ slash :: manifestName = keyOf pre manifestName from rfl,
        get_eq_notFound_iff.mpr ⟨hvalid, hobj⟩]
      exact ⟨none, rfl⟩
  | some raw =>
      obtain ⟨reading, hreading⟩ := hread raw hobj
      rw [show pre ++ slash :: manifestName = keyOf pre manifestName from rfl,
        get_ok_iff.mpr ⟨hvalid, hobj⟩]
      dsimp only
      rw [hreading]
      cases reading with
      | none => exact ⟨none, rfl⟩
      | some reading =>
          obtain ⟨rows, digest⟩ := reading
          dsimp only
          split_ifs
          · exact ⟨_, rfl⟩
          · exact ⟨_, rfl⟩

/-- Every object of the submission is the file it is named after. -/
def Served (store : ObjectStore) (pre : Str) (source : Tree) (rows : Manifest) :
    Prop :=
  ∀ r ∈ rows, normalizeRelPath r.path = .ok r.path ∧
    validateKey (keyOf pre r.path) = .ok (keyOf pre r.path) ∧
    store.objects (keyOf pre r.path) = source.fileAt (relParts r.path)

section Fetch

variable {workspace source : Tree} {files : List SourceItem}
  {foreign : ForeignMarker} {store : ObjectStore} {s pre : Str}

theorem FrozenSource.row_data (h : FrozenSource workspace files source)
    {r : ManifestRow} (hr : r ∈ manifestOf files) :
    ∃ data, source.fileAt (PromptCode.relParts r.path) = some data ∧
      r = manifestRow r.path data ∧
      (PromptCode.relParts r.path, data) ∈ files := by
  obtain ⟨f, hf, rfl⟩ := mem_manifestOf.mp hr
  refine ⟨f.2, ?_, rfl, ?_⟩
  · rw [h.relParts hf, h.fileAt hf]
  · rw [h.relParts hf]
    exact hf

/-- A served submission is fetched as it was frozen. -/
theorem fetchSubmission_of_served (foreign : ForeignMarker)
    (h : FrozenSource workspace files source)
    (hpre : submissionPrefix s (manifestDigest (manifestOf files)) = .ok pre)
    (hserved : Served store pre source (manifestOf files)) :
    ∃ t, fetchSubmission foreign store s (manifestDigest (manifestOf files))
        (manifestOf files) = .ok t ∧ IsCopy files t := by
  set m := manifestOf files with hm
  have hmne : m ≠ [] := manifestOf_ne_nil h.ne_nil
  have hsorted : sortedManifest m = m := sortedManifest_manifestOf files
  obtain ⟨t, hwrite, hcopy⟩ := exists_copy h.of_workspace h.filesInOrder_perm
  have hcontents : m.mapM (fetchRow store s (manifestDigest m)) =
      .ok (m.map fun r =>
        (r.path, (source.fileAt (PromptCode.relParts r.path)).getD [])) := by
    rw [mapM_ok_iff_forall, List.forall₂_map_right_iff, List.forall₂_same]
    intro r hr
    obtain ⟨data, hdata, hrow, -⟩ := h.row_data hr
    obtain ⟨hnorm, hvalid, hobj⟩ := hserved r hr
    rw [hdata] at hobj ⊢
    exact fetchRow_eq hpre hnorm hvalid hobj hrow
  have hwritten : writeContents .nil (m.map fun r =>
      (r.path, (source.fileAt (PromptCode.relParts r.path)).getD [])) = .ok t := by
    apply writeContents_eq
    · intro c hc
      obtain ⟨r, hr, rfl⟩ := List.mem_map.mp hc
      obtain ⟨f, hf, rfl⟩ := mem_manifestOf.mp hr
      simp [containedObject, (hserved _ hr).1, h.not_blocked hf]
    · rw [List.map_map]
      exact hwrite
  have hverify : verifySnapshot (manifestDigest m) (lit "source") (some t)
      (manifestDigest m) = .ok m :=
    verifySnapshot_of_manifest (hcopy.manifest h.of_workspace.list) hmne
  refine ⟨t, ?_, hcopy⟩
  simp only [fetchSubmission, ne_eq, hmne, not_false_eq_true, if_true, hsorted,
    not_true_eq_false, if_false, hcontents, hwritten, hverify]

/-- What a successful fetch has written. -/
theorem fetchSubmission_ok {m : Manifest} {d : Str} {t : Tree} (hmne : m ≠ [])
    (h : fetchSubmission foreign store s d m = .ok t) :
    ∃ contents,
      (sortedManifest m).mapM (fetchRow store s d) = .ok contents ∧
        writeContents .nil contents = .ok t := by
  simp only [fetchSubmission, ne_eq, hmne, not_false_eq_true, if_true] at h
  split_ifs at h
  cases hcontents : (sortedManifest m).mapM (fetchRow store s d) with
  | error e => simp [hcontents] at h
  | ok contents =>
      simp only [hcontents] at h
      cases hwritten : writeContents .nil contents with
      | error e => simp [hwritten] at h
      | ok t₁ =>
          simp only [hwritten] at h
          cases hverify : verifySnapshot d (lit "source") (some t₁) d with
          | error e => simp [hverify] at h
          | ok m' =>
              simp only [hverify] at h
              obtain rfl := Except.ok.inj h
              exact ⟨contents, rfl, hwritten⟩

/-- No component that was fetched holds a backslash. -/
theorem backslash_notMem_of_fetched {t : Tree} {contents : List (Str × Bytes)}
    (h : writeContents .nil contents = .ok t) {path : List Str} {data : Bytes}
    (hfile : t.fileAt path = some data) : ∀ n ∈ path, backslash ∉ n := by
  obtain ⟨hall, hwrite⟩ := writeContents_ok h
  rw [Dir.fileAt_writeAll hwrite, fileAt_nil_eq] at hfile
  by_cases hmem : path ∈ (contents.map fun c =>
      (PromptCode.relParts (replaceBackslash c.1), c.2)).map Prod.fst
  · obtain ⟨e, he, rfl⟩ := List.mem_map.mp hmem
    obtain ⟨c, hc, rfl⟩ := List.mem_map.mp he
    exact (containedObject_ok (hall c hc)).2
  · rw [Dir.updateAll_of_notMem hmem] at hfile
    simp at hfile

/-- Each row is fetched as the object under its key. -/
theorem fileAt_of_fetched {t : Tree} {m : Manifest} {d : Str}
    {contents : List (Str × Bytes)} (hpre : submissionPrefix s d = .ok pre)
    (hnodup : (m.map fun r => PromptCode.relParts r.path).Nodup)
    (hrows : ∀ r ∈ m, r.path ≠ lit "." ∧ backslash ∉ r.path)
    (hcontents : m.mapM (fetchRow store s d) = .ok contents)
    (hwritten : writeContents .nil contents = .ok t) {r : ManifestRow}
    (hr : r ∈ m) :
    t.fileAt (PromptCode.relParts r.path) =
      store.objects (keyOf pre r.path) := by
  obtain ⟨-, hwrite⟩ := writeContents_ok hwritten
  rw [mapM_ok_iff_forall] at hcontents
  have hpaths : (contents.map fun c =>
      (PromptCode.relParts (replaceBackslash c.1), c.2)).map Prod.fst =
      m.map fun r => PromptCode.relParts r.path := by
    rw [List.map_map]
    clear hwrite hwritten hnodup hr
    induction hcontents with
    | nil => rfl
    | @cons a b m contents hab _ ih =>
        have ha := hrows a (by simp)
        rw [List.map_cons, List.map_cons, ih fun q hq => hrows q (by simp [hq])]
        simp only [Function.comp_apply, List.cons.injEq, and_true]
        rw [(fetchRow_ok hpre hab).1, replaceBackslash_of_notMem
          (backslash_notMem_replaceBackslash _), replaceBackslash_of_notMem ha.2]
  obtain ⟨c, hc, hfetch⟩ : ∃ c ∈ contents, fetchRow store s d r = .ok c := by
    clear hwrite hwritten hnodup hpaths
    induction hcontents with
    | nil => simp at hr
    | @cons a b m contents hab _ ih =>
        rcases List.mem_cons.mp hr with rfl | hr
        · exact ⟨b, by simp, hab⟩
        · obtain ⟨c, hc, hfetch⟩ := ih (fun q hq => hrows q (by simp [hq])) hr
          exact ⟨c, by simp [hc], hfetch⟩
  obtain ⟨hrel, hobj⟩ := fetchRow_ok hpre hfetch
  rw [hobj (hrows r hr).1 (hrows r hr).2, Dir.fileAt_writeAll hwrite, fileAt_nil_eq]
  refine Dir.updateAll_of_mem (hpaths ▸ hnodup) (List.mem_map.mpr ⟨c, hc, ?_⟩)
  rw [hrel, replaceBackslash_of_notMem (backslash_notMem_replaceBackslash _),
    replaceBackslash_of_notMem (hrows r hr).2]

end Fetch

/-! ## When persisting succeeds -/

/-- What the store needs to take a frozen source: a key for every name, room
for every object, and a marker that reads. -/
structure CanPersist (foreign : ForeignMarker) (store : ObjectStore)
    (files : List SourceItem) (pre : Str) : Prop where
  storable : ∀ f ∈ files, Storable (join slash f.1)
  no_backslash : ∀ f ∈ files, backslash ∉ join slash f.1
  fits : ∀ f ∈ files, FitsObject store f.2.length
  fits_manifest : FitsObject store (manifestJson (manifestOf files)).length
  readable : MarkerReadable foreign store pre

theorem storable_manifestName : Storable manifestName := by decide

theorem validKey_of_storable {s d rel : Str} (hs : IsSessionId s)
    (hd : IsDigest d) (hdot : rel ≠ lit ".") (hback : backslash ∉ rel)
    (h : Storable rel) :
    normalizeRelPath rel = .ok rel ∧
      validateKey (keyOf (prefixOf s d) rel) = .ok (keyOf (prefixOf s d) rel) := by
  obtain ⟨key, hkey, hvalid⟩ := (exists_key_iff_storable hs hd hdot).mpr h
  obtain ⟨rfl, hnorm⟩ :=
    submissionKey_ok (submissionPrefix_eq hs hd) hdot hback hkey
  exact ⟨hnorm, hvalid⟩

/-- Persisting a frozen source succeeds whatever the store already holds. -/
theorem persistSubmission_succeeds {workspace source : Tree}
    {files : List SourceItem} (foreign : ForeignMarker) (store : ObjectStore)
    (s : Str) (h : FrozenSource workspace files source) (hs : IsSessionId s)
    (hcan : CanPersist foreign store files
      (prefixOf s (manifestDigest (manifestOf files)))) :
    ∃ store', persistSubmission foreign store s
        (manifestDigest (manifestOf files)) (manifestOf files) source =
      (.ok (prefixOf s (manifestDigest (manifestOf files))), store') := by
  set m := manifestOf files with hm
  have hd : IsDigest (manifestDigest m) := isDigest_manifestDigest m
  have hpre := submissionPrefix_eq hs hd
  have hsorted : sortedManifest m = m := sortedManifest_manifestOf files
  have hkeys : ∀ r ∈ m, normalizeRelPath r.path = .ok r.path ∧
      validateKey (keyOf (prefixOf s (manifestDigest m)) r.path) =
        .ok (keyOf (prefixOf s (manifestDigest m)) r.path) := by
    intro r hr
    obtain ⟨f, hf, rfl⟩ := mem_manifestOf.mp hr
    exact validKey_of_storable hs hd (h.path_ne_dot hf) (hcan.no_backslash f hf)
      (hcan.storable f hf)
  have hmarker := (validKey_of_storable hs hd (by decide) (by decide)
    storable_manifestName).2
  obtain ⟨already, halready⟩ : ∃ b, alreadyPersisted foreign store s
      (manifestDigest m) m = .ok b := by
    obtain ⟨c, hc⟩ := committedManifest_isOk hpre hmarker hcan.readable
    unfold alreadyPersisted
    rw [hc]
    cases c with
    | none => exact ⟨false, rfl⟩
    | some rows => exact verifiedObjects_isOk hpre hkeys
  obtain ⟨store₁, hup, hmax⟩ := uploadRows_succeeds store source m
    hpre fun r hr => by
      obtain ⟨data, hdata, hrow, hmem⟩ := h.row_data hr
      exact ⟨(hkeys r hr).1, (hkeys r hr).2, data, hdata, hrow, hcan.fits _ hmem⟩
  obtain ⟨store₂, hput, -⟩ := put_succeeds store₁ (manifestJson m) hmarker (by
      rw [FitsObject, hmax]
      exact hcan.fits_manifest)
  have hputm : putManifest store₁ s (manifestDigest m) m = .ok store₂ := by
    simp only [putManifest, manifestKey, hpre]
    exact hput
  unfold persistSubmission
  rw [if_neg (manifestOf_ne_nil h.ne_nil)]
  dsimp only
  rw [hsorted, if_neg (not_not.mpr rfl), halready]
  cases already with
  | true => exact ⟨store, by rw [hpre]⟩
  | false => exact ⟨store₂, by simp only [hup, hputm, hpre]⟩

end PromptCode
