import PromptCode.ExecutionTransfer

/-!
# When a frozen source can be graded remotely

Freezing accepts any file below the kept directories; a bundle refuses names of
its own.  A frozen source reaches the execution host unchanged exactly when none
of its names is refused.
-/

namespace PromptCode

open Py FileTree

/-- The bundle of a frozen source carries its digest, and the tree that the
execution host builds is the frozen one. -/
def GradedRemotely (m : Manifest) (source : Tree) : Prop :=
  ∃ bundle t, bundleSource source = .ok bundle ∧
    bundle.digest = manifestDigest m ∧ bundle.materialize = .ok t ∧
    verifySnapshot (manifestDigest m) (lit "source") (some t) (manifestDigest m) =
      .ok m ∧
    ∀ path data, t.fileAt path = some data ↔ source.fileAt path = some data

/-! ## The bundle of a frozen source -/

/-- An item of the loop is the file it was made of. -/
theorem bundleItem_ok {f : SourceItem} {item : SourceFile × ManifestRow}
    (h : bundleItem f = .ok item) :
    checkSourceFile (join slash f.1) (b64encode f.2) = .ok () ∧
      item.1.path = join slash f.1 ∧ item.1.data = b64encode f.2 ∧
      item.2 = itemRow f := by
  unfold bundleItem at h
  cases hmake : SourceFile.make (join slash f.1) (b64encode f.2) with
  | error e => simp [hmake, Except.map] at h
  | ok sf =>
      rw [hmake] at h
      obtain rfl := Except.ok.inj h
      obtain ⟨hcheck, hpath, hdata⟩ := make_ok_iff.mp hmake
      exact ⟨hcheck, hpath, hdata, rfl⟩

theorem exists_bundleItem {f : SourceItem}
    (h : checkSourceFile (join slash f.1) (b64encode f.2) = .ok ()) :
    ∃ item, bundleItem f = .ok item := by
  let sf : SourceFile := ⟨join slash f.1, b64encode f.2, h⟩
  have hmake : SourceFile.make (join slash f.1) (b64encode f.2) = .ok sf :=
    make_ok_iff.mpr ⟨h, rfl, rfl⟩
  exact ⟨_, by rw [bundleItem, hmake]; rfl⟩

theorem exists_mapM {α β : Type} {g : α → Except PyErr β} {l : List α}
    (h : ∀ a ∈ l, ∃ b, g a = .ok b) : ∃ l', l.mapM g = .ok l' := by
  induction l with
  | nil => exact ⟨[], rfl⟩
  | cons a l ih =>
      obtain ⟨b, hb⟩ := h a (by simp)
      obtain ⟨bs, hbs⟩ := ih fun c hc => h c (by simp [hc])
      exact ⟨b :: bs, by rw [List.mapM_cons, hb, hbs]; rfl⟩

/-- The items of a bundle, one for each file. -/
abbrev BundleItems (fs : List SourceItem)
    (items : List (SourceFile × ManifestRow)) : Prop :=
  List.Forall₂ (fun f i => bundleItem f = .ok i) fs items

theorem BundleItems.rows {fs : List SourceItem}
    {items : List (SourceFile × ManifestRow)} (h : BundleItems fs items) :
    items.map (fun i => i.2) = fs.map itemRow := by
  induction h with
  | nil => rfl
  | cons hi _ ih => rw [List.map_cons, List.map_cons, ih, (bundleItem_ok hi).2.2.2]

theorem BundleItems.paths {fs : List SourceItem}
    {items : List (SourceFile × ManifestRow)} (h : BundleItems fs items) :
    (items.map fun i => i.1).map (fun f => f.path) =
      fs.map fun f => join slash f.1 := by
  induction h with
  | nil => rfl
  | cons hi _ ih =>
      rw [List.map_cons, List.map_cons, List.map_cons, ih, (bundleItem_ok hi).2.1]

/-- The bundle's own loop lists the same rows. -/
theorem boundedRows_bundleItems {fs : List SourceItem}
    {items : List (SourceFile × ManifestRow)} (h : BundleItems fs items)
    (seen : List Str) (total : ℕ)
    (hnodup : (fs.map fun f => join slash f.1).Nodup)
    (hseen : ∀ f ∈ fs, join slash f.1 ∉ seen)
    (hsize : ∀ f ∈ fs, f.2.length ≤ maxFileBytes)
    (htotal : total + (fs.map fun f => f.2.length).sum ≤ sourceBytes) :
    boundedRows (items.map fun i => i.1) seen total =
      .ok (items.map fun i => i.2) := by
  induction h generalizing seen total with
  | nil => rfl
  | @cons f i fs items hi _ ih =>
      obtain ⟨-, hpath, hdata, hrow⟩ := bundleItem_ok hi
      rw [List.map_cons, List.nodup_cons] at hnodup
      simp only [List.map_cons, List.sum_cons] at htotal
      have hnotin : i.1.path ∉ seen := hpath ▸ hseen f (by simp)
      have hrest := ih (i.1.path :: seen) (total + f.2.length)
        hnodup.2
        (fun g hg hmem => by
          rcases List.mem_cons.mp hmem with heq | hmem
          · rw [hpath] at heq
            exact hnodup.1 (List.mem_map.mpr ⟨g, hg, heq⟩)
          · exact hseen g (by simp [hg]) hmem)
        (fun g hg => hsize g (by simp [hg])) (by omega)
      rw [List.map_cons, boundedRows, if_neg hnotin, hdata,
        decodedSource_b64encode (hsize f (by simp))]
      dsimp only
      rw [if_neg (by omega), hrest, List.map_cons, hpath, hrow]
      rfl

section

variable {workspace source : Tree} {files fs : List SourceItem}
  {items : List (SourceFile × ManifestRow)}

/-- No file of a tree lies below another file. -/
theorem pathConflict_eq_false (h : FrozenSource workspace files source)
    (hperm : fs.Perm files) :
    pathConflict (fs.map fun f => join slash f.1) = false := by
  rw [pathConflict, List.any_eq_false]
  intro path hpath hany
  obtain ⟨f, hf, rfl⟩ := List.mem_map.mp hpath
  have hf' := hperm.mem_iff.mp hf
  obtain ⟨parent, hparent, hmem⟩ := List.any_eq_true.mp hany
  rw [parse_join (h.of_workspace.list.ne_nil f hf')
    (h.of_workspace.list.components f hf')] at hparent
  simp only [PurePath.parents, List.mem_map, List.mem_range] at hparent
  obtain ⟨i, hi, rfl⟩ := hparent
  rw [decide_eq_true_eq] at hmem
  obtain ⟨g, hg, heq⟩ := List.mem_map.mp hmem
  have hg' := hperm.mem_iff.mp hg
  simp only [PurePath.asPosix, true_and, List.nil_append] at heq
  split_ifs at heq with hnil
  · exact h.path_ne_dot hg' heq
  · have hbelow : g.1 = f.1.take (f.1.length - i - 1) :=
      join_injOn (h.of_workspace.list.ne_nil g hg') hnil
        (h.of_workspace.list.components g hg')
        (fun p hp => h.of_workspace.list.components f hf' p
          (List.mem_of_mem_take hp)) heq
    have hne : g.1 ≠ f.1 := by
      intro hgf
      have hlen := congrArg List.length (hgf.symm.trans hbelow)
      rw [List.length_take] at hlen
      omega
    obtain ⟨e, he⟩ := Dir.exists_dir_of_prefix
      (hbelow ▸ List.take_prefix _ _) hne
      (Dir.fileAt_eq_some_iff.mp (h.fileAt hf'))
    rw [Dir.fileAt_eq_some_iff.mp (h.fileAt hg')] at he
    simp at he

/-- The execution host writes each file of the bundle once. -/
theorem materializeFiles_bundleItems {root t t' : Tree}
    (hitems : BundleItems fs items) (hlist : SourceList fs)
    (hsize : ∀ f ∈ fs, f.2.length ≤ maxFileBytes)
    (hroot : ∀ f ∈ fs, root.get f.1 = some (.file f.2)) (hfits : t.FitsIn root)
    (hfree : ∀ f ∈ fs, t.fileAt f.1 = none) (hwrite : t.writeAll fs = some t') :
    materializeFiles t (items.map fun i => i.1) = .ok t' := by
  induction hitems generalizing t with
  | nil =>
      obtain rfl : t = t' := by simpa [Dir.writeAll] using hwrite
      rfl
  | @cons f i fs items hi _ ih =>
      obtain ⟨-, hpath, hdata, -⟩ := bundleItem_ok hi
      have hne := hlist.ne_nil f (by simp)
      have hparts : relParts i.1.path = f.1 := by
        rw [hpath]
        exact relParts_join hne (hlist.components f (by simp))
      have hnew : t.get f.1 = none := by
        cases hget : t.get f.1 with
        | none => rfl
        | some x =>
            have hf := hroot f (by simp)
            rcases hfits _ _ hget with ⟨b, b', rfl, -⟩ | ⟨e, e', -, hdir⟩
            · have hsome := Dir.fileAt_eq_some_iff.mpr hget
              rw [hfree f (by simp)] at hsome
              simp at hsome
            · rw [hf] at hdir
              simp at hdir
      obtain ⟨t₁, hw, hfits₁⟩ := hfits.exists_write (hroot f (by simp)) hne f.2
      have hrest : t₁.writeAll fs = some t' := by
        simpa [Dir.writeAll, hw] using hwrite
      have hlist' : SourceList fs :=
        ⟨(List.nodup_cons.mp hlist.nodup).2, fun g hg => hlist.ne_nil g (by simp [hg]),
          fun g hg => hlist.components g (by simp [hg])⟩
      have hfree' : ∀ g ∈ fs, t₁.fileAt g.1 = none := by
        intro g hg
        have hgf : g.1 ≠ f.1 := fun heq =>
          (List.nodup_cons.mp hlist.nodup).1 (List.mem_map.mpr ⟨g, hg, heq⟩)
        rw [Dir.fileAt_write_of_ne hw hgf]
        exact hfree g (by simp [hg])
      rw [List.map_cons, materializeFiles, hdata,
        decodedSource_b64encode (hsize f (by simp))]
      dsimp only
      rw [hparts, writeNew, hnew, if_neg (by simp), hw]
      exact ih hlist' (fun g hg => hsize g (by simp [hg]))
        (fun g hg => hroot g (by simp [hg])) hfits₁ hfree' hrest

theorem make_bundle_ok {digest : Str} {sfs : List SourceFile}
    (h : checkBundle digest sfs = .ok ()) :
    ∃ bundle, SourceBundle.make digest sfs = .ok bundle ∧ bundle.digest = digest ∧
      bundle.files = sfs := by
  unfold SourceBundle.make
  split
  · rename_i e he
    rw [h] at he
    simp at he
  · exact ⟨_, rfl, rfl, rfl⟩

/-- A frozen source with transferable names is bundled and materialized as it
is. -/
theorem gradedRemotely_of_transferable (h : FrozenSource workspace files source)
    (hnames : ∀ f ∈ files, Transferable (join slash f.1)) :
    GradedRemotely (manifestOf files) source := by
  obtain ⟨fs, hfs, hperm⟩ := h.copy.contents
  obtain ⟨hevents, hquota⟩ := sourceContents_ok_iff.mp hfs
  have hlist : SourceList fs := h.of_workspace.list.perm hperm
  have hsource := sourceOf_of_ok h.copy.valid hfs
  have hfsne : fs ≠ [] := by
    rintro rfl
    exact h.ne_nil (List.nil_perm.mp hperm)
  obtain ⟨items, hmap⟩ := exists_mapM (g := bundleItem) (l := fs) fun f hf =>
    exists_bundleItem ((checkSourceFile_iff h (hperm.mem_iff.mp hf)).mpr
      (hnames f (hperm.mem_iff.mp hf)))
  have hitems : BundleItems fs items := mapM_ok_iff_forall.mp hmap
  have hcollect : collect "Source exceeds quota" bundleItem (sourceFiles source) 0 0 =
      .ok items :=
    collect_ok_iff.mpr ⟨fs, hevents, hquota, hmap⟩
  have hdigest : manifestDigest (sortedManifest (items.map fun i => i.2)) =
      manifestDigest (manifestOf files) := by
    rw [hitems.rows]
    exact congrArg _ (manifestOf_eq_of_perm h.of_workspace.list hperm)
  have hnodup : (fs.map fun f => join slash f.1).Nodup := by
    refine (List.nodup_map_iff_inj_on hlist.nodup.of_map).mpr ?_
    intro f hf g hg heq
    exact hlist.eq_of_rel_eq hf hg heq
  have hlen : items.length = fs.length := hitems.length_eq.symm
  have hcheck : checkBundle
      (manifestDigest (sortedManifest (items.map fun i => i.2)))
      (items.map fun i => i.1) = .ok () := by
    have hrows := boundedRows_bundleItems hitems [] 0 hnodup
      (by simp) hquota.each (hquota.bytes hfsne)
    have hcount := hquota.count hfsne
    have hhex : ((manifestDigest (sortedManifest (items.map fun i => i.2))).any
        fun c => !isHexDigit c) = false := by
      rw [List.any_eq_false]
      intro c hc
      simp [isHexDigit_of_mem_manifestDigest hc]
    have hne : items.map (fun i => i.1) ≠ [] := by
      intro hnil
      rw [List.map_eq_nil_iff] at hnil
      rw [hnil] at hlen
      exact hfsne (List.length_eq_zero_iff.mp hlen.symm)
    have hconflict := pathConflict_eq_false h hperm
    rw [← hitems.paths] at hconflict
    unfold checkBundle
    rw [if_neg (by rw [hhex]; simp [manifestDigest_length]), if_neg hne,
      if_neg (by rw [List.length_map, hlen]; omega), hrows]
    dsimp only
    rw [hconflict, if_neg (by simp), if_neg (by simp)]
  obtain ⟨bundle, hbundle, hbdigest, hbfiles⟩ := make_bundle_ok hcheck
  obtain ⟨t, hwrite, hcopy⟩ := exists_copy h.of_workspace hperm
  have hmaterialize : bundle.materialize = .ok t := by
    rw [SourceBundle.materialize, hbfiles]
    refine materializeFiles_bundleItems hitems hlist hquota.each ?_
      (Dir.fitsIn_nil source) (fun f hf => by rw [fileAt_nil_eq]) hwrite
    intro f hf
    exact Dir.fileAt_eq_some_iff.mp (h.fileAt (hperm.mem_iff.mp hf))
  refine ⟨bundle, t, ?_, by rw [hbdigest, hdigest], hmaterialize, ?_, ?_⟩
  · simp only [bundleSource, hcollect, hbundle]
  · exact verifySnapshot_of_manifest (hcopy.manifest h.of_workspace.list)
      (manifestOf_ne_nil h.ne_nil)
  · intro path data
    rw [hcopy.fileAt, h.copy.fileAt]

theorem transferable_of_bundled (h : FrozenSource workspace files source)
    {bundle : SourceBundle} (hbundle : bundleSource source = .ok bundle) :
    ∀ f ∈ files, Transferable (join slash f.1) := by
  obtain ⟨fs, hfs, hperm⟩ := h.copy.contents
  obtain ⟨hevents, -⟩ := sourceContents_ok_iff.mp hfs
  unfold bundleSource at hbundle
  cases hcollect : collect "Source exceeds quota" bundleItem (sourceFiles source)
      0 0 with
  | error e => simp [hcollect] at hbundle
  | ok items =>
      obtain ⟨fs', hevents', -, hmap⟩ := collect_ok_iff.mp hcollect
      have heq : fs' = fs := (sourceItems_of_sourceFiles hevents').trans
        (sourceItems_of_sourceFiles hevents).symm
      subst heq
      intro f hf
      have hf' := hperm.mem_iff.mpr hf
      have hall := mapM_ok_iff_forall.mp hmap
      obtain ⟨i, hi⟩ : ∃ i, bundleItem f = .ok i := by
        clear hevents hevents' hfs hperm hcollect hmap
        induction hall with
        | nil => simp at hf'
        | @cons a b l l' hab _ ih =>
            rcases List.mem_cons.mp hf' with rfl | hf'
            · exact ⟨b, hab⟩
            · exact ih hf'
      exact (checkSourceFile_iff h hf).mp (bundleItem_ok hi).1

end

/-- A frozen source can be graded remotely exactly when every file name is
transferable: at most 500 characters, no surrogates, control characters or
backslashes, and no file named like a skipped directory. -/
theorem graded_remotely_iff {workspace source : Tree} {m : Manifest}
    (hworkspace : ValidTree workspace)
    (hfreeze : manifestInto workspace = .ok (m, source)) (hne : m ≠ []) :
    GradedRemotely m source ↔ ∀ r ∈ m, Transferable r.path := by
  obtain ⟨files, hfrozen, rfl⟩ := frozenSource_of_manifestInto hworkspace hfreeze hne
  constructor
  · rintro ⟨bundle, t, hbundle, -⟩ r hr
    obtain ⟨f, hf, rfl⟩ := mem_manifestOf.mp hr
    exact transferable_of_bundled hfrozen hbundle f hf
  · intro hnames
    exact gradedRemotely_of_transferable hfrozen fun f hf =>
      hnames _ (mem_manifestOf.mpr ⟨f, hf, rfl⟩)

theorem graded_remotely_iff_single_file :
    ∃ m source,
      manifestInto (singleFileDisk "a.py" "a").workspace = .ok (m, source) ∧
      (GradedRemotely m source ↔ ∀ r ∈ m, Transferable r.path) := by
  have hvalid : ValidTree (singleFileDisk "a.py" "a").workspace := by decide
  have hfiles : sourceContents (singleFileDisk "a.py" "a").workspace =
      .ok [([lit "a.py"], [97])] := by decide
  obtain ⟨source, hinto, -⟩ := manifestInto_of_ok hvalid hfiles
  exact ⟨_, source, hinto, graded_remotely_iff hvalid hinto
    (manifestOf_ne_nil (by decide))⟩

/-- A workspace in which the candidate has saved a file named `build`. -/
def savedBuildFile : Except PyErr Unit × SessionDisk :=
  writeFile roomyCapacity (singleFileDisk "a.py" "a") (lit "build") (lit "x")

/-- A file named `build` is frozen, and its source is never bundled. -/
theorem saved_build_file_not_bundled :
    savedBuildFile.1 = .ok () ∧
      ∃ m source,
        manifestInto savedBuildFile.2.workspace = .ok (m, source) ∧ m ≠ [] ∧
        ¬ GradedRemotely m source := by
  have hvalid : ValidTree savedBuildFile.2.workspace := by decide
  have hfiles : sourceContents savedBuildFile.2.workspace =
      .ok [([lit "a.py"], [97]), ([lit "build"], [120])] := by decide
  obtain ⟨source, hinto, hcopy⟩ := manifestInto_of_ok hvalid hfiles
  have hfrozen : FrozenSource savedBuildFile.2.workspace _ source :=
    ⟨hfiles, sourceOf_of_ok hvalid hfiles, hcopy, by decide⟩
  refine ⟨by decide, _, source, hinto, manifestOf_ne_nil (by decide), ?_⟩
  rintro ⟨bundle, t, hbundle, -⟩
  have hname := (transferable_of_bundled hfrozen hbundle ([lit "build"], [120])
    (by simp)).name
  exact absurd (by decide) hname

end PromptCode
