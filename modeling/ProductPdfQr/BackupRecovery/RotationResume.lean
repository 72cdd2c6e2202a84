/-
# Interrupted rotations

A run that died can be taken up again: after any interrupted runs a later one is accepted, and
when it comes to its end nothing is left of the points that the earlier ones set out to delete.

The order of the deletions is what makes this so.  As long as a marker of a point is there its
manifest is, and as long as the manifest is there its marker or its journal is.
-/
import ProductPdfQr.BackupRecovery.RotationRuns

namespace ProductPdfQr.BackupRecovery

open Effect Json Rclone Restore Restore.Verified

variable [Sha256] [Ed25519] {r : Rotation}

/-! ## 1. What a run leaves -/

/-- The bucket with the journals of some points. -/
def published (b : Bucket) (points : List (Trusted r)) : Bucket :=
  points.foldl (fun b t => b.insert (deletingKey r.pre t.backupId) (canonicalJson t.record)) b

theorem lookup_published_of_notMem {b : Bucket} {points : List (Trusted r)} {key : String}
    (h : ∀ t ∈ points, key ≠ deletingKey r.pre t.backupId) :
    (published b points).lookup key = b.lookup key := by
  induction points generalizing b with
  | nil => rfl
  | cons t points ih =>
    obtain ⟨ht, hpoints⟩ := List.forall_mem_cons.mp h
    change (published (b.insert _ _) points).lookup key = _
    rw [ih hpoints, Finmap.lookup_insert_of_ne _ ht]

theorem lookup_published {b : Bucket} {points : List (Trusted r)}
    (hunique : (points.map Trusted.backupId).Nodup) {t : Trusted r} (ht : t ∈ points) :
    (published b points).lookup (deletingKey r.pre t.backupId) = some (canonicalJson t.record) := by
  induction points generalizing b with
  | nil => cases ht
  | cons s points ih =>
    obtain ⟨hnew, hunique⟩ := List.nodup_cons.mp hunique
    change (published (b.insert _ _) points).lookup _ = _
    rcases List.mem_cons.mp ht with rfl | ht
    · rw [lookup_published_of_notMem, Finmap.lookup_insert]
      intro u hu heq
      exact hnew (deletingKey_injective heq ▸ List.mem_map_of_mem hu)
    · exact ih hunique ht

/-- Where a run is cut: it has published some of the journals, and if all of them, deleted some of
the targets. -/
structure Plan.Cut (p : Plan r) where
  first : List (Trusted r)
  gone : List String
  first_prefix : first <+: p.deleted
  gone_prefix : gone <+: p.targets
  journals_first : gone = [] ∨ first = p.deleted

/-- The bucket that is left. -/
def Plan.Cut.state {p : Plan r} (k : p.Cut) (b : Bucket) : Bucket :=
  erased (published b k.first) k.gone

def Plan.Leaves (p : Plan r) (b s : Bucket) : Prop := ∃ k : p.Cut, s = k.state b

/-- The end of a run. -/
def Plan.ended (p : Plan r) : p.Cut :=
  ⟨p.deleted, p.targets, List.prefix_refl _, List.prefix_refl _, .inr rfl⟩

section Run

variable {b : Bucket} {now : Instant} {p : Plan r}

theorem Plan.deleted_unique (p : Plan r) : (p.deleted.map Trusted.backupId).Nodup :=
  p.markers.unique.sublist (List.filter_sublist.map _)

theorem Plan.Knows.completeKey_mem (h : p.Knows b now) {t : Trusted r} (ht : t ∈ p.deleted) :
    completeKey r.pre t.backupId ∈ b := ((h.markers t).mp (deleted_subset ht).1).1

/-- No journal is there that a run is about to publish. -/
theorem Plan.Knows.journal_notMem (h : p.Knows b now) {t : Trusted r} (ht : t ∈ p.deleted) :
    deletingKey r.pre t.backupId ∉ b := by
  obtain ⟨hmarker, hnew, -⟩ := deleted_subset ht
  have hauthentic := ((h.markers t).mp hmarker).2
  intro hmem
  exact hnew ((h.mem_journalIds hauthentic).mpr ((h.journals t).mpr ⟨hmem, hauthentic⟩))

theorem singleLines_published (hlines : SingleLines b) {points : List (Trusted r)}
    (h : ∀ t ∈ points, completeKey r.pre t.backupId ∈ b) : SingleLines (published b points) := by
  intro key hkey
  by_cases hjournal : ∃ t ∈ points, key = deletingKey r.pre t.backupId
  · obtain ⟨t, ht, rfl⟩ := hjournal
    intro c hc
    have hcomplete := hlines _ (h t ht)
    simp only [deletingKey, String.toList_append, List.mem_append] at hc
    have hpart : ∀ d ∈ (completeKey r.pre t.backupId).toList,
        DeployRollback.AuditLog.isLineEnd d = false := hcomplete
    simp only [completeKey, String.toList_append, List.mem_append] at hpart
    rcases hc with ((hc | hc) | hc) | hc
    · exact hpart c (.inl (.inl (.inl hc)))
    · have hplain : ("/deleting/".toList.all fun d => !DeployRollback.AuditLog.isLineEnd d) =
          true := by decide
      simpa using List.all_eq_true.mp hplain c hc
    · exact hpart c (.inl (.inr hc))
    · exact hpart c (.inr hc)
  · refine hlines key ?_
    rw [← Finmap.lookup_isSome, ← lookup_published_of_notMem fun t ht heq => hjournal ⟨t, ht, heq⟩,
      Finmap.lookup_isSome]
    exact hkey

theorem Plan.Knows.singleLines (h : p.Knows b now) (hlines : SingleLines b)
    {first : List (Trusted r)} (hfirst : first <+: p.deleted) (gone : List String) :
    SingleLines (erased (published b first) gone) :=
  (singleLines_published hlines fun _ ht => h.completeKey_mem (hfirst.subset ht)).mono
    fun _ hkey => (mem_erased.mp hkey).1

/-- Every target has a name that a listing shows. -/
theorem Plan.Knows.addressed (h : p.Knows b now) {target : String} (ht : target ∈ p.targets) :
    Addressed target := by
  have hage : ∀ name ∈ ["database.dump.age", "config.tar.age", "manifest.json.age"],
      name ≠ "" ∧ ∀ c ∈ name.toList, Text.isIdChar c = true := chars_of_all (by decide)
  have hown : ∀ (root name : String),
      name ∈ ["database.dump.age", "config.tar.age", "manifest.json.age"] →
        Addressed (root ++ "/" ++ name) := by
    intro root name hname
    exact ⟨root, name, properName_of_chars (hage name hname).1 (hage name hname).2, rfl⟩
  rcases Plan.mem_targets.mp ht with ⟨t, ht, hkey⟩ | ⟨id, hid, rfl⟩
  · rcases Plan.mem_targetsOf.mp hkey with rfl | ⟨hmem, -⟩ | ⟨rfl, -⟩ | rfl
    · exact ⟨_, _, properName_json t.isBackupId, completeKey_eq ..⟩
    · rcases t.mem_objectKeys.2 _ hmem with hpoint | ⟨digest, kid, suffix, hkid, hsuffix, rfl⟩
      · simp only [pointKeys, List.mem_cons, List.not_mem_nil, or_false] at hpoint
        rcases hpoint with rfl | rfl | rfl
        · have := hown (pointRoot r.pre t.backupId) "database.dump.age" (by simp)
          rwa [String.append_assoc] at this
        · have := hown (pointRoot r.pre t.backupId) "config.tar.age" (by simp)
          rwa [String.append_assoc] at this
        · rw [manifestKeyOf_eq]
          exact hown _ _ (by simp)
      · refine ⟨r.pre ++ "/objects/sha256/" ++ digest, kid ++ suffix, ?_, ?_⟩
        · obtain ⟨hne, hchars⟩ := suffix_chars suffix (by rcases hsuffix with rfl | rfl <;> simp)
          exact properName_append (isSafeId_chars hkid) hne hchars
        · simp only [String.append_assoc]
    · exact ⟨_, _, properName_json t.isBackupId, verifiedKey_eq ..⟩
    · exact ⟨_, _, properName_json t.isBackupId, deletingKey_eq ..⟩
  · exact ⟨_, _, properName_json (h.finalizing id hid).1, deletingKey_eq ..⟩

/-- The journal of a point is published. -/
theorem wp_publishAndVerifyJournal {t : Trusted r} {s : Bucket} {Q : Post Bucket Exn Unit}
    (hnew : deletingKey r.pre t.backupId ∉ s) (hcrash : Q.crashed s)
    (hcrash' : Q.crashed (s.insert (deletingKey r.pre t.backupId) (canonicalJson t.record)))
    (hdone : Q.returned () (s.insert (deletingKey r.pre t.backupId) (canonicalJson t.record))) :
    (publishAndVerifyJournal r.pre t).wp Rclone.machine Q s := by
  have hcopy : (Command.copyto (canonicalJson t.record) (deletingKey r.pre t.backupId)).serve s =
      (true, s.insert (deletingKey r.pre t.backupId) (canonicalJson t.record)) := by
    unfold Command.serve
    dsimp only
    rw [Finmap.lookup_eq_none.mpr hnew]
  have hloads : (loads (canonicalJson t.record)).mapError Exn.loadError = .ok t.record := by
    rw [loads_canonicalJson t.plain]
    rfl
  have hread : (Command.cat (deletingKey r.pre t.backupId)).serve
      (s.insert (deletingKey r.pre t.backupId) (canonicalJson t.record)) =
        (some (canonicalJson t.record),
          s.insert (deletingKey r.pre t.backupId) (canonicalJson t.record)) := by
    rw [Command.serve, Finmap.lookup_insert]
  refine wp_command hcopy hcrash ?_
  refine (Prog.wp_bind ..).mpr (Prog.wp_ensure.mpr ⟨fun _ => ?_, fun hfalse => by cases hfalse⟩)
  refine wp_command hread hcrash' ?_
  dsimp only
  rw [hloads]
  refine (Prog.wp_bind ..).mpr (Prog.wp_liftExcept.mpr ⟨?_, fun e he => nomatch he⟩)
  rintro journal ⟨⟩
  refine Prog.wp_ensure.mpr ⟨fun _ => hdone, fun hfalse => ?_⟩
  rw [pyEq_refl] at hfalse
  cases hfalse

omit [Sha256] [Ed25519] in
/-- A target is gone. -/
theorem wp_deleteIfPresent {s : Bucket} {target : String} {Q : Post Bucket Exn Unit}
    (hlines : SingleLines s) (htarget : Addressed target) (hcrash : Q.crashed s)
    (hdone : Q.returned () (s.erase target)) :
    (deleteIfPresent target).wp Rclone.machine Q s := by
  obtain ⟨dir, name, hname, rfl⟩ := htarget
  have hlist : (Command.lsf dir).serve s = (lsf s dir, s) := rfl
  rw [deleteIfPresent, parentAndName_append hname.plain]
  refine wp_command hlist hcrash ?_
  by_cases hmem : dir ++ "/" ++ name ∈ s
  · have hdelete : (Command.deletefile (dir ++ "/" ++ name)).serve s =
        (true, s.erase (dir ++ "/" ++ name)) := by
      rw [Command.serve, decide_eq_true hmem]
    rw [if_pos (List.contains_iff_mem.mpr ((mem_lsf_iff_mem hlines hname).mpr hmem))]
    refine wp_command hdelete hcrash ?_
    exact Prog.wp_ensure.mpr ⟨fun _ => hdone, fun hfalse => by cases hfalse⟩
  · have hsame : s.erase (dir ++ "/" ++ name) = s := by
      refine Finmap.ext_lookup fun key => ?_
      by_cases heq : key = dir ++ "/" ++ name
      · rw [heq, Finmap.lookup_erase, Finmap.lookup_eq_none.mpr hmem]
      · rw [Finmap.lookup_erase_ne heq]
    rw [if_neg fun hlisted => hmem ((mem_lsf_iff_mem hlines hname).mp
      (List.contains_iff_mem.mp hlisted))]
    rw [hsame] at hdone
    rw [Prog.wp_pure]
    exact hdone

/-- The journals go first, or the first of them. -/
theorem wp_journals (h : p.Knows b now) {points : List (Trusted r)}
    (hpoints : points <+: p.deleted) :
    (points.forM (publishAndVerifyJournal r.pre)).wp Rclone.machine
      ⟨fun _ s => s = published b points, fun _ _ => False, p.Leaves b⟩ b := by
  have hpublished : ∀ first, first <+: p.deleted → p.Leaves b (published b first) :=
    fun first hfirst => ⟨⟨first, [], hfirst, List.nil_prefix, .inl rfl⟩, rfl⟩
  refine Prog.wp_forM (I := fun rest s => ∃ first, points = first ++ rest ∧
    s = published b first) ?_ ?_ points b ⟨[], rfl, rfl⟩
  · rintro t rest s ⟨first, hsplit, rfl⟩
    obtain ⟨later, hlater⟩ := hpoints
    have hdeleted : p.deleted = first ++ t :: (rest ++ later) := by simp [← hlater, hsplit]
    have ht : t ∈ p.deleted := by simp [hdeleted]
    have hnext : published b (first ++ [t]) = (published b first).insert
        (deletingKey r.pre t.backupId) (canonicalJson t.record) := by
      rw [published, List.foldl_append]
      rfl
    have hnew : deletingKey r.pre t.backupId ∉ published b first := by
      rw [← Finmap.lookup_eq_none, lookup_published_of_notMem, Finmap.lookup_eq_none]
      · exact h.journal_notMem ht
      · intro u hu heq
        have hunique := p.deleted_unique
        rw [hdeleted, List.map_append, List.map_cons] at hunique
        refine List.disjoint_of_nodup_append hunique (List.mem_map_of_mem hu) ?_
        rw [deletingKey_injective heq]
        exact List.mem_cons_self ..
    have hprefix : first ++ [t] <+: p.deleted := ⟨rest ++ later, by simp [hdeleted]⟩
    refine wp_publishAndVerifyJournal hnew
      (hpublished first ((List.prefix_append _ _).trans hprefix)) ?_ ?_
    · rw [← hnext]
      exact hpublished _ hprefix
    · exact ⟨first ++ [t], by simp [hsplit], hnext.symm⟩
  · rintro s ⟨first, hsplit, rfl⟩
    rw [hsplit, List.append_nil]

/-- Then the targets, or the first of them. -/
theorem wp_deletions (h : p.Knows b now) (hlines : SingleLines b) {gone : List String}
    (hgone : gone <+: p.targets) : (gone.forM deleteIfPresent).wp Rclone.machine
      ⟨fun _ s => s = erased (published b p.deleted) gone, fun _ _ => False, p.Leaves b⟩
      (published b p.deleted) := by
  have herased : ∀ first, first <+: gone → p.Leaves b (erased (published b p.deleted) first) :=
    fun first hfirst =>
      ⟨⟨p.deleted, first, List.prefix_refl _, hfirst.trans hgone, .inr rfl⟩, rfl⟩
  refine Prog.wp_forM (I := fun rest s => ∃ first, gone = first ++ rest ∧
    s = erased (published b p.deleted) first) ?_ ?_ gone _ ⟨[], rfl, rfl⟩
  · rintro target rest s ⟨first, hsplit, rfl⟩
    have htarget : target ∈ p.targets := hgone.subset (by simp [hsplit])
    refine wp_deleteIfPresent (h.singleLines hlines (List.prefix_refl _) first)
      (h.addressed htarget) (herased first ⟨target :: rest, hsplit.symm⟩)
      ⟨first ++ [target], by simp [hsplit], ?_⟩
    rw [erased_append]
    rfl
  · rintro s ⟨first, hsplit, rfl⟩
    rw [List.append_nil] at hsplit
    exact congrArg (erased _) hsplit.symm

/-- One run, wherever it is cut: it never fails. -/
theorem wp_applyPlan (h : p.Knows b now) (hlines : SingleLines b) :
    (applyPlan p).wp Rclone.machine ⟨fun _ s => s = p.ended.state b, fun _ _ => False,
      p.Leaves b⟩ b := by
  refine Prog.wp_bind_of (wp_journals h (List.prefix_refl _)) ?_ (fun _ _ hfalse => hfalse)
    (fun _ hleaves => hleaves)
  rintro _ s rfl
  exact wp_deletions h hlines (List.prefix_refl _)

end Run

/-! ## 2. The order of the deletions -/

section Order

variable {b : Bucket} {now : Instant} {p : Plan r}

/-- What goes before the manifest of a point. -/
def Plan.beforeManifest (p : Plan r) (t : Trusted r) : List String :=
  [completeKey r.pre t.backupId] ++
  t.objectKeys.filter (fun key => key ≠ t.manifestKey ∧ key ∉ p.referenced) ++
  (if t.backupId ∈ p.verified ∧ some t.backupId ≠ p.protectedVerified then
    [verifiedKey r.pre t.backupId] else [])

theorem Plan.targetsOf_eq {t : Trusted r} (ht : t ∈ p.deletionRecords) : p.targetsOf t =
    p.beforeManifest t ++ ([t.manifestKey] ++ [deletingKey r.pre t.backupId]) := by
  rw [Plan.targetsOf, if_pos (Plan.manifest_notMem_referenced ht), ← List.append_assoc]
  rfl

theorem Plan.mem_beforeManifest {t : Trusted r} {key : String} : key ∈ p.beforeManifest t ↔
    key = completeKey r.pre t.backupId ∨
    (key ∈ t.objectKeys ∧ key ≠ t.manifestKey ∧ key ∉ p.referenced) ∨
    (key = verifiedKey r.pre t.backupId ∧ t.backupId ∈ p.verified ∧
      some t.backupId ≠ p.protectedVerified) := by
  have hif : ∀ {c : Prop} [Decidable c] (k : String),
      key ∈ (if c then [k] else []) ↔ key = k ∧ c := by
    intro c _ k
    by_cases hc : c
    · simp [hc]
    · simp [hc]
  rw [Plan.beforeManifest, List.mem_append, List.mem_append, hif, List.mem_filter,
    decide_eq_true_eq, List.mem_singleton, or_assoc]

/-- Of a key that is one point's alone the order of that point decides. -/
theorem precedes_targets {t : Trusted r} {a c : String}
    (hown : ∀ s ∈ p.deletionRecords, c ∈ p.targetsOf s → s = t)
    (hfinal : ∀ id ∈ p.finalizing, c ≠ deletingKey r.pre id)
    (h : Precedes (p.targetsOf t) a c) : Precedes p.targets a c := by
  refine (precedes_flatMap fun s hs => ?_).append (precedes_of_notMem fun hmem => ?_)
  · by_cases hmem : c ∈ p.targetsOf s
    · rw [hown s hs hmem]
      exact h
    · exact precedes_of_notMem hmem
  · obtain ⟨id, hid, heq⟩ := List.mem_map.mp hmem
    exact hfinal id (List.mem_mergeSort.mp hid) heq.symm

/-- A manifest goes after all else of its point but the journal. -/
theorem precedes_manifest (h : p.Knows b now) {t : Trusted r} (ht : t ∈ p.deletionRecords)
    {key : String} (hkey : key ∈ p.beforeManifest t) :
    Precedes p.targets key t.manifestKey := by
  refine precedes_targets (t := t) (fun s hs hmem => ?_) (fun id _ heq => ?_) ?_
  · have heq : t.backupId = s.backupId := by
      rcases Plan.mem_targetsOf.mp hmem with heq | ⟨hobject, -⟩ | ⟨heq, -⟩ | heq
      · exact absurd (t.manifestKey_inArea.unique (heq ▸ inArea_complete ..)) (by decide)
      · exact Trusted.eq_of_manifest_mem hobject
      · exact absurd (t.manifestKey_inArea.unique (heq ▸ inArea_verified ..)) (by decide)
      · exact absurd (t.manifestKey_inArea.unique (heq ▸ inArea_deleting ..)) (by decide)
    exact (h.expired hs).1.eq (h.expired ht).1 heq.symm
  · exact absurd (t.manifestKey_inArea.unique (heq ▸ inArea_deleting ..)) (by decide)
  · rw [Plan.targetsOf_eq ht]
    refine precedes_append_of_mem hkey (fun hmem => ?_) _
    rcases Plan.mem_beforeManifest.mp hmem with heq | ⟨-, hne, -⟩ | ⟨heq, -⟩
    · exact absurd (t.manifestKey_inArea.unique (heq ▸ inArea_complete ..)) (by decide)
    · exact hne rfl
    · exact absurd (t.manifestKey_inArea.unique (heq ▸ inArea_verified ..)) (by decide)

/-- The journal goes last. -/
theorem precedes_journal (h : p.Knows b now) {t : Trusted r} (ht : t ∈ p.deletionRecords) :
    Precedes p.targets t.manifestKey (deletingKey r.pre t.backupId) := by
  refine precedes_targets (t := t) (fun s hs hmem => ?_) (fun id hid heq => ?_) ?_
  · have heq : t.backupId = s.backupId := by
      rcases Plan.mem_targetsOf.mp hmem with heq | ⟨hobject, -⟩ | ⟨heq, -⟩ | heq
      · exact absurd ((inArea_deleting ..).unique (heq ▸ inArea_complete ..)) (by decide)
      · exact absurd hobject (Trusted.notMem_of_inArea (inArea_deleting ..) (by decide) (by decide))
      · exact absurd ((inArea_deleting ..).unique (heq ▸ inArea_verified ..)) (by decide)
      · exact deletingKey_injective heq
    exact (h.expired hs).1.eq (h.expired ht).1 heq.symm
  · rw [← deletingKey_injective heq] at hid
    exact h.notMem_finalizing (h.expired ht).1 hid
  · rw [Plan.targetsOf_eq ht, ← List.append_assoc]
    refine precedes_append_of_mem (List.mem_append_right _ (List.mem_singleton_self _))
      (fun hmem => ?_) _
    rcases List.mem_append.mp hmem with hmem | hmem
    · rcases Plan.mem_beforeManifest.mp hmem with heq | ⟨hobject, -⟩ | ⟨heq, -⟩
      · exact absurd ((inArea_deleting ..).unique (heq ▸ inArea_complete ..)) (by decide)
      · exact absurd hobject (Trusted.notMem_of_inArea (inArea_deleting ..) (by decide) (by decide))
      · exact absurd ((inArea_deleting ..).unique (heq ▸ inArea_verified ..)) (by decide)
    · rw [List.mem_singleton] at hmem
      exact absurd (t.manifestKey_inArea.unique (hmem ▸ inArea_deleting ..)) (by decide)

/-- The ciphertext of an object goes before its metadata, whichever points name it. -/
theorem precedes_metadata {blob : String} (hblob : InArea r.pre .objects blob) :
    Precedes p.targets (blob ++ ".age") (blob ++ ".json") := by
  have hfree : blob ++ ".json" ∉ p.referenced → blob ++ ".age" ∉ p.referenced := by
    intro hmeta hcipher
    obtain ⟨t, ht, hkey⟩ := List.mem_flatMap.mp hcipher
    exact hmeta (List.mem_flatMap.mpr ⟨t, ht, (t.paired blob hblob).mp hkey⟩)
  have hother {a : Area} (hne : a ≠ .objects) {key : String} (hkey : InArea r.pre a key) :
      blob ++ ".json" ≠ key := by
    rintro rfl
    exact hne (hkey.unique (inArea_append hblob _))
  have hif {c : Prop} [Decidable c] {key : String} (hne : blob ++ ".json" ≠ key) :
      blob ++ ".json" ∉ (if c then [key] else []) := by
    split
    · simpa using hne
    · simp
  refine Precedes.append (precedes_flatMap fun t _ => ?_) (precedes_of_notMem fun hmem => ?_)
  · unfold Plan.targetsOf
    refine Precedes.append (Precedes.append (Precedes.append (Precedes.append ?_ ?_) ?_) ?_) ?_
    · exact precedes_of_notMem (by simpa using hother (by decide) (inArea_complete ..))
    · by_cases hmem : blob ++ ".json" ∈ t.objectKeys.filter fun key =>
        key ≠ t.manifestKey ∧ key ∉ p.referenced
      · refine precedes_of_sorted (t.sorted.filter _) ?_ (age_lt_json blob)
        obtain ⟨hmeta, hleft⟩ := List.mem_filter.mp hmem
        refine List.mem_filter.mpr ⟨(t.paired blob hblob).mpr hmeta, decide_eq_true ⟨?_,
          hfree (of_decide_eq_true hleft).2⟩⟩
        rintro heq
        exact absurd (t.manifestKey_inArea.unique (heq ▸ inArea_append hblob ".age")) (by decide)
      · exact precedes_of_notMem hmem
    · exact precedes_of_notMem (hif (hother (by decide) (inArea_verified ..)))
    · exact precedes_of_notMem (hif (hother (by decide) t.manifestKey_inArea))
    · exact precedes_of_notMem (by simpa using hother (by decide) (inArea_deleting ..))
  · obtain ⟨id, -, heq⟩ := List.mem_map.mp hmem
    exact hother (by decide) (inArea_deleting ..) heq.symm

end Order

/-! ## 3. What stands where a run was cut -/

/-- Nothing of the point is there but, it may be, its journal and objects that others share. -/
def Cleared (b : Bucket) (t : Trusted r) : Prop :=
  completeKey r.pre t.backupId ∉ b ∧ verifiedKey r.pre t.backupId ∉ b ∧ t.manifestKey ∉ b

/-- A point that is known names the object. -/
def Named (r : Rotation) (b : Bucket) (key : String) : Prop :=
  ∃ t : Trusted r, Stands b t ∧ key ∈ t.objectKeys

namespace Plan.Cut

variable {b : Bucket} {now : Instant} {p : Plan r} (k : p.Cut)

theorem lookup_state {a : Area} {key : String} (ha : InArea r.pre a key) (hne : a ≠ .deleting) :
    (k.state b).lookup key = if key ∈ k.gone then none else b.lookup key := by
  rw [state, lookup_erased, lookup_published_of_notMem]
  intro t _ heq
  exact hne (ha.unique (heq ▸ inArea_deleting ..))

theorem mem_state {a : Area} {key : String} (ha : InArea r.pre a key) (hne : a ≠ .deleting) :
    key ∈ k.state b ↔ key ∈ b ∧ key ∉ k.gone := by
  rw [← Finmap.lookup_isSome, ← Finmap.lookup_isSome, k.lookup_state ha hne]
  split
  · simp_all
  · simp_all

theorem lookup_deletingKey {t : Trusted r} (ht : t ∈ k.first) :
    (k.state b).lookup (deletingKey r.pre t.backupId) =
      if deletingKey r.pre t.backupId ∈ k.gone then none else some (canonicalJson t.record) := by
  rw [state, lookup_erased, lookup_published _ ht]
  exact p.deleted_unique.sublist (k.first_prefix.sublist.map _)

theorem lookup_deletingKey_of_notMem {backupId : String}
    (hnone : ∀ t ∈ k.first, t.backupId ≠ backupId) :
    (k.state b).lookup (deletingKey r.pre backupId) =
      if deletingKey r.pre backupId ∈ k.gone then none
      else b.lookup (deletingKey r.pre backupId) := by
  rw [state, lookup_erased, lookup_published_of_notMem]
  exact fun t ht heq => hnone t ht (deletingKey_injective heq).symm

theorem deletingKey_mem {backupId : String} : deletingKey r.pre backupId ∈ k.state b ↔
    deletingKey r.pre backupId ∉ k.gone ∧
      (deletingKey r.pre backupId ∈ b ∨ ∃ t ∈ k.first, t.backupId = backupId) := by
  rw [← Finmap.lookup_isSome]
  by_cases hfirst : ∃ t ∈ k.first, t.backupId = backupId
  · obtain ⟨t, ht, rfl⟩ := hfirst
    rw [k.lookup_deletingKey ht]
    by_cases hgone : deletingKey r.pre t.backupId ∈ k.gone
    · simp [hgone]
    · rw [if_neg hgone]
      exact ⟨fun _ => ⟨hgone, .inr ⟨t, ht, rfl⟩⟩, fun _ => rfl⟩
  · rw [k.lookup_deletingKey_of_notMem fun t ht heq => hfirst ⟨t, ht, heq⟩, or_iff_left hfirst,
      ← Finmap.lookup_isSome]
    split
    · simp_all
    · simp_all

variable {k}

theorem authentic_iff {t : Trusted r} :
    Authentic (k.state b) t ↔ Authentic b t ∧ t.manifestKey ∉ k.gone := by
  have hlookup := k.lookup_state (b := b) t.manifestKey_inArea (by decide)
  constructor
  · intro ht
    have hmem := ht.manifest
    rw [← t.manifestKey_eq, k.mem_state t.manifestKey_inArea (by decide)] at hmem
    rw [if_neg hmem.2, t.manifestKey_eq] at hlookup
    rw [Authentic, authenticatedRetentionRecord_congr hlookup] at ht
    exact ⟨ht, hmem.2⟩
  · rintro ⟨ht, hgone⟩
    rw [if_neg hgone, t.manifestKey_eq] at hlookup
    rw [Authentic, authenticatedRetentionRecord_congr hlookup]
    exact ht

/-- A manifest that is gone is one of a point that was to be deleted. -/
theorem mem_deletionRecords (h : p.Knows b now) {t : Trusted r} (ht : Authentic b t)
    (hgone : t.manifestKey ∈ k.gone) : t ∈ p.deletionRecords := by
  have htarget := k.gone_prefix.subset hgone
  obtain ⟨⟨s, hs, hkey⟩, -⟩ :=
    (Plan.object_mem_targets (.inl t.manifestKey_inArea)).mp htarget
  rwa [ht.eq (h.expired hs).1 (Trusted.eq_of_manifest_mem hkey)]

/-- As long as its manifest is there a point is known. -/
theorem stands_iff (h : p.Knows b now) {t : Trusted r} :
    Stands (k.state b) t ↔ Stands b t ∧ t.manifestKey ∉ k.gone := by
  have hcomplete : completeKey r.pre t.backupId ∈ k.state b ↔ completeKey r.pre t.backupId ∈ b ∧
      completeKey r.pre t.backupId ∉ k.gone := k.mem_state (inArea_complete ..) (by decide)
  constructor
  · rintro ⟨hauthentic, hkey⟩
    obtain ⟨hauthentic, hgone⟩ := authentic_iff.mp hauthentic
    refine ⟨⟨hauthentic, ?_⟩, hgone⟩
    rcases hkey with hkey | hkey
    · exact .inl (hcomplete.mp hkey).1
    · rcases (k.deletingKey_mem.mp hkey).2 with hkey | ⟨s, hs, heq⟩
      · exact .inr hkey
      · left
        rw [← heq]
        exact h.completeKey_mem (k.first_prefix.subset hs)
  · rintro ⟨⟨hauthentic, hkey⟩, hgone⟩
    refine ⟨authentic_iff.mpr ⟨hauthentic, hgone⟩, ?_⟩
    by_cases hdeleted : t ∈ p.deletionRecords
    · have hjournal : deletingKey r.pre t.backupId ∉ k.gone :=
        fun hmem => hgone (precedes_journal h hdeleted k.gone k.gone_prefix hmem)
      rcases List.mem_append.mp hdeleted with hjournaled | hdeleted
      · exact .inr (k.deletingKey_mem.mpr ⟨hjournal, .inl ((h.journals t).mp hjournaled).1⟩)
      · rcases k.journals_first with hnone | hall
        · left
          rw [hcomplete, hnone]
          exact ⟨h.completeKey_mem hdeleted, List.not_mem_nil⟩
        · right
          rw [← hall] at hdeleted
          exact k.deletingKey_mem.mpr ⟨hjournal, .inr ⟨t, hdeleted, rfl⟩⟩
    · left
      have hmarker : t ∈ p.markers.records := by
        refine (h.mem_all.mp (h.stands.mp ⟨hauthentic, hkey⟩)).resolve_right fun hjournal => ?_
        exact hdeleted (List.mem_append_left _ hjournal)
      refine hcomplete.mpr ⟨((h.markers t).mp hmarker).1, fun hmem => hdeleted ?_⟩
      obtain ⟨s, hs, heq⟩ := Plan.completeKey_mem_targets.mp (k.gone_prefix.subset hmem)
      rwa [hauthentic.eq (h.expired hs).1 heq.symm]

/-- Without its manifest nothing of a point is left but its journal. -/
theorem cleared_of_gone (h : p.Knows b now) {t : Trusted r} (ht : Authentic b t)
    (hgone : t.manifestKey ∈ k.gone) : Cleared (k.state b) t := by
  have hdeleted := mem_deletionRecords h ht hgone
  have hbefore : ∀ key ∈ p.beforeManifest t, key ∈ k.gone := fun key hkey =>
    precedes_manifest h hdeleted hkey k.gone k.gone_prefix hgone
  refine ⟨fun hmem => ?_, fun hmem => ?_, fun hmem => ?_⟩
  · rw [k.mem_state (inArea_complete ..) (by decide)] at hmem
    exact hmem.2 (hbefore _ (Plan.mem_beforeManifest.mpr (.inl rfl)))
  · rw [k.mem_state (inArea_verified ..) (by decide)] at hmem
    exact hmem.2 (hbefore _ (Plan.mem_beforeManifest.mpr
      (.inr (.inr ⟨rfl, h.verified_of_mem t hmem.1, (h.expired hdeleted).2.2⟩))))
  · rw [k.mem_state t.manifestKey_inArea (by decide)] at hmem
    exact hmem.2 hgone

theorem cleared (k : p.Cut) {t : Trusted r} (ht : Cleared b t) : Cleared (k.state b) t := by
  refine ⟨fun hmem => ht.1 ?_, fun hmem => ht.2.1 ?_, fun hmem => ht.2.2 ?_⟩
  · exact ((k.mem_state (inArea_complete ..) (by decide)).mp hmem).1
  · exact ((k.mem_state (inArea_verified ..) (by decide)).mp hmem).1
  · exact ((k.mem_state t.manifestKey_inArea (by decide)).mp hmem).1

/-- An object that is still there is named by a point that is still known. -/
theorem named (h : p.Knows b now) {key : String} (hnamed : Named r b key)
    (hmem : key ∈ k.state b) : Named r (k.state b) key := by
  obtain ⟨t, ht, hkey⟩ := hnamed
  have hfree : key ∉ k.gone := by
    rcases Trusted.inArea hkey with harea | harea
    · exact ((k.mem_state harea (by decide)).mp hmem).2
    · exact ((k.mem_state harea (by decide)).mp hmem).2
  by_cases hgone : t.manifestKey ∈ k.gone
  · have hdeleted := mem_deletionRecords h ht.1 hgone
    have hreferenced : key ∈ p.referenced := by
      by_contra hunreferenced
      refine hfree (precedes_manifest h hdeleted ?_ k.gone k.gone_prefix hgone)
      refine Plan.mem_beforeManifest.mpr (.inr (.inl ⟨hkey, fun heq => hfree ?_, hunreferenced⟩))
      rw [heq]
      exact hgone
    obtain ⟨s, hs, hskey⟩ := List.mem_flatMap.mp hreferenced
    have hmarker := (h.markers s).mp (List.mem_filter.mp hs).1
    refine ⟨s, (stands_iff h).mpr ⟨⟨hmarker.2, .inl hmarker.1⟩, fun hsgone => ?_⟩, hskey⟩
    exact Plan.kept_disjoint hs (mem_deletionRecords h hmarker.2 hsgone) rfl
  · exact ⟨t, (stands_iff h).mpr ⟨ht, hgone⟩, hkey⟩

end Plan.Cut

/-! ## 4. Accepted again -/

section Again

variable {b s : Bucket} {now : Instant} {p : Plan r} {backupId : String}

theorem journalRecord_of_record {t : Trusted r} {journal : Json}
    (hid : Text.isBackupId backupId = true) (ht : authenticatedRetentionRecord r s backupId = .ok t)
    (hread : readJson s (deletingKey r.pre backupId) = .ok journal)
    (hsame : journal.pyEq t.record = true) : journalRecord r s backupId = .ok (some t) := by
  have hexists : remoteFileExists s (manifestKeyOf r.pre backupId) = true := by
    have hmem := (authenticatedRetentionRecord_ok ht).2
    rw [manifestKeyOf_eq] at hmem ⊢
    exact remoteFileExists_of_mem properName_manifest hmem
  rw [journalRecord, check_of_true hid, hexists]
  simp only [bind, Except.bind, if_pos]
  rw [ht]
  dsimp only
  rw [hread]
  dsimp only
  rw [check_of_true hsame]
  rfl

theorem journalRecord_of_cleared (hlines : SingleLines s) (hid : Text.isBackupId backupId = true)
    (hmanifest : manifestKeyOf r.pre backupId ∉ s) (hcomplete : completeKey r.pre backupId ∉ s)
    (hverified : verifiedKey r.pre backupId ∉ s) : journalRecord r s backupId = .ok none := by
  have habsent : ∀ {dir name : String}, ProperName name → dir ++ "/" ++ name ∉ s →
      remoteFileExists s (dir ++ "/" ++ name) = false := fun hname hnot =>
    Bool.eq_false_iff.mpr fun hexists => hnot ((remoteFileExists_iff hlines hname).mp hexists)
  rw [manifestKeyOf_eq] at hmanifest
  rw [completeKey_eq] at hcomplete
  rw [verifiedKey_eq] at hverified
  rw [journalRecord, check_of_true hid, manifestKeyOf_eq, completeKey_eq, verifiedKey_eq,
    habsent properName_manifest hmanifest, habsent (properName_json hid) hcomplete,
    habsent (properName_json hid) hverified]
  rfl

omit [Sha256] [Ed25519] in
/-- A name of a listing is listed wherever its key is. -/
theorem listed_again (hlines : SingleLines b) (hslines : SingleLines s) {dir name : String}
    (hsub : dir ++ "/" ++ name ∈ s → dir ++ "/" ++ name ∈ b) (hlisted : name ∈ lsf s dir) :
    name ∈ lsf b dir := by
  rw [mem_lsf_iff hslines] at hlisted
  rw [mem_lsf_iff hlines]
  exact ⟨hlisted.1, hlisted.2.1, hsub hlisted.2.2⟩

variable {k : p.Cut}

theorem completionRecord_again (hplan : plan r b now = .ok p) (hlines : SingleLines b)
    (hlisted : backupId ++ ".json" ∈ lsf (k.state b) (r.pre ++ "/complete")) :
    ∃ t, completionRecord r (k.state b) backupId = .ok t := by
  have h := plan_knows hplan
  have hslines := h.singleLines hlines k.first_prefix k.gone
  have hkey : completeKey r.pre backupId ∈ k.state b := by
    rw [completeKey_eq]
    exact ((mem_lsf_iff hslines).mp hlisted).2.2
  have hkeyb := (k.mem_state (inArea_complete ..) (by decide)).mp hkey
  have hlistedb : backupId ++ ".json" ∈ lsf b (r.pre ++ "/complete") := by
    refine listed_again hlines hslines (fun _ => ?_) hlisted
    rw [← completeKey_eq]
    exact hkeyb.1
  obtain ⟨hcompleted, hids⟩ :=
    completionRecords_ok (fun t ht => absurd ht List.not_mem_nil) (plan_ok hplan).1
  obtain ⟨t, ht, rfl⟩ := TrustedRecords.mem_ids.mp ((hids backupId).mpr (.inr hlistedb))
  have hauthentic := ((h.markers t).mp ht).2
  have hgone : t.manifestKey ∉ k.gone :=
    fun hmem => (k.cleared_of_gone h hauthentic hmem).1 hkey
  have hmanifest := k.lookup_state (b := b) t.manifestKey_inArea (by decide)
  rw [if_neg hgone, t.manifestKey_eq] at hmanifest
  have hmarker := k.lookup_state (b := b) (inArea_complete r.pre t.backupId) (by decide)
  rw [if_neg hkeyb.2] at hmarker
  exact ⟨t, (completionRecord_congr hmarker hmanifest).trans (hcompleted t ht)⟩

theorem journalRecord_again (hplan : plan r b now = .ok p) (hlines : SingleLines b)
    (hlisted : backupId ++ ".json" ∈ lsf (k.state b) (r.pre ++ "/deleting")) :
    ∃ x, journalRecord r (k.state b) backupId = .ok x := by
  have h := plan_knows hplan
  have hslines := h.singleLines hlines k.first_prefix k.gone
  have hkey : deletingKey r.pre backupId ∈ k.state b := by
    rw [deletingKey_eq]
    exact ((mem_lsf_iff hslines).mp hlisted).2.2
  obtain ⟨hgone, hkey⟩ := k.deletingKey_mem.mp hkey
  -- of a point whose manifest is gone nothing else is left
  have hrest : ∀ {t : Trusted r}, Authentic b t → t.manifestKey ∈ k.gone →
      ∃ x, journalRecord r (k.state b) t.backupId = .ok x := by
    intro t ht hmanifest
    obtain ⟨hcomplete, hverified, hmanifest⟩ := k.cleared_of_gone h ht hmanifest
    rw [t.manifestKey_eq] at hmanifest
    exact ⟨none, journalRecord_of_cleared hslines t.isBackupId hmanifest hcomplete hverified⟩
  by_cases hfirst : ∃ t ∈ k.first, t.backupId = backupId
  · -- a journal that was published
    obtain ⟨t, ht, rfl⟩ := hfirst
    have hauthentic := ((h.markers t).mp (deleted_subset (k.first_prefix.subset ht)).1).2
    by_cases hmanifest : t.manifestKey ∈ k.gone
    · exact hrest hauthentic hmanifest
    · refine ⟨some t, journalRecord_of_record t.isBackupId
        (k.authentic_iff.mpr ⟨hauthentic, hmanifest⟩) ?_ (pyEq_refl _)⟩
      rw [readJson, k.lookup_deletingKey ht, if_neg hgone]
      dsimp only
      rw [loads_canonicalJson t.plain]
      rfl
  · -- a journal that was there
    have hkeyb := hkey.resolve_right hfirst
    have hsame := k.lookup_deletingKey_of_notMem (b := b) fun t ht heq => hfirst ⟨t, ht, heq⟩
    rw [if_neg hgone] at hsame
    have hlistedb : backupId ++ ".json" ∈ lsf b (r.pre ++ "/deleting") := by
      refine listed_again hlines hslines (fun _ => ?_) hlisted
      rw [← deletingKey_eq]
      exact hkeyb
    obtain ⟨hjournaled, hfinal, hids⟩ := journalRecords_ok
      (fun t ht => absurd ht List.not_mem_nil) (fun id hid => absurd hid List.not_mem_nil)
      (plan_ok hplan).2.1
    rcases (hids backupId).mpr (.inr hlistedb) with hmem | hmem
    · obtain ⟨t, ht, rfl⟩ := TrustedRecords.mem_ids.mp hmem
      have hauthentic := ((h.journals t).mp ht).2
      by_cases hmanifest : t.manifestKey ∈ k.gone
      · exact hrest hauthentic hmanifest
      · obtain ⟨-, journal, hread, hequal⟩ := journalRecord_some (hjournaled t ht)
        exact ⟨some t, journalRecord_of_record t.isBackupId
          (k.authentic_iff.mpr ⟨hauthentic, hmanifest⟩) ((readJson_congr hsame).trans hread) hequal⟩
    · obtain ⟨hid, hmanifest, hcomplete, hverified⟩ := h.finalizing backupId hmem
      have hown : manifestKeyOf r.pre backupId ∈ pointKeys r.pre backupId := by simp [pointKeys]
      have hpoint := inArea_pointKeys hown
      refine ⟨none, journalRecord_of_cleared hslines hid (fun hmem => hmanifest ?_)
        (fun hmem => hcomplete ?_) fun hmem => hverified ?_⟩
      · exact ((k.mem_state hpoint (by decide)).mp hmem).1
      · exact ((k.mem_state (inArea_complete ..) (by decide)).mp hmem).1
      · exact ((k.mem_state (inArea_verified ..) (by decide)).mp hmem).1

/-- A marker that is still there still verifies its point. -/
theorem verified_again (hplan : plan r b now = .ok p) (hlines : SingleLines b)
    {all : List (Trusted r)} (hall : ∀ t, t ∈ all ↔ Stands (k.state b) t) {name : String}
    (hlisted : name ∈ lsf (k.state b) (r.pre ++ "/verified")) :
    ∃ verified, validatedVerifiedId r.conv.repr (fun key => (k.state b).lookup key) r.pre (byId all)
      r.restoreVerificationKey r.restoreVerificationKeyId name = .ok verified := by
  have h := plan_knows hplan
  have hslines := h.singleLines hlines k.first_prefix k.gone
  cases hstem : stem name with
  | none => exact ⟨none, validatedVerifiedId_none hstem⟩
  | some id =>
    obtain rfl := stem_eq_some.mp hstem
    have hkey : verifiedKey r.pre id ∈ k.state b := by
      rw [verifiedKey_eq]
      exact ((mem_lsf_iff hslines).mp hlisted).2.2
    have hkeyb := (k.mem_state (inArea_verified ..) (by decide)).mp hkey
    have hlistedb : id ++ ".json" ∈ lsf b (r.pre ++ "/verified") := by
      refine listed_again hlines hslines (fun _ => ?_) hlisted
      rw [← verifiedKey_eq]
      exact hkeyb.1
    obtain ⟨hnames, hids⟩ := mem_validatedVerifiedIds (plan_ok hplan).2.2.1
    obtain ⟨verified, hvalid⟩ := hnames _ hlistedb
    obtain rfl := validatedVerifiedId_stem hstem hvalid
    obtain ⟨t, ht, rfl⟩ := h.verified id ((hids id).mpr ⟨_, hlistedb, hvalid⟩)
    have hauthentic := h.authentic ht
    have hgone : t.manifestKey ∉ k.gone :=
      fun hmem => (k.cleared_of_gone h hauthentic hmem).2.1 hkey
    have hstands : t ∈ all := (hall t).mpr ((k.stands_iff h).mpr ⟨h.stands.mpr ht, hgone⟩)
    have hsame : (k.state b).lookup (verifiedKey r.pre t.backupId) =
        b.lookup (verifiedKey r.pre t.backupId) := by
      rw [k.lookup_state (inArea_verified ..) (by decide), if_neg hkeyb.2]
    have hallAuthentic : ∀ s ∈ all, Authentic (k.state b) s := fun s hs => ((hall s).mp hs).1
    refine ⟨some t.backupId, (verifies_congr (lookup_byId hallAuthentic hstands) hsame).mpr ?_⟩
    exact (verifies_congr (lookup_byId (fun s hs => h.authentic hs) ht) rfl).mp hvalid

/-- The decisions are made if no point raises and every journal's point has expired. -/
theorem exists_rotateDecisions {markers journals : TrustedRecords r} {finalizing : List String}
    {protectedVerified : Option String} {c : Cutoffs} (hc : cutoffs now = .ok c)
    (hmarkers : ∀ t ∈ markers.records, Authentic b t)
    (hjournals : ∀ t ∈ journals.records, Authentic b t)
    (hchecked : ∀ t ∈ allTrusted markers journals, checkPoint t.point = .ok ())
    (hexpired : ∀ t ∈ journals.records, decision c protectedVerified t.point = .deleteExpiredAll) :
    ∃ decisions, rotateDecisions markers.points journals.points finalizing now protectedVerified =
      .ok decisions := by
  have hids : journals.points.ids = journals.ids := List.map_map
  have hunprotected : protectedVerified.any (· ∈ journals.points.ids) = false := by
    rw [Bool.eq_false_iff]
    intro hany
    obtain ⟨id, rfl, hid⟩ := (Option.any_eq_true ..).mp hany
    rw [decide_eq_true_eq, hids] at hid
    obtain ⟨t, ht, rfl⟩ := TrustedRecords.mem_ids.mp hid
    exact (decision_delete.mp (hexpired t ht)).2 rfl
  have hpoints : ∀ point ∈ (allTrusted markers journals).map Trusted.point,
      checkPoint point = .ok () := by
    intro point hpoint
    obtain ⟨t, ht, rfl⟩ := List.mem_map.mp hpoint
    exact hchecked t ht
  obtain ⟨decisions, hdecide⟩ := (@decideFrom_isOk c protectedVerified _ fun _ => none).mpr hpoints
  have hall : ∀ t ∈ allTrusted markers journals, Authentic b t := fun t ht =>
    ((mem_allTrusted hmarkers hjournals).mp ht).elim (hmarkers t) (hjournals t)
  have hdeleted : ∀ id ∈ journals.ids, decisions id = some .deleteExpiredAll := by
    intro id hid
    obtain ⟨t, ht, rfl⟩ := TrustedRecords.mem_ids.mp hid
    have hmem := (mem_allTrusted hmarkers hjournals).mpr (.inr ht)
    have hdecision := @decideFrom_eq _ _ t.point _ _ _ ?_ (.inl (List.mem_map_of_mem hmem)) hdecide
    · rw [hexpired t ht] at hdecision
      exact hdecision
    · intro q hq hqid
      obtain ⟨s, hs, rfl⟩ := List.mem_map.mp hq
      rw [(hall s hs).eq (hall t hmem) hqid]
  have hretention : retentionDecisions (allMarkers markers.points journals.points) now
      protectedVerified = .ok decisions := by
    rw [retentionDecisions, hc, ok_bind, allMarkers_points]
    exact hdecide
  unfold rotateDecisions
  rw [hunprotected, if_neg Bool.false_ne_true, hretention, ok_bind, hids,
    if_pos (List.all_eq_true.mpr fun id hid => decide_eq_true (hdeleted id hid))]
  exact ⟨_, rfl⟩

/-- What the newest verified point is does not change. -/
theorem protectedVerified_again (h : p.Knows b now) {p' : Plan r} (h' : p'.Reads (k.state b)) :
    p'.protectedVerified = p.protectedVerified := by
  -- what verifies a point that is left verified it before
  have hbefore : ∀ {t : Trusted r}, Verifies (k.state b) t → Verifies b t := by
    intro t ht
    have hmem : verifiedKey r.pre t.backupId ∈ k.state b := by
      rw [← Finmap.lookup_isSome]
      exact Option.isSome_iff_ne_none.mpr (validatedVerifiedId_ok ht).2.2.1
    have hgone := ((k.mem_state (inArea_verified ..) (by decide)).mp hmem).2
    have hsame := k.lookup_state (b := b) (inArea_verified r.pre t.backupId) (by decide)
    rw [if_neg hgone] at hsame
    exact (verifies_congr (List.lookup_cons_self ..) hsame).mp ht
  cases hold : p.protectedVerified with
  | some id =>
    obtain ⟨t, ht, rfl⟩ : ∃ t ∈ allTrusted p.markers p.journals, t.backupId = id := by
      obtain ⟨newest, hmax, rfl⟩ := Option.map_eq_some_iff.mp hold
      obtain ⟨other, hother, rfl⟩ := List.mem_map.mp (List.max?_eq_some_iff.mp hmax).1
      exact h.verified other hother
    obtain ⟨hverifies, hnewest⟩ := (h.protectedVerified_eq ht).mp hold
    have hstands : Stands (k.state b) t := by
      refine (k.stands_iff h).mpr ⟨h.stands.mpr ht, fun hgone => ?_⟩
      exact (h.expired (k.mem_deletionRecords h (h.authentic ht) hgone)).2.2 hold.symm
    have hgone : verifiedKey r.pre t.backupId ∉ k.gone := by
      intro hmem
      exact (Plan.verifiedKey_mem_targets.mp (k.gone_prefix.subset hmem)).2.2 hold.symm
    have hsame := k.lookup_state (b := b) (inArea_verified r.pre t.backupId) (by decide)
    rw [if_neg hgone] at hsame
    refine (h'.protectedVerified_eq (h'.stands.mp hstands)).mpr
      ⟨(verifies_congr (List.lookup_cons_self ..) hsame).mpr hverifies, fun s hs hs' => ?_⟩
    exact hnewest s ((k.stands_iff h).mp hs).1 (hbefore hs')
  | none =>
    cases hnew : p'.protectedVerified with
    | none => rfl
    | some id =>
      obtain ⟨t, ht, rfl⟩ : ∃ t ∈ allTrusted p'.markers p'.journals, t.backupId = id := by
        obtain ⟨newest, hmax, rfl⟩ := Option.map_eq_some_iff.mp hnew
        obtain ⟨other, hother, rfl⟩ := List.mem_map.mp (List.max?_eq_some_iff.mp hmax).1
        exact h'.verified other hother
      have hverifies := hbefore ((h'.protectedVerified_eq ht).mp hnew).1
      have hstands := ((k.stands_iff h).mp (h'.stands.mpr ht)).1
      have hmem := (h.verifies t (h.stands.mp hstands)).mpr hverifies
      have hempty := List.max?_eq_none_iff.mp (Option.map_eq_none_iff.mp hold)
      rw [List.map_eq_nil_iff.mp hempty] at hmem
      cases hmem

/-- Wherever a run was cut, a later one is accepted. -/
theorem plan_again {t t' : BusinessTime} (hplan : plan r b t.instant = .ok p)
    (hlines : SingleLines b) (k : p.Cut) (hle : t ≤ t') :
    ∃ p', plan r (k.state b) t'.instant = .ok p' ∧ p'.protectedVerified = p.protectedVerified := by
  have h := plan_knows hplan
  have hstart : ∃ c, cutoffs t.instant = .ok c ∧ p.Decided c := h.exists_decided
  obtain ⟨c, hc, hdecided⟩ := hstart
  obtain ⟨c', hc', hcutoffs⟩ := cutoffs_mono hle hc
  obtain ⟨markers, hmarkers⟩ := exists_completionRecords (d := .empty)
    fun id hlisted => completionRecord_again (k := k) hplan hlines hlisted
  have hread : ∃ result, journalRecords r (k.state b) (lsf (k.state b) (r.pre ++ "/deleting"))
      .empty [] = .ok result :=
    exists_journalRecords fun id hlisted => journalRecord_again hplan hlines hlisted
  obtain ⟨⟨journals, finalizing⟩, hjournals⟩ := hread
  have hmarker := mem_completionRecords hmarkers
  have hjournal := (mem_journalRecords hjournals).1
  have hall : ∀ u, u ∈ allTrusted markers journals ↔ Stands (k.state b) u := by
    intro u
    rw [mem_allTrusted (fun u hu => ((hmarker u).mp hu).2) fun u hu => ((hjournal u).mp hu).2,
      hmarker, hjournal, ← or_and_right, and_comm, Stands]
  obtain ⟨verified, hverified⟩ := exists_validatedVerifiedIds
    fun name hlisted => verified_again hplan hlines hall hlisted
  have hreads : Plan.Reads ⟨markers, journals, finalizing, verified, fun _ => none⟩ (k.state b) :=
    plan_reads hmarkers hjournals hverified
  have hprotected := protectedVerified_again h hreads
  have hbefore : ∀ u, Stands (k.state b) u → u ∈ allTrusted p.markers p.journals :=
    fun u hu => h.stands.mp ((k.stands_iff h).mp hu).1
  -- the journals are those that were there and those of what had expired before
  have hexpired : ∀ u ∈ journals.records,
      decision c' p.protectedVerified u.point = .deleteExpiredAll := by
    intro u hu
    obtain ⟨hkey, hauthentic⟩ := (hjournal u).mp hu
    have hauthentic := (k.authentic_iff.mp hauthentic).1
    refine decision_mono hcutoffs ?_
    rcases (k.deletingKey_mem.mp hkey).2 with hkey | ⟨v, hv, heq⟩
    · exact hdecided.journals u ((h.journals u).mpr ⟨hkey, hauthentic⟩)
    · have hdeleted := k.first_prefix.subset hv
      obtain ⟨hvmarker, hvnew, -⟩ := deleted_subset hdeleted
      obtain rfl := ((h.markers v).mp hvmarker).2.eq hauthentic heq
      have hdecision := (of_decide_eq_true (List.mem_filter.mp hdeleted).2).2
      rw [hdecided.markers v hvmarker hvnew] at hdecision
      exact Option.some.inj hdecision
  have hdecide : ∃ decisions, rotateDecisions markers.points journals.points finalizing
      t'.instant p.protectedVerified = .ok decisions :=
    exists_rotateDecisions hc' (fun u hu => ((hmarker u).mp hu).2)
      (fun u hu => ((hjournal u).mp hu).2)
      (fun u hu => hdecided.checked u (hbefore u ((hall u).mp hu))) hexpired
  obtain ⟨decisions, hdecisions⟩ := hdecide
  rw [← hprotected] at hdecisions
  exact ⟨⟨markers, journals, finalizing, verified, decisions⟩,
    plan_eq hmarkers hjournals hverified hdecisions, hprotected⟩

end Again

/-! ## 5. Runs after one another -/

section Runs

variable {b : Bucket} {p : Plan r}

/-- A rotation that may be cut. -/
structure RotationAttempt where
  time : BusinessTime
  calls : Nat

def RotationAttempt.leaves (r : Rotation) (b : Bucket) (a : RotationAttempt) : Bucket :=
  ((rotate r b a.time.instant false).exec Rclone.machine a.calls b).state

/-- Rotations that were cut after one another, the first of which was accepted, and the time of
one that is not. -/
structure Interrupted (r : Rotation) where
  bucket : Bucket
  lines : SingleLines bucket
  time : BusinessTime
  plan : Plan r
  accepted : BackupRecovery.plan r bucket time.instant = .ok plan
  attempts : List RotationAttempt
  last : BusinessTime
  ordered : (time :: (attempts.map RotationAttempt.time ++ [last])).Pairwise (· ≤ ·)

/-- The bucket that they leave. -/
def Interrupted.left (i : Interrupted r) : Bucket :=
  i.attempts.foldl (RotationAttempt.leaves r) i.bucket

theorem rotate_wp {now : Instant} (hplan : plan r b now = .ok p) (hlines : SingleLines b) :
    (rotate r b now false).wp Rclone.machine
      ⟨fun _ s => s = p.ended.state b, fun _ _ => False, p.Leaves b⟩ b := by
  rw [rotate, hplan]
  refine Prog.wp_bind_of (p := applyPlan p) (wp_applyPlan (plan_knows hplan) hlines)
    (fun _ s hend => ?_) (fun _ _ hfalse => hfalse) (fun _ hleaves => hleaves)
  dsimp only
  rw [Prog.wp_pure]
  exact hend

theorem leaves_cut {a : RotationAttempt} (hplan : plan r b a.time.instant = .ok p)
    (hlines : SingleLines b) : ∃ k : p.Cut, a.leaves r b = k.state b := by
  have hhalt := Prog.exec_of_wp _ a.calls _ (rotate_wp hplan hlines)
  unfold Post.Holds at hhalt
  split at hhalt
  · exact ⟨p.ended, hhalt⟩
  · exact hhalt.elim
  · exact hhalt

/-- A run can be cut wherever the plan can. -/
theorem exists_leaves (hplan : plan r b now = .ok p) (hlines : SingleLines b) (k : p.Cut) :
    ∃ n, ((rotate r b now false).exec Rclone.machine n b).state = k.state b := by
  have h := plan_knows hplan
  have hrotate : rotate r b now false = (p.deleted.forM (publishAndVerifyJournal r.pre) >>=
      fun _ => p.targets.forM deleteIfPresent) >>= fun _ =>
        (pure ⟨p.decisions, p.targets, false⟩ : RotationProg Report) := by
    rw [rotate, hplan]
    rfl
  obtain ⟨first, gone, hfirst, hgone, hjournals⟩ := k
  rw [hrotate]
  rcases hjournals with rfl | rfl
  · change ∃ n, (Prog.exec _ _ n b).state = published b first
    obtain ⟨rest, hrest⟩ := hfirst
    rw [← hrest, Prog.forM_append, bind_assoc, bind_assoc]
    exact Prog.exists_exec_of_wp (wp_journals h ⟨rest, hrest⟩)
  · change ∃ n, (Prog.exec _ _ n b).state = erased (published b p.deleted) gone
    obtain ⟨rest, hrest⟩ := hgone
    have hfirst : (p.deleted.forM (publishAndVerifyJournal r.pre) >>= fun _ =>
        gone.forM deleteIfPresent).wp Rclone.machine
        ⟨fun _ s => s = erased (published b p.deleted) gone, fun _ _ => False, p.Leaves b⟩ b := by
      refine Prog.wp_bind_of (wp_journals h (List.prefix_refl _)) ?_ (fun _ _ hfalse => hfalse)
        (fun _ hleaves => hleaves)
      rintro _ s rfl
      exact wp_deletions h hlines ⟨rest, hrest⟩
    rw [← hrest, Prog.forM_append, ← bind_assoc, bind_assoc]
    exact Prog.exists_exec_of_wp hfirst

theorem run_rotate {now : Instant} (hplan : plan r b now = .ok p) (hlines : SingleLines b) :
    ∃ report, (rotate r b now false).run Rclone.machine b = (.ok report, p.ended.state b) := by
  have hrun := Prog.run_of_wp _ _ (rotate_wp hplan hlines)
  split at hrun
  · rename_i report s heq
    rw [heq, hrun]
    exact ⟨report, rfl⟩
  · exact hrun.elim

/-- What is known of a point that some run set out to delete: it is still due, or all that is left
of it is its journal; and what is left of its objects is named by others. -/
structure Due (p : Plan r) (b : Bucket) (now : Instant) (t : Trusted r) : Prop where
  due : (Stands b t ∧ Expired now t ∧ some t.backupId ≠ p.protectedVerified) ∨ Cleared b t
  named : ∀ key ∈ t.objectKeys, key ∈ b → Named r b key

theorem Expired.mono {t t' : BusinessTime} (hle : t ≤ t') {u : Trusted r}
    (h : Expired t.instant u) : Expired t'.instant u := by
  obtain ⟨c, hc, hdelete⟩ := h
  obtain ⟨c', hc', hcutoffs⟩ := cutoffs_mono hle hc
  exact ⟨c', hc', decision_mono hcutoffs hdelete⟩

theorem due_of_deletion {now : Instant} (h : p.Knows b now) {t : Trusted r}
    (ht : t ∈ p.deletionRecords) : Due p b now t := by
  obtain ⟨hauthentic, hexpired, hunprotected⟩ := h.expired ht
  have hstands : Stands b t := by
    refine ⟨hauthentic, ?_⟩
    rcases List.mem_append.mp ht with ht | ht
    · exact .inr ((h.journals t).mp ht).1
    · exact .inl (h.completeKey_mem ht)
  exact ⟨.inl ⟨hstands, hexpired, hunprotected⟩, fun key hkey _ => ⟨t, hstands, hkey⟩⟩

/-- It remains so where a run is cut. -/
theorem Due.cut {t t' : BusinessTime} (h : p.Knows b t.instant) (hle : t ≤ t') {k : p.Cut}
    {p' : Plan r} (hprotected : p'.protectedVerified = p.protectedVerified) {u : Trusted r}
    (hu : Due p b t.instant u) : Due p' (k.state b) t'.instant u := by
  constructor
  · rcases hu.due with ⟨hstands, hexpired, hunprotected⟩ | hcleared
    · by_cases hgone : u.manifestKey ∈ k.gone
      · exact .inr (k.cleared_of_gone h hstands.1 hgone)
      · rw [hprotected]
        exact .inl ⟨(k.stands_iff h).mpr ⟨hstands, hgone⟩, hexpired.mono hle, hunprotected⟩
    · exact .inr (k.cleared hcleared)
  · intro key hkey hmem
    have hmemb : key ∈ b := by
      rcases Trusted.inArea hkey with harea | harea
      · exact ((k.mem_state harea (by decide)).mp hmem).1
      · exact ((k.mem_state harea (by decide)).mp hmem).1
    exact k.named h (hu.named key hkey hmemb) hmem

/-- What is known after a whole run is what was kept. -/
theorem stands_ended {now : Instant} (h : p.Knows b now) {t : Trusted r}
    (ht : Stands (p.ended.state b) t) : completeKey r.pre t.backupId ∈ p.ended.state b := by
  obtain ⟨hstands, hgone⟩ := (p.ended.stands_iff h).mp ht
  have hkept : t ∉ p.deletionRecords := fun hdeleted => hgone
    ((Plan.object_mem_targets (.inl t.manifestKey_inArea)).mpr
      ⟨⟨t, hdeleted, t.manifest_mem⟩, Plan.manifest_notMem_referenced hdeleted⟩)
  have hmarker : t ∈ p.markers.records := by
    refine (h.mem_all.mp (h.stands.mp hstands)).resolve_right fun hjournal => ?_
    exact hkept (List.mem_append_left _ hjournal)
  refine (p.ended.mem_state (inArea_complete ..) (by decide)).mpr
    ⟨((h.markers t).mp hmarker).1, fun hmem => hkept ?_⟩
  obtain ⟨s, hs, heq⟩ := Plan.completeKey_mem_targets.mp hmem
  rwa [hstands.1.eq (h.expired hs).1 heq.symm]

/-- Nothing of the point is there but objects that complete points name. -/
structure Gone (b : Bucket) (t : Trusted r) : Prop where
  cleared : Cleared b t
  journal : deletingKey r.pre t.backupId ∉ b
  shared : ∀ key ∈ t.objectKeys, key ∈ b → ∃ s : Trusted r, Authentic b s ∧
    completeKey r.pre s.backupId ∈ b ∧ key ∈ s.objectKeys

/-- A whole run deletes what is due. -/
theorem Due.gone {now : Instant} (h : p.Knows b now) {t : Trusted r} (ht : Due p b now t) :
    Gone (p.ended.state b) t := by
  have hshared : ∀ key ∈ t.objectKeys, key ∈ p.ended.state b → ∃ s : Trusted r,
      Authentic (p.ended.state b) s ∧ completeKey r.pre s.backupId ∈ p.ended.state b ∧
        key ∈ s.objectKeys := by
    intro key hkey hmem
    have hmemb : key ∈ b := by
      rcases Trusted.inArea hkey with harea | harea
      · exact ((p.ended.mem_state harea (by decide)).mp hmem).1
      · exact ((p.ended.mem_state harea (by decide)).mp hmem).1
    obtain ⟨s, hs, hskey⟩ := p.ended.named h (ht.named key hkey hmemb) hmem
    exact ⟨s, hs.1, stands_ended h hs, hskey⟩
  rcases ht.due with ⟨hstands, hexpired, hunprotected⟩ | hcleared
  · have hdeleted : t ∈ p.deletionRecords := by
      rcases h.mem_all.mp (h.stands.mp hstands) with hmarker | hjournal
      · refine (h.mem_kept hmarker).resolve_left fun hkept => ?_
        obtain ⟨c, hc, hdecided⟩ := h.exists_decided
        obtain ⟨c', hc', hdelete⟩ := hexpired
        obtain rfl := Except.ok.inj (hc.symm.trans hc')
        obtain ⟨hnew, hkeep⟩ := of_decide_eq_true (List.mem_filter.mp hkept).2
        rw [hdecided.markers t hmarker hnew, decision_delete.mpr ⟨hdelete, hunprotected⟩] at hkeep
        cases hkeep
      · exact List.mem_append_left _ hjournal
    have hmanifest : t.manifestKey ∈ p.ended.gone :=
      (Plan.object_mem_targets (.inl t.manifestKey_inArea)).mpr
        ⟨⟨t, hdeleted, t.manifest_mem⟩, Plan.manifest_notMem_referenced hdeleted⟩
    refine ⟨p.ended.cleared_of_gone h hstands.1 hmanifest, fun hmem => ?_, hshared⟩
    exact (p.ended.deletingKey_mem.mp hmem).1
      (Plan.deletingKey_mem_targets.mpr (.inl ⟨t, hdeleted, rfl⟩))
  · refine ⟨p.ended.cleared hcleared, fun hmem => ?_, hshared⟩
    obtain ⟨hgone, hkey⟩ := p.ended.deletingKey_mem.mp hmem
    rcases hkey with hkey | ⟨s, hs, heq⟩
    · refine hgone (Plan.deletingKey_mem_targets.mpr ?_)
      rcases h.deleting t.backupId t.isBackupId hkey with hjournal | hfinal
      · obtain ⟨s, hs, heq⟩ := TrustedRecords.mem_ids.mp hjournal
        exact .inl ⟨s, List.mem_append_left _ hs, heq⟩
      · exact .inr hfinal
    · exact hgone (Plan.deletingKey_mem_targets.mpr
        (.inl ⟨s, (deleted_subset (p.ended.first_prefix.subset hs)).2.2, heq⟩))

/-- A retained point is whole after any run, and it stays one. -/
theorem Retained.cut {now : Instant} (hplan : plan r b now = .ok p) (k : p.Cut) {t : Trusted r}
    (ht : Retained b now t) :
    (∀ key, Belongs t key → (k.state b).lookup key = b.lookup key) ∧
      completeKey r.pre t.backupId ∈ k.state b ∧ Authentic (k.state b) t ∧
      (NewestVerified b t → ∀ p' : Plan r, p'.Reads (k.state b) →
        NewestVerified (k.state b) t) := by
  have h := plan_knows hplan
  have hkept := mem_kept_of_retained hplan ht
  have hfree : ∀ key, Belongs t key → key ∉ k.gone := fun key hkey hmem =>
    notMem_targets_of_kept h hkept hkey (k.gone_prefix.subset hmem)
  have hmanifest : t.manifestKey ∉ k.gone := hfree _ (.inr (.inr (.inr t.manifest_mem)))
  have hcomplete : completeKey r.pre t.backupId ∈ k.state b :=
    (k.mem_state (inArea_complete ..) (by decide)).mpr ⟨ht.complete, hfree _ (.inl rfl)⟩
  refine ⟨fun key hkey => ?_, hcomplete, k.authentic_iff.mpr ⟨ht.authentic, hmanifest⟩,
    fun hnewest p' h' => ?_⟩
  · have hkeyFree := hfree key hkey
    rcases hkey with rfl | rfl | rfl | hkey
    · rw [k.lookup_state (inArea_complete ..) (by decide), if_neg hkeyFree]
    · rw [k.lookup_state (inArea_verified ..) (by decide), if_neg hkeyFree]
    · rw [k.lookup_deletingKey_of_notMem, if_neg hkeyFree]
      intro s hs heq
      exact Plan.kept_disjoint hkept (deleted_subset (k.first_prefix.subset hs)).2.2 heq.symm
    · rcases Trusted.inArea hkey with harea | harea
      · rw [k.lookup_state harea (by decide), if_neg hkeyFree]
      · rw [k.lookup_state harea (by decide), if_neg hkeyFree]
  · have hstands : Stands b t := ⟨ht.authentic, .inl ht.complete⟩
    have hold := (h.protectedVerified_eq (h.stands.mp hstands)).mpr hnewest
    rw [← protectedVerified_again h h'] at hold
    exact (h'.protectedVerified_eq (h'.stands.mp ((k.stands_iff h).mpr ⟨hstands, hmanifest⟩))).mp
      hold

/-- Before anything is done. -/
def Plan.begun (p : Plan r) : p.Cut := ⟨[], [], List.nil_prefix, List.nil_prefix, .inl rfl⟩

theorem Retained.earlier {t t' : BusinessTime} (hle : t ≤ t') {u : Trusted r}
    (h : Retained b t'.instant u) : Retained b t.instant u :=
  ⟨h.complete, h.authentic, h.lasting.imp_left fun hlasting hexpired =>
    hlasting (hexpired.mono hle)⟩

/-- Interrupted runs after one another, by induction on their number. -/
theorem run_attempts {attempts : List RotationAttempt} {t last : BusinessTime}
    (hplan : plan r b t.instant = .ok p) (hlines : SingleLines b)
    (hordered : (t :: (attempts.map RotationAttempt.time ++ [last])).Pairwise (· ≤ ·)) :
    ∃ p', plan r (attempts.foldl (RotationAttempt.leaves r) b) last.instant = .ok p' ∧
      SingleLines (attempts.foldl (RotationAttempt.leaves r) b) ∧
      (∀ u : Trusted r, Due p b t.instant u →
        Due p' (attempts.foldl (RotationAttempt.leaves r) b) last.instant u) ∧
      ∀ u : Trusted r, Retained b last.instant u →
        Retained (attempts.foldl (RotationAttempt.leaves r) b) last.instant u ∧
          ∀ key, Belongs u key →
            (attempts.foldl (RotationAttempt.leaves r) b).lookup key = b.lookup key := by
  induction attempts generalizing b p t with
  | nil =>
    have hle : t ≤ last := (List.pairwise_cons.mp hordered).1 last (by simp)
    obtain ⟨p', hplan', hprotected⟩ := plan_again hplan hlines p.begun hle
    exact ⟨p', hplan', hlines, fun u hu => hu.cut (k := p.begun) (plan_knows hplan) hle hprotected,
      fun u hu => ⟨hu, fun _ _ => rfl⟩⟩
  | cons a attempts ih =>
    obtain ⟨hfirst, hrest⟩ := List.pairwise_cons.mp hordered
    have hle : t ≤ a.time := hfirst a.time (by simp)
    have hlast : a.time ≤ last := (List.pairwise_cons.mp hrest).1 last (by simp)
    obtain ⟨p₁, hplan₁, hprotected₁⟩ := plan_again hplan hlines p.begun hle
    have hplan₁ : plan r b a.time.instant = .ok p₁ := hplan₁
    have h₁ := plan_knows hplan₁
    obtain ⟨k, hk⟩ := leaves_cut hplan₁ hlines
    obtain ⟨p₂, hplan₂, hprotected₂⟩ := plan_again hplan₁ hlines k (le_refl a.time)
    obtain ⟨p', hplan', hlines', hdue, hretained⟩ :=
      ih hplan₂ (h₁.singleLines hlines k.first_prefix k.gone) hrest
    rw [List.foldl_cons, hk]
    refine ⟨p', hplan', hlines', fun u hu => hdue u ?_, fun u hu => ?_⟩
    · have hdue₁ : Due p₁ b a.time.instant u :=
        hu.cut (k := p.begun) (plan_knows hplan) hle hprotected₁
      exact hdue₁.cut h₁ (le_refl a.time) hprotected₂
    · obtain ⟨hsame, hcomplete, hauthentic, hnewest⟩ := (hu.earlier hlast).cut hplan₁ k
      have hlater : Retained (k.state b) last.instant u := ⟨hcomplete, hauthentic,
        hu.lasting.imp_right fun h => hnewest h p₂ (plan_knows hplan₂).toReads⟩
      obtain ⟨hretained, hsame'⟩ := hretained u hlater
      exact ⟨hretained, fun key hkey => (hsame' key hkey).trans (hsame key hkey)⟩

end Runs

end ProductPdfQr.BackupRecovery
