/-
# What becomes of a point

A recovery point lives in a bucket that others use as well: builders publish more points and
reuse its objects, rotations delete what has expired, and whoever may upload can write markers,
journals and verified markers as they like.  Each run may die at every call.

As long as no rotation runs at a time at which the point has expired, it stays whole, whether a
rotation would accept it or not: a marker that is refused stops the rotation.
-/
import ProductPdfQr.BackupRecovery.Agreement
import ProductPdfQr.BackupRecovery.RotationRuns

namespace ProductPdfQr.BackupRecovery

open Effect Json Rclone Restore Restore.Verified

variable [Sha256] [Ed25519]

/-! ## 1. Events -/

/-- The areas in which the signed manifests do not stand. -/
def Area.isControl : Area → Bool
  | complete => true
  | deleting => true
  | verified => true
  | _ => false

/-- What can happen to a bucket. -/
inductive Event
  /-- A run of some builder, cut after some calls. -/
  | build (b : BackupBuilder) (run : Run) (calls : Nat)
  /-- A rotation, cut after some commands. -/
  | rotate (now : Instant) (dryRun : Bool) (calls : Nat)
  /-- Someone writes a control file, or deletes it. -/
  | control (key : String) (content : Option Bytes)

def Event.apply (rot : Rotation) (s : Site) : Event → Site
  | build b run calls => ((run.prog b).exec disk calls s).state
  | rotate now dryRun calls =>
    { s with remote := ((BackupRecovery.rotate rot s.remote now dryRun).exec Rclone.machine calls
        s.remote).state }
  | control key content =>
    { s with remote := content.elim (s.remote.erase key) (s.remote.insert key) }

def after (rot : Rotation) (events : List Event) (s : Site) : Site :=
  events.foldl (Event.apply rot) s

/-! ## 2. A whole point -/

section Intact

variable {b : BackupBuilder} {r : Finalization} {g : Gathered} {sealed : Bytes}
  {remote remote' : Bucket} {rot : Rotation}

omit [Ed25519] in
theorem Published.of_lookup {f : SourceFile} {item : Fields} (h : Published b remote f item)
    (hcipher : remote'.lookup (b.casKey f.digest) = remote.lookup (b.casKey f.digest))
    (hmeta : remote'.lookup (b.casMetaKey f.digest) = remote.lookup (b.casMetaKey f.digest)) :
    Published b remote' f item := by
  obtain ⟨there, content, metadata, hsealed, hcontent, hrest⟩ := h.halves
  exact ⟨h.name, h.key, h.plaintext, h.size, h.unowned, h.plain, there, content, metadata,
    hcipher.trans hsealed, hmeta.trans hcontent, hrest⟩

/-- A complete point is complete wherever its objects are the same. -/
theorem CompletePoint.of_lookup (h : CompletePoint b r g sealed remote)
    (hsame : ∀ key ∈ completionObjectKeys b r g, remote'.lookup key = remote.lookup key) :
    CompletePoint b r g sealed remote' := by
  have hown (key : String) (hkey : key ∈ pointKeys b.pre r.backupId) :
      remote'.lookup key = remote.lookup key :=
    hsame key ((mem_completionObjectKeys h).mpr (.inl hkey))
  have hfile (f : SourceFile) (hf : f ∈ g.files) (key : String)
      (hkey : key = b.casKey f.digest ∨ key = b.casMetaKey f.digest) :
      remote'.lookup key = remote.lookup key :=
    hsame key ((mem_completionObjectKeys h).mpr (.inr ⟨_, List.mem_map_of_mem hf, hkey⟩))
  have hfiles : List.Forall₂ (Published b remote') g.files g.fileObjects := by
    refine List.forall₂_iff_get.mpr ⟨h.files.length_eq, fun i hi hi' => ?_⟩
    have hmem : g.files.get ⟨i, hi⟩ ∈ g.files := List.get_mem ..
    exact (h.files.get hi hi').of_lookup (hfile _ hmem _ (.inl rfl)) (hfile _ hmem _ (.inr rfl))
  have hkeys : pointKeys b.pre r.backupId = [r.databaseKey b, r.configKey b, r.manifestKey b] := rfl
  rw [hkeys] at hown
  exact ⟨h.listed, hfiles, (hown _ (by simp)).trans h.database, (hown _ (by simp)).trans h.config,
    h.succeeded, h.assertions, h.tools, h.hashes, h.generations, h.manifest,
    (hown _ (by simp)).trans h.published⟩

/-- Everything of the point is there, and a marker. -/
structure Intact (b : BackupBuilder) (r : Finalization) (g : Gathered) (sealed : Bytes)
    (remote : Bucket) : Prop where
  complete : CompletePoint b r g sealed remote
  marked : r.completionKey b ∈ remote

/-- The point as a rotation decides about it. -/
def recoveryPoint (r : Finalization) (g : Gathered) : RecoveryPoint :=
  ⟨r.backupId, r.frozen, g.generations⟩

/-- The time is past the retention of the point. -/
def PastRetention (r : Finalization) (g : Gathered) (now : Instant) : Prop :=
  ∃ c, cutoffs now = .ok c ∧ decision c none (recoveryPoint r g) = .deleteExpiredAll

/-- What a rotation trusts says of the point what the builder knew. -/
theorem point_of_record {t : Trusted rot} (hid : t.backupId = r.backupId)
    (hrecord : t.record = recordOfPoint b r g) :
    t.point = recoveryPoint r g ∧ t.objectKeys = sortedKeys b r g := by
  obtain ⟨-, hfrozen, hgenerations, -, hkeys⟩ := @recordOf_get _ (signedManifest b r g)
    r.backupId b.manifestAuthenticationKeyId (manifestKeyOf b.pre r.backupId) r.frozen
    (.arr (g.generations.map .str)) ((sortedKeys b r g).map .str)
  have htime : t.frozen? = some r.frozen := by
    rw [Trusted.frozen?, hrecord, recordOfPoint, hfrozen, Json.str?, Option.bind_some,
      Instant.parseTime?_formatTime]
  have htags : t.generations = g.generations := by
    rw [Trusted.generations, hrecord, recordOfPoint, hgenerations]
    exact filterMap_str? _
  constructor
  · simp only [Trusted.point, recoveryPoint, hid, htime, Option.get_some, htags]
  · rw [Trusted.objectKeys, hrecord, recordOfPoint, hkeys]
    exact filterMap_str? _

/-- A rotation at a time at which the point has not expired leaves it as it is. -/
theorem Intact.lookup_rotate (hhex : Sha256.HexDigests) (hrot : Keyed b rot)
    (hid : Text.isBackupId r.backupId = true)
    (hopens : ∀ plain, r.sealManifest plain = some sealed → rot.decrypt sealed = some plain)
    (h : Intact b r g sealed remote) {now : Instant} (hnow : ¬PastRetention r g now)
    (dryRun : Bool) (calls : Nat) {key : String}
    (hkey : key = r.completionKey b ∨ key ∈ completionObjectKeys b r g) :
    ((rotate rot remote now dryRun).exec Rclone.machine calls remote).state.lookup key =
      remote.lookup key := by
  have hmarker : r.completionKey b = completeKey rot.pre r.backupId := by
    rw [hrot.pre]
    rfl
  cases hrecord : authenticatedRetentionRecord rot remote r.backupId with
  | ok t =>
    obtain ⟨hsame, hvalue⟩ := trusted_of_point hhex hrot h.complete hopens hrecord
    obtain ⟨hpoint, hkeys⟩ := point_of_record hsame hvalue
    have hretained : Retained remote now t := by
      refine ⟨?_, ?_, .inl ?_⟩
      · rw [hsame, ← hmarker]
        exact h.marked
      · rw [Authentic, hsame]
        exact hrecord
      · rw [Expired, hpoint]
        exact hnow
    refine hretained.lookup_eq dryRun calls ?_
    rcases hkey with rfl | hkey
    · exact .inl (by rw [hsame, hmarker])
    · refine .inr (.inr (.inr ?_))
      rw [hkeys, sortedKeys, List.mem_mergeSort, List.mem_dedup]
      exact hkey
  | error e =>
    have hrefused (d : TrustedRecords rot) : completionRecords rot remote
        (lsf remote (rot.pre ++ "/complete")) .empty ≠ .ok d := by
      intro hd
      obtain ⟨hlists, haccepts⟩ := completionRecords_listed hd r.backupId
      have hthere : rot.pre ++ "/complete" ++ "/" ++ (r.backupId ++ ".json") ∈ remote := by
        rw [← completeKey_eq, ← hmarker]
        exact h.marked
      obtain ⟨t, ht⟩ := haccepts (hlists.mpr (mem_lsf_of_mem (properName_json hid) hthere))
      rw [(completionRecord_ok ht).2] at hrecord
      cases hrecord
    obtain ⟨e', hend⟩ := rotate_of_refused hrefused now dryRun calls
    rw [hend]

end Intact

/-! ## 3. Lifetimes -/

/-- A point of which everything is there, and what happens then. -/
structure Lifetime where
  builder : BackupBuilder
  rotation : Rotation
  keyed : Keyed builder rotation
  hexDigests : Sha256.HexDigests
  r : Finalization
  g : Gathered
  sealed : Bytes
  id : Text.isBackupId r.backupId = true
  /-- What the run encrypted the rotation can decrypt. -/
  opens : ∀ plain, r.sealManifest plain = some sealed → rotation.decrypt sealed = some plain
  start : Site
  intact : Intact builder r g sealed start.remote
  events : List Event
  /-- The point has not expired when a rotation runs. -/
  unexpired : ∀ now dryRun calls, Event.rotate now dryRun calls ∈ events → ¬PastRetention r g now
  /-- Others write control files only, and do not delete the marker of the point. -/
  control : ∀ key content, Event.control key content ∈ events →
    (∃ area, Area.isControl area = true ∧ InArea builder.pre area key) ∧
      (content = none → key ≠ r.completionKey builder)

namespace Lifetime

variable (l : Lifetime)

/-- After the first events. -/
def site (n : Nat) : Site := after l.rotation (l.events.take n) l.start

/-- The point is whole, and its objects are those that it had. -/
structure Survives (s : Site) : Prop where
  intact : Intact l.builder l.r l.g l.sealed s.remote
  same : ∀ key ∈ completionObjectKeys l.builder l.r l.g,
    s.remote.lookup key = l.start.remote.lookup key

variable {l} {remote : Bucket}

/-- The objects of a point are no control files. -/
theorem object_ne_control (h : CompletePoint l.builder l.r l.g l.sealed remote) {key : String}
    (hkey : key ∈ completionObjectKeys l.builder l.r l.g) {area : Area}
    (harea : area.isControl = true) : ¬InArea l.builder.pre area key := by
  intro hcontrol
  rcases (mem_completionObjectKeys h).mp hkey with hpoint | ⟨digest, -, rfl | rfl⟩
  · rw [← (inArea_pointKeys hpoint).unique hcontrol] at harea
    cases harea
  · rw [← (inArea_casKey digest).unique hcontrol] at harea
    cases harea
  · rw [← (inArea_casMetaKey digest).unique hcontrol] at harea
    cases harea

/-- Whatever changes nothing of the point lets it survive. -/
theorem Survives.of_lookup {s s' : Site} (h : l.Survives s)
    (hmarked : l.r.completionKey l.builder ∈ s'.remote)
    (hsame : ∀ key ∈ completionObjectKeys l.builder l.r l.g,
      s'.remote.lookup key = s.remote.lookup key) : l.Survives s' :=
  ⟨⟨h.intact.complete.of_lookup hsame, hmarked⟩, fun key hkey =>
    (hsame key hkey).trans (h.same key hkey)⟩

/-- Every event lets the point survive. -/
theorem Survives.apply {s : Site} (h : l.Survives s) {e : Event} (he : e ∈ l.events) :
    l.Survives (e.apply l.rotation s) := by
  cases e with
  | build b run calls =>
    have hgrows : Grows s (Event.apply l.rotation s (.build b run calls)) :=
      Post.always_holds.mp (Prog.exec_of_wp _ calls s (wp_grows (run.prog b) s))
    refine h.of_lookup ?_ fun key hkey => ?_
    · obtain ⟨content, hcontent⟩ :=
        Option.isSome_iff_exists.mp (Finmap.lookup_isSome.mpr h.intact.marked)
      exact Finmap.mem_of_lookup_eq_some (hgrows _ _ hcontent)
    · obtain ⟨content, hcontent⟩ := Option.isSome_iff_exists.mp
        (Finmap.lookup_isSome.mpr (h.intact.complete.mem hkey))
      rw [hcontent, hgrows _ _ hcontent]
  | rotate now dryRun calls =>
    have hsame {key : String} (hkey : key = l.r.completionKey l.builder ∨
        key ∈ completionObjectKeys l.builder l.r l.g) :
        (Event.apply l.rotation s (.rotate now dryRun calls)).remote.lookup key =
          s.remote.lookup key :=
      h.intact.lookup_rotate l.hexDigests l.keyed l.id l.opens (l.unexpired now dryRun calls he)
        dryRun calls hkey
    refine h.of_lookup ?_ fun key hkey => hsame (.inr hkey)
    rw [← Finmap.lookup_isSome, hsame (.inl rfl), Finmap.lookup_isSome]
    exact h.intact.marked
  | control key content =>
    obtain ⟨⟨area, harea, hkey⟩, hkept⟩ := l.control key content he
    have hother {object : String} (hobject : object ∈ completionObjectKeys l.builder l.r l.g) :
        object ≠ key := by
      rintro rfl
      exact object_ne_control h.intact.complete hobject harea hkey
    cases content with
    | none =>
      refine h.of_lookup ?_ fun object hobject => Finmap.lookup_erase_ne (hother hobject)
      exact Finmap.mem_erase.mpr ⟨(hkept rfl).symm, h.intact.marked⟩
    | some content =>
      refine h.of_lookup ?_ fun object hobject => Finmap.lookup_insert_of_ne _ (hother hobject)
      exact Finmap.mem_insert.mpr (.inr h.intact.marked)

end Lifetime

end ProductPdfQr.BackupRecovery
