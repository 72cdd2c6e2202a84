/-
# Rotation

`rotate` deletes the recovery points that have expired.  What it may delete it derives from the
manifests alone, which are signed, and never from the completion markers or the journals, which
whoever may upload can write.

It reads everything first.  Then it writes a journal for each point that it is going to delete,
and deletes: the completion marker, the data that no kept point refers to, the verified marker,
the manifest and at last the journal.  It may die at every command.
-/
import ProductPdfQr.BackupRecovery.Manifest
import ProductPdfQr.BackupRecovery.Retention
import ProductPdfQr.Rclone
import Mathlib.Data.Prod.Lex

namespace ProductPdfQr.BackupRecovery

open Effect Json Rclone Restore Restore.Verified

/-! ## 1. Records -/

/-- What `rotate` is given, its local files read and the prefix stripped. -/
structure Rotation where
  pre : String
  /-- `age --decrypt` with the offline identity. -/
  decrypt : Bytes → Option Bytes
  manifestVerificationKey : Bytes
  manifestAuthenticationKeyId : String
  restoreVerificationKey : Bytes
  restoreVerificationKeyId : String
  conv : Conversions

variable [Sha256] [Ed25519]

/-- What is asked of a manifest before anything is derived from it. -/
def Rotation.authentic (r : Rotation) (manifest : Json) : Except Exn Unit := do
  verifyManifestAuthentication manifest r.manifestVerificationKey r.manifestAuthenticationKeyId
  validateManifest r.conv manifest

/-- `retention_record_from_authenticated_manifest`, for a rotation. -/
def Rotation.record (r : Rotation) (manifest : Json) (backupId : String) : Except Exn Json :=
  retentionRecord r.conv.repr r.authentic manifest backupId r.pre r.manifestAuthenticationKeyId

/-- A record and the manifest that it was derived from. -/
structure Trusted (r : Rotation) where
  backupId : String
  manifest : Json
  record : Json
  derived : r.record manifest backupId = .ok record

/-- Records by their ids, in the order in which the ids were first met. -/
structure TrustedRecords (r : Rotation) where
  records : List (Trusted r)
  unique : (records.map Trusted.backupId).Nodup

section Keys

variable (pre backupId : String)

def completeKey : String := pre ++ "/complete/" ++ backupId ++ ".json"

def deletingKey : String := pre ++ "/deleting/" ++ backupId ++ ".json"

end Keys

variable {r : Rotation}

/-- `frozen` of a record, which is there because the record was derived. -/
def Trusted.frozen? (t : Trusted r) : Option Instant :=
  (t.record.get "frozen_at").str?.bind Instant.parseTime?

def Trusted.generations (t : Trusted r) : List String :=
  (t.record.get "generations").items.filterMap Json.str?

/-- `record["object_keys"]`. -/
def Trusted.objectKeys (t : Trusted r) : List String :=
  (t.record.get "object_keys").items.filterMap Json.str?

/-! ### What a record holds -/

/-- A key of an object that a point shares with others. -/
def SharedKey (pre key : String) : Prop :=
  ∃ digest recipientKeyId suffix : String, Text.isSafeId recipientKeyId = true ∧
    (suffix = ".age" ∨ suffix = ".json") ∧
    key = pre ++ "/objects/sha256/" ++ digest ++ "/" ++ recipientKeyId ++ suffix

omit [Sha256] [Ed25519] in
/-- The loop over the objects of a manifest. -/
theorem objectKeys_ok {repr : Json → String} {pre recipientKeyId backupId : String}
    (hid : Text.isSafeId recipientKeyId = true) {items : List Json} {keys keys' : List String}
    (hkeys : ∀ k ∈ keys, k ∈ pointKeys pre backupId ∨ SharedKey pre k)
    (h : items.foldlM (retentionRecord.objectKeys repr pre (pointRoot pre backupId)
      recipientKeyId) keys = .ok keys') :
    (∀ k ∈ keys, k ∈ keys') ∧ ∀ k ∈ keys', k ∈ pointKeys pre backupId ∨ SharedKey pre k := by
  induction items generalizing keys with
  | nil =>
    obtain rfl := Except.ok.inj h
    exact ⟨fun _ hk => hk, hkeys⟩
  | cons item items ih =>
    rw [List.foldlM_cons] at h
    obtain ⟨next, hnext, h⟩ := bind_ok h
    have hstep : (∀ k ∈ keys, k ∈ next) ∧
        ∀ k ∈ next, k ∈ pointKeys pre backupId ∨ SharedKey pre k := by
      unfold retentionRecord.objectKeys at hnext
      dsimp only at hnext
      split at hnext
      · obtain ⟨_, -, hnext⟩ := bind_ok hnext
        obtain rfl := Except.ok.inj hnext
        refine ⟨fun k hk => List.mem_cons_of_mem _ hk, List.forall_mem_cons.mpr ⟨.inl ?_, hkeys⟩⟩
        exact List.mem_cons_self ..
      · split at hnext
        · obtain ⟨_, -, hnext⟩ := bind_ok hnext
          obtain rfl := Except.ok.inj hnext
          refine ⟨fun k hk => List.mem_cons_of_mem _ hk, List.forall_mem_cons.mpr ⟨.inl ?_, hkeys⟩⟩
          exact List.mem_cons_of_mem _ (List.mem_cons_self ..)
        · split at hnext
          · obtain ⟨_, -, hnext⟩ := bind_ok hnext
            obtain rfl := Except.ok.inj hnext
            refine ⟨fun k hk => List.mem_cons_of_mem _ (List.mem_cons_of_mem _ hk),
              List.forall_mem_cons.mpr ⟨.inr ⟨_, _, ".age", hid, .inl rfl, rfl⟩,
                List.forall_mem_cons.mpr ⟨.inr ⟨_, _, ".json", hid, .inr rfl, rfl⟩, hkeys⟩⟩⟩
          · cases hnext
    obtain ⟨hold, hall⟩ := ih hstep.2 h
    exact ⟨fun k hk => hold k (hstep.1 k hk), hall⟩

/-- `str(record["manifest_key"])`. -/
def Trusted.manifestKey (t : Trusted r) : String :=
  pyStr r.conv.repr (t.record.get "manifest_key")

/-- What a record was put together from. -/
theorem Trusted.shape (t : Trusted r) : ∃ (frozen : Instant) (tags keys : List String),
    generationTags frozen = some tags ∧
    t.record = retentionRecord.recordOf t.manifest t.backupId r.manifestAuthenticationKeyId frozen
      (.arr ((tags.mergeSort (· ≤ ·)).map Json.str)) (manifestKeyOf r.pre t.backupId)
      ((keys.dedup.mergeSort (· ≤ ·)).map Json.str) ∧
    (∀ k ∈ pointKeys r.pre t.backupId, k ∈ keys) ∧
    (∀ k ∈ keys, k ∈ pointKeys r.pre t.backupId ∨ SharedKey r.pre k) ∧
    ∃ recipientKeyId, (t.manifest.get "objects").items.foldlM (retentionRecord.objectKeys
        r.conv.repr r.pre (pointRoot r.pre t.backupId) recipientKeyId)
      [pointRoot r.pre t.backupId ++ "/manifest.json.age",
        pointRoot r.pre t.backupId ++ "/database.dump.age",
        pointRoot r.pre t.backupId ++ "/config.tar.age"] = .ok keys := by
  have h := t.derived
  unfold Rotation.record retentionRecord at h
  obtain ⟨_, -, h⟩ := bind_ok h
  obtain ⟨_, -, h⟩ := bind_ok h
  obtain ⟨_, -, h⟩ := bind_ok h
  obtain ⟨frozen, -, h⟩ := bind_ok h
  obtain ⟨tags, htags, h⟩ := bind_ok h
  obtain ⟨_, -, h⟩ := bind_ok h
  obtain ⟨recipientKeyId, hrecipient, h⟩ := bind_ok h
  obtain ⟨keys, hkeys, h⟩ := bind_ok h
  have hsafe : Text.isSafeId recipientKeyId = true := by
    cases hfound : ((t.manifest.get "recipient_key_id").str?.filter Text.isSafeId) with
    | none =>
      rw [hfound] at hrecipient
      cases hrecipient
    | some found =>
      rw [hfound] at hrecipient
      obtain rfl := Except.ok.inj hrecipient
      exact (Option.filter_eq_some_iff.mp hfound).2
  have hown : ∀ k ∈ [pointRoot r.pre t.backupId ++ "/manifest.json.age",
      pointRoot r.pre t.backupId ++ "/database.dump.age",
      pointRoot r.pre t.backupId ++ "/config.tar.age"], k ∈ pointKeys r.pre t.backupId := by
    simp [pointKeys, manifestKeyOf]
  obtain ⟨hold, hall⟩ := objectKeys_ok hsafe (fun k hk => .inl (hown k hk)) hkeys
  refine ⟨frozen, tags, keys, ?_, (Except.ok.inj h).symm, fun k hk => hold k ?_, hall,
    recipientKeyId, hkeys⟩
  · cases hfound : generationTags frozen with
    | none =>
      rw [hfound] at htags
      cases htags
    | some found =>
      rw [hfound] at htags
      rw [Except.ok.inj htags]
  · simp only [pointKeys, manifestKeyOf, List.mem_cons, List.not_mem_nil, or_false] at hk ⊢
    rcases hk with rfl | rfl | rfl <;> simp

omit [Ed25519] in
theorem recordOf_get {manifest : Json} {backupId keyId manifestKey : String} {frozen : Instant}
    {generations : Json} {keys : List Json} :
    let record := retentionRecord.recordOf manifest backupId keyId frozen generations manifestKey
      keys
    record.get "backup_id" = .str backupId ∧ record.get "frozen_at" = .str frozen.formatTime ∧
      record.get "generations" = generations ∧ record.get "manifest_key" = .str manifestKey ∧
      record.get "object_keys" = .arr keys := by
  simp only [retentionRecord.recordOf, get_dict]
  exact ⟨rfl, rfl, rfl, rfl, rfl⟩

omit [Sha256] [Ed25519] in
theorem filterMap_str? (texts : List String) :
    (texts.map Json.str).filterMap Json.str? = texts := by
  rw [List.filterMap_map]
  exact List.filterMap_some

theorem Trusted.frozen_isSome (t : Trusted r) : t.frozen?.isSome = true := by
  obtain ⟨frozen, tags, keys, -, hrecord, -⟩ := t.shape
  have htext : (Json.str frozen.formatTime).str? = some frozen.formatTime := rfl
  rw [Trusted.frozen?, hrecord, recordOf_get.2.1, htext, Option.bind_some,
    Instant.parseTime?_formatTime, Option.isSome_some]

/-- What `retention_decisions` is told of a record. -/
def Trusted.point (t : Trusted r) : RecoveryPoint :=
  ⟨t.backupId, t.frozen?.get t.frozen_isSome, t.generations⟩

/-- The keys as the loop over the objects gathers them. -/
theorem Trusted.exists_loop (t : Trusted r) : ∃ (keys : List String) (recipientKeyId : String),
    (t.manifest.get "objects").items.foldlM (retentionRecord.objectKeys r.conv.repr r.pre
        (pointRoot r.pre t.backupId) recipientKeyId)
      [pointRoot r.pre t.backupId ++ "/manifest.json.age",
        pointRoot r.pre t.backupId ++ "/database.dump.age",
        pointRoot r.pre t.backupId ++ "/config.tar.age"] = .ok keys ∧
      t.objectKeys = keys.dedup.mergeSort (· ≤ ·) := by
  obtain ⟨_, _, keys, -, hrecord, -, -, recipientKeyId, hloop⟩ := t.shape
  refine ⟨keys, recipientKeyId, hloop, ?_⟩
  rw [Trusted.objectKeys, hrecord, recordOf_get.2.2.2.2]
  exact filterMap_str? _

theorem Trusted.mem_objectKeys (t : Trusted r) :
    (∀ k ∈ pointKeys r.pre t.backupId, k ∈ t.objectKeys) ∧
    ∀ k ∈ t.objectKeys, k ∈ pointKeys r.pre t.backupId ∨ SharedKey r.pre k := by
  obtain ⟨frozen, tags, keys, -, hrecord, hown, hall, -⟩ := t.shape
  have hkeys : ∀ k, k ∈ t.objectKeys ↔ k ∈ keys := by
    intro k
    rw [Trusted.objectKeys, hrecord, recordOf_get.2.2.2.2]
    change k ∈ ((keys.dedup.mergeSort (· ≤ ·)).map Json.str).filterMap Json.str? ↔ _
    rw [filterMap_str?, List.mem_mergeSort, List.mem_dedup]
  exact ⟨fun k hk => (hkeys k).mpr (hown k hk), fun k hk => hall k ((hkeys k).mp hk)⟩

theorem Trusted.manifestKey_eq (t : Trusted r) :
    t.manifestKey = manifestKeyOf r.pre t.backupId := by
  obtain ⟨frozen, tags, keys, -, hrecord, -⟩ := t.shape
  rw [Trusted.manifestKey, hrecord, recordOf_get.2.2.2.1, pyStr_str]

theorem Trusted.plain (t : Trusted r) : Plain t.record := by
  obtain ⟨frozen, tags, keys, -, hrecord, -⟩ := t.shape
  have htexts : ∀ texts : List String, PlainItems (texts.map Json.str) := by
    intro texts
    refine plainItems_iff.mpr fun j hj => ?_
    obtain ⟨text, -, rfl⟩ := List.mem_map.mp hj
    simp [Json.Plain]
  rw [hrecord, retentionRecord.recordOf]
  refine plain_dict ?_
  simp [PlainFields, Json.Plain, htexts]

/-! ## 2. Dictionaries of records -/

namespace TrustedRecords

def ids (d : TrustedRecords r) : List String := d.records.map Trusted.backupId

def empty : TrustedRecords r := ⟨[], List.nodup_nil⟩

/-- `d[t.backup_id] = t`. -/
def set (d : TrustedRecords r) (t : Trusted r) : TrustedRecords r where
  records :=
    if t.backupId ∈ d.ids then d.records.map fun s => if s.backupId = t.backupId then t else s
    else d.records ++ [t]
  unique := by
    split
    · have hsame : (fun s : Trusted r => (if s.backupId = t.backupId then t else s).backupId) =
          Trusted.backupId := by
        funext s
        by_cases h : s.backupId = t.backupId
        · simp [h]
        · simp [h]
      rw [List.map_map]
      change (d.records.map fun s => (if s.backupId = t.backupId then t else s).backupId).Nodup
      rw [hsame]
      exact d.unique
    · rename_i hnew
      rw [List.map_append]
      exact List.nodup_append.mpr ⟨d.unique, List.nodup_singleton _, fun a ha b hb heq =>
        hnew (List.mem_singleton.mp hb ▸ heq ▸ ha)⟩

/-- `d.get(backup_id)`. -/
def find? (d : TrustedRecords r) (backupId : String) : Option (Trusted r) :=
  d.records.find? (·.backupId = backupId)

/-- As `retention_decisions` is told of them. -/
def points (d : TrustedRecords r) : Records where
  points := d.records.map Trusted.point
  unique := by
    rw [List.map_map]
    exact d.unique

theorem mem_set {d : TrustedRecords r} {s t : Trusted r} :
    s ∈ (d.set t).records ↔ s = t ∨ s ∈ d.records ∧ s.backupId ≠ t.backupId := by
  unfold set
  dsimp only
  split
  · rename_i hold
    rw [List.mem_map]
    constructor
    · rintro ⟨other, hother, rfl⟩
      by_cases h : other.backupId = t.backupId
      · exact .inl (if_pos h)
      · rw [if_neg h]
        exact .inr ⟨hother, h⟩
    · rintro (rfl | ⟨hs, hne⟩)
      · obtain ⟨other, hother, hid⟩ := List.mem_map.mp hold
        exact ⟨other, hother, if_pos hid⟩
      · exact ⟨s, hs, if_neg hne⟩
  · rename_i hnew
    rw [List.mem_append, List.mem_singleton, or_comm]
    refine or_congr_right ⟨fun hs => ⟨hs, fun heq => hnew ?_⟩, fun hs => hs.1⟩
    rw [← heq]
    exact List.mem_map_of_mem hs

theorem eq_of_id (d : TrustedRecords r) {s t : Trusted r} (hs : s ∈ d.records)
    (ht : t ∈ d.records) (h : s.backupId = t.backupId) : s = t :=
  List.inj_on_of_nodup_map d.unique hs ht h

theorem find?_eq_some {d : TrustedRecords r} {backupId : String} {t : Trusted r} :
    d.find? backupId = some t ↔ t ∈ d.records ∧ t.backupId = backupId := by
  constructor
  · intro h
    exact ⟨List.mem_of_find?_eq_some h, by simpa using List.find?_some h⟩
  · rintro ⟨ht, rfl⟩
    cases hfound : d.find? t.backupId with
    | none => exact absurd (decide_eq_true rfl) (List.find?_eq_none.mp hfound t ht)
    | some s =>
      have hs : s.backupId = t.backupId := by simpa using List.find?_some hfound
      rw [d.eq_of_id (List.mem_of_find?_eq_some hfound) ht hs]

end TrustedRecords

/-! ## 3. What is read -/

section Reading

variable (r) (b : Bucket)

/-- `name.removesuffix(".json")`, of a name that ends so. -/
def stem (name : String) : Option String :=
  if Text.endsWith name ".json" then
    some (String.ofList (name.toList.take (name.toList.length - 5)))
  else none

/-- `_read_json`. -/
def readJson (target : String) : Except Exn Json :=
  match b.lookup target with
  | none => .error (.safety "authorized retention read failed")
  | some content => (loads content).mapError Exn.loadError

/-- `_remote_file_exists`. -/
def remoteFileExists (target : String) : Bool :=
  match parentAndName target with
  | some (parent, name) => (lsf b parent).contains name
  | none => false

/-- The limit of `decrypt_small`. -/
def controlLimit : Nat := 16 * 1024 * 1024

/-- `decrypt_small` and `json.loads`. -/
def readManifest (backupId : String) : Except Exn Json :=
  match b.lookup (manifestKeyOf r.pre backupId) with
  | none => .error (.safety "cannot download authoritative encrypted manifest")
  | some ciphertext => match r.decrypt ciphertext with
    | none => .error (.safety "age authentication failed")
    | some plaintext =>
      if controlLimit < plaintext.size then
        .error (.safety "decrypted control object exceeds limit")
      else match loads plaintext with
        | .error .decode => .error (.safety "authenticated retention manifest is invalid")
        | .error e => .error (.loadError e)
        | .ok manifest => .ok manifest

/-- `_authenticated_retention_record`. -/
def authenticatedRetentionRecord (backupId : String) : Except Exn (Trusted r) :=
  match readManifest r b backupId with
  | .error e => .error e
  | .ok manifest =>
    if manifest.isDict then
      match h : r.record manifest backupId with
      | .error e => .error e
      | .ok record => .ok ⟨backupId, manifest, record, h⟩
    else .error (.safety "authenticated retention manifest is not a JSON object")

/-- The loop body of `_validated_completion_records`. -/
def completionRecord (backupId : String) : Except Exn (Trusted r) := do
  check (Text.isBackupId backupId) "invalid backup_id"
  let marker ← readJson b (completeKey r.pre backupId)
  check marker.isDict "completion marker is not a JSON object"
  validateCompletionMarker r.conv.repr marker backupId r.pre
  let trusted ← authenticatedRetentionRecord r b backupId
  check (["frozen_at", "generations", "manifest_key", "object_keys"].all fun field =>
    (marker.get field).pyEq (trusted.record.get field))
    "completion marker conflicts with authenticated manifest"
  return trusted

/-- `_validated_completion_records`, over what is left of the listing. -/
def completionRecords : List String → TrustedRecords r → Except Exn (TrustedRecords r)
  | [], result => .ok result
  | name :: names, result =>
    match stem name with
    | none => completionRecords names result
    | some backupId => do
      let trusted ← completionRecord r b backupId
      completionRecords names (result.set trusted)

/-- The loop body of `_validated_journal_records`: nothing for a journal that is only left to be
deleted itself. -/
def journalRecord (backupId : String) : Except Exn (Option (Trusted r)) := do
  check (Text.isBackupId backupId) "invalid backup_id"
  if remoteFileExists b (manifestKeyOf r.pre backupId) then do
    let trusted ← authenticatedRetentionRecord r b backupId
    let journal ← readJson b (deletingKey r.pre backupId)
    check (journal.pyEq trusted.record) "retention deletion journal is not manifest-authenticated"
    return some trusted
  else do
    check (!(remoteFileExists b (completeKey r.pre backupId) ||
        remoteFileExists b (verifiedKey r.pre backupId)))
      "deletion journal lost its manifest before control markers were removed"
    return none

/-- `_validated_journal_records`, over what is left of the listing. -/
def journalRecords : List String → TrustedRecords r → List String →
    Except Exn (TrustedRecords r × List String)
  | [], records, finalizing => .ok (records, finalizing)
  | name :: names, records, finalizing =>
    match stem name with
    | none => journalRecords names records finalizing
    | some backupId => do
      match ← journalRecord r b backupId with
      | some trusted => journalRecords names (records.set trusted) finalizing
      | none => journalRecords names records (finalizing.insert backupId)

end Reading

/-! ## 4. What is decided -/

/-- `marker_by_id | journal_by_id`. -/
def allTrusted (markers journals : TrustedRecords r) : List (Trusted r) :=
  markers.records.map (fun marker => (journals.find? marker.backupId).getD marker) ++
    journals.records.filter fun journal => journal.backupId ∉ markers.ids

/-- The records, each under its id. -/
def byId (all : List (Trusted r)) : List (String × Json) :=
  all.map fun t => (t.backupId, t.record)

/-- The newest of the verified points: by the text of its time, and then by its id. -/
def newestVerified (all : List (Trusted r)) (verified : List String) : Option String :=
  let key (backupId : String) : String ×ₗ String := toLex
    ((((byId all).lookup backupId).map fun record => pyStr r.conv.repr
      (record.get "frozen_at")).getD "", backupId)
  ((verified.map key).max?).map fun newest => (ofLex newest).2

def exnOf : RetentionError → Exn
  | .overflow => .outside "OverflowError"
  | .safety message => .safety message

/-- All that `rotate` knows when it starts to write. -/
structure Plan (r : Rotation) where
  markers : TrustedRecords r
  journals : TrustedRecords r
  finalizing : List String
  verified : List String
  decisions : Decisions

def Plan.protectedVerified (p : Plan r) : Option String :=
  newestVerified (allTrusted p.markers p.journals) p.verified

/-- `rotate`, up to where it starts to write. -/
def plan (r : Rotation) (b : Bucket) (now : Instant) : Except Exn (Plan r) := do
  let markers ← completionRecords r b (lsf b (r.pre ++ "/complete")) .empty
  let (journals, finalizing) ← journalRecords r b (lsf b (r.pre ++ "/deleting")) .empty []
  let all := allTrusted markers journals
  let verified ← validatedVerifiedIds r.conv.repr (fun key => b.lookup key) r.pre (byId all)
    r.restoreVerificationKey r.restoreVerificationKeyId (lsf b (r.pre ++ "/verified"))
  let decisions ← (rotateDecisions markers.points journals.points finalizing now
    (newestVerified all verified)).mapError exnOf
  return ⟨markers, journals, finalizing, verified, decisions⟩

def isKeep : Option Decision → Bool
  | some (.keep _) => true
  | _ => false

namespace Plan

variable (p : Plan r)

/-- The completed points without a journal that are kept. -/
def kept : List (Trusted r) :=
  p.markers.records.filter fun t => t.backupId ∉ p.journals.ids ∧ isKeep (p.decisions t.backupId)

/-- Those that have expired. -/
def deleted : List (Trusted r) :=
  p.markers.records.filter fun t =>
    t.backupId ∉ p.journals.ids ∧ p.decisions t.backupId = some .deleteExpiredAll

def referenced : List String := p.kept.flatMap Trusted.objectKeys

/-- `deletion_records`. -/
def deletionRecords : List (Trusted r) := p.journals.records ++ p.deleted

/-- What is deleted of a point, in this order. -/
def targetsOf (t : Trusted r) : List String :=
  [completeKey r.pre t.backupId] ++
  t.objectKeys.filter (fun key => key ≠ t.manifestKey ∧ key ∉ p.referenced) ++
  (if t.backupId ∈ p.verified ∧ some t.backupId ≠ p.protectedVerified then
    [verifiedKey r.pre t.backupId] else []) ++
  (if t.manifestKey ∉ p.referenced then [t.manifestKey] else []) ++
  [deletingKey r.pre t.backupId]

/-- `delete_targets`. -/
def targets : List String :=
  p.deletionRecords.flatMap p.targetsOf ++
    (p.finalizing.mergeSort (· ≤ ·)).map (deletingKey r.pre)

end Plan

/-! ## 5. What is written -/

abbrev RotationProg := Prog Rclone.Command Rclone.Command.Answer Exn

/-- `_delete_if_present`. -/
def deleteIfPresent (target : String) : RotationProg Unit :=
  match parentAndName target with
  | none => throw (.outside "ValueError")
  | some (parent, name) => do
    let names ← Prog.perform (Command.lsf parent)
    if names.contains name then do
      let done ← Prog.perform (Command.deletefile target)
      Prog.ensure done (.safety "authorized retention deletion failed")

/-- `_publish_and_verify_journal`. -/
def publishAndVerifyJournal (pre : String) (t : Trusted r) : RotationProg Unit := do
  let done ← Prog.perform
    (Command.copyto (canonicalJson t.record) (deletingKey pre t.backupId))
  Prog.ensure done (.safety "cannot publish retention deletion journal")
  let content ← Prog.perform (Command.cat (deletingKey pre t.backupId))
  match content with
  | none => throw (.safety "authorized retention read failed")
  | some content => do
    let journal ← Prog.liftExcept ((loads content).mapError Exn.loadError)
    Prog.ensure (journal.pyEq t.record) (.safety "retention deletion journal verification failed")

def applyPlan (p : Plan r) : RotationProg Unit := do
  p.deleted.forM (publishAndVerifyJournal r.pre)
  p.targets.forM deleteIfPresent

/-- What is answered. -/
structure Report where
  decisions : Decisions
  deleteTargets : List String
  dryRun : Bool

/-- `rotate`, from what it reads of the bucket. -/
def rotate (r : Rotation) (b : Bucket) (now : Instant) (dryRun : Bool) : RotationProg Report := do
  let p ← Prog.liftExcept (plan r b now)
  if !dryRun then applyPlan p
  return ⟨p.decisions, p.targets, dryRun⟩

end ProductPdfQr.BackupRecovery
