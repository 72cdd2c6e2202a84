/-
# What a rotation knows

The records that a rotation starts from are those of the markers and journals that stand in the
bucket, each read as if it stood there alone.  So a later run that finds the same objects finds
the same records, whatever else was deleted in between.
-/
import ProductPdfQr.BackupRecovery.Rotation

namespace ProductPdfQr.BackupRecovery

open Effect Json Rclone Restore Restore.Verified

/-! ## 1. The areas of a prefix -/

/-- Where the keys of a prefix lie. -/
inductive Area
  | complete
  | deleting
  | verified
  | points
  | objects
  deriving DecidableEq

def Area.path : Area → String
  | complete => "/complete/"
  | deleting => "/deleting/"
  | verified => "/verified/"
  | points => "/points/"
  | objects => "/objects/sha256/"

theorem Area.eq_of_prefix {a c : Area} (h : a.path.toList <+: c.path.toList) : a = c := by
  revert h
  cases a <;> cases c <;> decide

def InArea (pre : String) (a : Area) (key : String) : Prop := ∃ rest, key = pre ++ a.path ++ rest

/-- A key lies in one area only. -/
theorem InArea.unique {pre key : String} {a c : Area} (ha : InArea pre a key)
    (hc : InArea pre c key) : a = c := by
  obtain ⟨x, rfl⟩ := ha
  obtain ⟨y, heq⟩ := hc
  have hlist := congrArg String.toList heq
  simp only [String.toList_append, List.append_assoc, List.append_cancel_left_eq] at hlist
  rcases List.append_eq_append_iff.mp hlist with ⟨rest, hrest, -⟩ | ⟨rest, hrest, -⟩
  · exact Area.eq_of_prefix ⟨rest, hrest.symm⟩
  · exact (Area.eq_of_prefix ⟨rest, hrest.symm⟩).symm

theorem inArea_complete (pre backupId : String) : InArea pre .complete (completeKey pre backupId) :=
  ⟨backupId ++ ".json", by rw [completeKey, Area.path, String.append_assoc]⟩

theorem inArea_deleting (pre backupId : String) : InArea pre .deleting (deletingKey pre backupId) :=
  ⟨backupId ++ ".json", by rw [deletingKey, Area.path, String.append_assoc]⟩

theorem inArea_verified (pre backupId : String) : InArea pre .verified (verifiedKey pre backupId) :=
  ⟨backupId ++ ".json", by rw [verifiedKey, Area.path, String.append_assoc]⟩

theorem inArea_pointKeys {pre backupId key : String} (h : key ∈ pointKeys pre backupId) :
    InArea pre .points key := by
  simp only [pointKeys, manifestKeyOf, pointRoot, List.mem_cons, List.not_mem_nil, or_false] at h
  rcases h with rfl | rfl | rfl
  · exact ⟨backupId ++ "/database.dump.age", by rw [Area.path, String.append_assoc]⟩
  · exact ⟨backupId ++ "/config.tar.age", by rw [Area.path, String.append_assoc]⟩
  · exact ⟨backupId ++ "/manifest.json.age", by rw [Area.path, String.append_assoc]⟩

theorem inArea_sharedKey {pre key : String} (h : SharedKey pre key) : InArea pre .objects key := by
  obtain ⟨digest, recipientKeyId, suffix, -, -, rfl⟩ := h
  exact ⟨digest ++ "/" ++ recipientKeyId ++ suffix, by simp only [Area.path, String.append_assoc]⟩

theorem completeKey_injective {pre id id' : String} (h : completeKey pre id = completeKey pre id') :
    id = id' := append_cancel h

theorem deletingKey_injective {pre id id' : String} (h : deletingKey pre id = deletingKey pre id') :
    id = id' := append_cancel h

theorem verifiedKey_injective {pre id id' : String} (h : verifiedKey pre id = verifiedKey pre id') :
    id = id' := append_cancel h

/-- A name that a listing shows as it is. -/
structure ProperName (name : String) : Prop where
  plain : Rclone.Plain name
  line : DeployRollback.AuditLog.OneLine name.toList
  ne : name ≠ ""

/-- A key with such a name. -/
def Addressed (target : String) : Prop := ∃ dir name, ProperName name ∧ target = dir ++ "/" ++ name

theorem isAlnum_bounds {c : Char} (h : Text.isAlnum c = true) : 48 ≤ c.toNat ∧ c.toNat ≤ 122 := by
  simp only [Text.isAlnum, Char.isDigit, Bool.or_eq_true, Bool.and_eq_true, decide_eq_true_eq] at h
  rcases h with (⟨hl, hr⟩ | ⟨hl, hr⟩) | ⟨hl, hr⟩
  · have hl' : (48 : UInt32).toNat ≤ c.val.toNat := UInt32.le_iff_toNat_le.mp hl
    have hr' : c.val.toNat ≤ (57 : UInt32).toNat := UInt32.le_iff_toNat_le.mp hr
    exact ⟨le_trans (by decide) hl', le_trans hr' (by decide)⟩
  · have hl' : 'a'.toNat ≤ c.toNat := hl
    have hr' : c.toNat ≤ 'z'.toNat := hr
    exact ⟨le_trans (by decide) hl', le_trans hr' (by decide)⟩
  · have hl' : 'A'.toNat ≤ c.toNat := hl
    have hr' : c.toNat ≤ 'Z'.toNat := hr
    exact ⟨le_trans (by decide) hl', le_trans hr' (by decide)⟩

theorem isIdChar_safe {c : Char} (h : Text.isIdChar c = true) :
    c ≠ '/' ∧ DeployRollback.AuditLog.isLineEnd c = false := by
  have hbounds : 45 ≤ c.toNat ∧ c.toNat ≤ 122 := by
    simp only [Text.isIdChar, Bool.or_eq_true, decide_eq_true_eq] at h
    rcases h with ((h | rfl) | rfl) | rfl
    · obtain ⟨hl, hr⟩ := isAlnum_bounds h
      omega
    · decide
    · decide
    · decide
  constructor
  · rintro rfl
    exact absurd h (by decide)
  · simp only [DeployRollback.AuditLog.isLineEnd, Bool.or_eq_false_iff, Bool.and_eq_false_iff,
      decide_eq_false_iff_not]
    omega

theorem properName_of_chars {name : String} (hne : name ≠ "")
    (h : ∀ c ∈ name.toList, Text.isIdChar c = true) : ProperName name where
  plain := fun hmem => (isIdChar_safe (h _ hmem)).1 rfl
  line := fun c hc => (isIdChar_safe (h c hc)).2
  ne := hne

/-- An id with a suffix of such characters. -/
theorem properName_append {backupId suffix : String}
    (hid : ∀ c ∈ backupId.toList, Text.isIdChar c = true) (hne : suffix ≠ "")
    (hsuffix : ∀ c ∈ suffix.toList, Text.isIdChar c = true) : ProperName (backupId ++ suffix) := by
  refine properName_of_chars (fun heq => hne ?_) fun c hc => ?_
  · have hlist := congrArg String.toList heq
    rw [String.toList_append] at hlist
    exact String.toList_inj.mp (List.append_eq_nil_iff.mp hlist).2
  · rw [String.toList_append] at hc
    exact (List.mem_append.mp hc).elim (hid c) (hsuffix c)

theorem isBackupId_chars {backupId : String} (h : Text.isBackupId backupId = true) :
    ∀ c ∈ backupId.toList, Text.isIdChar c = true := by
  have hdigit : ∀ c : Char, c.isDigit = true → Text.isIdChar c = true := by
    intro c hc
    simp [Text.isIdChar, Text.isAlnum, hc]
  have hhex : ∀ c : Char, Text.isHexDigit c = true → Text.isIdChar c = true := by
    intro c hc
    rcases Bool.or_eq_true_iff.mp hc with hc | hc
    · exact hdigit c hc
    · have hletter : ('a' ≤ c && c ≤ 'z') = true := by
        simp only [Bool.and_eq_true, decide_eq_true_eq] at hc ⊢
        exact ⟨hc.1, le_trans hc.2 (by decide)⟩
      simp [Text.isIdChar, Text.isAlnum, hletter]
  simp only [Text.isBackupId, Bool.and_eq_true, decide_eq_true_eq, List.all_eq_true] at h
  obtain ⟨⟨⟨⟨⟨-, hdate⟩, hmark⟩, htime⟩, hzone⟩, hrest⟩ := h
  have hparts : backupId.toList = backupId.toList.take 8 ++ ((backupId.toList.drop 8).take 1 ++
      ((backupId.toList.drop 9).take 6 ++ ((backupId.toList.drop 15).take 2 ++
        backupId.toList.drop 17))) := by
    have hdrop : ∀ i n, backupId.toList.drop i =
        (backupId.toList.drop i).take n ++ backupId.toList.drop (i + n) := by
      intro i n
      rw [← List.drop_drop, List.take_append_drop]
    rw [← hdrop 15 2, ← hdrop 9 6, ← hdrop 8 1, List.take_append_drop]
  intro c hc
  rw [hparts, hmark, hzone] at hc
  simp only [List.mem_append, List.mem_cons, List.not_mem_nil, or_false] at hc
  rcases hc with hc | rfl | hc | (rfl | rfl) | hc
  · exact hdigit c (hdate c hc)
  · decide
  · exact hdigit c (htime c hc)
  · decide
  · decide
  · exact hhex c (hrest c hc)

theorem isSafeId_chars {id : String} (h : Text.isSafeId id = true) :
    ∀ c ∈ id.toList, Text.isIdChar c = true := by
  unfold Text.isSafeId at h
  split at h
  · cases h
  · rename_i first rest hlist
    simp only [Bool.and_eq_true, List.all_eq_true] at h
    rw [hlist]
    refine List.forall_mem_cons.mpr ⟨?_, h.2⟩
    simp [Text.isIdChar, h.1.1]

/-- Fixed names are checked by evaluation. -/
theorem chars_of_all {names : List String}
    (h : (names.all fun name => !name.toList.isEmpty && name.toList.all Text.isIdChar) = true) :
    ∀ name ∈ names, name ≠ "" ∧ ∀ c ∈ name.toList, Text.isIdChar c = true := by
  intro name hname
  obtain ⟨hne, hchars⟩ := Bool.and_eq_true_iff.mp (List.all_eq_true.mp h name hname)
  refine ⟨?_, List.all_eq_true.mp hchars⟩
  rintro rfl
  cases hne

theorem suffix_chars : ∀ suffix ∈ [".json", ".age"],
    suffix ≠ "" ∧ ∀ c ∈ suffix.toList, Text.isIdChar c = true :=
  chars_of_all (by decide)

theorem properName_json {backupId : String} (h : Text.isBackupId backupId = true) :
    ProperName (backupId ++ ".json") :=
  properName_append (isBackupId_chars h) (suffix_chars ".json" (by simp)).1
    (suffix_chars ".json" (by simp)).2

theorem completeKey_eq (pre backupId : String) :
    completeKey pre backupId = pre ++ "/complete" ++ "/" ++ (backupId ++ ".json") := by
  simp [completeKey, ← String.toList_inj, String.toList_append]

theorem deletingKey_eq (pre backupId : String) :
    deletingKey pre backupId = pre ++ "/deleting" ++ "/" ++ (backupId ++ ".json") := by
  simp [deletingKey, ← String.toList_inj, String.toList_append]

theorem verifiedKey_eq (pre backupId : String) :
    verifiedKey pre backupId = pre ++ "/verified" ++ "/" ++ (backupId ++ ".json") := by
  simp [verifiedKey, ← String.toList_inj, String.toList_append]

theorem manifestKeyOf_eq (pre backupId : String) :
    manifestKeyOf pre backupId = pointRoot pre backupId ++ "/" ++ "manifest.json.age" := by
  simp [manifestKeyOf, ← String.toList_inj, String.toList_append]

theorem properName_manifest : ProperName "manifest.json.age" :=
  properName_of_chars (by decide) (List.all_eq_true.mp (by decide))

/-! ## 2. Listings -/

theorem stem_eq_some {name backupId : String} :
    stem name = some backupId ↔ name = backupId ++ ".json" := by
  have hsuffix : ".json".toList.length = 5 := rfl
  unfold stem
  constructor
  · intro h
    split at h
    · rename_i hends
      obtain ⟨front, hfront⟩ := List.isSuffixOf_iff_suffix.mp hends
      obtain rfl := Option.some.inj h
      rw [← String.toList_inj, String.toList_append, String.toList_ofList, ← hfront,
        List.length_append, hsuffix, Nat.add_sub_cancel, List.take_left]
    · cases h
  · rintro rfl
    have hends : Text.endsWith (backupId ++ ".json") ".json" = true := by
      rw [Text.endsWith, String.toList_append, List.isSuffixOf_iff_suffix]
      exact List.suffix_append _ _
    rw [if_pos hends, String.toList_append, List.length_append, hsuffix, Nat.add_sub_cancel,
      List.take_left, String.ofList_toList]

section Present

variable {b : Bucket} {dir name : String}

theorem mem_lsf_of_mem (hname : ProperName name) (h : dir ++ "/" ++ name ∈ b) : name ∈ lsf b dir :=
  mem_lsf hname.line hname.ne (mem_children.mpr ⟨hname.plain, h⟩)

theorem remoteFileExists_eq (hname : ProperName name) :
    remoteFileExists b (dir ++ "/" ++ name) = (lsf b dir).contains name := by
  rw [remoteFileExists, parentAndName_append hname.plain]

theorem remoteFileExists_of_mem (hname : ProperName name) (h : dir ++ "/" ++ name ∈ b) :
    remoteFileExists b (dir ++ "/" ++ name) = true := by
  rw [remoteFileExists_eq hname]
  exact List.contains_iff_mem.mpr (mem_lsf_of_mem hname h)

theorem mem_lsf_iff_mem (hlines : SingleLines b) (hname : ProperName name) :
    name ∈ lsf b dir ↔ dir ++ "/" ++ name ∈ b := by
  rw [mem_lsf_iff hlines]
  exact ⟨fun h => h.2.2, fun h => ⟨hname.ne, hname.plain, h⟩⟩

theorem remoteFileExists_iff (hlines : SingleLines b) (hname : ProperName name) :
    remoteFileExists b (dir ++ "/" ++ name) = true ↔ dir ++ "/" ++ name ∈ b := by
  rw [remoteFileExists_eq hname, List.contains_iff_mem, mem_lsf_iff_mem hlines hname]

theorem readJson_ok {target : String} {j : Json} (h : readJson b target = .ok j) : target ∈ b := by
  unfold readJson at h
  split at h
  · cases h
  · rename_i content hcontent
    exact Finmap.mem_of_lookup_eq_some hcontent

theorem readJson_congr {b' : Bucket} {target : String} (h : b'.lookup target = b.lookup target) :
    readJson b' target = readJson b target := by
  unfold readJson
  rw [h]

end Present

/-! ## 3. One record -/

theorem check_eq_ok {c : Bool} {message : String} {u : Unit} (h : check c message = .ok u) :
    c = true := by
  unfold check at h
  split at h
  · assumption
  · cases h

variable [Sha256] [Ed25519] {r : Rotation}

theorem Trusted.isBackupId (t : Trusted r) : Text.isBackupId t.backupId = true := by
  have h := t.derived
  unfold Rotation.record retentionRecord at h
  obtain ⟨_, hauthentic, h⟩ := bind_ok h
  obtain ⟨_, hsame, h⟩ := bind_ok h
  have hid := check_eq_ok hsame
  rw [pyEq_str] at hid
  unfold Rotation.authentic at hauthentic
  obtain ⟨_, -, hmanifest⟩ := bind_ok hauthentic
  unfold validateManifest at hmanifest
  obtain ⟨_, -, hmanifest⟩ := bind_ok hmanifest
  obtain ⟨_, hcheck, hmanifest⟩ := bind_ok hmanifest
  have := check_eq_ok hcheck
  rwa [hid, pyStr_str] at this

section Record

variable {b : Bucket} {backupId : String}

/-- A manifest that was read was there, and the record is its record. -/
theorem authenticatedRetentionRecord_ok {t : Trusted r}
    (h : authenticatedRetentionRecord r b backupId = .ok t) :
    t.backupId = backupId ∧ manifestKeyOf r.pre backupId ∈ b := by
  unfold authenticatedRetentionRecord at h
  split at h
  · cases h
  · rename_i manifest hmanifest
    split at h
    · split at h
      · cases h
      · obtain rfl := Except.ok.inj h
        refine ⟨rfl, ?_⟩
        unfold readManifest at hmanifest
        split at hmanifest
        · cases hmanifest
        · rename_i content hcontent
          exact Finmap.mem_of_lookup_eq_some hcontent
    · cases h

theorem authenticatedRetentionRecord_congr {b' : Bucket}
    (h : b'.lookup (manifestKeyOf r.pre backupId) = b.lookup (manifestKeyOf r.pre backupId)) :
    authenticatedRetentionRecord r b' backupId = authenticatedRetentionRecord r b backupId := by
  have hread : readManifest r b' backupId = readManifest r b backupId := by
    unfold readManifest
    rw [h]
  unfold authenticatedRetentionRecord
  rw [hread]

theorem completionRecord_ok {t : Trusted r} (h : completionRecord r b backupId = .ok t) :
    completeKey r.pre backupId ∈ b ∧ authenticatedRetentionRecord r b backupId = .ok t := by
  unfold completionRecord at h
  obtain ⟨_, -, h⟩ := bind_ok h
  obtain ⟨marker, hmarker, h⟩ := bind_ok h
  obtain ⟨_, -, h⟩ := bind_ok h
  obtain ⟨_, -, h⟩ := bind_ok h
  obtain ⟨trusted, htrusted, h⟩ := bind_ok h
  obtain ⟨_, -, h⟩ := bind_ok h
  obtain rfl := Except.ok.inj h
  exact ⟨readJson_ok hmarker, htrusted⟩

theorem completionRecord_congr {b' : Bucket}
    (hmarker : b'.lookup (completeKey r.pre backupId) = b.lookup (completeKey r.pre backupId))
    (hmanifest : b'.lookup (manifestKeyOf r.pre backupId) =
      b.lookup (manifestKeyOf r.pre backupId)) :
    completionRecord r b' backupId = completionRecord r b backupId := by
  unfold completionRecord
  rw [readJson_congr hmarker, authenticatedRetentionRecord_congr hmanifest]

theorem journalRecord_some {t : Trusted r} (h : journalRecord r b backupId = .ok (some t)) :
    authenticatedRetentionRecord r b backupId = .ok t ∧ ∃ journal,
      readJson b (deletingKey r.pre backupId) = .ok journal ∧ journal.pyEq t.record = true := by
  unfold journalRecord at h
  obtain ⟨_, -, h⟩ := bind_ok h
  split at h
  · obtain ⟨trusted, htrusted, h⟩ := bind_ok h
    obtain ⟨journal, hjournal, h⟩ := bind_ok h
    obtain ⟨_, hsame, h⟩ := bind_ok h
    obtain rfl := Option.some.inj (Except.ok.inj h)
    exact ⟨htrusted, journal, hjournal, check_eq_ok hsame⟩
  · obtain ⟨_, -, h⟩ := bind_ok h
    cases h

/-- A journal that only the journal is left of. -/
theorem journalRecord_none (h : journalRecord r b backupId = .ok none) :
    Text.isBackupId backupId = true ∧ manifestKeyOf r.pre backupId ∉ b ∧
      completeKey r.pre backupId ∉ b ∧ verifiedKey r.pre backupId ∉ b := by
  unfold journalRecord at h
  obtain ⟨_, hid, h⟩ := bind_ok h
  have hid := check_eq_ok hid
  split at h
  · obtain ⟨_, -, h⟩ := bind_ok h
    obtain ⟨_, -, h⟩ := bind_ok h
    obtain ⟨_, -, h⟩ := bind_ok h
    cases h
  · rename_i hmanifest
    obtain ⟨_, hmarkers, -⟩ := bind_ok h
    have hmarkers := check_eq_ok hmarkers
    rw [Bool.not_eq_true', Bool.or_eq_false_iff, completeKey_eq, verifiedKey_eq] at hmarkers
    rw [completeKey_eq, verifiedKey_eq, manifestKeyOf_eq]
    refine ⟨hid, fun hmem => hmanifest ?_, fun hmem => ?_, fun hmem => ?_⟩
    · rw [manifestKeyOf_eq]
      exact remoteFileExists_of_mem properName_manifest hmem
    · rw [remoteFileExists_of_mem (properName_json hid) hmem] at hmarkers
      exact absurd hmarkers.1 (by decide)
    · rw [remoteFileExists_of_mem (properName_json hid) hmem] at hmarkers
      exact absurd hmarkers.2 (by decide)

/-- With its manifest there a journal is answered by the record of the manifest. -/
theorem journalRecord_of_manifest {t : Trusted r} {x : Option (Trusted r)}
    (h : authenticatedRetentionRecord r b backupId = .ok t)
    (hx : journalRecord r b backupId = .ok x) : x = some t := by
  cases x with
  | none => exact absurd (authenticatedRetentionRecord_ok h).2 (journalRecord_none hx).2.1
  | some s =>
    have hs := (journalRecord_some hx).1
    rw [h] at hs
    rw [Except.ok.inj hs]

end Record

/-! ## 4. Dictionaries of records -/

namespace TrustedRecords

theorem mem_ids {d : TrustedRecords r} {backupId : String} :
    backupId ∈ d.ids ↔ ∃ t ∈ d.records, t.backupId = backupId := List.mem_map

theorem mem_ids_set {d : TrustedRecords r} {t : Trusted r} {backupId : String} :
    backupId ∈ (d.set t).ids ↔ backupId ∈ d.ids ∨ backupId = t.backupId := by
  rw [mem_ids, mem_ids]
  constructor
  · rintro ⟨s, hs, rfl⟩
    rcases mem_set.mp hs with rfl | ⟨hs, -⟩
    · exact .inr rfl
    · exact .inl ⟨s, hs, rfl⟩
  · intro h
    by_cases heq : backupId = t.backupId
    · exact ⟨t, mem_set.mpr (.inl rfl), heq.symm⟩
    · obtain ⟨s, hs, rfl⟩ := h.resolve_right heq
      exact ⟨s, mem_set.mpr (.inr ⟨hs, heq⟩), rfl⟩

end TrustedRecords

section Dictionaries

variable {b : Bucket}

/-- The loop answers the records of the markers that are listed. -/
theorem completionRecords_ok {names : List String} {d d' : TrustedRecords r}
    (hd : ∀ t ∈ d.records, completionRecord r b t.backupId = .ok t)
    (h : completionRecords r b names d = .ok d') :
    (∀ t ∈ d'.records, completionRecord r b t.backupId = .ok t) ∧
      ∀ backupId, backupId ∈ d'.ids ↔ backupId ∈ d.ids ∨ backupId ++ ".json" ∈ names := by
  induction names generalizing d with
  | nil =>
    obtain rfl := Except.ok.inj h
    exact ⟨hd, by simp⟩
  | cons name names ih =>
    unfold completionRecords at h
    cases hstem : stem name with
    | none =>
      rw [hstem] at h
      obtain ⟨hrecords, hids⟩ := ih hd h
      refine ⟨hrecords, fun backupId => ?_⟩
      have hne : backupId ++ ".json" ≠ name := by
        intro heq
        rw [stem_eq_some.mpr heq.symm] at hstem
        cases hstem
      rw [hids, List.mem_cons, or_iff_right hne]
    | some id =>
      rw [hstem] at h
      obtain ⟨t, ht, h⟩ := bind_ok h
      obtain ⟨hid, -⟩ := authenticatedRetentionRecord_ok (completionRecord_ok ht).2
      have hset : ∀ s ∈ (d.set t).records, completionRecord r b s.backupId = .ok s := by
        intro s hs
        rcases TrustedRecords.mem_set.mp hs with rfl | ⟨hs, -⟩
        · rw [hid]
          exact ht
        · exact hd s hs
      obtain ⟨hrecords, hids⟩ := ih hset h
      refine ⟨hrecords, fun backupId => ?_⟩
      have hname : backupId = t.backupId ↔ backupId ++ ".json" = name := by
        rw [eq_comm (b := name), ← stem_eq_some, hstem, Option.some_inj, hid, eq_comm]
      rw [hids, TrustedRecords.mem_ids_set, List.mem_cons, hname, or_assoc]

theorem exists_completionRecords {names : List String} {d : TrustedRecords r}
    (h : ∀ backupId, backupId ++ ".json" ∈ names → ∃ t, completionRecord r b backupId = .ok t) :
    ∃ d', completionRecords r b names d = .ok d' := by
  induction names generalizing d with
  | nil => exact ⟨d, rfl⟩
  | cons name names ih =>
    have hrest := fun backupId hmem => h backupId (List.mem_cons_of_mem _ hmem)
    unfold completionRecords
    cases hstem : stem name with
    | none => exact ih hrest
    | some id =>
      obtain ⟨t, ht⟩ := h id (by rw [← stem_eq_some.mp hstem]; exact List.mem_cons_self ..)
      obtain ⟨d', hd'⟩ := @ih (d.set t) hrest
      refine ⟨d', ?_⟩
      dsimp only
      rw [ht]
      exact hd'

/-- The loop answers the records of the journals that are listed, and the ids of those that have
no manifest any more. -/
theorem journalRecords_ok {names finalizing finalizing' : List String} {d d' : TrustedRecords r}
    (hd : ∀ t ∈ d.records, journalRecord r b t.backupId = .ok (some t))
    (hfinalizing : ∀ backupId ∈ finalizing, journalRecord r b backupId = .ok none)
    (h : journalRecords r b names d finalizing = .ok (d', finalizing')) :
    (∀ t ∈ d'.records, journalRecord r b t.backupId = .ok (some t)) ∧
      (∀ backupId ∈ finalizing', journalRecord r b backupId = .ok none) ∧
      ∀ backupId, (backupId ∈ d'.ids ∨ backupId ∈ finalizing') ↔
        (backupId ∈ d.ids ∨ backupId ∈ finalizing) ∨ backupId ++ ".json" ∈ names := by
  induction names generalizing d finalizing with
  | nil =>
    obtain ⟨rfl, rfl⟩ := Prod.mk.inj (Except.ok.inj h)
    exact ⟨hd, hfinalizing, by simp⟩
  | cons name names ih =>
    unfold journalRecords at h
    cases hstem : stem name with
    | none =>
      rw [hstem] at h
      obtain ⟨hrecords, hnone, hids⟩ := ih hd hfinalizing h
      refine ⟨hrecords, hnone, fun backupId => ?_⟩
      have hne : backupId ++ ".json" ≠ name := by
        intro heq
        rw [stem_eq_some.mpr heq.symm] at hstem
        cases hstem
      rw [hids, List.mem_cons, or_iff_right hne]
    | some id =>
      rw [hstem] at h
      obtain ⟨x, hx, h⟩ := bind_ok h
      have hname : ∀ backupId, backupId = id ↔ backupId ++ ".json" = name := by
        intro backupId
        rw [eq_comm (b := name), ← stem_eq_some, hstem, Option.some_inj, eq_comm]
      cases x with
      | none =>
        have hinsert : ∀ backupId ∈ finalizing.insert id,
            journalRecord r b backupId = .ok none := by
          intro backupId hmem
          rcases List.mem_insert_iff.mp hmem with rfl | hmem
          · exact hx
          · exact hfinalizing backupId hmem
        obtain ⟨hrecords, hnone, hids⟩ := ih hd hinsert h
        refine ⟨hrecords, hnone, fun backupId => ?_⟩
        rw [hids, List.mem_insert_iff, List.mem_cons, hname]
        tauto
      | some t =>
        obtain ⟨hid, -⟩ := authenticatedRetentionRecord_ok (journalRecord_some hx).1
        have hset : ∀ s ∈ (d.set t).records, journalRecord r b s.backupId = .ok (some s) := by
          intro s hs
          rcases TrustedRecords.mem_set.mp hs with rfl | ⟨hs, -⟩
          · rw [hid]
            exact hx
          · exact hd s hs
        obtain ⟨hrecords, hnone, hids⟩ := ih hset hfinalizing h
        refine ⟨hrecords, hnone, fun backupId => ?_⟩
        rw [hids, TrustedRecords.mem_ids_set, List.mem_cons, hid, hname]
        tauto

theorem exists_journalRecords {names finalizing : List String} {d : TrustedRecords r}
    (h : ∀ backupId, backupId ++ ".json" ∈ names → ∃ x, journalRecord r b backupId = .ok x) :
    ∃ result, journalRecords r b names d finalizing = .ok result := by
  induction names generalizing d finalizing with
  | nil => exact ⟨_, rfl⟩
  | cons name names ih =>
    have hrest := fun backupId hmem => h backupId (List.mem_cons_of_mem _ hmem)
    unfold journalRecords
    cases hstem : stem name with
    | none => exact ih hrest
    | some id =>
      obtain ⟨x, hx⟩ := h id (by rw [← stem_eq_some.mp hstem]; exact List.mem_cons_self ..)
      dsimp only
      rw [hx]
      cases x with
      | none => exact @ih (finalizing.insert id) d hrest
      | some t => exact @ih finalizing (d.set t) hrest

section Verified

variable {remote remote' : Remote} {pre : String} {all all' : List (String × Json)} {key : Bytes}
  {keyId name id : String}

omit [Sha256] [Ed25519] in
theorem verifiedName (h : stem name = some id) :
    pre ++ "/verified/" ++ name = verifiedKey pre id := by
  rw [stem_eq_some.mp h, verifiedKey, String.append_assoc, String.append_assoc, String.append_assoc]

omit [Sha256] in
/-- The backup that a marker verifies is the one that it is named after. -/
theorem validatedVerifiedId_ok
    (h : validatedVerifiedId r.conv.repr remote pre all key keyId name = .ok (some id)) :
    stem name = some id ∧ Text.isBackupId id = true ∧ remote (verifiedKey pre id) ≠ none ∧
      ∃ record, all.lookup id = some record := by
  unfold validatedVerifiedId at h
  split at h
  · rename_i hends
    have hstem : ∀ backupId, String.ofList (name.toList.take (name.toList.length - 5)) = backupId →
        stem name = some backupId := by
      intro backupId heq
      rw [stem, if_pos hends, heq]
    dsimp only at h
    generalize hid : String.ofList (name.toList.take (name.toList.length - 5)) = backupId at h
    obtain ⟨_, hvalid, h⟩ := bind_ok h
    split at h
    · cases h
    · rename_i content hcontent
      obtain ⟨verification, -, h⟩ := bind_ok h
      obtain ⟨_, -, h⟩ := bind_ok h
      obtain ⟨_, -, h⟩ := bind_ok h
      obtain ⟨_, hbound, h⟩ := bind_ok h
      obtain rfl := Option.some.inj (Except.ok.inj h)
      obtain ⟨record, hrecord, -⟩ := (Option.any_eq_true ..).mp (check_eq_ok hbound)
      refine ⟨hstem _ hid, check_eq_ok hvalid, ?_, record, hrecord⟩
      rw [← verifiedName (hstem _ hid), hcontent]
      exact Option.some_ne_none _
  · cases h

omit [Sha256] in
theorem validatedVerifiedId_congr (hname : stem name = some id)
    (hremote : remote' (verifiedKey pre id) = remote (verifiedKey pre id))
    (hall : all'.lookup id = all.lookup id) :
    validatedVerifiedId r.conv.repr remote' pre all' key keyId name =
      validatedVerifiedId r.conv.repr remote pre all key keyId name := by
  have hid : String.ofList (name.toList.take (name.toList.length - 5)) = id := by
    unfold stem at hname
    split at hname
    · exact Option.some.inj hname
    · cases hname
  unfold validatedVerifiedId
  dsimp only
  rw [verifiedName hname, hid, hremote, hall]

omit [Sha256] in
theorem validatedVerifiedId_none (hname : stem name = none) :
    validatedVerifiedId r.conv.repr remote pre all key keyId name = .ok none := by
  unfold stem at hname
  split at hname
  · cases hname
  · rename_i hends
    exact if_neg hends

omit [Sha256] in
theorem validatedVerifiedId_stem {verified : Option String} (hname : stem name = some id)
    (h : validatedVerifiedId r.conv.repr remote pre all key keyId name = .ok verified) :
    verified = some id := by
  cases verified with
  | some other => rw [← hname, (validatedVerifiedId_ok h).1]
  | none =>
    unfold stem at hname
    split at hname
    · rename_i hends
      rw [validatedVerifiedId, if_pos hends] at h
      dsimp only at h
      obtain ⟨_, -, h⟩ := bind_ok h
      split at h
      · cases h
      · obtain ⟨_, -, h⟩ := bind_ok h
        obtain ⟨_, -, h⟩ := bind_ok h
        obtain ⟨_, -, h⟩ := bind_ok h
        obtain ⟨_, -, h⟩ := bind_ok h
        cases h
    · cases hname

omit [Sha256] in
theorem mem_validatedVerifiedIds {names ids : List String}
    (h : validatedVerifiedIds r.conv.repr remote pre all key keyId names = .ok ids) :
    (∀ name ∈ names, ∃ verified,
      validatedVerifiedId r.conv.repr remote pre all key keyId name = .ok verified) ∧
    ∀ id, id ∈ ids ↔ ∃ name ∈ names,
      validatedVerifiedId r.conv.repr remote pre all key keyId name = .ok (some id) := by
  induction names generalizing ids with
  | nil =>
    obtain rfl := Except.ok.inj h
    simp
  | cons first names ih =>
    unfold validatedVerifiedIds at h
    obtain ⟨verified, hverified, h⟩ := bind_ok h
    obtain ⟨rest, hrest, h⟩ := bind_ok h
    obtain rfl := Except.ok.inj h
    obtain ⟨hall, hids⟩ := ih hrest
    refine ⟨List.forall_mem_cons.mpr ⟨⟨verified, hverified⟩, hall⟩, fun id => ?_⟩
    rw [List.mem_append, hids, Option.mem_toList]
    constructor
    · rintro (rfl | ⟨name, hname, hid⟩)
      · exact ⟨first, List.mem_cons_self .., hverified⟩
      · exact ⟨name, List.mem_cons_of_mem _ hname, hid⟩
    · rintro ⟨name, hname, hid⟩
      rcases List.mem_cons.mp hname with rfl | hname
      · rw [hverified] at hid
        exact .inl (Except.ok.inj hid)
      · exact .inr ⟨name, hname, hid⟩

omit [Sha256] in
theorem exists_validatedVerifiedIds {names : List String}
    (h : ∀ name ∈ names, ∃ verified,
      validatedVerifiedId r.conv.repr remote pre all key keyId name = .ok verified) :
    ∃ ids, validatedVerifiedIds r.conv.repr remote pre all key keyId names = .ok ids := by
  induction names with
  | nil => exact ⟨[], rfl⟩
  | cons first names ih =>
    obtain ⟨⟨verified, hverified⟩, hrest⟩ := List.forall_mem_cons.mp h
    obtain ⟨ids, hids⟩ := ih hrest
    rw [validatedVerifiedIds, hverified, hids]
    exact ⟨_, rfl⟩

end Verified

end Dictionaries

/-! ## 5. What a plan knows -/

/-- The record is the one of the manifest that stands in the bucket. -/
def Authentic (b : Bucket) (t : Trusted r) : Prop :=
  authenticatedRetentionRecord r b t.backupId = .ok t

section Known

variable {b : Bucket} {now : Instant}

theorem Authentic.eq {s t : Trusted r} (hs : Authentic b s) (ht : Authentic b t)
    (h : s.backupId = t.backupId) : s = t := by
  unfold Authentic at hs ht
  rw [h, ht] at hs
  exact (Except.ok.inj hs).symm

theorem Authentic.manifest {t : Trusted r} (h : Authentic b t) :
    manifestKeyOf r.pre t.backupId ∈ b := (authenticatedRetentionRecord_ok h).2

omit [Sha256] [Ed25519] in
theorem mapError_ok {ε ε' α : Type} {f : ε → ε'} {x : Except ε α} {a : α}
    (h : x.mapError f = .ok a) : x = .ok a := by
  cases x with
  | error e => cases h
  | ok a' => exact congrArg Except.ok (Except.ok.inj h)

theorem mem_allTrusted {markers journals : TrustedRecords r}
    (hmarkers : ∀ t ∈ markers.records, Authentic b t)
    (hjournals : ∀ t ∈ journals.records, Authentic b t) {t : Trusted r} :
    t ∈ allTrusted markers journals ↔ t ∈ markers.records ∨ t ∈ journals.records := by
  unfold allTrusted
  rw [List.mem_append, List.mem_map, List.mem_filter]
  have hsame : ∀ marker ∈ markers.records,
      (journals.find? marker.backupId).getD marker = marker := by
    intro marker hmarker
    cases hfound : journals.find? marker.backupId with
    | none => rfl
    | some journal =>
      obtain ⟨hjournal, hid⟩ := TrustedRecords.find?_eq_some.mp hfound
      exact (hjournals journal hjournal).eq (hmarkers marker hmarker) hid
  constructor
  · rintro (⟨marker, hmarker, rfl⟩ | ⟨hjournal, -⟩)
    · rw [hsame marker hmarker]
      exact .inl hmarker
    · exact .inr hjournal
  · rintro (hmarker | hjournal)
    · exact .inl ⟨t, hmarker, hsame t hmarker⟩
    · by_cases hid : t.backupId ∈ markers.ids
      · obtain ⟨marker, hmarker, heq⟩ := TrustedRecords.mem_ids.mp hid
        obtain rfl := (hmarkers marker hmarker).eq (hjournals t hjournal) heq
        exact .inl ⟨marker, hmarker, hsame marker hmarker⟩
      · exact .inr ⟨hjournal, by simpa using hid⟩

theorem lookup_byId {all : List (Trusted r)} (hall : ∀ t ∈ all, Authentic b t) {t : Trusted r}
    (ht : t ∈ all) : (byId all).lookup t.backupId = some t.record := by
  induction all with
  | nil => cases ht
  | cons s all ih =>
    obtain ⟨hs, hall'⟩ := List.forall_mem_cons.mp hall
    change ((s.backupId, s.record) :: byId all).lookup t.backupId = _
    by_cases hid : t.backupId = s.backupId
    · rw [hid, List.lookup_cons_self, (hall t ht).eq hs hid]
    · rw [List.lookup_cons, beq_false_of_ne hid]
      refine ih hall' ((List.mem_cons.mp ht).resolve_left fun heq => hid ?_)
      rw [heq]

theorem mem_of_lookup_byId {all : List (Trusted r)} {backupId : String} {record : Json}
    (h : (byId all).lookup backupId = some record) :
    ∃ t ∈ all, t.backupId = backupId ∧ t.record = record := by
  induction all with
  | nil => cases h
  | cons s all ih =>
    change ((s.backupId, s.record) :: byId all).lookup backupId = _ at h
    by_cases hid : backupId = s.backupId
    · rw [hid, List.lookup_cons_self] at h
      exact ⟨s, List.mem_cons_self .., hid.symm, Option.some.inj h⟩
    · rw [List.lookup_cons, beq_false_of_ne hid] at h
      obtain ⟨t, ht, hrest⟩ := ih h
      exact ⟨t, List.mem_cons_of_mem _ ht, hrest⟩

theorem allMarkers_points (markers journals : TrustedRecords r) :
    allMarkers markers.points journals.points =
      (allTrusted markers journals).map Trusted.point := by
  have hfind : ∀ backupId, journals.points.points.find? (·.backupId = backupId) =
      (journals.find? backupId).map Trusted.point := by
    intro backupId
    change (journals.records.map Trusted.point).find? _ = _
    rw [List.find?_map]
    rfl
  unfold allMarkers allTrusted
  rw [List.map_append, List.map_map]
  congr 1
  · change (markers.records.map Trusted.point).map _ = _
    rw [List.map_map]
    refine List.map_congr_left fun marker _ => ?_
    change (journals.points.points.find? (·.backupId = marker.backupId)).getD marker.point =
      ((journals.find? marker.backupId).getD marker).point
    rw [hfind]
    cases journals.find? marker.backupId with
    | none => rfl
    | some journal => rfl
  · change (journals.records.map Trusted.point).filter _ = _
    rw [List.filter_map]
    have hids : markers.points.ids = markers.ids := List.map_map
    rw [hids]
    rfl

/-- A marker in the bucket says that the point was restored. -/
def Verifies (b : Bucket) (t : Trusted r) : Prop :=
  validatedVerifiedId r.conv.repr (fun key => b.lookup key) r.pre [(t.backupId, t.record)]
    r.restoreVerificationKey r.restoreVerificationKeyId (t.backupId ++ ".json") =
      .ok (some t.backupId)

theorem verifies_congr {t : Trusted r} {all : List (String × Json)} {remote : Remote}
    (hall : all.lookup t.backupId = some t.record)
    (hremote : remote (verifiedKey r.pre t.backupId) = b.lookup (verifiedKey r.pre t.backupId)) :
    validatedVerifiedId r.conv.repr remote r.pre all r.restoreVerificationKey
      r.restoreVerificationKeyId (t.backupId ++ ".json") = .ok (some t.backupId) ↔
        Verifies b t := by
  have hsame : all.lookup t.backupId = [(t.backupId, t.record)].lookup t.backupId := by
    rw [hall, List.lookup_cons_self]
  have hcongr : validatedVerifiedId r.conv.repr remote r.pre all r.restoreVerificationKey
      r.restoreVerificationKeyId (t.backupId ++ ".json") =
        validatedVerifiedId r.conv.repr (fun key => b.lookup key) r.pre [(t.backupId, t.record)]
          r.restoreVerificationKey r.restoreVerificationKeyId (t.backupId ++ ".json") :=
    validatedVerifiedId_congr (stem_eq_some.mpr rfl) hremote hsame
  rw [hcongr, Verifies]

/-- What is known of the bucket when the decisions are made. -/
structure Plan.Reads (p : Plan r) (b : Bucket) : Prop where
  markers : ∀ t, t ∈ p.markers.records ↔ completeKey r.pre t.backupId ∈ b ∧ Authentic b t
  journals : ∀ t, t ∈ p.journals.records ↔ deletingKey r.pre t.backupId ∈ b ∧ Authentic b t
  finalizing : ∀ backupId ∈ p.finalizing, Text.isBackupId backupId = true ∧
    manifestKeyOf r.pre backupId ∉ b ∧ completeKey r.pre backupId ∉ b ∧
    verifiedKey r.pre backupId ∉ b
  deleting : ∀ backupId, Text.isBackupId backupId = true → deletingKey r.pre backupId ∈ b →
    backupId ∈ p.journals.ids ∨ backupId ∈ p.finalizing
  verified : ∀ backupId ∈ p.verified,
    ∃ t ∈ allTrusted p.markers p.journals, t.backupId = backupId
  verified_of_mem : ∀ t : Trusted r, verifiedKey r.pre t.backupId ∈ b → t.backupId ∈ p.verified
  verifies : ∀ t ∈ allTrusted p.markers p.journals, t.backupId ∈ p.verified ↔ Verifies b t

structure Plan.Knows (p : Plan r) (b : Bucket) (now : Instant) : Prop extends p.Reads b where
  decided : rotateDecisions p.markers.points p.journals.points p.finalizing now
    p.protectedVerified = .ok p.decisions

/-- How a plan comes about. -/
theorem plan_eq {p : Plan r}
    (hmarkers : completionRecords r b (lsf b (r.pre ++ "/complete")) .empty = .ok p.markers)
    (hjournals : journalRecords r b (lsf b (r.pre ++ "/deleting")) .empty [] =
      .ok (p.journals, p.finalizing))
    (hverified : validatedVerifiedIds r.conv.repr (fun key => b.lookup key) r.pre
      (byId (allTrusted p.markers p.journals)) r.restoreVerificationKey
      r.restoreVerificationKeyId (lsf b (r.pre ++ "/verified")) = .ok p.verified)
    (hdecided : rotateDecisions p.markers.points p.journals.points p.finalizing now
      p.protectedVerified = .ok p.decisions) : plan r b now = .ok p := by
  rw [Plan.protectedVerified] at hdecided
  unfold plan
  rw [hmarkers]
  simp only [bind, Except.bind]
  rw [hjournals]
  dsimp only
  rw [hverified]
  dsimp only
  rw [hdecided]
  rfl

theorem plan_ok {p : Plan r} (h : plan r b now = .ok p) :
    completionRecords r b (lsf b (r.pre ++ "/complete")) .empty = .ok p.markers ∧
    journalRecords r b (lsf b (r.pre ++ "/deleting")) .empty [] = .ok (p.journals, p.finalizing) ∧
    validatedVerifiedIds r.conv.repr (fun key => b.lookup key) r.pre
      (byId (allTrusted p.markers p.journals)) r.restoreVerificationKey
      r.restoreVerificationKeyId (lsf b (r.pre ++ "/verified")) = .ok p.verified ∧
    rotateDecisions p.markers.points p.journals.points p.finalizing now p.protectedVerified =
      .ok p.decisions := by
  unfold plan at h
  obtain ⟨markers, hmarkers, h⟩ := bind_ok h
  obtain ⟨⟨journals, finalizing⟩, hjournals, h⟩ := bind_ok h
  obtain ⟨verified, hverified, h⟩ := bind_ok h
  obtain ⟨decisions, hdecisions, h⟩ := bind_ok h
  obtain rfl := Except.ok.inj h
  exact ⟨hmarkers, hjournals, hverified, mapError_ok hdecisions⟩

theorem mem_of_listed {t : Trusted r} {area : String}
    (h : r.pre ++ area ++ "/" ++ (t.backupId ++ ".json") ∈ b) :
    t.backupId ++ ".json" ∈ lsf b (r.pre ++ area) :=
  mem_lsf_of_mem (properName_json t.isBackupId) h

theorem mem_completionRecords {markers : TrustedRecords r}
    (h : completionRecords r b (lsf b (r.pre ++ "/complete")) .empty = .ok markers)
    (t : Trusted r) :
    t ∈ markers.records ↔ completeKey r.pre t.backupId ∈ b ∧ Authentic b t := by
  obtain ⟨hcompleted, hids⟩ := completionRecords_ok (fun t ht => absurd ht List.not_mem_nil) h
  have hof : ∀ s ∈ markers.records, completeKey r.pre s.backupId ∈ b ∧ Authentic b s :=
    fun s hs => completionRecord_ok (hcompleted s hs)
  refine ⟨hof t, fun ⟨hkey, ht⟩ => ?_⟩
  rw [completeKey_eq] at hkey
  obtain ⟨s, hs, heq⟩ := TrustedRecords.mem_ids.mp
    ((hids t.backupId).mpr (.inr (mem_of_listed hkey)))
  rwa [(hof s hs).2.eq ht heq] at hs

theorem mem_journalRecords {journals : TrustedRecords r} {finalizing : List String}
    (h : journalRecords r b (lsf b (r.pre ++ "/deleting")) .empty [] = .ok (journals, finalizing)) :
    (∀ t, t ∈ journals.records ↔ deletingKey r.pre t.backupId ∈ b ∧ Authentic b t) ∧
    (∀ backupId ∈ finalizing, Text.isBackupId backupId = true ∧
      manifestKeyOf r.pre backupId ∉ b ∧ completeKey r.pre backupId ∉ b ∧
      verifiedKey r.pre backupId ∉ b) ∧
    ∀ backupId, Text.isBackupId backupId = true → deletingKey r.pre backupId ∈ b →
      backupId ∈ journals.ids ∨ backupId ∈ finalizing := by
  obtain ⟨hjournaled, hfinal, hids⟩ := journalRecords_ok
    (fun t ht => absurd ht List.not_mem_nil) (fun id hid => absurd hid List.not_mem_nil) h
  have hof : ∀ s ∈ journals.records, deletingKey r.pre s.backupId ∈ b ∧ Authentic b s := by
    intro s hs
    obtain ⟨hauthentic, journal, hread, -⟩ := journalRecord_some (hjournaled s hs)
    exact ⟨readJson_ok hread, hauthentic⟩
  have hlisted : ∀ id, Text.isBackupId id = true → deletingKey r.pre id ∈ b →
      id ∈ journals.ids ∨ id ∈ finalizing := by
    intro id hid hkey
    rw [deletingKey_eq] at hkey
    exact (hids id).mpr (.inr (mem_lsf_of_mem (properName_json hid) hkey))
  refine ⟨fun t => ⟨hof t, fun ⟨hkey, ht⟩ => ?_⟩,
    fun id hid => journalRecord_none (hfinal id hid), hlisted⟩
  rcases hlisted t.backupId t.isBackupId hkey with hmem | hmem
  · obtain ⟨s, hs, heq⟩ := TrustedRecords.mem_ids.mp hmem
    rwa [(hof s hs).2.eq ht heq] at hs
  · exact absurd ht.manifest (journalRecord_none (hfinal _ hmem)).2.1

theorem plan_reads {p : Plan r}
    (hmarkers : completionRecords r b (lsf b (r.pre ++ "/complete")) .empty = .ok p.markers)
    (hjournals : journalRecords r b (lsf b (r.pre ++ "/deleting")) .empty [] =
      .ok (p.journals, p.finalizing))
    (hverified : validatedVerifiedIds r.conv.repr (fun key => b.lookup key) r.pre
      (byId (allTrusted p.markers p.journals)) r.restoreVerificationKey
      r.restoreVerificationKeyId (lsf b (r.pre ++ "/verified")) = .ok p.verified) :
    p.Reads b := by
  have hmarker := mem_completionRecords hmarkers
  obtain ⟨hjournal, hfinal, hdeleting⟩ := mem_journalRecords hjournals
  have hall : ∀ t ∈ allTrusted p.markers p.journals, Authentic b t := by
    intro t ht
    rw [mem_allTrusted (fun t ht => ((hmarker t).mp ht).2) fun t ht => ((hjournal t).mp ht).2] at ht
    exact ht.elim (fun ht => ((hmarker t).mp ht).2) fun ht => ((hjournal t).mp ht).2
  obtain ⟨hnames, hverifiedIds⟩ := mem_validatedVerifiedIds hverified
  have hofMem : ∀ t : Trusted r, verifiedKey r.pre t.backupId ∈ b →
      t.backupId ∈ p.verified := by
    intro t hkey
    rw [verifiedKey_eq] at hkey
    have hlisted := mem_of_listed hkey
    obtain ⟨verified, hvalid⟩ := hnames _ hlisted
    obtain rfl := validatedVerifiedId_stem (stem_eq_some.mpr rfl) hvalid
    exact (hverifiedIds _).mpr ⟨_, hlisted, hvalid⟩
  refine ⟨hmarker, hjournal, hfinal, hdeleting, fun id hid => ?_, hofMem,
    fun t ht => ⟨fun hid => ?_, fun hverifies => ?_⟩⟩
  · obtain ⟨name, -, hname⟩ := (hverifiedIds id).mp hid
    obtain ⟨-, -, -, record, hrecord⟩ := validatedVerifiedId_ok hname
    obtain ⟨t, ht, heq, -⟩ := mem_of_lookup_byId hrecord
    exact ⟨t, ht, heq⟩
  · obtain ⟨name, -, hname⟩ := (hverifiedIds _).mp hid
    rw [stem_eq_some.mp (validatedVerifiedId_ok hname).1] at hname
    exact (verifies_congr (lookup_byId hall ht) rfl).mp hname
  · obtain ⟨-, -, hremote, -⟩ := validatedVerifiedId_ok hverifies
    refine hofMem t ?_
    rw [← Finmap.lookup_isSome]
    exact Option.isSome_iff_ne_none.mpr hremote

theorem plan_knows {p : Plan r} (h : plan r b now = .ok p) : p.Knows b now := by
  obtain ⟨hmarkers, hjournals, hverified, hdecided⟩ := plan_ok h
  exact { plan_reads hmarkers hjournals hverified with decided := hdecided }

end Known

/-! ## 6. What is decided -/

section Decided

variable {b : Bucket} {now : Instant}

omit [Sha256] [Ed25519] in
/-- A point is expired if nothing but its protection keeps it. -/
theorem decision_delete {c : Cutoffs} {unique : Option String} {point : RecoveryPoint} :
    decision c unique point = .deleteExpiredAll ↔
      decision c none point = .deleteExpiredAll ∧ some point.backupId ≠ unique := by
  have hreasons : ∀ u, decision c u point = .deleteExpiredAll ↔ reasons c u point = [] := by
    intro u
    unfold decision
    dsimp only
    cases reasons c u point with
    | nil => simp
    | cons reason rest => simp
  obtain ⟨timed, htimed⟩ : ∃ timed, ∀ u, reasons c u point = timed ++
      (if some point.backupId = u then ["unique_verified"] else []) := ⟨_, fun _ => rfl⟩
  rw [hreasons, hreasons, htimed, htimed, if_neg (Option.some_ne_none _), List.append_nil,
    List.append_eq_nil_iff]
  simp

omit [Sha256] [Ed25519] in
theorem decision_keep {c : Cutoffs} {unique : Option String} {point : RecoveryPoint}
    (h : decision c unique point ≠ .deleteExpiredAll) :
    isKeep (some (decision c unique point)) = true := by
  unfold decision at h ⊢
  dsimp only at h ⊢
  split
  · rename_i hempty
    rw [if_pos hempty] at h
    exact absurd rfl h
  · rfl

omit [Sha256] [Ed25519] in
/-- The loop comes to its end exactly if no point raises. -/
theorem decideFrom_isOk {c : Cutoffs} {unique : Option String} {points : List RecoveryPoint}
    {result : Decisions} : (∃ decisions, decideFrom c unique points result = .ok decisions) ↔
      ∀ point ∈ points, checkPoint point = .ok () := by
  induction points generalizing result with
  | nil => exact ⟨fun _ _ h => absurd h List.not_mem_nil, fun _ => ⟨result, rfl⟩⟩
  | cons point points ih =>
    unfold decideFrom
    cases hcheck : checkPoint point with
    | error e =>
      constructor
      · rintro ⟨decisions, h⟩
        cases h
      · intro h
        rw [h point (List.mem_cons_self ..)] at hcheck
        cases hcheck
    | ok _ =>
      dsimp only
      rw [ih, List.forall_mem_cons, hcheck]
      exact ⟨fun h => ⟨rfl, h⟩, fun h => h.2⟩

/-- The point has expired. -/
def Expired (now : Instant) (t : Trusted r) : Prop :=
  ∃ c, cutoffs now = .ok c ∧ decision c none t.point = .deleteExpiredAll

/-- What comes of the decisions. -/
structure Plan.Decided (p : Plan r) (c : Cutoffs) : Prop where
  checked : ∀ t ∈ allTrusted p.markers p.journals, checkPoint t.point = .ok ()
  unprotected : ∀ t ∈ p.journals.records, some t.backupId ≠ p.protectedVerified
  journals : ∀ t ∈ p.journals.records,
    decision c p.protectedVerified t.point = .deleteExpiredAll
  markers : ∀ t ∈ p.markers.records, t.backupId ∉ p.journals.ids →
    p.decisions t.backupId = some (decision c p.protectedVerified t.point)

/-- What is kept is not deleted. -/
theorem Plan.kept_disjoint {p : Plan r} {s t : Trusted r} (hs : s ∈ p.kept)
    (ht : t ∈ p.deletionRecords) : s.backupId ≠ t.backupId := by
  intro heq
  obtain ⟨-, hrest⟩ := List.mem_filter.mp hs
  obtain ⟨hnew, hkeep⟩ := of_decide_eq_true hrest
  rcases List.mem_append.mp ht with ht | ht
  · exact hnew (heq ▸ List.mem_map_of_mem ht)
  · obtain ⟨-, hrest⟩ := List.mem_filter.mp ht
    rw [heq, (of_decide_eq_true hrest).2] at hkeep
    cases hkeep

section Reads

variable {p : Plan r} (h : p.Reads b)

include h

theorem Plan.Reads.mem_all {t : Trusted r} : t ∈ allTrusted p.markers p.journals ↔
    t ∈ p.markers.records ∨ t ∈ p.journals.records :=
  mem_allTrusted (fun t ht => ((h.markers t).mp ht).2) fun t ht => ((h.journals t).mp ht).2

theorem Plan.Reads.authentic {t : Trusted r} (ht : t ∈ allTrusted p.markers p.journals) :
    Authentic b t :=
  (h.mem_all.mp ht).elim (fun ht => ((h.markers t).mp ht).2) fun ht => ((h.journals t).mp ht).2

theorem Plan.Reads.notMem_finalizing {t : Trusted r} (ht : Authentic b t) :
    t.backupId ∉ p.finalizing :=
  fun hmem => (h.finalizing _ hmem).2.1 ht.manifest

theorem Plan.Reads.mem_journalIds {t : Trusted r} (ht : Authentic b t) :
    t.backupId ∈ p.journals.ids ↔ t ∈ p.journals.records := by
  rw [TrustedRecords.mem_ids]
  constructor
  · rintro ⟨s, hs, heq⟩
    rwa [((h.journals s).mp hs).2.eq ht heq] at hs
  · exact fun ht => ⟨t, ht, rfl⟩

end Reads

namespace Plan.Knows

variable {p : Plan r} (h : p.Knows b now)

include h

theorem exists_decided : ∃ c, cutoffs now = .ok c ∧ p.Decided c := by
  have hrun := h.decided
  unfold rotateDecisions at hrun
  split at hrun
  · cases hrun
  · rename_i hunprotected
    obtain ⟨decisions, hdecisions, hrun⟩ := bind_eq_ok hrun
    split at hrun
    · rename_i hexpired
      have hfinal := Except.ok.inj hrun
      obtain ⟨c, hc, hdecide⟩ := retentionDecisions_ok hdecisions
      rw [allMarkers_points] at hdecide
      have hdecision : ∀ t ∈ allTrusted p.markers p.journals,
          decisions t.backupId = some (decision c p.protectedVerified t.point) := by
        intro t ht
        refine @decideFrom_eq c _ t.point _ _ _ ?_ (.inl (List.mem_map_of_mem ht)) hdecide
        intro q hq hid
        obtain ⟨s, hs, rfl⟩ := List.mem_map.mp hq
        rw [(h.authentic hs).eq (h.authentic ht) hid]
      have hids : p.journals.points.ids = p.journals.ids := List.map_map
      rw [hids] at hunprotected hexpired hfinal
      refine ⟨c, hc, fun t ht => ?_, fun t ht heq => hunprotected ?_, fun t ht => ?_,
        fun t ht hnew => ?_⟩
      · exact decideFrom_isOk.mp ⟨_, hdecide⟩ t.point (List.mem_map_of_mem ht)
      · rw [← heq, Option.any_some, decide_eq_true_eq]
        exact List.mem_map_of_mem ht
      · have hall := List.all_eq_true.mp hexpired t.backupId (List.mem_map_of_mem ht)
        rw [decide_eq_true_eq, hdecision t (h.mem_all.mpr (.inr ht))] at hall
        exact Option.some.inj hall
      · rw [← hfinal]
        dsimp only
        rw [if_neg (h.notMem_finalizing ((h.markers t).mp ht).2), if_neg hnew]
        exact hdecision t (h.mem_all.mpr (.inl ht))
    · cases hrun

/-- What is deleted has expired and is not protected. -/
theorem expired {t : Trusted r} (ht : t ∈ p.deletionRecords) :
    Authentic b t ∧ Expired now t ∧ some t.backupId ≠ p.protectedVerified := by
  obtain ⟨c, hc, hdecided⟩ := h.exists_decided
  rcases List.mem_append.mp ht with ht | ht
  · obtain ⟨hexpired, hunprotected⟩ := decision_delete.mp (hdecided.journals t ht)
    exact ⟨((h.journals t).mp ht).2, ⟨c, hc, hexpired⟩, hunprotected⟩
  · obtain ⟨hmarker, hrest⟩ := List.mem_filter.mp ht
    obtain ⟨hnew, hdelete⟩ := of_decide_eq_true hrest
    rw [hdecided.markers t hmarker hnew, Option.some_inj, decision_delete] at hdelete
    exact ⟨((h.markers t).mp hmarker).2, ⟨c, hc, hdelete.1⟩, hdelete.2⟩

/-- What is not deleted is kept. -/
theorem mem_kept {t : Trusted r} (ht : t ∈ p.markers.records) :
    t ∈ p.kept ∨ t ∈ p.deletionRecords := by
  obtain ⟨c, hc, hdecided⟩ := h.exists_decided
  by_cases hjournal : t.backupId ∈ p.journals.ids
  · exact .inr (List.mem_append_left _ ((h.mem_journalIds ((h.markers t).mp ht).2).mp hjournal))
  · have hdecision := hdecided.markers t ht hjournal
    by_cases hdelete : decision c p.protectedVerified t.point = .deleteExpiredAll
    · rw [hdelete] at hdecision
      exact .inr (List.mem_append_right _
        (List.mem_filter.mpr ⟨ht, decide_eq_true ⟨hjournal, hdecision⟩⟩))
    · refine .inl (List.mem_filter.mpr ⟨ht, decide_eq_true ⟨hjournal, ?_⟩⟩)
      rw [hdecision]
      exact decision_keep hdelete

end Plan.Knows

end Decided

/-! ## 7. Ciphertext and metadata -/

section Paired

variable {pre : String}

/-- What names the ciphertext of a shared object names its metadata, and the other way round. -/
def Paired (pre : String) (keys : List String) : Prop :=
  ∀ blob, InArea pre .objects blob → (blob ++ ".age" ∈ keys ↔ blob ++ ".json" ∈ keys)

omit [Sha256] [Ed25519] in
theorem inArea_append {a : Area} {blob : String} (h : InArea pre a blob) (suffix : String) :
    InArea pre a (blob ++ suffix) := by
  obtain ⟨rest, rfl⟩ := h
  exact ⟨rest ++ suffix, by simp only [String.append_assoc]⟩

omit [Sha256] [Ed25519] in
theorem append_age_inj {blob other : String} :
    blob ++ ".age" = other ++ ".age" ↔ blob = other := by
  simp [← String.toList_inj, String.toList_append]

omit [Sha256] [Ed25519] in
theorem append_json_inj {blob other : String} :
    blob ++ ".json" = other ++ ".json" ↔ blob = other := by
  simp [← String.toList_inj, String.toList_append]

omit [Sha256] [Ed25519] in
theorem append_age_ne_json {blob other : String} : blob ++ ".age" ≠ other ++ ".json" := by
  intro heq
  have hlast := congrArg (fun text => text.toList.getLast?) heq
  simp [String.toList_append] at hlast

omit [Sha256] [Ed25519] in
theorem Paired.cons_blob {keys : List String} (h : Paired pre keys) (other : String) :
    Paired pre ((other ++ ".age") :: (other ++ ".json") :: keys) := by
  intro blob hblob
  simp only [List.mem_cons, append_age_inj, append_json_inj, append_age_ne_json,
    append_age_ne_json.symm, false_or, h blob hblob]

omit [Sha256] [Ed25519] in
theorem Paired.cons_own {keys : List String} (h : Paired pre keys) {key : String} {a : Area}
    (hkey : InArea pre a key) (hne : a ≠ .objects) : Paired pre (key :: keys) := by
  intro blob hblob
  have hother (suffix : String) : blob ++ suffix ≠ key := by
    rintro rfl
    exact hne (hkey.unique (inArea_append hblob suffix))
  simp only [List.mem_cons, hother, false_or, h blob hblob]

omit [Sha256] [Ed25519] in
theorem age_lt_json (blob : String) : blob ++ ".age" < blob ++ ".json" := by
  rw [String.lt_iff_toList_lt, String.toList_append, String.toList_append]
  exact List.append_left_lt (by decide)

omit [Sha256] [Ed25519] in
/-- The loop over the objects of a manifest. -/
theorem paired_objectKeys {repr : Json → String} {backupId recipientKeyId : String}
    {items : List Json} {keys keys' : List String} (hkeys : Paired pre keys)
    (h : items.foldlM (retentionRecord.objectKeys repr pre (pointRoot pre backupId)
      recipientKeyId) keys = .ok keys') : Paired pre keys' := by
  induction items generalizing keys with
  | nil =>
    obtain rfl := Except.ok.inj h
    exact hkeys
  | cons item items ih =>
    rw [List.foldlM_cons] at h
    obtain ⟨next, hnext, h⟩ := bind_ok h
    refine ih ?_ h
    have hown (key : String) (hkey : key ∈ pointKeys pre backupId) : Paired pre (key :: keys) :=
      hkeys.cons_own (inArea_pointKeys hkey) (by decide)
    unfold retentionRecord.objectKeys at hnext
    dsimp only at hnext
    split at hnext
    · obtain ⟨_, -, hnext⟩ := bind_ok hnext
      obtain rfl := Except.ok.inj hnext
      exact hown _ (List.mem_cons_self ..)
    · split at hnext
      · obtain ⟨_, -, hnext⟩ := bind_ok hnext
        obtain rfl := Except.ok.inj hnext
        exact hown _ (List.mem_cons_of_mem _ (List.mem_cons_self ..))
      · split at hnext
        · obtain ⟨_, -, hnext⟩ := bind_ok hnext
          obtain rfl := Except.ok.inj hnext
          exact hkeys.cons_blob _
        · cases hnext

end Paired

theorem Trusted.sorted (t : Trusted r) : t.objectKeys.Pairwise (· ≤ ·) := by
  obtain ⟨keys, -, -, heq⟩ := t.exists_loop
  rw [heq]
  exact List.pairwise_mergeSort' _ _

theorem Trusted.paired (t : Trusted r) : Paired r.pre t.objectKeys := by
  obtain ⟨keys, recipientKeyId, hloop, heq⟩ := t.exists_loop
  have hown {key : String} {keys : List String} (hkey : key ∈ pointKeys r.pre t.backupId)
      (h : Paired r.pre keys) : Paired r.pre (key :: keys) :=
    h.cons_own (inArea_pointKeys hkey) (by decide)
  have hnone : Paired r.pre [] := fun _ _ => by simp
  have hkeys : Paired r.pre keys := paired_objectKeys (hown (by simp [pointKeys, manifestKeyOf])
    (hown (by simp [pointKeys]) (hown (by simp [pointKeys]) hnone))) hloop
  intro blob hblob
  rw [heq, List.mem_mergeSort, List.mem_mergeSort, List.mem_dedup, List.mem_dedup]
  exact hkeys blob hblob

/-! ## 8. What is deleted -/

section Targets

variable {b : Bucket} {now : Instant} {p : Plan r}

theorem Trusted.inArea {t : Trusted r} {key : String} (h : key ∈ t.objectKeys) :
    InArea r.pre .points key ∨ InArea r.pre .objects key :=
  (t.mem_objectKeys.2 key h).imp inArea_pointKeys inArea_sharedKey

/-- No record names a key of another area. -/
theorem Trusted.notMem_of_inArea {t : Trusted r} {key : String} {a : Area}
    (h : InArea r.pre a key) (hpoints : a ≠ .points) (hobjects : a ≠ .objects) :
    key ∉ t.objectKeys := by
  intro hmem
  rcases t.inArea hmem with hother | hother
  · exact hpoints (h.unique hother)
  · exact hobjects (h.unique hother)

theorem Trusted.manifest_mem (t : Trusted r) : t.manifestKey ∈ t.objectKeys := by
  refine t.mem_objectKeys.1 _ ?_
  rw [t.manifestKey_eq]
  simp [pointKeys]

theorem Trusted.manifestKey_inArea (t : Trusted r) : InArea r.pre .points t.manifestKey := by
  rw [t.manifestKey_eq]
  have hown : manifestKeyOf r.pre t.backupId ∈ pointKeys r.pre t.backupId := by simp [pointKeys]
  exact inArea_pointKeys hown

/-- A manifest is named by the record of its own point only. -/
theorem Trusted.eq_of_manifest_mem {s t : Trusted r} (h : s.manifestKey ∈ t.objectKeys) :
    s.backupId = t.backupId := by
  have hown : s.manifestKey ∈ pointKeys r.pre t.backupId := by
    refine (t.mem_objectKeys.2 _ h).resolve_right fun hshared => ?_
    exact absurd (s.manifestKey_inArea.unique (inArea_sharedKey hshared)) (by decide)
  have hname : ∀ other : String, other ∈ ["database.dump.age", "config.tar.age"] →
      manifestKeyOf r.pre s.backupId ≠ pointRoot r.pre t.backupId ++ "/" ++ other := by
    intro other hother heq
    have hplain : ∀ other ∈ ["database.dump.age", "config.tar.age"],
        '/' ∉ other.toList ∧ other ≠ "manifest.json.age" := by decide
    rw [manifestKeyOf_eq] at heq
    obtain ⟨hsep, hne⟩ := hplain other hother
    exact hne (append_injective properName_manifest.plain hsep heq).2.symm
  rw [s.manifestKey_eq] at hown
  simp only [pointKeys, List.mem_cons, List.not_mem_nil, or_false] at hown
  rcases hown with heq | heq | heq
  · refine absurd heq fun heq => hname "database.dump.age" (by simp) ?_
    rw [heq, String.append_assoc]
    rfl
  · refine absurd heq fun heq => hname "config.tar.age" (by simp) ?_
    rw [heq, String.append_assoc]
    rfl
  · rw [manifestKeyOf, manifestKeyOf] at heq
    exact append_cancel (y := "/manifest.json.age") heq

theorem Plan.mem_targetsOf {t : Trusted r} {key : String} : key ∈ p.targetsOf t ↔
    key = completeKey r.pre t.backupId ∨
    (key ∈ t.objectKeys ∧ key ∉ p.referenced) ∨
    (key = verifiedKey r.pre t.backupId ∧ t.backupId ∈ p.verified ∧
      some t.backupId ≠ p.protectedVerified) ∨
    key = deletingKey r.pre t.backupId := by
  unfold Plan.targetsOf
  have hif : ∀ {c : Prop} [Decidable c] (k : String),
      key ∈ (if c then [k] else []) ↔ key = k ∧ c := by
    intro c _ k
    by_cases hc : c
    · simp [hc]
    · simp [hc]
  rw [List.mem_append, List.mem_append, List.mem_append, List.mem_append, hif, hif,
    List.mem_filter, decide_eq_true_eq, List.mem_singleton, List.mem_singleton]
  constructor
  · rintro ((((h | ⟨hmem, -, hfree⟩) | h) | ⟨rfl, hfree⟩) | h)
    · exact .inl h
    · exact .inr (.inl ⟨hmem, hfree⟩)
    · exact .inr (.inr (.inl h))
    · exact .inr (.inl ⟨t.manifest_mem, hfree⟩)
    · exact .inr (.inr (.inr h))
  · rintro (h | ⟨hmem, hfree⟩ | h | h)
    · exact .inl (.inl (.inl (.inl h)))
    · by_cases heq : key = t.manifestKey
      · exact .inl (.inr ⟨heq, heq ▸ hfree⟩)
      · exact .inl (.inl (.inl (.inr ⟨hmem, heq, hfree⟩)))
    · exact .inl (.inl (.inr h))
    · exact .inr h

theorem Plan.mem_targets {key : String} : key ∈ p.targets ↔
    (∃ t ∈ p.deletionRecords, key ∈ p.targetsOf t) ∨
      ∃ backupId ∈ p.finalizing, key = deletingKey r.pre backupId := by
  rw [Plan.targets, List.mem_append, List.mem_flatMap, List.mem_map]
  simp only [List.mem_mergeSort, eq_comm]

theorem Plan.completeKey_mem_targets {backupId : String} :
    completeKey r.pre backupId ∈ p.targets ↔ ∃ t ∈ p.deletionRecords, t.backupId = backupId := by
  rw [Plan.mem_targets]
  constructor
  · rintro (⟨t, ht, hkey⟩ | ⟨id, -, hkey⟩)
    · refine ⟨t, ht, ?_⟩
      rcases Plan.mem_targetsOf.mp hkey with heq | ⟨hmem, -⟩ | ⟨heq, -⟩ | heq
      · exact (completeKey_injective heq).symm
      · exact absurd hmem (Trusted.notMem_of_inArea (inArea_complete ..) (by decide) (by decide))
      · exact absurd ((inArea_complete ..).unique (heq ▸ inArea_verified ..)) (by decide)
      · exact absurd ((inArea_complete ..).unique (heq ▸ inArea_deleting ..)) (by decide)
    · exact absurd ((inArea_complete ..).unique (hkey ▸ inArea_deleting ..)) (by decide)
  · rintro ⟨t, ht, rfl⟩
    exact .inl ⟨t, ht, Plan.mem_targetsOf.mpr (.inl rfl)⟩

theorem Plan.deletingKey_mem_targets {backupId : String} : deletingKey r.pre backupId ∈ p.targets ↔
    (∃ t ∈ p.deletionRecords, t.backupId = backupId) ∨ backupId ∈ p.finalizing := by
  rw [Plan.mem_targets]
  constructor
  · rintro (⟨t, ht, hkey⟩ | ⟨id, hid, hkey⟩)
    · refine .inl ⟨t, ht, ?_⟩
      rcases Plan.mem_targetsOf.mp hkey with heq | ⟨hmem, -⟩ | ⟨heq, -⟩ | heq
      · exact absurd ((inArea_deleting ..).unique (heq ▸ inArea_complete ..)) (by decide)
      · exact absurd hmem (Trusted.notMem_of_inArea (inArea_deleting ..) (by decide) (by decide))
      · exact absurd ((inArea_deleting ..).unique (heq ▸ inArea_verified ..)) (by decide)
      · exact (deletingKey_injective heq).symm
    · rw [deletingKey_injective hkey]
      exact .inr hid
  · rintro (⟨t, ht, rfl⟩ | hid)
    · exact .inl ⟨t, ht, Plan.mem_targetsOf.mpr (.inr (.inr (.inr rfl)))⟩
    · exact .inr ⟨backupId, hid, rfl⟩

theorem Plan.verifiedKey_mem_targets {backupId : String} : verifiedKey r.pre backupId ∈ p.targets ↔
    (∃ t ∈ p.deletionRecords, t.backupId = backupId) ∧ backupId ∈ p.verified ∧
      some backupId ≠ p.protectedVerified := by
  rw [Plan.mem_targets]
  constructor
  · rintro (⟨t, ht, hkey⟩ | ⟨id, -, hkey⟩)
    · rcases Plan.mem_targetsOf.mp hkey with heq | ⟨hmem, -⟩ | ⟨heq, hrest⟩ | heq
      · exact absurd ((inArea_verified ..).unique (heq ▸ inArea_complete ..)) (by decide)
      · exact absurd hmem (Trusted.notMem_of_inArea (inArea_verified ..) (by decide) (by decide))
      · rw [verifiedKey_injective heq]
        exact ⟨⟨t, ht, rfl⟩, hrest⟩
      · exact absurd ((inArea_verified ..).unique (heq ▸ inArea_deleting ..)) (by decide)
    · exact absurd ((inArea_verified ..).unique (hkey ▸ inArea_deleting ..)) (by decide)
  · rintro ⟨⟨t, ht, rfl⟩, hrest⟩
    exact .inl ⟨t, ht, Plan.mem_targetsOf.mpr (.inr (.inr (.inl ⟨rfl, hrest⟩)))⟩

/-- An object goes if a point that goes names it and no point that stays does. -/
theorem Plan.object_mem_targets {key : String}
    (h : InArea r.pre .points key ∨ InArea r.pre .objects key) :
    key ∈ p.targets ↔ (∃ t ∈ p.deletionRecords, key ∈ t.objectKeys) ∧ key ∉ p.referenced := by
  have hother : ∀ {a : Area}, a ≠ .points → a ≠ .objects → ¬InArea r.pre a key := by
    intro a hpoints hobjects ha
    rcases h with h | h
    · exact hpoints (ha.unique h)
    · exact hobjects (ha.unique h)
  rw [Plan.mem_targets]
  constructor
  · rintro (⟨t, ht, hkey⟩ | ⟨id, -, hkey⟩)
    · rcases Plan.mem_targetsOf.mp hkey with heq | ⟨hmem, hfree⟩ | ⟨heq, -⟩ | heq
      · exact absurd (heq ▸ inArea_complete ..) (hother (a := .complete) (by decide) (by decide))
      · exact ⟨⟨t, ht, hmem⟩, hfree⟩
      · exact absurd (heq ▸ inArea_verified ..) (hother (a := .verified) (by decide) (by decide))
      · exact absurd (heq ▸ inArea_deleting ..) (hother (a := .deleting) (by decide) (by decide))
    · exact absurd (hkey ▸ inArea_deleting ..) (hother (a := .deleting) (by decide) (by decide))
  · rintro ⟨⟨t, ht, hmem⟩, hfree⟩
    exact .inl ⟨t, ht, Plan.mem_targetsOf.mpr (.inr (.inl ⟨hmem, hfree⟩))⟩

/-- The manifest of a point that goes is not among what stays. -/
theorem Plan.manifest_notMem_referenced {t : Trusted r} (ht : t ∈ p.deletionRecords) :
    t.manifestKey ∉ p.referenced := by
  intro hmem
  obtain ⟨s, hs, hkey⟩ := List.mem_flatMap.mp hmem
  exact Plan.kept_disjoint hs ht (Trusted.eq_of_manifest_mem hkey).symm

end Targets

end ProductPdfQr.BackupRecovery
