/-
# What a release identity binds

`release_identity` digests a projection of the record: digests instead of bodies, a few fields
of the backup and of the fence.  On records that `validate_release_record` accepts the
projection loses nothing that it stands for, so equal identities mean equal artifacts, and
evidence bound to one release is no evidence in another.
-/
import ProductPdfQr.DeployRollback.Release

namespace ProductPdfQr.DeployRollback

open Json

/-! ## 1. Records with ordered dicts -/

/-- Every dict that the fields of a value lead to has its keys in order, each once. -/
def Ordered (j : Json) : Prop :=
  ∀ (path : List String) (fs : Fields), path.foldl Json.get j = .obj fs → SortedFields fs

theorem Ordered.get {j : Json} (h : Ordered j) (k : String) : Ordered (j.get k) :=
  fun path fs hfs => h (k :: path) fs hfs

theorem Ordered.sorted {fs : Fields} (h : Ordered (.obj fs)) : SortedFields fs := h [] fs rfl

theorem plain_get {j : Json} (h : Plain j) (k : String) : Plain (j.get k) := by
  cases j with
  | obj fs =>
    rw [Json.get, get?_obj]
    cases hk : lookupField k fs with
    | none => exact trivial
    | some v => exact plainFields_iff.mp h.2 _ (lookupField_eq_some_mem hk)
  | _ => exact trivial

theorem Ordered.of_plain {j : Json} (h : Plain j) : Ordered j := by
  have hplain : ∀ (path : List String) (j : Json), Plain j → Plain (path.foldl Json.get j) := by
    intro path
    induction path with
    | nil => exact fun _ h => h
    | cons k path ih => exact fun j h => ih _ (plain_get h k)
  intro path fs hfs
  have hpath := hplain path j h
  rw [hfs] at hpath
  exact hpath.1

theorem lookupField_of_mem {fs : Fields} (h : SortedFields fs) {f : String × Json} (hf : f ∈ fs) :
    lookupField f.1 fs = some f.2 := by
  induction fs with
  | nil => cases hf
  | cons g fs ih =>
    obtain ⟨hhead, hrest⟩ := List.pairwise_cons.mp h
    rcases List.mem_cons.mp hf with rfl | hf
    · simp [lookupField]
    · have hlt : g.1 < f.1 := hhead f.1 (List.mem_map_of_mem hf)
      rw [lookupField, if_neg hlt.ne', ih hrest hf]

/-- A dict of texts. -/
def TextDict (j : Json) : Prop :=
  ∃ fs, j = .obj fs ∧ SortedFields fs ∧ ∀ f ∈ fs, ∃ s, f.2 = .str s

theorem TextDict.plain {j : Json} (h : TextDict j) : Plain j := by
  obtain ⟨fs, rfl, hsorted, htexts⟩ := h
  refine ⟨hsorted, plainFields_iff.mpr fun f hf => ?_⟩
  obtain ⟨s, hs⟩ := htexts f hf
  rw [hs]
  exact trivial

theorem norm_eq_str {j : Json} {s : String} (h : norm j = .str s) : j = .str s :=
  pyEq_str.mp (decide_eq_true (by rw [h]; rfl))

theorem normFields_eq {fs texts : Fields} (htexts : ∀ f ∈ texts, ∃ s, f.2 = .str s)
    (h : normFields fs = texts) : fs = texts := by
  induction fs generalizing texts with
  | nil => exact h
  | cons f fs ih =>
    obtain ⟨k, v⟩ := f
    subst h
    obtain ⟨s, hs⟩ := htexts (k, norm v) (List.mem_cons_self ..)
    have hv : v = norm v := (norm_eq_str hs).trans hs.symm
    have hrest := ih (fun f hf => htexts f (List.mem_cons_of_mem _ hf)) rfl
    rw [normFields, ← hv, ← hrest]

theorem normFields_texts {texts : Fields} (htexts : ∀ f ∈ texts, ∃ s, f.2 = .str s) :
    normFields texts = texts := by
  induction texts with
  | nil => rfl
  | cons f texts ih =>
    obtain ⟨k, v⟩ := f
    obtain ⟨s, rfl : v = .str s⟩ := htexts (k, v) (List.mem_cons_self ..)
    rw [normFields, ih fun f hf => htexts f (List.mem_cons_of_mem _ hf)]
    rfl

/-- Nothing else compares equal to a dict of texts. -/
theorem pyEq_textDict {j texts : Json} (htexts : TextDict texts) (h : j.pyEq texts = true) :
    j = texts := by
  obtain ⟨fs, rfl, -, hall⟩ := htexts
  have hnorm : Json.norm j = .obj fs := by
    rw [of_decide_eq_true h, Json.norm, normFields_texts hall]
  cases j with
  | obj fs' =>
    rw [Json.norm, Json.obj.injEq] at hnorm
    rw [normFields_eq hall hnorm]
  | float x => cases hx : FloatLit.toInt? x <;> simp [Json.norm, hx] at hnorm
  | _ => simp [Json.norm] at hnorm

section Binding

variable [Sha256]

/-! ## 2. What the validator has seen of a projected field -/

/-- Configs whose digests are those of their bodies. -/
def Configs (j : Json) : Prop :=
  ∃ fs, j = .obj fs ∧ SortedFields fs ∧ ∀ f ∈ fs, ∃ body,
    artifactBody f.2 = .ok body ∧ f.2.get "sha256" = .str (Sha256.hexdigest body)

omit [Sha256] in
theorem lookupField_map {fs : Fields} (g : Json → Json) (k : String) :
    lookupField k (fs.map fun f => (f.1, g f.2)) = (lookupField k fs).map g := by
  induction fs with
  | nil => rfl
  | cons f fs ih =>
    obtain ⟨k', v⟩ := f
    by_cases hk : k = k' <;> simp [lookupField, hk, ih]

theorem Configs.digests {j : Json} (h : Configs j) : TextDict (digestsOf j) := by
  obtain ⟨fs, rfl, hsorted, hbodies⟩ := h
  refine ⟨_, rfl, ?_, ?_⟩
  · rw [SortedFields, Json.fields, List.map_map]
    exact hsorted
  · intro f hf
    obtain ⟨f', hf', rfl⟩ := List.mem_map.mp hf
    obtain ⟨body, -, hdigest⟩ := hbodies f' hf'
    exact ⟨_, hdigest⟩

/-- The artifact that stands under a name. -/
theorem Configs.body {j : Json} (h : Configs j) {name : String} (hname : name ∈ j.keys) :
    ∃ body, artifactBody (j.get name) = .ok body ∧
      (digestsOf j).get name = .str (Sha256.hexdigest body) := by
  obtain ⟨fs, rfl, -, hbodies⟩ := h
  obtain ⟨artifact, hartifact : lookupField name fs = some artifact⟩ :=
    Option.isSome_iff_exists.mp (lookupField_isSome.mpr hname)
  obtain ⟨body, hbody, hdigest⟩ := hbodies _ (lookupField_eq_some_mem hartifact)
  refine ⟨body, ?_, ?_⟩
  · rw [Json.get, get?_obj, hartifact]
    exact hbody
  · rw [digestsOf, Json.get, get?_obj, Json.fields, lookupField_map (fun a => a.get "sha256"),
      hartifact]
    exact hdigest

omit [Sha256] in
theorem keys_digestsOf (j : Json) : (digestsOf j).keys = j.keys := by
  rw [digestsOf, Json.keys, Json.keys, Json.fields, List.map_map]
  rfl

/-- The same names, and under each name the same bytes. -/
structure SameBodies (configs configs' : Json) : Prop where
  keys : configs.keys = configs'.keys
  bodies : ∀ name ∈ configs.keys, ∃ body, artifactBody (configs.get name) = .ok body ∧
    artifactBody (configs'.get name) = .ok body

/-- Equal digests of configs whose bodies the hash tells apart. -/
theorem Configs.sameBodies {configs configs' : Json} (h : Configs configs)
    (h' : Configs configs') {S : Set Bytes} (hfree : Sha256.CollisionFreeOn S)
    (hS : ∀ name body, artifactBody (configs.get name) = .ok body → body ∈ S)
    (hS' : ∀ name body, artifactBody (configs'.get name) = .ok body → body ∈ S)
    (heq : digestsOf configs = digestsOf configs') : SameBodies configs configs' := by
  have hkeys : configs.keys = configs'.keys := by
    rw [← keys_digestsOf configs, heq, keys_digestsOf]
  refine ⟨hkeys, fun name hname => ?_⟩
  obtain ⟨body, hbody, hdigest⟩ := h.body hname
  obtain ⟨body', hbody', hdigest'⟩ := h'.body (hkeys ▸ hname)
  rw [heq, hdigest', Json.str.injEq] at hdigest
  obtain rfl := hfree (hS' name body' hbody') (hS name body hbody) hdigest
  exact ⟨body', hbody, hbody'⟩

/-- An artifact set as far as it goes into the identity. -/
structure BoundArtifacts (artifacts : Json) : Prop where
  commit : ∃ s, artifacts.get "commit" = .str s
  alembic : ∃ s, artifacts.get "alembic_revision" = .str s
  migration : ∃ s, artifacts.get "migration_sha" = .str s
  images : TextDict (artifacts.get "images")
  recovery : Configs (artifacts.get "recovery_config")
  app : Configs (artifacts.get "app_config")

/-- The fields of the backup that are projected. -/
def backupFields : List String :=
  ["backup_id", "source_commit", "images", "config_sha256", "alembic_revision", "completed_at",
    "g19_watermark_sha256"]

/-- The fields of the fence that are projected. -/
def fenceFields : List String := ["command_sha256", "readiness_bypass_only"]

/-- A record as far as it goes into the identity. -/
structure BoundRecord (record : Json) : Prop where
  releaseId : ∃ s, record.get "release_id" = .str s
  environmentId : ∃ s, record.get "environment_id" = .str s
  stable : BoundArtifacts (record.get "stable")
  candidate : BoundArtifacts (record.get "candidate")
  backup : (record.get "pre_release_backup").isDict = true
  backupPlain : ∀ field ∈ backupFields, Plain ((record.get "pre_release_backup").get field)
  fence : (record.get "publication_fence").isDict = true
  fencePlain : ∀ field ∈ fenceFields, Plain ((record.get "publication_fence").get field)

/-! ## 3. The projection -/

/-- `identity` of an artifact set that has both config dicts. -/
def artifactDocument (artifacts : Json) : Json :=
  dict [("commit", artifacts.get "commit"),
    ("alembic_revision", artifacts.get "alembic_revision"),
    ("migration_sha", artifacts.get "migration_sha"), ("images", artifacts.get "images"),
    ("recovery_config_sha256", digestsOf (artifacts.get "recovery_config")),
    ("config_sha256", digestsOf (artifacts.get "app_config"))]

/-- What `release_identity` digests. -/
def identityDocument (record : Json) : Json :=
  dict [("release_id", record.get "release_id"), ("environment_id", record.get "environment_id"),
    ("stable", artifactDocument (record.get "stable")),
    ("candidate", artifactDocument (record.get "candidate")),
    ("pre_release_backup", selected (record.get "pre_release_backup") backupFields),
    ("publication_fence", selected (record.get "publication_fence") fenceFields)]

omit [Sha256] in
theorem artifactIdentity_ok {artifacts identity : Json}
    (h : artifactIdentity artifacts = .ok identity) : identity = artifactDocument artifacts := by
  obtain ⟨-, h⟩ := check_bind_ok h
  obtain ⟨-, h⟩ := check_bind_ok h
  exact (Except.ok.inj h).symm

theorem releaseIdentity_ok {record : Json} {identity : String}
    (h : releaseIdentity record = .ok identity) : identity = digestJson (identityDocument record) := by
  obtain ⟨-, h⟩ := check_bind_ok h
  obtain ⟨stable, hstable, h⟩ := bind_ok h
  obtain ⟨candidate, hcandidate, h⟩ := bind_ok h
  rw [artifactIdentity_ok hstable, artifactIdentity_ok hcandidate] at h
  exact (Except.ok.inj h).symm

omit [Sha256] in
theorem plain_text {j : Json} (h : ∃ s, j = .str s) : Plain j := by
  obtain ⟨s, rfl⟩ := h
  exact trivial

theorem BoundArtifacts.plain {artifacts : Json} (h : BoundArtifacts artifacts) :
    Plain (artifactDocument artifacts) :=
  plain_dict ⟨plain_text h.commit, plain_text h.alembic, plain_text h.migration, h.images.plain,
    h.recovery.digests.plain, h.app.digests.plain, trivial⟩

omit [Sha256] in
theorem plain_selected {document : Json} {names : List String}
    (h : ∀ field ∈ names, Plain (document.get field)) : Plain (selected document names) := by
  unfold selected
  split
  · refine plain_dict (plainFields_iff.mpr fun f hf => ?_)
    obtain ⟨field, hfield, rfl⟩ := List.mem_map.mp hf
    exact h field hfield
  · exact trivial

theorem BoundRecord.plain {record : Json} (h : BoundRecord record) :
    Plain (identityDocument record) :=
  plain_dict ⟨plain_text h.releaseId, plain_text h.environmentId, h.stable.plain, h.candidate.plain,
    plain_selected h.backupPlain, plain_selected h.fencePlain, trivial⟩

omit [Sha256] in
/-- A selected field is found again. -/
theorem get_selected {document : Json} (hdict : document.isDict = true) {names : List String}
    {field : String} (hfield : field ∈ names) :
    (selected document names).get field = document.get field := by
  have hlookup : ∀ names : List String, field ∈ names →
      lookupField field (names.map fun name => (name, document.get name)) =
        some (document.get field) := by
    intro names
    induction names with
    | nil => exact fun h => absurd h List.not_mem_nil
    | cons name names ih =>
      intro h
      by_cases hname : field = name
      · subst hname
        simp [lookupField]
      · simp [lookupField, hname, ih ((List.mem_cons.mp h).resolve_left hname)]
  rw [selected, if_pos hdict, get_dict, ← List.map_reverse, hlookup _ (List.mem_reverse.mpr hfield)]
  rfl

/-- Two artifact sets that a rollback cannot tell apart. -/
structure SameArtifacts (artifacts artifacts' : Json) : Prop where
  commit : artifacts.get "commit" = artifacts'.get "commit"
  alembic : artifacts.get "alembic_revision" = artifacts'.get "alembic_revision"
  migration : artifacts.get "migration_sha" = artifacts'.get "migration_sha"
  images : artifacts.get "images" = artifacts'.get "images"
  recovery : SameBodies (artifacts.get "recovery_config") (artifacts'.get "recovery_config")
  app : SameBodies (artifacts.get "app_config") (artifacts'.get "app_config")

/-- Two records of one release. -/
structure SameRelease (record record' : Json) : Prop where
  releaseId : record.get "release_id" = record'.get "release_id"
  environmentId : record.get "environment_id" = record'.get "environment_id"
  stable : SameArtifacts (record.get "stable") (record'.get "stable")
  candidate : SameArtifacts (record.get "candidate") (record'.get "candidate")
  backup : ∀ field ∈ ["backup_id", "completed_at", "g19_watermark_sha256"],
    (record.get "pre_release_backup").get field = (record'.get "pre_release_backup").get field
  fence : (record.get "publication_fence").get "command_sha256" =
    (record'.get "publication_fence").get "command_sha256"

/-- The bodies of all configs of a record. -/
def configBodies (record : Json) : Set Bytes :=
  {body | ∃ artifacts ∈ ["stable", "candidate"], ∃ kind ∈ ["recovery_config", "app_config"],
    ∃ name, artifactBody (((record.get artifacts).get kind).get name) = .ok body}

omit [Sha256] in
/-- A field of a document that is spelled out. -/
theorem congr_field {document document' : Json} (h : document = document') (field : String) :
    document.get field = document'.get field := by
  rw [h]

theorem sameArtifacts {record record' : Json} {side : String} (hside : side ∈ ["stable", "candidate"])
    (h : BoundArtifacts (record.get side)) (h' : BoundArtifacts (record'.get side))
    (hfree : Sha256.CollisionFreeOn (configBodies record ∪ configBodies record'))
    (heq : artifactDocument (record.get side) = artifactDocument (record'.get side)) :
    SameArtifacts (record.get side) (record'.get side) := by
  have hmem : ∀ kind ∈ ["recovery_config", "app_config"], ∀ name body,
      artifactBody (((record.get side).get kind).get name) = .ok body →
        body ∈ configBodies record ∪ configBodies record' :=
    fun kind hkind name body hbody => .inl ⟨side, hside, kind, hkind, name, hbody⟩
  have hmem' : ∀ kind ∈ ["recovery_config", "app_config"], ∀ name body,
      artifactBody (((record'.get side).get kind).get name) = .ok body →
        body ∈ configBodies record ∪ configBodies record' :=
    fun kind hkind name body hbody => .inr ⟨side, hside, kind, hkind, name, hbody⟩
  have hfield := congr_field heq
  simp only [artifactDocument, get_dict, List.reverse_cons, List.reverse_nil, List.nil_append,
    List.cons_append] at hfield
  refine ⟨by simpa [lookupField] using hfield "commit",
    by simpa [lookupField] using hfield "alembic_revision",
    by simpa [lookupField] using hfield "migration_sha",
    by simpa [lookupField] using hfield "images", ?_, ?_⟩
  · exact h.recovery.sameBodies h'.recovery hfree (hmem _ (by decide)) (hmem' _ (by decide))
      (by simpa [lookupField] using hfield "recovery_config_sha256")
  · exact h.app.sameBodies h'.app hfree (hmem _ (by decide)) (hmem' _ (by decide))
      (by simpa [lookupField] using hfield "config_sha256")

/-- The projection loses nothing of what it stands for. -/
theorem sameRelease {record record' : Json} (h : BoundRecord record) (h' : BoundRecord record')
    (hfree : Sha256.CollisionFreeOn (configBodies record ∪ configBodies record'))
    (heq : identityDocument record = identityDocument record') : SameRelease record record' := by
  have hfield := congr_field heq
  simp only [identityDocument, get_dict, List.reverse_cons, List.reverse_nil, List.nil_append,
    List.cons_append] at hfield
  have hbackup : selected (record.get "pre_release_backup") backupFields =
      selected (record'.get "pre_release_backup") backupFields := by
    simpa [lookupField] using hfield "pre_release_backup"
  have hfence : selected (record.get "publication_fence") fenceFields =
      selected (record'.get "publication_fence") fenceFields := by
    simpa [lookupField] using hfield "publication_fence"
  refine ⟨by simpa [lookupField] using hfield "release_id",
    by simpa [lookupField] using hfield "environment_id",
    sameArtifacts (by decide) h.stable h'.stable hfree
      (by simpa [lookupField] using hfield "stable"),
    sameArtifacts (by decide) h.candidate h'.candidate hfree
      (by simpa [lookupField] using hfield "candidate"), fun field hmem => ?_, ?_⟩
  · have hprojected : field ∈ backupFields := by
      have hsub : ["backup_id", "completed_at", "g19_watermark_sha256"] ⊆ backupFields := by decide
      exact hsub hmem
    rw [← get_selected h.backup hprojected, hbackup, get_selected h'.backup hprojected]
  · have hprojected : "command_sha256" ∈ fenceFields := by decide
    rw [← get_selected h.fence hprojected, hfence, get_selected h'.fence hprojected]

/-! ## 4. What the validator has seen -/

omit [Sha256] in
theorem requiredText_ok {document : Json} {field s : String}
    (h : requiredText document field = .ok s) : document.get field = .str s := by
  unfold requiredText at h
  split at h
  · next s' hs' =>
    obtain ⟨-, h⟩ := check_bind_ok h
    rw [hs', Except.ok.inj h]
  · cases h

omit [Sha256] in
theorem gitSha_ok {document : Json} {field message : String} {u : Unit}
    (h : gitSha document field message = .ok u) : ∃ s, document.get field = .str s := by
  obtain ⟨s, hs, -⟩ := bind_ok h
  exact ⟨s, requiredText_ok hs⟩

omit [Sha256] in
theorem parseTime_ok {value : Json} {field : String} {i : Instant}
    (h : parseTime value field = .ok i) : ∃ s, value = .str s := by
  unfold parseTime at h
  cases value with
  | str s => exact ⟨s, rfl⟩
  | _ => cases h

omit [Sha256] in
theorem isDigestValue_ok {value : Json} (h : isDigestValue value = true) : ∃ s, value = .str s := by
  cases value with
  | str s => exact ⟨s, rfl⟩
  | _ => cases h

variable [Interpreter]

theorem validateConfigArtifact_ok {name : String} {artifact : Json} {windowEndsAt : Instant}
    {allowlist : List String} {u : Unit}
    (h : validateConfigArtifact name artifact windowEndsAt allowlist = .ok u) : ∃ body,
      artifactBody artifact = .ok body ∧ artifact.get "sha256" = .str (Sha256.hexdigest body) := by
  obtain ⟨-, h⟩ := check_bind_ok h
  obtain ⟨-, h⟩ := check_bind_ok h
  obtain ⟨body, hbody, h⟩ := bind_ok h
  obtain ⟨_, hchecked, -⟩ := bind_ok h
  obtain ⟨-, hchecked⟩ := check_bind_ok hchecked
  obtain ⟨hdigest, -⟩ := check_bind_ok hchecked
  exact ⟨body, hbody, pyEq_str.mp hdigest⟩

omit [Sha256] [Interpreter] in
theorem fields_of_isDict {j : Json} (h : j.isDict = true) : j = .obj j.fields := by
  cases j with
  | obj fs => rfl
  | _ => cases h

theorem validateRecoveryConfig_ok {name : String} {configs : Json} {windowEndsAt : Instant}
    {u : Unit} (hordered : Ordered configs)
    (h : validateRecoveryConfig name configs windowEndsAt = .ok u) : Configs configs := by
  obtain ⟨hdict, h⟩ := check_bind_ok h
  obtain ⟨-, h⟩ := check_bind_ok h
  have hfields := fields_of_isDict (Bool.and_eq_true_iff.mp hdict).1
  refine ⟨configs.fields, hfields, (hfields ▸ hordered).sorted, fun f hf => ?_⟩
  obtain ⟨-, hartifact⟩ := check_bind_ok (forM_ok h f hf)
  exact validateConfigArtifact_ok hartifact

theorem validateAppConfig_ok {name : String} {configs : Json} {windowEndsAt : Instant}
    {u : Unit} (hordered : Ordered configs)
    (h : validateAppConfig name configs windowEndsAt = .ok u) : Configs configs := by
  obtain ⟨hdict, h⟩ := check_bind_ok h
  have hfields := fields_of_isDict (Bool.and_eq_true_iff.mp hdict).1
  exact ⟨configs.fields, hfields, (hfields ▸ hordered).sorted, fun f hf =>
    validateConfigArtifact_ok (forM_ok h f hf)⟩

omit [Sha256] [Interpreter] in
/-- Every running image, and nothing but them. -/
theorem textDict_images {images : Json} (hordered : Ordered images)
    (hkeys : images.hasKeys runningImages = true)
    (h : ∀ component ∈ runningImages, ∃ s, images.get component = .str s) : TextDict images := by
  obtain ⟨fs, rfl⟩ := hasKeys_isDict hkeys
  refine ⟨fs, rfl, hordered.sorted, fun f hf => ?_⟩
  have hmem : f.1 ∈ runningImages := by
    rw [← hasKeys_obj hkeys, lookupField_isSome]
    exact List.mem_map_of_mem hf
  obtain ⟨s, hs⟩ := h f.1 hmem
  have hlookup : lookupField f.1 fs = some f.2 := lookupField_of_mem hordered.sorted hf
  rw [Json.get, get?_obj, hlookup] at hs
  exact ⟨s, hs⟩

theorem boundArtifacts {artifactSet : Json} {name : String} {windowEndsAt : Instant}
    (hordered : Ordered artifactSet)
    (h : validateArtifactSet artifactSet name windowEndsAt = .ok ()) :
    BoundArtifacts artifactSet := by
  obtain ⟨-, h⟩ := check_bind_ok h
  obtain ⟨-, h⟩ := check_bind_ok h
  obtain ⟨_, hcommit, h⟩ := bind_ok h
  obtain ⟨alembic, halembic, h⟩ := bind_ok h
  obtain ⟨_, hmigration, h⟩ := bind_ok h
  obtain ⟨himages, h⟩ := check_bind_ok h
  obtain ⟨-, h⟩ := check_bind_ok h
  obtain ⟨_, hexact, h⟩ := bind_ok h
  obtain ⟨_, hrecovery, h⟩ := bind_ok h
  obtain ⟨_, happ, -⟩ := bind_ok h
  refine ⟨gitSha_ok hcommit, ⟨alembic, (safeId_ok halembic).1⟩, gitSha_ok hmigration, ?_,
    validateRecoveryConfig_ok (hordered.get _) hrecovery,
    validateAppConfig_ok (hordered.get _) happ⟩
  refine textDict_images (hordered.get _) himages fun component hcomponent => ?_
  obtain ⟨reference, hreference, -⟩ := bind_ok (forM_ok hexact component hcomponent)
  exact ⟨reference, (exactImage_ok hreference).1⟩

omit [Interpreter] in
theorem backup_plain {record backup : Json} {declaredAt : Instant} {u : Unit}
    (hstable : BoundArtifacts (record.get "stable"))
    (h : validateBackup record backup declaredAt = .ok u) :
    backup.isDict = true ∧ ∀ field ∈ backupFields, Plain (backup.get field) := by
  obtain ⟨hkeys, h⟩ := check_bind_ok h
  obtain ⟨_, hid, h⟩ := bind_ok h
  obtain ⟨-, h⟩ := check_bind_ok h
  obtain ⟨_, -, h⟩ := bind_ok h
  obtain ⟨_, hcompleted, h⟩ := bind_ok h
  obtain ⟨-, h⟩ := check_bind_ok h
  obtain ⟨-, h⟩ := check_bind_ok h
  obtain ⟨_, -, h⟩ := bind_ok h
  obtain ⟨hwatermark, h⟩ := check_bind_ok h
  obtain ⟨hcommit, h⟩ := check_bind_ok h
  obtain ⟨himages, h⟩ := check_bind_ok h
  obtain ⟨hconfigs, h⟩ := check_bind_ok h
  have halembic := check_ok.mp h
  obtain ⟨fs, rfl⟩ := hasKeys_isDict hkeys
  refine ⟨rfl, ?_⟩
  obtain ⟨commit, hstableCommit⟩ := hstable.commit
  obtain ⟨alembic, hstableAlembic⟩ := hstable.alembic
  rw [hstableCommit, pyEq_str] at hcommit
  rw [hstableAlembic, pyEq_str] at halembic
  simp only [backupFields, List.forall_mem_cons]
  refine ⟨plain_text ⟨_, requiredText_ok hid⟩, plain_text ⟨_, hcommit⟩, ?_, ?_,
    plain_text ⟨_, halembic⟩, plain_text (parseTime_ok hcompleted),
    plain_text (isDigestValue_ok hwatermark), fun field hfield => absurd hfield List.not_mem_nil⟩
  · rw [pyEq_textDict hstable.images himages]
    exact hstable.images.plain
  · rw [pyEq_textDict hstable.recovery.digests hconfigs]
    exact hstable.recovery.digests.plain

omit [Sha256] [Interpreter] in
theorem fence_plain {fence : Json} {u : Unit} (h : validateFence fence = .ok u) :
    fence.isDict = true ∧ ∀ field ∈ fenceFields, Plain (fence.get field) := by
  obtain ⟨hfence, -⟩ := check_bind_ok h
  rw [Bool.and_eq_true, Bool.and_eq_true] at hfence
  obtain ⟨⟨hkeys, hdigest⟩, hbypass⟩ := hfence
  obtain ⟨fs, rfl⟩ := hasKeys_isDict hkeys
  refine ⟨rfl, ?_⟩
  simp only [fenceFields, List.forall_mem_cons]
  refine ⟨plain_text (isDigestValue_ok hdigest), ?_, fun field hfield => absurd hfield List.not_mem_nil⟩
  rw [of_decide_eq_true hbypass]
  exact trivial

/-- What counts as evidence in a record: the smoke test, the compatibility decision with its
rehearsal, and, where the plan matters, each of its two halves that is found valid. -/
inductive Evidence (record : Json) (identity : String) : Json → Prop
  | smoke : Evidence record identity (record.get "stable_isolation_smoke")
  | compatibility : Evidence record identity (record.get "compatibility")
  | rehearsal : Evidence record identity ((record.get "compatibility").get "g19_rehearsal")
  | rollForward
      (h : rollForwardValid ((record.get "pre_publication_plan").get "roll_forward") identity = true) :
      Evidence record identity ((record.get "pre_publication_plan").get "roll_forward")
  | lossy
      (h : lossyValid ((record.get "pre_publication_plan").get "lossy_recovery") identity = true) :
      Evidence record identity ((record.get "pre_publication_plan").get "lossy_recovery")

/-- The parts of an accepted record that the identity speaks about. -/
theorem boundRecord {record : Json} {identity : String} (hordered : Ordered record)
    (h : validateReleaseRecord record = .ok identity) : BoundRecord record ∧
      ∀ evidence, Evidence record identity evidence →
        evidence.get "release_identity" = .str identity := by
  have haccepted := validateReleaseRecord_ok h
  obtain ⟨-, h⟩ := check_bind_ok h
  obtain ⟨-, h⟩ := check_bind_ok h
  obtain ⟨id, hid, h⟩ := bind_ok h
  obtain ⟨environment, henvironment, h⟩ := bind_ok h
  obtain ⟨_, hartifacts, h⟩ := bind_ok h
  obtain ⟨_, -, h⟩ := bind_ok h
  obtain ⟨_, hfence, h⟩ := bind_ok h
  obtain ⟨_, -, h⟩ := bind_ok h
  obtain ⟨_, -, h⟩ := bind_ok h
  obtain ⟨_, -, h⟩ := bind_ok h
  obtain ⟨identity', hidentity, h⟩ := bind_ok h
  obtain ⟨_, hevidence, -⟩ := bind_ok h
  obtain rfl := Except.ok.inj (hidentity.symm.trans haccepted.identity_eq)
  obtain ⟨_, -, hartifacts⟩ := bind_ok hartifacts
  obtain ⟨_, -, hartifacts⟩ := bind_ok hartifacts
  obtain ⟨-, hartifacts⟩ := check_bind_ok hartifacts
  obtain ⟨_, hstable, hartifacts⟩ := bind_ok hartifacts
  obtain ⟨_, hcandidate, hartifacts⟩ := bind_ok hartifacts
  obtain ⟨-, hbackup⟩ := check_bind_ok hartifacts
  have hstable := boundArtifacts (hordered.get _) hstable
  have hcandidate := boundArtifacts (hordered.get _) hcandidate
  obtain ⟨hbackupDict, hbackupPlain⟩ := backup_plain hstable hbackup
  obtain ⟨hfenceDict, hfencePlain⟩ := fence_plain hfence
  refine ⟨⟨⟨id, (safeId_ok hid).1⟩, ⟨environment, (safeId_ok henvironment).1⟩, hstable, hcandidate,
    hbackupDict, hbackupPlain, hfenceDict, hfencePlain⟩, fun evidence hcounts => ?_⟩
  have hbound := forM_ok hevidence
  cases hcounts with
  | smoke => exact pyEq_str.mp (check_ok.mp (hbound _ (by simp)))
  | compatibility => exact pyEq_str.mp (check_ok.mp (hbound _ (by simp)))
  | rehearsal => exact pyEq_str.mp (check_ok.mp (hbound _ (by simp)))
  | rollForward hvalid => exact pyEq_str.mp (Bool.and_eq_true_iff.mp hvalid).2
  | lossy hvalid => exact pyEq_str.mp (Bool.and_eq_true_iff.mp hvalid).2

/-- **The identity binds the record.**  If the hash tells the two projections apart and the
bodies of the configs, two accepted records with one identity are records of one release, and
evidence bound to one of them is evidence in the other only then. -/
theorem release_identity_binds {record record' : Json} {identity identity' : String}
    (hordered : Ordered record) (hordered' : Ordered record')
    (h : validateReleaseRecord record = .ok identity)
    (h' : validateReleaseRecord record' = .ok identity')
    (hfree : Sha256.CollisionFreeOn
      {canonicalJson (identityDocument record), canonicalJson (identityDocument record')})
    (hbodies : Sha256.CollisionFreeOn (configBodies record ∪ configBodies record')) :
    (identity = identity' → SameRelease record record') ∧
      ∀ evidence, Evidence record' identity' evidence →
        (evidence.get "release_identity").pyEq (.str identity) = true →
          SameRelease record record' := by
  obtain ⟨hbound, -⟩ := boundRecord hordered h
  obtain ⟨hbound', hevidence⟩ := boundRecord hordered' h'
  have hsame : identity = identity' → SameRelease record record' := by
    intro heq
    have hdigest := releaseIdentity_ok (validateReleaseRecord_ok h).identity_eq
    have hdigest' := releaseIdentity_ok (validateReleaseRecord_ok h').identity_eq
    rw [heq, hdigest'] at hdigest
    have hcode := hfree (by simp) (by simp) hdigest
    exact sameRelease hbound hbound' hbodies
      (canonicalJson_injective hbound'.plain hbound.plain hcode).symm
  refine ⟨hsame, fun evidence hcounts hother => hsame ?_⟩
  have hidentity := hevidence evidence hcounts
  rw [pyEq_str.mp hother, Json.str.injEq] at hidentity
  exact hidentity

end Binding

/-! ## 5. A record that is accepted -/

theorem bind_of_ok {α β : Type} {x : Except Exn α} {f : α → Except Exn β} {a : α} {b : β}
    (hx : x = .ok a) (hf : f a = .ok b) : (x >>= f) = .ok b := by
  rw [hx]
  exact hf

theorem check_of_true {α : Type} {c : Bool} {message : String} {f : Unit → Except Exn α} {a : α}
    (hc : c = true) (hf : f () = .ok a) : (check c message >>= f) = .ok a :=
  bind_of_ok (check_ok.mpr hc) hf

theorem forM_of_ok {α : Type} {f : α → Except Exn Unit} {xs : List α}
    (h : ∀ x ∈ xs, f x = .ok ()) : xs.forM f = .ok () := by
  induction xs with
  | nil => rfl
  | cons x xs ih =>
    exact bind_of_ok (h x (List.mem_cons_self ..)) (ih fun y hy => h y (List.mem_cons_of_mem _ hy))

def zeros : String := String.ofList (List.replicate 64 '0')

@[reducible] def asciiInterpreter : Interpreter :=
  ⟨fun c => [c], fun c => c.isAlphanum || c = '_', fun _ => .error .decode⟩

/-- The end of the rollback window. -/
def sampleWindow : Json := .str "2026-01-15T00:00:00.000000Z"

def sampleConfig : Json :=
  dict [("content_b64", .str "e30="), ("sha256", .str zeros), ("retained_until", sampleWindow)]

def sampleImages : Json :=
  dict (runningImages.map fun component => (component, .str ("registry/pdf:1@sha256:" ++ zeros)))

def sampleImageEvidence : Json :=
  dict (runningImages.map fun component => (component, dict [("registry_digest", .str zeros),
    ("image_id_digest", .str zeros), ("prefetched", .bool true), ("retained_until", sampleWindow)]))

def sampleRecovery : Json := dict (requiredRecoveryConfig.map fun name => (name, sampleConfig))

def sampleArtifacts (commit : Char) : Json :=
  dict [("commit", .str (String.ofList (List.replicate 40 commit))),
    ("alembic_revision", .str "0001"),
    ("migration_sha", .str (String.ofList (List.replicate 40 commit))), ("images", sampleImages),
    ("image_evidence", sampleImageEvidence), ("recovery_config", sampleRecovery),
    ("app_config", dict [("app-limits.json", sampleConfig)]),
    ("secret_references", dict [("database", .str "vault:database:1")])]

def sampleApproval (approver : String) : Json :=
  dict [("approval_id", .str "approval-1"), ("approver", .str approver),
    ("approved_at", .str "2026-01-01T00:00:00.000000Z")]

def sampleBackup : Json :=
  dict ([("backup_id", .str "20260101T000000Z-0123456789abcdef0123456789abcdef"),
    ("source_commit", .str (String.ofList (List.replicate 40 'a'))), ("images", sampleImages),
    ("config_sha256", digestsOf sampleRecovery), ("alembic_revision", .str "0001"),
    ("frozen_at", .str "2026-01-01T00:00:00.000000Z"),
    ("completed_at", .str "2026-01-01T00:10:00.000000Z"), ("g19_watermark_sha256", .str zeros)] ++
    backupProofs.map fun field => (field, .bool true))

def sampleRun : Json :=
  dict [("passed", .bool true), ("run_id", .str "run-1"), ("release_identity", .str zeros)]

def sampleCompatibility : Json :=
  dict [("verdict", .str "compatible"), ("migration_owner", .str "owner"),
    ("decided_at", .str "2026-01-01T00:00:00.000000Z"), ("release_identity", .str zeros),
    ("approval", sampleApproval "owner"),
    ("full_read_write_actions",
      dict (requiredCompatibilityActions.map fun action => (action, .bool true))),
    ("g19_rehearsal", sampleRun)]

/-- A record, up to who approved it. -/
def sampleRecord (approver : String) : Json :=
  dict [("schema_version", .int 1), ("release_id", .str "release-1"),
    ("environment_id", .str "production"), ("declared_at", .str "2026-01-01T00:20:00.000000Z"),
    ("rollback_window_ends_at", sampleWindow), ("stable", sampleArtifacts 'a'),
    ("candidate", sampleArtifacts 'b'), ("pre_release_backup", sampleBackup),
    ("compatibility", sampleCompatibility), ("release_approval", sampleApproval approver),
    ("publication_fence", dict [("command_sha256", .str zeros),
      ("readiness_bypass_only", .bool true), ("approval", sampleApproval approver)]),
    ("stable_isolation_smoke", sampleRun),
    ("pre_publication_plan", dict [("roll_forward", .null), ("lossy_recovery", .null)])]

/-- What lies below one of the four directories of the recovery configs. -/
theorem isRecoveryPath_append {dir name : String}
    (hdir : dir ∈ ["deploy/backup/", "deploy/production/nginx/", "deploy/production/systemd/",
      "scripts/backup_recovery/"]) (hname : Text.hasParentPart name = false) :
    isRecoveryPath (dir ++ name) = true := by
  have hparent : Text.hasParentPart (dir ++ name) = false := by
    obtain ⟨parent, rfl, hparent⟩ : ∃ parent, dir = parent ++ "/" ∧
        Text.hasParentPart parent = false := by
      simp only [List.mem_cons, List.not_mem_nil, or_false] at hdir
      rcases hdir with rfl | rfl | rfl | rfl
      · exact ⟨"deploy/backup", rfl, by decide⟩
      · exact ⟨"deploy/production/nginx", rfl, by decide⟩
      · exact ⟨"deploy/production/systemd", rfl, by decide⟩
      · exact ⟨"scripts/backup_recovery", rfl, by decide⟩
    rw [Text.hasParentPart_append, hparent, hname]
    rfl
  have hstart : Text.startsWith (dir ++ name) dir = true := by
    rw [Text.startsWith, String.toList_append, List.isPrefixOf_iff_prefix]
    exact List.prefix_append _ _
  have hrelative : Text.startsWith (dir ++ name) "/" = false := by
    simp only [List.mem_cons, List.not_mem_nil, or_false] at hdir
    rcases hdir with rfl | rfl | rfl | rfl <;>
      simp [Text.startsWith, String.toList_append, List.isPrefixOf]
  simp only [List.mem_cons, List.not_mem_nil, or_false] at hdir
  rcases hdir with rfl | rfl | rfl | rfl <;> simp [isRecoveryPath, hparent, hstart, hrelative]

section Sample

local instance : Sha256 := zeroSha256

local instance : Interpreter := asciiInterpreter

theorem isRecoveryPath_required {name : String} (h : name ∈ requiredRecoveryConfig) :
    isRecoveryPath name = true := by
  have hgroup : ∀ dir ∈ ["deploy/backup/", "deploy/production/nginx/", "deploy/production/systemd/",
      "scripts/backup_recovery/"], ∀ names : List String,
      names.all (fun n => !Text.hasParentPart n) = true → name ∈ names.map (dir ++ ·) →
        isRecoveryPath name = true := by
    intro dir hdir names hnames hmem
    obtain ⟨n, hn, rfl⟩ := List.mem_map.mp hmem
    exact isRecoveryPath_append hdir (by simpa using List.all_eq_true.mp hnames n hn)
  simp only [requiredRecoveryConfig, List.append_assoc, List.mem_append] at h
  rcases h with hcompose | hbackup | hnginx | hsystemd | hscripts
  · simp only [List.mem_cons, List.not_mem_nil, or_false] at hcompose
    rcases hcompose with rfl | rfl <;> decide
  · exact hgroup _ (by simp) _ (by decide +kernel) hbackup
  · exact hgroup _ (by simp) _ (by decide +kernel) hnginx
  · obtain ⟨n, hn, rfl⟩ := List.mem_map.mp hsystemd
    rw [show "deploy/production/systemd/product-pdf-qr-" =
      "deploy/production/systemd/" ++ "product-pdf-qr-" from rfl, String.append_assoc]
    refine hgroup "deploy/production/systemd/" (by simp) (["backup-alert@.service",
      "backup-finalize.service", "backup-finalize.timer", "backup-precopy.service",
      "backup-precopy.timer", "cert-renew.service", "cert-renew.timer", "log-rotate.service",
      "log-rotate.timer"].map ("product-pdf-qr-" ++ ·)) (by decide +kernel) ?_
    exact List.mem_map.mpr ⟨_, List.mem_map.mpr ⟨n, hn, rfl⟩, rfl⟩
  · exact hgroup _ (by simp) _ (by decide +kernel) hscripts

def sampleEnd : Instant := ((parseTime sampleWindow "").toOption).get (by decide +kernel)

def sampleDeclared : Instant :=
  ((parseTime (.str "2026-01-01T00:20:00.000000Z") "").toOption).get (by decide +kernel)

theorem artifactBody_sample : artifactBody sampleConfig = .ok "\x7b\x7d".toUTF8 := by
  decide +kernel

/-- What is found in a dict with one value everywhere. -/
theorem get_uniform {fs : Fields} {value : Json} (h : ∀ f ∈ fs, f.2 = value) {name : String} :
    (dict fs).get name = value ∨ (dict fs).get name = .null := by
  rw [get_dict]
  cases hlookup : lookupField name fs.reverse with
  | none => exact .inr rfl
  | some v => exact .inl (h _ (List.mem_reverse.mp (lookupField_eq_some_mem hlookup)))

theorem validateConfigArtifact_sample {name : String} {allowlist : List String}
    (hname : name ≠ "app-runtime.json") (hallowed : allowlist.contains name = true) :
    validateConfigArtifact name sampleConfig sampleEnd allowlist = .ok () := by
  refine check_of_true (by rw [hallowed]; decide +kernel) (check_of_true (by decide +kernel) ?_)
  refine bind_of_ok artifactBody_sample (bind_of_ok (a := ()) ?_ (by decide +kernel))
  refine check_of_true (by decide +kernel) (check_of_true (by decide +kernel)
    (check_of_true (by decide +kernel) (check_of_true (by decide +kernel) ?_)))
  rw [if_neg hname]
  rfl

theorem validateRecoveryConfig_sample (name : String) :
    validateRecoveryConfig name sampleRecovery sampleEnd = .ok () := by
  have hkeys : requiredRecoveryConfig.all (· ∈ sampleRecovery.keys) = true := by
    simp only [sampleRecovery, mem_keys_dict, List.map_map, List.all_eq_true, decide_eq_true_eq]
    exact fun n hn => List.mem_map.mpr ⟨n, hn, rfl⟩
  have hfields : sampleRecovery.fields.isEmpty = false := by
    cases hempty : sampleRecovery.fields with
    | cons f fs => rfl
    | nil =>
      rw [Json.keys, hempty] at hkeys
      exact absurd hkeys (by decide)
  refine check_of_true (by rw [hfields]; rfl) (check_of_true hkeys (forM_of_ok fun f hf => ?_))
  obtain ⟨n, hn, rfl⟩ := List.mem_map.mp (mem_fields_dict hf)
  refine check_of_true (isRecoveryPath_required hn) (validateConfigArtifact_sample ?_ (by simp))
  rintro rfl
  exact absurd (isRecoveryPath_required hn) (by decide)

theorem validateArtifactSet_stable :
    validateArtifactSet (sampleArtifacts 'a') "stable" sampleEnd = .ok () := by
  have hrecovery : validateRecoveryConfig "stable" ((sampleArtifacts 'a').get "recovery_config")
      sampleEnd = .ok () := by
    rw [show (sampleArtifacts 'a').get "recovery_config" = sampleRecovery from get_dict _ _]
    exact validateRecoveryConfig_sample "stable"
  unfold validateArtifactSet
  rw [hrecovery]
  decide +kernel

theorem validateArtifactSet_candidate :
    validateArtifactSet (sampleArtifacts 'b') "candidate" sampleEnd = .ok () := by
  have hrecovery : validateRecoveryConfig "candidate" ((sampleArtifacts 'b').get "recovery_config")
      sampleEnd = .ok () := by
    rw [show (sampleArtifacts 'b').get "recovery_config" = sampleRecovery from get_dict _ _]
    exact validateRecoveryConfig_sample "candidate"
  unfold validateArtifactSet
  rw [hrecovery]
  decide +kernel

theorem validateBackup_sample {record : Json} (h : record.get "stable" = sampleArtifacts 'a') :
    validateBackup record sampleBackup sampleDeclared = .ok () := by
  have hconfigs : (sampleBackup.get "config_sha256").pyEq
      (digestsOf ((sampleArtifacts 'a').get "recovery_config")) = true := by
    rw [show (sampleArtifacts 'a').get "recovery_config" = sampleRecovery from get_dict _ _,
      show sampleBackup.get "config_sha256" = digestsOf sampleRecovery from get_dict _ _]
    exact pyEq_refl _
  unfold validateBackup
  rw [h]
  dsimp only
  rw [hconfigs]
  decide +kernel

theorem validateArtifacts_sample (approver : String) :
    validateArtifacts (sampleRecord approver) = .ok () := by
  have hstable : (sampleRecord approver).get "stable" = sampleArtifacts 'a' := get_dict _ _
  have hcandidate : (sampleRecord approver).get "candidate" = sampleArtifacts 'b' := get_dict _ _
  have hbackup : (sampleRecord approver).get "pre_release_backup" = sampleBackup := get_dict _ _
  have hdeclared : parseTime ((sampleRecord approver).get "declared_at") "declared_at" =
      .ok sampleDeclared := by
    rw [show (sampleRecord approver).get "declared_at" = .str "2026-01-01T00:20:00.000000Z" from
      get_dict _ _]
    decide +kernel
  have hwindow : parseTime ((sampleRecord approver).get "rollback_window_ends_at")
      "rollback_window_ends_at" = .ok sampleEnd := by
    rw [show (sampleRecord approver).get "rollback_window_ends_at" = sampleWindow from get_dict _ _]
    decide +kernel
  unfold validateArtifacts
  rw [hstable, hcandidate, hbackup]
  refine bind_of_ok hdeclared (bind_of_ok hwindow (check_of_true (by decide +kernel) ?_))
  refine bind_of_ok validateArtifactSet_stable (bind_of_ok validateArtifactSet_candidate ?_)
  exact check_of_true (by decide +kernel) (validateBackup_sample hstable)

theorem sample_owner_accepted : validateReleaseRecord (sampleRecord "owner") = .ok zeros := by
  unfold validateReleaseRecord
  rw [validateArtifacts_sample]
  decide +kernel

theorem sample_deputy_accepted : validateReleaseRecord (sampleRecord "deputy") = .ok zeros := by
  unfold validateReleaseRecord
  rw [validateArtifacts_sample]
  decide +kernel

theorem plain_uniform {names : List String} {value : Json} (h : Plain value) :
    Plain (dict (names.map fun name => (name, value))) := by
  refine plain_dict (plainFields_iff.mpr fun f hf => ?_)
  obtain ⟨name, -, rfl⟩ := List.mem_map.mp hf
  exact h

theorem plain_digestsOf {j : Json} (h : Plain j) : Plain (digestsOf j) := by
  cases j with
  | obj fs =>
    refine ⟨?_, plainFields_iff.mpr fun f hf => ?_⟩
    · rw [SortedFields, Json.fields, List.map_map]
      exact h.1
    · obtain ⟨f', hf', rfl⟩ := List.mem_map.mp hf
      exact plain_get (plainFields_iff.mp h.2 f' hf') _
  | _ => exact ⟨List.Pairwise.nil, trivial⟩

theorem sampleRecord_plain (approver : String) : Plain (sampleRecord approver) := by
  have hconfig : Plain sampleConfig := plain_dict ⟨trivial, trivial, trivial, trivial⟩
  have himages : Plain sampleImages := plain_uniform trivial
  have hrecovery : Plain sampleRecovery := plain_uniform hconfig
  have happroval : ∀ approver, Plain (sampleApproval approver) := fun _ =>
    plain_dict ⟨trivial, trivial, trivial, trivial⟩
  have hrun : Plain sampleRun := plain_dict ⟨trivial, trivial, trivial, trivial⟩
  have hartifacts : ∀ commit, Plain (sampleArtifacts commit) := fun _ =>
    plain_dict ⟨trivial, trivial, trivial, himages,
      plain_uniform (plain_dict ⟨trivial, trivial, trivial, trivial, trivial⟩), hrecovery,
      plain_dict ⟨hconfig, trivial⟩, plain_dict ⟨trivial, trivial⟩, trivial⟩
  have hbackup : Plain sampleBackup := by
    refine plain_dict (plainFields_iff.mpr fun f hf => ?_)
    rcases List.mem_append.mp hf with hf | hf
    · simp only [List.mem_cons, List.not_mem_nil, or_false] at hf
      rcases hf with rfl | rfl | rfl | rfl | rfl | rfl | rfl | rfl
      all_goals first
        | exact trivial
        | exact himages
        | exact plain_digestsOf hrecovery
    · obtain ⟨proof, -, rfl⟩ := List.mem_map.mp hf
      exact trivial
  exact plain_dict ⟨trivial, trivial, trivial, trivial, trivial, hartifacts _, hartifacts _, hbackup,
    plain_dict ⟨trivial, trivial, trivial, trivial, happroval _, plain_uniform trivial, hrun, trivial⟩,
    happroval _, plain_dict ⟨trivial, trivial, happroval _, trivial⟩, hrun,
    plain_dict ⟨trivial, trivial, trivial⟩, trivial⟩

/-- There is one body. -/
theorem configBodies_sample (approver : String) :
    configBodies (sampleRecord approver) ⊆ {"\x7b\x7d".toUTF8} := by
  rintro body ⟨side, hside, kind, hkind, name, hbody⟩
  have hconfig : ∀ commit, ((sampleArtifacts commit).get kind).get name = sampleConfig ∨
      ((sampleArtifacts commit).get kind).get name = .null := by
    intro commit
    simp only [List.mem_cons, List.not_mem_nil, or_false] at hkind
    rcases hkind with rfl | rfl
    · rw [show (sampleArtifacts commit).get "recovery_config" = sampleRecovery from get_dict _ _]
      refine get_uniform fun f hf => ?_
      obtain ⟨_, -, rfl⟩ := List.mem_map.mp hf
      rfl
    · rw [show (sampleArtifacts commit).get "app_config" =
        dict [("app-limits.json", sampleConfig)] from get_dict _ _]
      exact get_uniform (by simp)
  have hside' : ∃ commit, (sampleRecord approver).get side = sampleArtifacts commit := by
    simp only [List.mem_cons, List.not_mem_nil, or_false] at hside
    rcases hside with rfl | rfl
    · exact ⟨'a', get_dict _ _⟩
    · exact ⟨'b', get_dict _ _⟩
  obtain ⟨commit, hcommit⟩ := hside'
  rw [hcommit] at hbody
  rcases hconfig commit with hsample | hnull
  · rw [hsample, artifactBody_sample] at hbody
    exact (Except.ok.inj hbody).symm
  · rw [hnull] at hbody
    cases hbody

theorem identityDocument_sample (approver approver' : String) :
    identityDocument (sampleRecord approver) = identityDocument (sampleRecord approver') := by
  simp [identityDocument, sampleRecord, get_dict, lookupField, selected, fenceFields]

/-- The two records differ in their approval, which no identity speaks about. -/
theorem release_identity_binds_sample : SameRelease (sampleRecord "owner") (sampleRecord "deputy") := by
  have hbodies : (configBodies (sampleRecord "owner") ∪ configBodies (sampleRecord "deputy")).Subsingleton :=
    Set.subsingleton_singleton.anti
      (Set.union_subset (configBodies_sample "owner") (configBodies_sample "deputy"))
  have hdocument := identityDocument_sample "deputy" "owner"
  refine (release_identity_binds (.of_plain (sampleRecord_plain "owner"))
    (.of_plain (sampleRecord_plain "deputy")) sample_owner_accepted sample_deputy_accepted
    ?_ (hbodies.injOn _)).1 rfl
  rw [hdocument, Set.pair_eq_singleton]
  exact Set.subsingleton_singleton.injOn _

end Sample

end ProductPdfQr.DeployRollback
