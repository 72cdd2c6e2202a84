/-
# Release records

`validate_release_record`: what a record must hold before it is sealed.  Everything a rollback
relies on later is looked at here, piece by piece, and bound to one release identity.

The Unicode tables and `json.loads` on bytes, which finds out the encoding by itself, come with
the interpreter; what is said of the validator holds whatever they are.
-/
import Mathlib.Data.List.Infix
import ProductPdfQr.Encoding
import ProductPdfQr.DeployRollback.Engine

namespace ProductPdfQr.DeployRollback

open Json Encoding

/-- What the interpreter brings along: `str.lower` of a character, the characters of `\w`, and
`json.loads` on bytes. -/
class Interpreter where
  lower : Char → List Char
  isWord : Char → Bool
  loads : Bytes → Except LoadError Json

/-! ## 1. Tables -/

/-- `RUNNING_IMAGES`, sorted. -/
def runningImages : List String := ["app", "certbot", "db", "migrate", "pr2a", "proxy"]

/-- `REQUIRED_COMPATIBILITY_ACTIONS`, sorted. -/
def requiredCompatibilityActions : List String :=
  ["audit_append", "constraints", "create", "defaults", "disable", "enable", "enums",
    "history_restore", "import", "login", "no_upload", "permissions", "public_read", "triggers",
    "upload"]

/-- `REQUIRED_RECOVERY_CONFIG`, sorted. -/
def requiredRecoveryConfig : List String :=
  ["compose.backup.yaml", "compose.prod.yaml"] ++
    ["contract.json", "requirements.txt"].map ("deploy/backup/" ++ ·) ++
    ["nginx.conf", "templates/site.conf.template"].map ("deploy/production/nginx/" ++ ·) ++
    ["backup-alert@.service", "backup-finalize.service", "backup-finalize.timer",
      "backup-precopy.service", "backup-precopy.timer", "cert-renew.service", "cert-renew.timer",
      "log-rotate.service", "log-rotate.timer"].map
      ("deploy/production/systemd/product-pdf-qr-" ++ ·) ++
    ["__init__.py", "backup-run.sh", "backup.py", "cli.py", "contract.py", "crypto.py",
      "emit-alert.sh", "init-file-access.sh", "lock.sh", "model.py", "rehearse-local.sh",
      "remote.py", "restore-run.sh", "restore.py", "synthetic_functional_check.py",
      "validate_compose.py", "verify-reproducible-image.sh"].map ("scripts/backup_recovery/" ++ ·)

/-- `ALLOWED_APP_ENVIRONMENT`. -/
def allowedAppEnvironment : List String :=
  ["APP_PORT", "DB_POOL_MIN_SIZE", "DB_POOL_MAX_SIZE", "STORAGE_ROOT", "PUBLIC_DOMAIN",
    "PUBLIC_BASE_URL", "MAX_PDF_BYTES", "IMPORT_MAX_UPLOAD_BYTES", "IMPORT_MAX_DECOMPRESSED_BYTES",
    "IMPORT_MAX_COMPRESSION_RATIO", "IMPORT_PARSE_TIMEOUT_SECONDS", "IMPORT_PARSE_MEMORY_BYTES",
    "IMPORT_MAX_ROWS", "PDF_VALIDATION_TIMEOUT_SECONDS", "PDF_VALIDATION_CPU_SECONDS",
    "PDF_VALIDATION_MEMORY_BYTES", "PUBLIC_MISS_LIMIT", "PUBLIC_MISS_WINDOW_SECONDS",
    "SESSION_COOKIE_SECURE", "SESSION_TTL_SECONDS", "LOGIN_FAILURE_LIMIT",
    "LOGIN_FAILURE_WINDOW_SECONDS", "LOGIN_BACKOFF_BASE_SECONDS", "LOGIN_BACKOFF_MAX_SECONDS"]

/-- `FORBIDDEN_CONFIG_WORDS`. -/
def forbiddenConfigWords : List String :=
  ["age-secret-key-", "-----begin private key-----", "aws_secret_access_key ="]

/-! ## 2. Secrets in a text -/

/-- What follows `word`, where the text goes on with it. -/
def dropWord? (word cs : List Char) : Option (List Char) :=
  if word.isPrefixOf cs then some (cs.drop word.length) else none

/-- What follows a run of at least one character of a class and `stop`, which is not in it. -/
def dropRun? (inClass : Char → Bool) (stop : Char) (cs : List Char) : Option (List Char) :=
  match cs.takeWhile inClass, cs.dropWhile inClass with
  | _ :: _, c :: rest => if c = stop then some rest else none
  | _, _ => none

section Secrets

variable [Interpreter]

/-- `(?:\+\w+)?://`: with a sign there is a driver to name, which no colon belongs to. -/
def dropDriver? (cs : List Char) : Option (List Char) :=
  match cs with
  | '+' :: rest =>
    if (rest.takeWhile Interpreter.isWord).isEmpty then none
    else dropWord? "://".toList (rest.dropWhile Interpreter.isWord)
  | _ => dropWord? "://".toList cs

/-- `postgres(?:ql)?(?:\+\w+)?://[^:/\s]+:[^@\s]+@`, at the front of a text. -/
def isDatabaseUrl (cs : List Char) : Bool :=
  ((dropWord? "postgres".toList cs).bind fun rest =>
    (dropDriver? ((dropWord? "ql".toList rest).getD rest)).bind fun rest =>
      (dropRun? (fun c => c ≠ ':' && c ≠ '/' && !Text.isSpace c) ':' rest).bind fun rest =>
        dropRun? (fun c => c ≠ '@' && !Text.isSpace c) '@' rest).isSome

/-- The same, anywhere in it. -/
def hasDatabaseUrl (cs : List Char) : Bool := cs.tails.any isDatabaseUrl

/-- `decoded.decode("utf-8", errors="ignore").lower()`. -/
def loweredText (decoded : Bytes) : List Char :=
  (decodeIgnoring decoded.data.toList).flatMap Interpreter.lower

end Secrets

/-! ## 3. Fields -/

/-- `isinstance(value, str) and value`. -/
def isText (value : Json) : Bool := value.str?.any (· ≠ "")

/-- `_required_text`. -/
def requiredText (document : Json) (field : String) : Except Exn String :=
  match document.get field with
  | .str s => do
    check (Text.hasText s) s!"{field} is required"
    return s
  | _ => .error (.rollbackSafety s!"{field} is required")

/-- `_safe_id`. -/
def safeId (document : Json) (field : String) : Except Exn String := do
  let value ← requiredText document field
  check (Text.isSafeId value) s!"{field} is invalid"
  return value

/-- `_exact_image`. -/
def exactImage (value : Json) (field : String) : Except Exn String :=
  match value with
  | .str s => do
    check (Text.isImageReference s) s!"{field} must be an exact tag@sha256 image"
    return s
  | _ => .error (.rollbackSafety s!"{field} must be an exact tag@sha256 image")

/-- A field that is a commit. -/
def gitSha (document : Json) (field message : String) : Except Exn Unit := do
  let value ← requiredText document field
  check (Text.isHex 40 value) message

/-- What is kept must be kept for the whole rollback window. -/
def checkRetention (value : Json) (windowEndsAt : Instant) (field message : String) :
    Except Exn Unit := do
  let retainedUntil ← parseTime value field
  check (windowEndsAt ≤ retainedUntil) message

/-! ## 4. Artifacts -/

section Artifacts

variable [Sha256] [Interpreter]

/-- The environment that `app-runtime.json` sets. -/
def checkAppRuntime (decoded : Bytes) : Except Exn Unit :=
  match Interpreter.loads decoded with
  | .error .decode => .error (.rollbackSafety "app runtime config must be JSON")
  | .error _ => .error .unicodeError
  | .ok runtime =>
    check (runtime.isDict && !runtime.fields.isEmpty &&
      runtime.keys.all (· ∈ allowedAppEnvironment) && runtime.fields.all fun f => isText f.2)
      "app runtime config contains a forbidden environment field"

/-- The checks on the body of an artifact. -/
def checkBody (name : String) (artifact : Json) (decoded : Bytes) : Except Exn Unit := do
  check (isDigestValue (artifact.get "sha256")) "config artifact digest is invalid"
  check ((artifact.get "sha256").pyEq (.str (Sha256.hexdigest decoded)))
    "config artifact digest mismatch"
  let lowered := loweredText decoded
  check (!forbiddenConfigWords.any fun word => word.toList <:+: lowered)
    "config artifact appears to contain a secret"
  check (!hasDatabaseUrl lowered) "config artifact appears to contain database credentials"
  if name = "app-runtime.json" then checkAppRuntime decoded

/-- The body of an artifact, in its only spelling. -/
def artifactBody (artifact : Json) : Except Exn Bytes := do
  let content := (artifact.get "content_b64").str?.getD ""
  check (content ≠ "") "config artifact body is required"
  match b64decode? content with
  | none => .error (.rollbackSafety "config artifact body is not canonical base64")
  | some decoded => do
    check (b64encode decoded = content) "config artifact body is not canonical base64"
    return decoded

/-- `_validate_config_artifact`. -/
def validateConfigArtifact (name : String) (artifact : Json) (windowEndsAt : Instant)
    (allowlist : List String) : Except Exn Unit := do
  check (allowlist.contains name && artifact.isDict)
    "non-secret config is outside its component allowlist"
  check (artifact.hasKeys ["content_b64", "sha256", "retained_until"])
    "config artifact schema mismatch"
  let decoded ← artifactBody artifact
  checkBody name artifact decoded
  checkRetention (artifact.get "retained_until") windowEndsAt "config.retained_until"
    "config artifact retention is shorter than rollback window"

/-- One running image and the evidence that it was fetched. -/
def validateImage (name : String) (images evidence : Json) (windowEndsAt : Instant)
    (component : String) : Except Exn Unit := do
  let reference ← exactImage (images.get component) s!"{name}.images.{component}"
  let proof := evidence.get component
  check (proof.hasKeys ["registry_digest", "image_id_digest", "prefetched", "retained_until"])
    s!"{name}.{component} image evidence schema mismatch"
  check ((proof.get "registry_digest").pyEq (.str (Text.imageDigest reference)) &&
    isDigestValue (proof.get "image_id_digest"))
    s!"{name}.{component} fetched image identity mismatch"
  check (proof.get "prefetched" = .bool true) s!"{name}.{component} image was not prefetched"
  checkRetention (proof.get "retained_until") windowEndsAt s!"{name}.{component}.retained_until"
    s!"{name}.{component} retention is too short"

/-- A recovery config is one of PR2A's own files. -/
def isRecoveryPath (name : String) : Bool :=
  (name = "compose.prod.yaml" || name = "compose.backup.yaml" ||
    Text.startsWith name "deploy/production/nginx/" ||
    Text.startsWith name "deploy/production/systemd/" || Text.startsWith name "deploy/backup/" ||
    Text.startsWith name "scripts/backup_recovery/") &&
    !Text.startsWith name "/" && !Text.hasParentPart name

/-- The recovery configs of an artifact set. -/
def validateRecoveryConfig (name : String) (configs : Json) (windowEndsAt : Instant) :
    Except Exn Unit := do
  check (configs.isDict && !configs.fields.isEmpty) s!"{name} retrievable recovery_config is required"
  check (requiredRecoveryConfig.all (· ∈ configs.keys)) s!"{name} recovery config archive is incomplete"
  configs.fields.forM fun (configName, artifact) => do
    check (isRecoveryPath configName) "recovery config is outside the PR2A allowlist"
    validateConfigArtifact configName artifact windowEndsAt [configName]

/-- The configs of the application itself. -/
def validateAppConfig (name : String) (configs : Json) (windowEndsAt : Instant) :
    Except Exn Unit := do
  check (configs.isDict && !configs.fields.isEmpty) s!"{name} retrievable app_config is required"
  configs.fields.forM fun (configName, artifact) =>
    validateConfigArtifact configName artifact windowEndsAt allowedAppConfig

/-- References to secrets, and never a secret. -/
def validateSecretReferences (name : String) (references : Json) : Except Exn Unit := do
  check (references.isDict && !references.fields.isEmpty) s!"{name} secret references are required"
  references.fields.forM fun (key, reference) => do
    let text := reference.str?.getD ""
    check (key ≠ "" && Text.hasText text) "secret references must be versioned non-empty strings"
    check (!text.toList.contains '\n' && !text.toList.contains '=')
      "secret reference may not contain a secret value"

/-- `_validate_artifact_set`. -/
def validateArtifactSet (artifactSet : Json) (name : String) (windowEndsAt : Instant) :
    Except Exn Unit := do
  check artifactSet.isDict s!"{name} artifact set is missing"
  check (artifactSet.hasKeys ["commit", "alembic_revision", "migration_sha", "images",
    "image_evidence", "recovery_config", "app_config", "secret_references"])
    s!"{name} artifact set schema mismatch"
  gitSha artifactSet "commit" s!"{name} commit must be an exact Git SHA"
  let _ ← safeId artifactSet "alembic_revision"
  gitSha artifactSet "migration_sha" s!"{name} migration_sha must be an exact Git SHA"
  let images := artifactSet.get "images"
  let evidence := artifactSet.get "image_evidence"
  check (images.hasKeys runningImages) s!"{name} must bind every running image"
  check (evidence.hasKeys runningImages) s!"{name} image evidence is incomplete"
  runningImages.forM (validateImage name images evidence windowEndsAt)
  validateRecoveryConfig name (artifactSet.get "recovery_config") windowEndsAt
  validateAppConfig name (artifactSet.get "app_config") windowEndsAt
  validateSecretReferences name (artifactSet.get "secret_references")

end Artifacts

/-! ## 5. The release identity -/

section Identity

variable [Sha256]

/-- The digests of the artifacts a dict holds: of what is no dict, `None`. -/
def digestsOf (configs : Json) : Json := .obj (configs.fields.map fun f => (f.1, f.2.get "sha256"))

/-- `identity` of one artifact set. -/
def artifactIdentity (artifacts : Json) : Except Exn Json := do
  check (artifacts.get "app_config").isDict "release config identity is missing"
  check (artifacts.get "recovery_config").isDict "release recovery config identity is missing"
  return dict [("commit", artifacts.get "commit"),
    ("alembic_revision", artifacts.get "alembic_revision"),
    ("migration_sha", artifacts.get "migration_sha"), ("images", artifacts.get "images"),
    ("recovery_config_sha256", digestsOf (artifacts.get "recovery_config")),
    ("config_sha256", digestsOf (artifacts.get "app_config"))]

/-- `{field: document.get(field) for field in names}`, or `None`. -/
def selected (document : Json) (names : List String) : Json :=
  if document.isDict then dict (names.map fun field => (field, document.get field)) else .null

/-- `release_identity`. -/
def releaseIdentity (record : Json) : Except Exn String := do
  let stable := record.get "stable"
  let candidate := record.get "candidate"
  check (stable.isDict && candidate.isDict) "release artifacts are missing"
  let stableIdentity ← artifactIdentity stable
  let candidateIdentity ← artifactIdentity candidate
  return digestJson (dict
    [("release_id", record.get "release_id"), ("environment_id", record.get "environment_id"),
      ("stable", stableIdentity), ("candidate", candidateIdentity),
      ("pre_release_backup", selected (record.get "pre_release_backup")
        ["backup_id", "source_commit", "images", "config_sha256", "alembic_revision",
          "completed_at", "g19_watermark_sha256"]),
      ("publication_fence", selected (record.get "publication_fence")
        ["command_sha256", "readiness_bypass_only"])])

end Identity

/-! ## 6. Approvals, backup and evidence -/

/-- `_validate_approval`. -/
def validateApproval (value : Json) (field : String) : Except Exn Unit := do
  check (value.hasKeys ["approval_id", "approver", "approved_at"])
    s!"{field} approval schema mismatch"
  let _ ← safeId value "approval_id"
  let _ ← safeId value "approver"
  let _ ← parseTime (value.get "approved_at") s!"{field}.approved_at"
  return ()

/-- The proofs a pre-release backup must carry. -/
def backupProofs : List String :=
  ["encrypted", "manifest_authenticated", "completion_last", "remote_verified",
    "preflight_retrievable"]

/-- `_validate_backup`. -/
def validateBackup (record backup : Json) (declaredAt : Instant) : Except Exn Unit := do
  check (backup.hasKeys (["backup_id", "source_commit", "images", "config_sha256",
    "alembic_revision", "frozen_at", "completed_at"] ++ backupProofs ++ ["g19_watermark_sha256"]))
    "pre-release backup schema mismatch"
  let backupId ← requiredText backup "backup_id"
  check (Text.isBackupId backupId) "pre-release backup_id is invalid"
  let frozen ← parseTime (backup.get "frozen_at") "backup.frozen_at"
  let completed ← parseTime (backup.get "completed_at") "backup.completed_at"
  check (frozen < completed && completed ≤ declaredAt) "pre-release backup timing is invalid"
  check (declaredAt.micros - completed.micros ≤ 3600 * 1000000)
    "pre-release backup is not immediate"
  backupProofs.forM fun field =>
    check (backup.get field = .bool true) s!"pre-release backup {field} proof is missing"
  check (isDigestValue (backup.get "g19_watermark_sha256"))
    "pre-release backup G-19 watermark is missing"
  let stable := record.get "stable"
  check ((backup.get "source_commit").pyEq (stable.get "commit"))
    "pre-release backup source commit mismatch"
  check ((backup.get "images").pyEq (stable.get "images"))
    "pre-release backup image identity mismatch"
  check ((backup.get "config_sha256").pyEq (digestsOf (stable.get "recovery_config")))
    "pre-release backup config identity mismatch"
  check ((backup.get "alembic_revision").pyEq (stable.get "alembic_revision"))
    "pre-release backup Alembic identity mismatch"

/-- The approved publication fence. -/
def validateFence (fence : Json) : Except Exn Unit := do
  check (fence.hasKeys ["command_sha256", "readiness_bypass_only", "approval"] &&
    isDigestValue (fence.get "command_sha256") &&
    fence.get "readiness_bypass_only" = .bool true) "approved publication fence is incomplete"
  validateApproval (fence.get "approval") "publication_fence"

/-- A run that passed, for one release. -/
def validateRun (run : Json) (message : String) : Except Exn Unit := do
  check (run.hasKeys ["passed", "run_id", "release_identity"] && run.get "passed" = .bool true)
    message
  let _ ← safeId run "run_id"
  return ()

/-- The compatibility decision. -/
def validateCompatibility (compatibility : Json) : Except Exn Unit := do
  check (compatibility.hasKeys ["verdict", "migration_owner", "decided_at", "release_identity",
    "approval", "full_read_write_actions", "g19_rehearsal"]) "compatibility record schema mismatch"
  let verdict := compatibility.get "verdict"
  -- membership of a set asks for a hash first
  if verdict.isDict || verdict.isList then .error .typeError
  check (isOneOf verdict ["compatible", "incompatible"])
    "compatibility verdict is missing or unknown"
  let _ ← safeId compatibility "migration_owner"
  let _ ← parseTime (compatibility.get "decided_at") "compatibility.decided_at"
  validateApproval (compatibility.get "approval") "compatibility"
  let actions := compatibility.get "full_read_write_actions"
  check (actions.hasKeys requiredCompatibilityActions && actions.fields.all fun f => isBool f.2)
    "complete old-app read/write compatibility evidence is required"
  check (!(verdict.pyEq (.str "compatible") && actions.fields.any fun f => f.2 ≠ .bool true))
    "compatible requires every old-app read/write action"

/-- `roll_forward_valid`. -/
def rollForwardValid (rollForward : Json) (identity : String) : Bool :=
  rollForward.hasKeys ["rehearsed", "run_id", "release_identity", "approval"] &&
    rollForward.get "rehearsed" = .bool true &&
    (rollForward.get "release_identity").pyEq (.str identity)

/-- `lossy_valid`. -/
def lossyValid (lossy : Json) (identity : String) : Bool :=
  lossy.hasKeys ["preapproved", "authorization_record", "loss_start", "loss_end",
    "release_identity", "approval"] &&
    lossy.get "preapproved" = .bool true && (lossy.get "release_identity").pyEq (.str identity)

/-- What a lossy plan must hold besides. -/
def validateLossyPlan (lossy : Json) : Except Exn Unit := do
  let _ ← safeId lossy "authorization_record"
  let lossStart ← parseTime (lossy.get "loss_start") "lossy.loss_start"
  let lossEnd ← parseTime (lossy.get "loss_end") "lossy.loss_end"
  check (lossStart < lossEnd) "approved data-loss window is invalid"
  validateApproval (lossy.get "approval") "lossy"

/-- The plan of an incompatible release: either way back is enough, and each is looked at only
when it is bound to this release. -/
def validatePlan (plan : Json) (identity : String) : Except Exn Unit := do
  let rollForward := plan.get "roll_forward"
  let lossy := plan.get "lossy_recovery"
  if rollForwardValid rollForward identity then do
    let _ ← safeId rollForward "run_id"
    validateApproval (rollForward.get "approval") "roll_forward"
  if lossyValid lossy identity then validateLossyPlan lossy
  check (rollForwardValid rollForward identity || lossyValid lossy identity)
    "incompatible release lacks rehearsed roll-forward or approved data plan"

/-! ## 7. The record -/

section Record

variable [Sha256] [Interpreter]

/-- The fields of a release record. -/
def releaseFields : List String :=
  ["schema_version", "release_id", "environment_id", "declared_at", "rollback_window_ends_at",
    "stable", "candidate", "pre_release_backup", "compatibility", "release_approval",
    "publication_fence", "stable_isolation_smoke", "pre_publication_plan"]

/-- The artifacts of both releases, for the rollback window, and the backup between them. -/
def validateArtifacts (record : Json) : Except Exn Unit := do
  let declaredAt ← parseTime (record.get "declared_at") "declared_at"
  let windowEndsAt ← parseTime (record.get "rollback_window_ends_at") "rollback_window_ends_at"
  check (declaredAt < windowEndsAt) "rollback window must end after release declaration"
  validateArtifactSet (record.get "stable") "stable" windowEndsAt
  validateArtifactSet (record.get "candidate") "candidate" windowEndsAt
  check (!((record.get "stable").get "commit").pyEq ((record.get "candidate").get "commit"))
    "stable and candidate commits must differ"
  validateBackup record (record.get "pre_release_backup") declaredAt

/-- `validate_release_record`. -/
def validateReleaseRecord (record : Json) : Except Exn String := do
  check (record.hasKeys releaseFields) "release record schema mismatch"
  check ((record.get "schema_version").pyEq (.int 1)) "unsupported release record schema"
  let _ ← safeId record "release_id"
  let _ ← safeId record "environment_id"
  validateArtifacts record
  validateApproval (record.get "release_approval") "release"
  validateFence (record.get "publication_fence")
  let smoke := record.get "stable_isolation_smoke"
  validateRun smoke "stable isolated smoke evidence is incomplete"
  let compatibility := record.get "compatibility"
  validateCompatibility compatibility
  let rehearsal := compatibility.get "g19_rehearsal"
  validateRun rehearsal "release-specific G-19 rehearsal is required"
  let identity ← releaseIdentity record
  [smoke, compatibility, rehearsal].forM fun evidence =>
    check ((evidence.get "release_identity").pyEq (.str identity))
      "exact release evidence is stale or cross-bound"
  let plan := record.get "pre_publication_plan"
  check (plan.hasKeys ["roll_forward", "lossy_recovery"]) "pre-publication plan schema mismatch"
  if (compatibility.get "verdict").pyEq (.str "incompatible") then validatePlan plan identity
  return identity

/-! ## 8. What an accepted record holds -/

omit [Sha256] [Interpreter] in
theorem forM_ok {α : Type} {f : α → Except Exn Unit} {xs : List α} (h : xs.forM f = .ok ()) :
    ∀ x ∈ xs, f x = .ok () := by
  induction xs with
  | nil => exact fun x hx => absurd hx List.not_mem_nil
  | cons y ys ih =>
    obtain ⟨_, hy, hys⟩ := bind_ok h
    intro x hx
    rcases List.mem_cons.mp hx with rfl | hx
    · exact hy
    · exact ih hys x hx

omit [Sha256] [Interpreter] in
theorem safeId_ok {document : Json} {field s : String} (h : safeId document field = .ok s) :
    document.get field = .str s ∧ Text.isSafeId s = true := by
  obtain ⟨value, hvalue, h⟩ := bind_ok h
  obtain ⟨hsafe, h⟩ := check_bind_ok h
  obtain rfl := Except.ok.inj h
  refine ⟨?_, hsafe⟩
  unfold requiredText at hvalue
  split at hvalue
  · next s' hs' =>
    obtain ⟨-, hvalue⟩ := check_bind_ok hvalue
    rw [hs', Except.ok.inj hvalue]
  · cases hvalue

omit [Sha256] [Interpreter] in
theorem exactImage_ok {value : Json} {field s : String} (h : exactImage value field = .ok s) :
    value = .str s ∧ Text.isImageReference s = true := by
  unfold exactImage at h
  split at h
  · obtain ⟨himage, h⟩ := check_bind_ok h
    obtain rfl := Except.ok.inj h
    exact ⟨rfl, himage⟩
  · cases h

/-- What later steps rely on of a record. -/
structure Accepted (record : Json) (identity : String) : Prop where
  releaseId : ∃ id, record.get "release_id" = .str id ∧ Text.isSafeId id = true
  artifacts : ∃ windowEndsAt, validateArtifactSet (record.get "stable") "stable" windowEndsAt = .ok () ∧
    validateArtifactSet (record.get "candidate") "candidate" windowEndsAt = .ok ()
  identity_eq : releaseIdentity record = .ok identity
  plan : ((record.get "compatibility").get "verdict").pyEq (.str "incompatible") = true →
    validatePlan (record.get "pre_publication_plan") identity = .ok ()

theorem validateArtifacts_ok {record : Json} (h : validateArtifacts record = .ok ()) :
    ∃ windowEndsAt, validateArtifactSet (record.get "stable") "stable" windowEndsAt = .ok () ∧
      validateArtifactSet (record.get "candidate") "candidate" windowEndsAt = .ok () := by
  obtain ⟨_, -, h⟩ := bind_ok h
  obtain ⟨windowEndsAt, -, h⟩ := bind_ok h
  obtain ⟨-, h⟩ := check_bind_ok h
  obtain ⟨_, hstable, h⟩ := bind_ok h
  obtain ⟨_, hcandidate, -⟩ := bind_ok h
  exact ⟨windowEndsAt, hstable, hcandidate⟩

theorem validateReleaseRecord_ok {record : Json} {identity : String}
    (h : validateReleaseRecord record = .ok identity) : Accepted record identity := by
  obtain ⟨-, h⟩ := check_bind_ok h
  obtain ⟨-, h⟩ := check_bind_ok h
  obtain ⟨id, hid, h⟩ := bind_ok h
  obtain ⟨_, -, h⟩ := bind_ok h
  obtain ⟨_, hartifacts, h⟩ := bind_ok h
  obtain ⟨_, -, h⟩ := bind_ok h
  obtain ⟨_, -, h⟩ := bind_ok h
  obtain ⟨_, -, h⟩ := bind_ok h
  obtain ⟨_, -, h⟩ := bind_ok h
  obtain ⟨_, -, h⟩ := bind_ok h
  obtain ⟨identity', hidentity, h⟩ := bind_ok h
  obtain ⟨_, -, h⟩ := bind_ok h
  obtain ⟨-, h⟩ := check_bind_ok h
  refine ⟨⟨id, safeId_ok hid⟩, validateArtifacts_ok hartifacts, ?_, ?_⟩
  · split at h
    · obtain ⟨_, -, h⟩ := bind_ok h
      exact hidentity.trans h
    · exact hidentity.trans h
  · intro hverdict
    rw [if_pos hverdict] at h
    obtain ⟨_, hplan, h⟩ := bind_ok h
    rw [← Except.ok.inj h]
    exact hplan

/-- What the runtime identity takes from an accepted artifact set. -/
theorem validateArtifactSet_ok {artifactSet : Json} {name : String} {windowEndsAt : Instant}
    (h : validateArtifactSet artifactSet name windowEndsAt = .ok ()) :
    (∃ image, (artifactSet.get "images").get "app" = .str image ∧
      Text.isImageReference image = true) ∧
    validateAppConfig name (artifactSet.get "app_config") windowEndsAt = .ok () := by
  obtain ⟨-, h⟩ := check_bind_ok h
  obtain ⟨-, h⟩ := check_bind_ok h
  obtain ⟨_, -, h⟩ := bind_ok h
  obtain ⟨_, -, h⟩ := bind_ok h
  obtain ⟨_, -, h⟩ := bind_ok h
  obtain ⟨-, h⟩ := check_bind_ok h
  obtain ⟨-, h⟩ := check_bind_ok h
  obtain ⟨_, himages, h⟩ := bind_ok h
  obtain ⟨_, -, h⟩ := bind_ok h
  obtain ⟨_, happ, -⟩ := bind_ok h
  obtain ⟨image, himage, -⟩ := bind_ok (forM_ok himages "app" (by decide))
  exact ⟨⟨image, exactImage_ok himage⟩, happ⟩

end Record

end ProductPdfQr.DeployRollback
