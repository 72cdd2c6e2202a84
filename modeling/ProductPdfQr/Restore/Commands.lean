/-
# The commands of a restore

`RestoreEngine`'s commands, with the checks that each makes of the checkpoint written out and
the parts that only look at, or change, something else asked of the environment.  The values in
a manifest are used as its validation leaves them: the identities and digests are strings, the
sizes integers.
-/
import Mathlib.Data.List.Infix
import ProductPdfQr.Restore.Checkpoint

namespace ProductPdfQr.Restore

open Effect Json

variable [Sha256]

namespace RestoreEngine

/-- `_inject`. -/
def inject (stage : String) : Op Unit := do
  let failStage : Option String ← ask .failStage
  require (failStage ≠ some stage) ("injected restore failure: " ++ stage)

/-- The completion marker says that this backup was verified. -/
def requireCompletion (backupId : String) (completion : Json) : Op Unit := do
  require (completion.isDict && (completion.get "backup_id").pyEq (.str backupId) &&
    (completion.get "status").pyEq (.str "remote_ciphertext_verified"))
    "completion marker identity or status mismatch"

/-- `_manifest`. -/
def manifest (backupId : String) : Op Json := do
  let completion : Json ← ask .completion
  requireCompletion backupId completion
  ask (.downloadManifest completion)
  let manifest : Json ← ask .decryptManifest
  require manifest.isDict "authenticated manifest is not a JSON object"
  ask (.verifyManifest manifest)
  require ((manifest.get "backup_id").pyEq (.str backupId)) "manifest identity mismatch"
  return manifest

/-! ## 1. Preflight -/

/-- `"@sha256:" in str(reference)`, of each image. -/
def immutableImages (manifest : Json) : Bool :=
  (manifest.get "images").fields.all fun image =>
    image.2.str?.any fun reference => "@sha256:".toList <:+: reference.toList

/-- `_validate_manifest_deployment_identity`. -/
def validateManifestDeploymentIdentity (manifest : Json) : Op Unit := do
  let current : Json ← ask .deploymentIdentity
  require ((manifest.get "source_commit").pyEq (current.get "source_commit"))
    "backup source commit differs from target checkout"
  require ((manifest.get "images").pyEq (current.get "images"))
    "backup image set differs from target deployment"
  require ((manifest.get "config_hashes").pyEq (current.get "config_hashes"))
    "backup config set differs from target checkout"

/-- The tool versions of the manifest and of the target. -/
def requireTools (manifest : Json) : Op Unit := do
  let tools := manifest.get "tools"
  require ((tools.get "pg_dump").str?.any fun s => Text.startsWith s "pg_dump (PostgreSQL) 16.")
    "pg_dump major version is incompatible"
  let age : Int × String ← ask (.toolVersion "age")
  require ((tools.get "age").pyEq (.str age.2)) "age version is incompatible"
  let pgRestoreVersion : Int × String ← ask (.toolVersion "pg_restore")
  require (pgRestoreVersion.1 = 0 && "PostgreSQL) 16.".toList <:+: pgRestoreVersion.2.toList)
    "pg_restore major version is incompatible"
  let rcloneVersion : Int × String ← ask (.toolVersion "rclone")
  require (rcloneVersion.1 = 0 &&
    ((tools.get "rclone").str?.any fun s => Text.startsWith s "rclone v1.74.1") &&
    Text.startsWith rcloneVersion.2 "rclone v1.74.1") "rclone version is incompatible"

/-- The loop over the objects. -/
def validateObject (manifest item : Json) : Op Unit := do
  ask (.downloadObject item)
  let observed : Nat × String ← ask (.decryptToHash item)
  require ((item.get "plaintext_size").pyEq (.int observed.1) &&
    (item.get "plaintext_sha256").pyEq (.str observed.2))
    "authenticated plaintext object digest mismatch"
  if (item.get "name").pyEq (.str "config") then ask (.validateConfigArchive item manifest)
  else return ()

/-- What `preflight` does before it looks at the checkpoint again. -/
def verifyBundle (e : RestoreEngine) (backupId : String) : Op Json := do
  let completion : Json ← ask .completion
  Prog.ensure completion.isDict .attributeError
  require ((completion.get "backup_id").pyEq (.str backupId)) "completion marker identity mismatch"
  require ((completion.get "status").pyEq (.str "remote_ciphertext_verified"))
    "backup is not remotely verified"
  ask (.downloadManifest completion)
  let manifest : Json ← ask .decryptManifest
  require manifest.isDict "authenticated manifest is not a JSON object"
  ask (.verifyManifest manifest)
  require ((manifest.get "backup_id").pyEq (.str backupId)) "manifest identity mismatch"
  require ((manifest.get "recipient_key_id").pyEq (.str e.recipientKeyId))
    "recipient key mapping mismatch"
  require (immutableImages manifest) "manifest contains a mutable image identity"
  validateManifestDeploymentIdentity manifest
  requireTools manifest
  ask (.requireCapacity manifest)
  inject "preflight"
  (manifest.get "objects").items.forM (validateObject manifest)
  ask .keepManifest
  return manifest

/-- `preflight`. -/
def preflight (e : RestoreEngine) (backupId : String) : Op Json := do
  let _ ← e.declare backupId
  inject "decrypt"
  let manifest ← e.verifyBundle backupId
  let done ← e.completed backupId .preflightComplete
  if done then return manifest
  else do
    e.advance backupId .preflightComplete []
    return manifest

/-! ## 2. The site and its restore -/

/-- The encrypted rollback set, in its staging directory until it is verified. -/
def retain (e : RestoreEngine) (backupId : String) : Op Unit := do
  inject "site_retention"
  let database : String × String ← ask .retainDatabase
  let files : String ← ask .retainFiles
  let deployment : Json ← ask .deploymentIdentity
  let now ← utcNow
  ask (.retainIdentity (dict ([("environment_id", .str e.guard.environmentId),
    ("target_backup_id", .str backupId), ("restore_operation_id", .str e.guard.operationId),
    ("retained_at", .str now.formatTime), ("database_plaintext_sha256", .str database.1),
    ("database_ciphertext_sha256", .str database.2),
    ("file_manifest_ciphertext_sha256", .str files)] ++ deployment.fields)))
  let verified : Bool ← ask .retentionVerified
  require verified "site retention verification failed"
  ask .publishRetention

/-- `retain_site`. -/
def retainSite (e : RestoreEngine) (backupId : String) : Op Unit := do
  let done ← e.completed backupId .siteRetained
  if done then return ()
  else do
    let state ← e.readState backupId
    require (stageOf state = .preflightComplete) "site retention requires completed preflight"
    ask .clearRetention
    tryCatch (e.retain backupId) fun error => do
      ask .discardStaging
      throw error
    e.advance backupId .siteRetained []

/-- `restore_database`. -/
def restoreDatabase (e : RestoreEngine) (backupId : String) : Op Unit := do
  let done ← e.completed backupId .databaseRestored
  if done then return ()
  else do
    let state ← e.readState backupId
    require (stageOf state = .siteRetained) "database restore requires verified site retention"
    inject "database"
    let manifest ← manifest backupId
    match (manifest.get "objects").items.find? fun item =>
        (item.get "name").pyEq (.str "database") with
    | none => throw (.outside "StopIteration")
    | some _ => do
      pgRestore .bundle
      e.advance backupId .databaseRestored []

/-- The loop over the files. -/
def restoreFile (manifest file : Json) : Op Unit := do
  inject "files"
  let there : Bool ← ask (.fileMatches file)
  if there then return ()
  else do
    match (manifest.get "objects").items.find? fun item =>
        (item.get "name").pyEq (.str ("file:" ++ ((file.get "path").str?.getD ""))) with
    | none => throw (.keyError "file")
    | some item => do
      let observed : Nat × String ← ask (.decryptToPath item)
      require ((file.get "size").pyEq (.int observed.1) && (file.get "sha256").pyEq (.str observed.2))
        "restored file digest mismatch"

/-- `restore_files`. -/
def restoreFiles (e : RestoreEngine) (backupId : String) : Op Unit := do
  let done ← e.completed backupId .filesComplete
  if done then return ()
  else do
    let state ← e.readState backupId
    require (stageOf state = .databaseRestored) "file restore requires database_restored"
    inject "files"
    let manifest ← manifest backupId
    (manifest.get "files").items.forM (restoreFile manifest)
    e.advance backupId .filesComplete []

/-! ## 3. Validation -/

/-- The stage must be the one before, unless the command's own was reached. -/
def requireBefore (e : RestoreEngine) (backupId : String) (done : Bool) (stage : Stage)
    (message : String) : Op Unit :=
  if done then return ()
  else do
    let state ← e.readState backupId
    require (stageOf state = stage) message

/-- The advance of a command that works again when its stage was reached. -/
def advanceUnless (e : RestoreEngine) (backupId : String) (done : Bool) (stage : Stage)
    (details : Fields) : Op Unit :=
  if done then return () else e.advance backupId stage details

/-- What `offline_validate` looks at. -/
def validateOffline (backupId : String) : Op Json := do
  inject "offline_validation"
  let manifest ← manifest backupId
  (manifest.get "files").items.forM fun file => do
    let there : Bool ← ask (.fileMatches file)
    require there "full file validation failed"
  let assertions : Json ← ask .databaseAssertions
  require (assertions.pyEq (manifest.get "database_assertions"))
    "database counts, relations, or audit projection changed"
  ask (.validateFileReferences manifest)
  let references : String ← ask .invalidReferences
  require (references = "0") "database contains an invalid current/history reference"
  return manifest

/-- `offline_validate`. -/
def offlineValidate (e : RestoreEngine) (backupId : String) : Op Json := do
  let done ← e.completed backupId .offlineValidated
  e.requireBefore backupId done .filesComplete "offline validation requires files_complete"
  let manifest ← validateOffline backupId
  e.advanceUnless backupId done .offlineValidated []
  return manifest

/-- The facts that functional evidence must state. -/
def functionalFacts : List String :=
  ["unuploaded_state", "active_current_v2", "disabled_state_priority", "switch_v1_and_v2",
    "disabled_immediate_no_store", "audit_append_only", "proxy_stopped", "public_unreachable"]

/-- What `record_functional_validation` looks at; the digest of the evidence, where needed. -/
def validateFunctionally (backupId : String) (done : Bool) : Op Fields := do
  inject "isolated_functional_validation"
  let report : Json ← ask .evidence
  if report.isDict = false then throw .attributeError
  else do
    require ((report.get "backup_id").pyEq (.str backupId) &&
      functionalFacts.all fun fact => report.get fact = .bool true)
      "isolated functional validation is incomplete"
    if done then return []
    else do
      let bytes : Bytes ← ask .evidenceBytes
      return [("evidence_sha256", .str (hexdigest bytes))]

/-- `record_functional_validation`. -/
def recordFunctionalValidation (e : RestoreEngine) (backupId : String) : Op Unit := do
  let done ← e.completed backupId .isolatedFunctionalValidated
  e.requireBefore backupId done .offlineValidated "functional validation requires offline_validated"
  let details ← validateFunctionally backupId done
  e.advanceUnless backupId done .isolatedFunctionalValidated details

/-! ## 4. The proxy and readiness -/

/-- `authorize_proxy`. -/
def authorizeProxy (e : RestoreEngine) (backupId : String) : Op Unit := do
  let done ← e.completed backupId .proxyAuthorized
  if done then return ()
  else do
    let state ← e.readState backupId
    require (stageOf state = .isolatedFunctionalValidated)
      "proxy remains blocked until isolated validation passes"
    inject "proxy"
    e.advance backupId .proxyAuthorized []

/-- The elapsed time that the history says. -/
def recordedElapsed (state : Json) : Except Exn Int :=
  let invalid := .error (.safety "restore completion RTO evidence is invalid")
  match (state.get "history").items.reverse.find? fun item =>
      (item.get "stage").pyEq (.str Stage.externalReady.text) with
  | none => invalid
  | some item => match (item.get "elapsed_seconds").int? with
    | some elapsed => .ok elapsed
    | none => invalid

/-- The elapsed time: the recorded one, or else the one now, which is recorded. -/
def reachReadiness (e : RestoreEngine) (backupId : String) (done : Bool) (state : Json) :
    Op Int :=
  if done then Prog.liftExcept (recordedElapsed state)
  else do
    let now ← utcNow
    let declaredAt ← Prog.liftExcept (e.declaredAt state)
    let elapsed := now.secondsSince declaredAt
    require (0 ≤ elapsed) "restore RTO clock moved backwards"
    require (elapsed ≤ e.rtoHardLimitSeconds) "four-hour restore RTO exceeded"
    e.advance backupId .externalReady [("elapsed_seconds", .int elapsed)]
    return elapsed

/-- The verification marker: checked if it is there, else uploaded. -/
def publishVerified (e : RestoreEngine) (backupId : String) (state manifest : Json) : Op Unit := do
  let now ← utcNow
  let unsignedVerified := dict [("schema_version", .int 1), ("backup_id", .str backupId),
    ("restore_operation_id", .str e.guard.operationId),
    ("environment_id", .str e.guard.environmentId), ("verified_at", .str now.formatTime),
    ("rule", .str "remote_download_plus_complete_isolated_restore_only"),
    ("restore_history_sha256", .str (digestJson (state.get "history"))),
    ("manifest_sha256", .str (digestJson manifest))]
  let there : Bool ← ask .verifiedExists
  if there then do
    let existing : Json ← ask .readVerified
    require existing.isDict "restore verification marker is not a JSON object"
    require ((existing.get "backup_id").pyEq (.str backupId) &&
      (existing.get "manifest_sha256").pyEq (unsignedVerified.get "manifest_sha256"))
      "restore verification marker conflicts with this recovery point"
  else ask (.uploadVerified unsignedVerified)

/-- `external_ready`. -/
def externalReady (e : RestoreEngine) (backupId : String) : Op Int := do
  let done ← e.completed backupId .externalReady
  e.requireBefore backupId done .proxyAuthorized
    "external readiness reported before proxy authorization"
  let state ← e.readState backupId
  let elapsed ← e.reachReadiness backupId done state
  let state ← e.readState backupId
  let manifest ← manifest backupId
  e.publishVerified backupId state manifest
  return elapsed

/-! ## 5. Rollback -/

/-- What `rollback_site` checks before it touches the database. -/
def verifyRetained (e : RestoreEngine) (backupId : String) : Op Unit := do
  ["database.dump.age", "files.json.age", "identity.json.age"].forM fun name => do
    let there : Bool ← ask (.onsiteIsFile name)
    require there "site retention object is missing"
  let identity : Json ← ask (.onsiteJson "identity.json.age")
  require ((identity.get "target_backup_id").pyEq (.str backupId)) "site retention identity mismatch"
  require ((identity.get "restore_operation_id").pyEq (.str e.guard.operationId))
    "site retention operation identity mismatch"
  let digest : String ← ask .onsiteDatabaseDigest
  require ((identity.get "database_ciphertext_sha256").pyEq (.str digest))
    "site retention database ciphertext changed"
  let retained : Json ← ask (.onsiteJson "files.json.age")
  retained.items.forM fun file => do
    let there : Bool ← ask (.fileMatches file)
    require there "site files changed; automatic rollback is unsafe"

/-- `rollback_site`.  Unlike the other commands it does not ask `_completed`, and it writes its
stage without `_advance`. -/
def rollbackSite (e : RestoreEngine) (backupId : String) : Op Unit := do
  let state ← e.readState backupId
  require (Stage.siteRetained.order ≤ (stageOf state).order)
    "rollback requires a verified site retention point"
  e.verifyRetained backupId
  pgRestore .site
  let now ← utcNow
  let state ← Prog.liftExcept
    (appendHistory (state.set "stage" (.str Stage.rolledBack.text)) (entry .rolledBack now []))
  save (canonicalJson state)

end RestoreEngine

/-! ## 6. Attempts -/

/-- The commands. -/
inductive Command
  | declare
  | preflight
  | retainSite
  | restoreDatabase
  | restoreFiles
  | offlineValidate
  | recordFunctionalValidation
  | authorizeProxy
  | externalReady
  | rollbackSite
  deriving DecidableEq, Repr

/-- A command, its result dropped. -/
def RestoreEngine.perform (e : RestoreEngine) (backupId : String) : Command → Op Unit
  | .declare => do
    let _ ← e.declare backupId
  | .preflight => do
    let _ ← e.preflight backupId
  | .retainSite => e.retainSite backupId
  | .restoreDatabase => e.restoreDatabase backupId
  | .restoreFiles => e.restoreFiles backupId
  | .offlineValidate => do
    let _ ← e.offlineValidate backupId
  | .recordFunctionalValidation => e.recordFunctionalValidation backupId
  | .authorizeProxy => e.authorizeProxy backupId
  | .externalReady => do
    let _ ← e.externalReady backupId
  | .rollbackSite => e.rollbackSite backupId

/-- One command of an engine of the operation, and the number of calls after which it dies. -/
structure Attempt (guard : RestoreGuard) where
  engine : RestoreEngine
  onGuard : engine.guard = guard
  command : Command
  calls : Nat

/-- The world that an attempt leaves. -/
def Attempt.leaves {guard : RestoreGuard} (a : Attempt guard) (backupId : String) (w : World) :
    World :=
  ((a.engine.perform backupId a.command).exec machine a.calls w).state

/-- The world that a run leaves. -/
def after {guard : RestoreGuard} (backupId : String) (run : List (Attempt guard)) (start : World) :
    World :=
  run.foldl (fun w a => a.leaves backupId w) start

end ProductPdfQr.Restore
