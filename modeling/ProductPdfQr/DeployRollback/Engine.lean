/-
# The rollback engine

`RollbackEngine`: choose a path, and on path two switch the application back to the stable
release with the proxy stopped, starting the proxy last.  Any failure after the application was
stopped rolls forward to the candidate again.

The `try` block of `_switch_app` assigns local variables that its handler reads.  A `Frame`
holds them, and a statement that raises inside the block raises together with the frame as it
stood (`within`).
-/
import ProductPdfQr.DeployRollback.Audit

namespace ProductPdfQr.DeployRollback

open Effect Json

/-! ## 1. Release records -/

/-- `ALLOWED_APP_CONFIG`. -/
def allowedAppConfig : List String :=
  ["app-runtime.json", "app-limits.json", "app-public-origin.json"]

/-- What the switch reads of an artifact set that `validate_release_record` accepted. -/
structure Artifacts where
  appImage : String
  appConfig : Json
  exactImage : Text.isImageReference appImage = true
  allowedConfig : appConfig.isDict = true ∧ appConfig.keys ≠ [] ∧
    ∀ name ∈ appConfig.keys, name ∈ allowedAppConfig

/-- `compatibility.verdict`. -/
inductive Verdict
  | compatible
  | incompatible
  deriving DecidableEq, Repr

/-- The verdict as the record spells it. -/
def Verdict.text : Verdict → String
  | .compatible => "compatible"
  | .incompatible => "incompatible"

/-- What the engine reads of a record that `validate_release_record` accepted.  `identity` is
the release identity that it returned, `lossyReference` the authorization record of the lossy
plan, or `none` spelled out when there is no plan. -/
structure ReleaseRecord where
  releaseId : String
  identity : String
  environmentId : String
  stable : Artifacts
  candidate : Artifacts
  backupId : String
  verdict : Verdict
  releaseApproval : String
  compatibilityApproval : String
  rehearsalRun : String
  lossyReference : Json

/-- Which of the two releases runs. -/
inductive Version
  | stable
  | candidate
  deriving DecidableEq, Repr

/-- The version as the identity spells it. -/
def Version.text : Version → String
  | .stable => "stable"
  | .candidate => "candidate"

namespace ReleaseRecord

/-- The artifacts of a version. -/
def artifacts (r : ReleaseRecord) : Version → Artifacts
  | .stable => r.stable
  | .candidate => r.candidate

/-- `build_runtime_identity`. -/
def runtimeIdentity (r : ReleaseRecord) (version : Version) : Json := dict
  [("schema_version", .int 1), ("release_id", .str r.releaseId),
    ("release_identity", .str r.identity), ("version", .str version.text),
    ("app_image", .str (r.artifacts version).appImage),
    ("app_config", (r.artifacts version).appConfig)]

end ReleaseRecord

/-- `switch_runtime_identity`. -/
def switchRuntimeIdentity (path : String) (identity : Json) : Op Unit := do
  .liftExcept (check (identity.hasKeys ["schema_version", "release_id", "release_identity",
    "version", "app_image", "app_config"]) "runtime identity schema mismatch")
  .liftExcept (check ((identity.get "app_image").str?.any Text.isImageReference)
    "runtime.app_image must be an exact tag@sha256 image")
  .liftExcept (check (isOneOf (identity.get "version") ["candidate", "stable"])
    "runtime identity version is invalid")
  let configs := identity.get "app_config"
  .liftExcept (check (configs.isDict && !configs.keys.isEmpty &&
    configs.keys.all (· ∈ allowedAppConfig)) "runtime identity config is outside allowlist")
  atomicWrite path (canonicalJson identity)

/-! ## 2. The engine -/

/-- `RollbackResult`. -/
structure RollbackResult where
  operationId : String
  releaseId : String
  path : RollbackPath
  outcome : String
  elapsedSeconds : Int
  rtoPassed : Bool
  backupId : Option String
  deriving DecidableEq

/-- A rollback engine that its constructor accepted. -/
structure RollbackEngine [Sha256] where
  record : ReleaseRecord
  operationId : String
  operator : String
  publicationState : PublicationState
  declaredWatermark : Json
  proxyContinuouslyIsolated : Bool
  clock : RollbackClock
  audit : AuditLog
  runtimeIdentityPath : String
  expectedAction : Option String
  now : Instant
  validWatermark : validateWatermark declaredWatermark = .ok (digestJson declaredWatermark)
  boundClock : clock.operationId = operationId ∧ clock.releaseId = record.releaseId
  hasOperator : Text.hasText operator = true

/-- The locals of `_switch_app` that its handler reads. -/
structure Frame where
  switched : Bool
  appStopped : Bool
  proxyStopAttempted : Bool
  stage : String
  deriving DecidableEq

/-- A program inside the `try` block. -/
abbrev Framed (α : Type) := Prog Call Answer (Frame × Exn) α

/-- Run `p` with the locals as they stand. -/
def within {α : Type} (f : Frame) (p : Op α) : Framed α := p.mapError fun e => (f, e)

/-- A host command; what it raises is raised. -/
def host (command : HostCall) : Op Json := orRaise (Prog.perform (Call.host command))

/-- A host command whose failure is swallowed. -/
def attempt (command : HostCall) : Op Unit :=
  tryCatch (do
    let _ ← host command)
    fun _ => pure ()

/-- A host command whose answer must be true. -/
def require (command : HostCall) (message : String) : Op Unit := do
  let answer ← host command
  .ensure answer.truthy (.rollbackSafety message)

/-- External readiness, or the proxy is stopped again. -/
def requireReadiness (message : String) : Op Unit := do
  let ready ← host .externalReadiness
  if ready.truthy then pure ()
  else do
    let _ ← host .stopProxy
    throw (.rollbackSafety message)

namespace RollbackEngine

variable [Sha256]

/-! ### The audit -/

/-- The event `_audit` appends. -/
def auditEvent (e : RollbackEngine) (result stage : String) (path : RollbackPath)
    (details : Fields) : Json := dict
  ([("schema_version", .int 1), ("release_id", .str e.record.releaseId),
    ("release_identity", .str e.record.identity), ("operation_id", .str e.operationId),
    ("environment_id", .str e.record.environmentId), ("operator", .str e.operator),
    ("at", .str e.now.formatTime), ("path", .str path.text), ("stage", .str stage),
    ("result", .str result),
    ("stable_app_digest", .str (Text.imageDigest e.record.stable.appImage)),
    ("candidate_app_digest", .str (Text.imageDigest e.record.candidate.appImage)),
    ("backup_id", .str e.record.backupId), ("compatibility", .str e.record.verdict.text),
    ("release_approval", .str e.record.releaseApproval),
    ("compatibility_approval", .str e.record.compatibilityApproval),
    ("human_authorization_reference", e.record.lossyReference),
    ("watermark_sha256", .str (digestJson e.declaredWatermark))] ++ details)

/-- `_audit`. -/
def appendAudit (e : RollbackEngine) (result stage : String) (path : RollbackPath)
    (details : Fields) : Op Unit := do
  let _ ← e.audit.append (e.auditEvent result stage path details)

/-! ### The decision -/

/-- `decide`. -/
def decidePath (e : RollbackEngine) : Op RollbackPath := do
  let _ ← e.clock.declare
  let path ← chooseRollbackPath e.publicationState.read e.declaredWatermark
    e.proxyContinuouslyIsolated
  e.appendAudit "selected" "path_decision" path []
  return path

/-- The action a path means for this release. -/
def action (e : RollbackEngine) (path : RollbackPath) : String :=
  if path = .preserveForwardData ∧ e.record.verdict ≠ .compatible then "NEEDS_ROLLBACK_DECISION"
  else if path = .prePublicRestore then "INVOKE_UNMODIFIED_PR2A_RESTORE"
  else "APP_ONLY_SWITCH"

/-- `_path_one`. -/
def pathOne (e : RollbackEngine) : Op RollbackResult := do
  let elapsed ← e.clock.elapsed
  e.appendAudit "pr2a_handoff_required" "stable_identity_verified" .prePublicRestore
    [("pr2a_entrypoint", .str "scripts/backup_recovery/restore-run.sh")]
  return ⟨e.operationId, e.record.releaseId, .prePublicRestore, "INVOKE_UNMODIFIED_PR2A_RESTORE",
    elapsed, elapsed ≤ rtoLimitSeconds, some e.record.backupId⟩

/-! ### The switch -/

/-- The identity of a version. -/
def identityOf (e : RollbackEngine) (version : Version) : Json := e.record.runtimeIdentity version

/-- What is handed to `authorize_proxy` before the stable release is published. -/
def stableEvidence (e : RollbackEngine) (path : RollbackPath) (observed expected : Json) : Json :=
  dict [("release_identity", .str e.record.identity), ("operation_id", .str e.operationId),
    ("path", .str path.text), ("watermark_sha256", .str (digestJson observed)),
    ("nonmutating_production_validation", .bool true),
    ("baseline_watermark_sha256", .str (digestJson expected)),
    ("approved_full_read_write_rehearsal", .str e.record.rehearsalRun)]

/-- What is handed to `authorize_proxy` before the candidate is published again. -/
def forwardEvidence (e : RollbackEngine) (path : RollbackPath) (expected : Json) : Json :=
  dict [("release_identity", .str e.record.identity), ("operation_id", .str e.operationId),
    ("path", .str path.text), ("roll_forward", .bool true),
    ("watermark_sha256", .str (digestJson expected))]

/-- The data still has the digest that is expected. -/
def observeExpected (expected : Json) (message : String) : Op Json := do
  let observed ← host .currentWatermark
  let _ ← .liftExcept (validateWatermark observed)
  .ensure (digestJson observed = digestJson expected) (.rollbackSafety message)
  return observed

/-- The locals when the switch has run up to a stage at which nothing was changed yet. -/
def frameBefore (proxyStopAttempted : Bool) (stage : String) : Frame :=
  ⟨false, false, proxyStopAttempted, stage⟩

/-- The locals once the runtime identity was switched. -/
def frameSwitched (stage : String) : Frame := ⟨true, true, true, stage⟩

/-- The `try` block up to the stop of the application: everything before it changes anything. -/
def isolate (e : RollbackEngine) : Framed Unit := do
  within (frameBefore false "artifact_retention") do
    let _ ← host .retainExactArtifacts
  within (frameBefore true "proxy_isolation") do
    let _ ← host .stopProxy
    require .proxyIsStopped "proxy isolation could not be proved"
  within (frameBefore true "app_stop") do
    let _ ← host .stopApp
  within ⟨false, true, true, "stable_atomic_switch"⟩
    (switchRuntimeIdentity e.runtimeIdentityPath (e.identityOf .stable))

/-- The `try` block from the start of the stable application to the evidence. -/
def validateStable (e : RollbackEngine) (expected : Json) : Framed Json := do
  within (frameSwitched "stable_app_start") do
    let _ ← host (.startApp (e.identityOf .stable))
    require .proxyIsStopped "proxy opened before isolated validation"
    let _ ← observeExpected expected "data changed before old-app validation began"
  within (frameSwitched "stable_nonmutating_validation")
    (require .nonmutatingOldAppValidation "stable app non-mutating validation failed")
  within (frameSwitched "complete_watermark_validation")
    (observeExpected expected "production W1 changed during app-only switch")

/-- The `try` block from the authorization to external readiness. -/
def publishStable (e : RollbackEngine) (path : RollbackPath) (observed expected : Json) :
    Framed Unit := do
  within (frameSwitched "proxy_authorization") do
    let _ ← host (.authorizeProxy (e.stableEvidence path observed expected))
  within (frameSwitched "proxy_start") do
    let _ ← host .startProxy
  within (frameSwitched "external_readiness")
    (requireReadiness "external readiness failed; proxy re-isolated")

/-- The `try` block up to the moment the stable release serves again. -/
def recoverStable (e : RollbackEngine) (path : RollbackPath) (expected : Json) : Framed Unit := do
  e.isolate
  let observed ← e.validateStable expected
  e.publishStable path observed expected

/-- The end of the `try` block: the time is recorded, then the result. -/
def recordRecovery (e : RollbackEngine) (path : RollbackPath) : Op RollbackResult := do
  let (elapsed, rtoPassed) ← e.clock.completeAfterExternalReadiness none
  if rtoPassed then do
    e.appendAudit "completed" "external_readiness" path [("elapsed_seconds", .int elapsed)]
    return ⟨e.operationId, e.record.releaseId, path, "ROLLED_BACK", elapsed, true, none⟩
  else do
    e.appendAudit "RTO_EXCEEDED" "external_readiness" path [("elapsed_seconds", .int elapsed)]
    throw (.rollbackSafety "G-19 RTO exceeded after safe service recovery")

/-- The candidate is exactly as it was when the switch failed. -/
def validateCandidate (failure : Json) : Op Unit := do
  let failed := Exn.rollbackSafety "candidate roll-forward validation failed"
  let stopped ← host .proxyIsStopped
  .ensure stopped.truthy failed
  let valid ← host .candidateValidation
  .ensure valid.truthy failed
  let observed ← host .currentWatermark
  .ensure (digestJson observed = digestJson failure) failed

/-- The handler's own `try` block up to the evidence: back to the candidate, on the data as it
was when the switch failed. -/
def startCandidate (e : RollbackEngine) : Op Unit := do
  let failure ← host .currentWatermark
  let _ ← .liftExcept (validateWatermark failure)
  let _ ← host .stopApp
  switchRuntimeIdentity e.runtimeIdentityPath (e.identityOf .candidate)
  let _ ← host (.startApp (e.identityOf .candidate))
  validateCandidate failure

/-- The handler's own `try` block: precisely forward to the candidate. -/
def rollForward (e : RollbackEngine) (path : RollbackPath) (expected : Json) (failedStage : String) :
    Op Unit := do
  e.startCandidate
  let _ ← host (.authorizeProxy (e.forwardEvidence path expected))
  let _ ← host .startProxy
  requireReadiness "candidate external readiness failed"
  e.appendAudit "rolled_forward_after_failure" "candidate_external_readiness" path
    [("failed_stage", .str failedStage)]

/-- The handler stops the proxy again, once it was told to stop at all. -/
def reisolate (f : Frame) : Op Unit := if f.proxyStopAttempted then attempt .stopProxy else pure ()

/-- The handler of `_switch_app`. -/
def recover (e : RollbackEngine) (path : RollbackPath) (expected : Json) (f : Frame)
    (original : Exn) : Op Unit := do
  reisolate f
  if path = .preserveForwardData ∧ (f.switched || f.appStopped) = true then
    tryCatch (e.rollForward path expected f.stage) fun rollForwardError => do
      attempt .stopProxy
      e.appendAudit "failed_isolated" "candidate_roll_forward" path
        [("failed_stage", .str (f.stage ++ ":" ++ rollForwardError.name))]
  else
    e.appendAudit "failed_isolated" f.stage path [("failed_stage", .str original.name)]

/-- The `try` block of `_switch_app`. -/
def switchBody (e : RollbackEngine) (path : RollbackPath) (expected : Json) :
    Framed RollbackResult := do
  e.recoverStable path expected
  within (frameSwitched "external_readiness") (e.recordRecovery path)

/-- `_switch_app`. -/
def switchApp (e : RollbackEngine) (path : RollbackPath) (expected : Json) : Op RollbackResult := do
  let _ ← .liftExcept (validateWatermark expected)
  (e.switchBody path expected).handle fun raised => do
    e.recover path expected raised.1 raised.2
    throw raised.2

/-- `_path_two`. -/
def pathTwo (e : RollbackEngine) : Op RollbackResult :=
  if e.record.verdict ≠ .compatible then do
    e.appendAudit "NEEDS_ROLLBACK_DECISION" "human_decision" .preserveForwardData
      [("disposition", .str "keep_candidate_or_proxy_isolated")]
    throw (.rollbackDecisionRequired "NEEDS_ROLLBACK_DECISION")
  else e.switchApp .preserveForwardData e.declaredWatermark

/-- `run`. -/
def run (e : RollbackEngine) : Op RollbackResult := do
  let path ← e.decidePath
  let action := e.action path
  if e.expectedAction.any (· ≠ action) then do
    e.appendAudit "refused_raced_path_change" "path_decision" path
      [("expected_action", .str (e.expectedAction.getD "")), ("observed_action", .str action)]
    throw (.rollbackSafety "rollback action changed after lock strategy selection")
  else match path with
    | .prePublicRestore => e.pathOne
    | .preserveForwardData => e.pathTwo

/-! ### Parts that issue no host command -/

theorem appendAudit_notHost (e : RollbackEngine) (result stage : String) (path : RollbackPath)
    (details : Fields) : (e.appendAudit result stage path details).CallsIn NotHost :=
  Prog.callsIn_bind (e.audit.append_notHost _) fun _ => Prog.callsIn_pure _

theorem decidePath_notHost (e : RollbackEngine) : e.decidePath.CallsIn NotHost := by
  refine Prog.callsIn_bind e.clock.declare_notHost fun _ => ?_
  refine Prog.callsIn_bind (callsIn_chooseRollbackPath
    (e.publicationState.callsIn_read fun _ => trivial) _ _) fun path => ?_
  exact Prog.callsIn_bind (e.appendAudit_notHost _ _ _ _) fun _ => Prog.callsIn_pure _

theorem pathOne_notHost (e : RollbackEngine) : e.pathOne.CallsIn NotHost := by
  refine Prog.callsIn_bind e.clock.elapsed_notHost fun elapsed => ?_
  exact Prog.callsIn_bind (e.appendAudit_notHost _ _ _ _) fun _ => Prog.callsIn_pure _

theorem recordRecovery_notHost (e : RollbackEngine) (path : RollbackPath) :
    (e.recordRecovery path).CallsIn NotHost := by
  refine Prog.callsIn_bind (e.clock.completeAfterExternalReadiness_notHost none) ?_
  rintro ⟨elapsed, rtoPassed⟩
  dsimp only
  split
  · exact Prog.callsIn_bind (e.appendAudit_notHost _ _ _ _) fun _ => Prog.callsIn_pure _
  · exact Prog.callsIn_bind (e.appendAudit_notHost _ _ _ _) fun _ => Prog.callsIn_throw _

end RollbackEngine

theorem switchRuntimeIdentity_notHost (path : String) (identity : Json) :
    (switchRuntimeIdentity path identity).CallsIn NotHost := by
  refine Prog.callsIn_bind (Prog.callsIn_liftExcept _) fun _ => ?_
  refine Prog.callsIn_bind (Prog.callsIn_liftExcept _) fun _ => ?_
  refine Prog.callsIn_bind (Prog.callsIn_liftExcept _) fun _ => ?_
  refine Prog.callsIn_bind (Prog.callsIn_liftExcept _) fun _ => ?_
  exact callsIn_atomicWrite trivial

end ProductPdfQr.DeployRollback
