/-
# Publication state

`PublicationState`: the stage a release has reached, kept as a sealed record, and the marker
that is created before anything may become public.  `choose_rollback_path` reads it.

The marker is never removed, and a record is only ever read together with it: a record at the
last stage without the marker is refused, and so is one at an earlier stage with it.
-/
import ProductPdfQr.DeployRollback.Watermark

namespace ProductPdfQr.DeployRollback

open Effect Json

/-! ## 1. The state -/

/-- `STAGES`. -/
def stages : List String := ["prepared", "migrated", "isolated_validated", "public_cutover"]

/-- `STAGES[:-1]`. -/
def prePublicStages : List String := stages.dropLast

/-- A publication state whose path and identity the constructor accepted. -/
structure PublicationState where
  path : String
  releaseId : String
  environmentId : String
  bounded : Text.isAbsolute path = true ∧ path ≠ "/"
  safeIds : Text.isSafeId releaseId = true ∧ Text.isSafeId environmentId = true

namespace PublicationState

/-- The constructor. -/
def new (path releaseId environmentId : String) : Except Exn PublicationState :=
  if hpath : Text.isAbsolute path = true ∧ path ≠ "/" then
    if hids : Text.isSafeId releaseId = true ∧ Text.isSafeId environmentId = true then
      .ok ⟨path, releaseId, environmentId, hpath, hids⟩
    else .error (.rollbackSafety "publication identity is invalid")
  else .error (.rollbackSafety "publication state path must be bounded and absolute")

/-- `integrity_path`. -/
def integrityPath (p : PublicationState) : String := p.path ++ ".sha256"

end PublicationState

/-- `cutover_marker` of the state kept at `path`. -/
def cutoverMarker (path : String) : String := path ++ ".public-cutover"

/-- The fields of a publication record. -/
def publicationFields : List String :=
  ["schema_version", "release_id", "environment_id", "stage", "proxy_ever_public",
    "baseline_watermark", "baseline_watermark_digest", "history"]

/-- One entry of the record's history. -/
def historyEntry (stage : String) (now : Instant) : Json :=
  dict [("stage", .str stage), ("at", .str now.formatTime)]

/-- `item.get("stage") if isinstance(item, dict) else None`. -/
def stageOf (item : Json) : Json := item.get "stage"

/-- `value in names`, for a list of strings. -/
def isOneOf (value : Json) (names : List String) : Bool := names.any fun s => value.pyEq (.str s)

theorem isOneOf_iff {value : Json} {names : List String} :
    isOneOf value names = true ↔ ∃ s ∈ names, value = .str s := by
  simp [isOneOf]

/-- `isinstance(value, bool)`. -/
def isBool : Json → Bool
  | .bool _ => true
  | _ => false

namespace PublicationState

variable [Sha256]

/-! ## 2. Operations -/

/-- `prepare`. -/
def prepare (p : PublicationState) (watermark : Json) (now : Instant) : Op Json := do
  let cutover ← pathExists (cutoverMarker p.path)
  .ensure (!cutover) (.rollbackSafety "previous public cutover marker forbids state reuse")
  let digest ← .liftExcept (validateWatermark watermark)
  let state := dict
    [("schema_version", .int 1), ("release_id", .str p.releaseId),
      ("environment_id", .str p.environmentId), ("stage", .str "prepared"),
      ("proxy_ever_public", .bool false), ("baseline_watermark", watermark),
      ("baseline_watermark_digest", .str digest), ("history", .arr [historyEntry "prepared" now])]
  createSealed p.path p.integrityPath state
  return state

/-- The checks `read` makes on the record itself. -/
def checkRecord (p : PublicationState) (state : Json) : Except Exn Unit := do
  let corrupt := "publication state is missing, corrupt, or unknown"
  check (state.hasKeys publicationFields && (state.get "schema_version").pyEq (.int 1) &&
    (state.get "release_id").pyEq (.str p.releaseId) &&
    (state.get "environment_id").pyEq (.str p.environmentId) &&
    isOneOf (state.get "stage") stages && isBool (state.get "proxy_ever_public")) corrupt
  let digest ← validateWatermark (state.get "baseline_watermark")
  let history := state.get "history"
  check ((state.get "baseline_watermark_digest").pyEq (.str digest) && history.isList &&
    !history.items.isEmpty) corrupt
  let stage := (state.get "stage").str?.getD ""
  check ((Json.arr (history.items.map stageOf)).pyEq
    (.arr ((stages.take (stages.idxOf stage + 1)).map Json.str)))
    "publication state history is non-monotonic"
  check ((state.get "proxy_ever_public").pyEq (.bool (stage = "public_cutover")))
    "publication proxy/cutover evidence conflicts"

/-- The marker belongs to this release, and the record is at the last stage. -/
def checkMarker (p : PublicationState) (state marker : Json) : Except Exn Unit :=
  check ((marker.get "schema_version").pyEq (.int 1) &&
    (marker.get "release_id").pyEq (.str p.releaseId) &&
    (marker.get "environment_id").pyEq (.str p.environmentId) &&
    (state.get "stage").pyEq (.str "public_cutover"))
    "irreversible public cutover marker conflicts"

/-- `read`. -/
def read (p : PublicationState) : Op Json := do
  let state ← readSealed p.path p.integrityPath "publication state integrity seal is missing"
    "publication state integrity seal mismatch"
  .liftExcept (p.checkRecord state)
  let cutover ← pathExists (cutoverMarker p.path)
  if cutover then do
    let marker ← readJsonFile (cutoverMarker p.path)
    .liftExcept (p.checkMarker state marker)
    return state
  else do
    .liftExcept (check (!(state.get "stage").pyEq (.str "public_cutover"))
      "irreversible public cutover marker is missing")
    return state

theorem callsIn_read {P : Call → Prop} (h : ∀ path, P (.look path)) (p : PublicationState) :
    p.read.CallsIn P := by
  refine Prog.callsIn_bind (callsIn_readSealed (h _) (h _)) fun state => ?_
  refine Prog.callsIn_bind (Prog.callsIn_liftExcept _) fun _ => ?_
  refine Prog.callsIn_bind (callsIn_pathExists (h _)) fun cutover => ?_
  cases cutover with
  | true =>
    refine Prog.callsIn_bind (callsIn_readJsonFile (h _)) fun marker => ?_
    exact Prog.callsIn_bind (Prog.callsIn_liftExcept _) fun _ => Prog.callsIn_pure _
  | false => exact Prog.callsIn_bind (Prog.callsIn_liftExcept _) fun _ => Prog.callsIn_pure _

/-- The record after its next stage was reached. -/
def advanced (state : Json) (stage : String) (now : Instant) : Json :=
  let state := state.set "stage" (.str stage)
  let state := if stage = "public_cutover" then state.set "proxy_ever_public" (.bool true) else state
  state.set "history" (.arr ((state.get "history").items ++ [historyEntry stage now]))

/-- `advance`. -/
def advance (p : PublicationState) (stage : String) (now : Instant) : Op Json := do
  .ensure (stages.contains stage) (.rollbackSafety "unknown publication stage")
  let state ← p.read
  let current := stages.idxOf ((state.get "stage").str?.getD "")
  .ensure (stages.idxOf stage = current + 1)
    (.rollbackSafety "publication state must advance exactly one stage")
  -- the marker is durable before any proxy operation is permitted
  if stage = "public_cutover" then
    atomicCreate (cutoverMarker p.path) (canonicalJson (dict
      [("schema_version", .int 1), ("release_id", .str p.releaseId),
        ("environment_id", .str p.environmentId), ("cutover_at", .str now.formatTime)]))
  else pure ()
  writeSealed p.path p.integrityPath (advanced state stage now)
  return advanced state stage now

/-- `authorize_proxy_start`. -/
def authorizeProxyStart (p : PublicationState) : Op Unit := do
  let state ← p.read
  .ensure ((state.get "stage").pyEq (.str "public_cutover") &&
    state.get "proxy_ever_public" = .bool true)
    (.rollbackSafety "proxy remains blocked until durable public_cutover")

end PublicationState

/-! ## 3. The choice of a path -/

/-- The two ways back. -/
inductive RollbackPath
  | prePublicRestore
  | preserveForwardData
  deriving DecidableEq, Repr

/-- The path as the records spell it. -/
def RollbackPath.text : RollbackPath → String
  | .prePublicRestore => "pre_public_restore"
  | .preserveForwardData => "preserve_forward_data"

variable [Sha256]

/-- All three pre-public conditions hold of the record that was read. -/
def knownPrePublic (state current : Json) (isolated : Bool) : Except Exn Bool :=
  if isOneOf (state.get "stage") prePublicStages && state.get "proxy_ever_public" = .bool false &&
      isolated then do
    let digest ← validateWatermark (state.get "baseline_watermark")
    return (state.get "baseline_watermark_digest").pyEq (.str digest) &&
      (state.get "baseline_watermark_digest").pyEq (.str (digestJson current))
  else .ok false

/-- The exceptions that mean the three conditions are not proved. -/
def unproved : Exn → Bool
  | .osError _ | .typeError | .attributeError => true
  | e => e.isRollbackSafety

/-- `choose_rollback_path`. -/
def chooseRollbackPath (stateLoader : Op Json) (currentWatermark : Json)
    (proxyContinuouslyIsolated : Bool) : Op RollbackPath := do
  let _ ← .liftExcept (validateWatermark currentWatermark)
  let known ← tryCatch (do
    let state ← stateLoader
    .liftExcept (knownPrePublic state currentWatermark proxyContinuouslyIsolated))
    fun e => if unproved e then pure false else throw e
  return if known then .prePublicRestore else .preserveForwardData

theorem callsIn_chooseRollbackPath {P : Call → Prop} {loader : Op Json} (h : loader.CallsIn P)
    (current : Json) (isolated : Bool) :
    (chooseRollbackPath loader current isolated).CallsIn P := by
  refine Prog.callsIn_bind (Prog.callsIn_liftExcept _) fun _ => ?_
  refine Prog.callsIn_bind (Prog.callsIn_tryCatch ?_ fun x => ?_) fun _ => Prog.callsIn_pure _
  · exact Prog.callsIn_bind h fun state => Prog.callsIn_liftExcept _
  · cases hx : unproved x
    · exact Prog.callsIn_throw _
    · exact Prog.callsIn_pure _

end ProductPdfQr.DeployRollback
