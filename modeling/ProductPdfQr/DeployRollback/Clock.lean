/-
# The rollback clock

`RollbackClock`: one sealed record of when a rollback was declared, with a floor under the
elapsed time.  The elapsed time is the largest of the floor, the wall clock's difference and
the process's own monotonic difference, so neither a restart nor a clock set back shortens it.
-/
import ProductPdfQr.DeployRollback.Publication

namespace ProductPdfQr.DeployRollback

open Effect Json

/-- `RTO_LIMIT_SECONDS`. -/
def rtoLimitSeconds : Int := 14400

/-- A rollback clock whose path and identity the constructor accepted, with the monotonic
reading it took. -/
structure RollbackClock where
  path : String
  operationId : String
  releaseId : String
  processAnchor : Int
  bounded : Text.isAbsolute path = true ∧ path ≠ "/"
  safeIds : Text.isSafeId operationId = true ∧ Text.isSafeId releaseId = true

/-- The fields of a clock record. -/
def clockFields : List String :=
  ["schema_version", "operation_id", "release_id", "started_at", "elapsed_floor_seconds",
    "completed", "rto_passed"]

/-- `parse_time`. -/
def parseTime (value : Json) (field : String) : Except Exn Instant :=
  match value.str?.bind Instant.parseTime? with
  | some i => .ok i
  | none => .error (.rollbackSafety (field ++ " must be a canonical UTC timestamp"))

/-- `int(value)` of a field that was checked to be an integer. -/
def intOf (value : Json) : Int := value.int?.getD 0

/-- Whole seconds of a monotonic difference: `int(...)` cuts toward zero. -/
def monotonicSeconds (now anchor : Int) : Int := (now - anchor).tdiv 1000000

namespace RollbackClock

/-- The constructor: it reads the monotonic clock once. -/
def new (path operationId releaseId : String) : Op RollbackClock :=
  if hpath : Text.isAbsolute path = true ∧ path ≠ "/" then
    if hids : Text.isSafeId operationId = true ∧ Text.isSafeId releaseId = true then do
      let anchor ← Prog.perform Call.monotonicNow
      return ⟨path, operationId, releaseId, anchor, hpath, hids⟩
    else throw (.rollbackSafety "rollback operation identity is invalid")
  else throw (.rollbackSafety "RTO state path must be bounded and absolute")

/-- `integrity_path`. -/
def integrityPath (c : RollbackClock) : String := c.path ++ ".sha256"

/-- The path of the alert written when the limit was passed. -/
def alertPath (c : RollbackClock) : String := c.path ++ ".rto-alert.json"

variable [Sha256]

/-- The checks `read` makes on the record itself. -/
def checkRecord (c : RollbackClock) (state : Json) : Except Exn Unit := do
  let invalid := "rollback RTO record is invalid"
  check (state.hasKeys clockFields && (state.get "schema_version").pyEq (.int 1) &&
    (state.get "operation_id").pyEq (.str c.operationId) &&
    (state.get "release_id").pyEq (.str c.releaseId) && isSize (state.get "elapsed_floor_seconds") &&
    isBool (state.get "completed")) invalid
  let passed := state.get "rto_passed"
  -- membership of a set asks for a hash first
  if passed.isDict || passed.isList then .error .typeError
  else check (passed.pyEq .null || passed.pyEq (.bool true) || passed.pyEq (.bool false)) invalid
  let _ ← parseTime (state.get "started_at") "rollback.started_at"
  return ()

/-- `read`. -/
def read (c : RollbackClock) : Op Json := do
  let state ← readSealed c.path c.integrityPath "rollback RTO integrity seal is missing"
    "rollback RTO integrity seal mismatch"
  .liftExcept (c.checkRecord state)
  return state

/-- The record of a rollback that is declared now. -/
def declared (c : RollbackClock) (now : Instant) : Json := dict
  [("schema_version", .int 1), ("operation_id", .str c.operationId),
    ("release_id", .str c.releaseId), ("started_at", .str now.formatTime),
    ("elapsed_floor_seconds", .int 0), ("completed", .bool false), ("rto_passed", .null)]

/-- `declare`. -/
def declare (c : RollbackClock) : Op Json := do
  let found ← pathExists c.path
  if found then c.read
  else do
    let now ← Prog.perform Call.wallNow
    createSealed c.path c.integrityPath (c.declared now)
    return c.declared now

/-- The elapsed seconds a record and two readings give. -/
def elapsedSeconds (c : RollbackClock) (state : Json) (started wall : Instant) (monotonic : Int) :
    Int :=
  max (max (max (intOf (state.get "elapsed_floor_seconds")) (wall.secondsSince started))
    (monotonicSeconds monotonic c.processAnchor)) 0

/-- `elapsed`. -/
def elapsed (c : RollbackClock) : Op Int := do
  let state ← c.declare
  let wall ← Prog.perform Call.wallNow
  let started ← .liftExcept (parseTime (state.get "started_at") "rollback.started_at")
  let monotonic ← Prog.perform Call.monotonicNow
  let elapsed := c.elapsedSeconds state started wall monotonic
  if (state.get "elapsed_floor_seconds").pyEq (.int elapsed) then return elapsed
  else do
    writeSealed c.path c.integrityPath (state.set "elapsed_floor_seconds" (.int elapsed))
    return elapsed

/-- The record once external readiness was reached. -/
def completed (state : Json) (elapsed : Int) : Json :=
  ((state.set "elapsed_floor_seconds" (.int elapsed)).set "completed" (.bool true)).set
    "rto_passed" (.bool (elapsed ≤ rtoLimitSeconds))

/-- The alert of an overrun. -/
def alert (c : RollbackClock) (elapsed : Int) : Json := dict
  [("schema_version", .int 1), ("operation_id", .str c.operationId),
    ("release_id", .str c.releaseId), ("elapsed_seconds", .int elapsed),
    ("limit_seconds", .int rtoLimitSeconds),
    ("action", .str "alert_only_no_automatic_data_loss")]

/-- The elapsed time to record: the clock's own, or what an explicit readiness time gives. -/
def readinessElapsed (c : RollbackClock) (state : Json) : Option Instant → Op Int
  | none => c.elapsed
  | some readyAt => do
    let started ← .liftExcept (parseTime (state.get "started_at") "rollback.started_at")
    let wallElapsed := readyAt.secondsSince started
    .ensure (0 ≤ wallElapsed) (.rollbackSafety "external readiness predates rollback declaration")
    return max (intOf (state.get "elapsed_floor_seconds")) wallElapsed

/-- Record the elapsed time and, past the limit, leave an alert. -/
def recordCompletion (c : RollbackClock) (elapsed : Int) : Op (Int × Bool) := do
  let state ← c.read
  writeSealed c.path c.integrityPath (completed state elapsed)
  if elapsed ≤ rtoLimitSeconds then return (elapsed, true)
  else do
    atomicWrite c.alertPath (canonicalJson (c.alert elapsed))
    return (elapsed, false)

/-- `complete_after_external_readiness`. -/
def completeAfterExternalReadiness (c : RollbackClock) (externalReadyAt : Option Instant) :
    Op (Int × Bool) := do
  let state ← c.read
  if (state.get "completed").truthy then
    return (intOf (state.get "elapsed_floor_seconds"), (state.get "rto_passed").truthy)
  else do
    let elapsed ← c.readinessElapsed state externalReadyAt
    c.recordCompletion elapsed

/-! ### The calls of a clock -/

theorem read_notHost (c : RollbackClock) : c.read.CallsIn NotHost := by
  refine Prog.callsIn_bind (callsIn_readSealed trivial trivial) fun state => ?_
  exact Prog.callsIn_bind (Prog.callsIn_liftExcept _) fun _ => Prog.callsIn_pure _

theorem writeSealed_notHost (path sidecar : String) (state : Json) :
    (writeSealed path sidecar state).CallsIn NotHost :=
  callsIn_writeSealed (fun _ => trivial) fun _ => trivial

theorem declare_notHost (c : RollbackClock) : c.declare.CallsIn NotHost := by
  refine Prog.callsIn_bind (callsIn_pathExists trivial) fun found => ?_
  cases found with
  | true => exact c.read_notHost
  | false =>
    refine Prog.callsIn_bind (Prog.callsIn_perform.mpr trivial) fun now => ?_
    refine Prog.callsIn_bind (callsIn_createSealed (fun _ => trivial) (fun _ => trivial) trivial) ?_
    exact fun _ => Prog.callsIn_pure _

theorem elapsed_notHost (c : RollbackClock) : c.elapsed.CallsIn NotHost := by
  refine Prog.callsIn_bind c.declare_notHost fun state => ?_
  refine Prog.callsIn_bind (Prog.callsIn_perform.mpr trivial) fun wall => ?_
  refine Prog.callsIn_bind (Prog.callsIn_liftExcept _) fun started => ?_
  refine Prog.callsIn_bind (Prog.callsIn_perform.mpr trivial) fun monotonic => ?_
  dsimp only
  split
  · exact Prog.callsIn_pure _
  · exact Prog.callsIn_bind (writeSealed_notHost _ _ _) fun _ => Prog.callsIn_pure _

theorem recordCompletion_notHost (c : RollbackClock) (elapsed : Int) :
    (c.recordCompletion elapsed).CallsIn NotHost := by
  refine Prog.callsIn_bind c.read_notHost fun state => ?_
  refine Prog.callsIn_bind (writeSealed_notHost _ _ _) fun _ => ?_
  split
  · exact Prog.callsIn_pure _
  · exact Prog.callsIn_bind (callsIn_atomicWrite trivial) fun _ => Prog.callsIn_pure _

theorem completeAfterExternalReadiness_notHost (c : RollbackClock) (readyAt : Option Instant) :
    (c.completeAfterExternalReadiness readyAt).CallsIn NotHost := by
  refine Prog.callsIn_bind c.read_notHost fun state => ?_
  split
  · exact Prog.callsIn_pure _
  · refine Prog.callsIn_bind ?_ fun elapsed => c.recordCompletion_notHost elapsed
    cases readyAt with
    | none => exact c.elapsed_notHost
    | some i =>
      refine Prog.callsIn_bind (Prog.callsIn_liftExcept _) fun started => ?_
      exact Prog.callsIn_bind (Prog.callsIn_ensure _ _) fun _ => Prog.callsIn_pure _

end RollbackClock

end ProductPdfQr.DeployRollback
