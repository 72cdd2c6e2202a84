/-
# The checkpoint of a restore operation

One restore operation has one checkpoint file, which every command reads afresh and replaces
whole.  The other things a command does are questions to its environment: some of them read
the remote, the caches, the database or the files, some change them, and each may raise.  What
is kept of a run is what matters later: the contents of the checkpoint, in their order, and the
runs of `pg_restore` between them.

How `datetime.fromisoformat` reads a text is a parameter.
-/
import ProductPdfQr.Digest
import ProductPdfQr.Effect.Prog

namespace ProductPdfQr.Restore

open Effect Json

/-! ## 1. Stages -/

/-- The keys of `STAGE_ORDER`. -/
inductive Stage
  | declared
  | preflightComplete
  | siteRetained
  | databaseRestored
  | filesComplete
  | offlineValidated
  | isolatedFunctionalValidated
  | proxyAuthorized
  | externalReady
  | rolledBack
  deriving DecidableEq, Repr

namespace Stage

/-- `STAGE_ORDER[stage]`. -/
def order : Stage → Nat
  | declared => 0
  | preflightComplete => 1
  | siteRetained => 2
  | databaseRestored => 3
  | filesComplete => 4
  | offlineValidated => 5
  | isolatedFunctionalValidated => 6
  | proxyAuthorized => 7
  | externalReady => 8
  | rolledBack => 9

/-- The key. -/
def text : Stage → String
  | declared => "declared"
  | preflightComplete => "preflight_complete"
  | siteRetained => "site_retained"
  | databaseRestored => "database_restored"
  | filesComplete => "files_complete"
  | offlineValidated => "offline_validated"
  | isolatedFunctionalValidated => "isolated_functional_validated"
  | proxyAuthorized => "proxy_authorized"
  | externalReady => "external_ready"
  | rolledBack => "rolled_back"

/-- Every stage, in the declared order. -/
def all : List Stage :=
  [declared, preflightComplete, siteRetained, databaseRestored, filesComplete, offlineValidated,
    isolatedFunctionalValidated, proxyAuthorized, externalReady, rolledBack]

/-- The stage of a key. -/
def ofText? (s : String) : Option Stage := all.find? (·.text = s)

@[simp] theorem ofText?_text (s : Stage) : ofText? s.text = some s := by
  cases s <;> decide

end Stage

/-! ## 2. Exceptions -/

/-- The exceptions that leave a command. -/
inductive Exn
  | safety (message : String)
  | loadError (e : LoadError)
  | keyError (name : String)
  | attributeError
  | typeError
  /-- Whatever else a part raises. -/
  | outside (name : String)
  deriving DecidableEq

/-! ## 3. Calls -/

/-- What runs of `pg_restore` are given: the dump of the bundle, or the one retained on site. -/
inductive Dump
  | bundle
  | site
  deriving DecidableEq

/-- The questions.  A path stands for what the source names by it; a cached object goes by the
item of the manifest that it belongs to. -/
inductive Ask
  /-- `os.environ.get("RESTORE_FAIL_STAGE")`. -/
  | failStage
  /-- The completion marker, read from the remote and parsed. -/
  | completion
  /-- `_download_verified`, of what the marker says of the manifest. -/
  | downloadManifest (completion : Json)
  /-- The manifest, decrypted from its cached copy and parsed. -/
  | decryptManifest
  /-- `verify_manifest_authentication` and `validate_manifest`. -/
  | verifyManifest (manifest : Json)
  /-- `_current_deployment_identity`. -/
  | deploymentIdentity
  /-- `age --version`, `pg_restore --version`, `rclone version`. -/
  | toolVersion (tool : String)
  /-- `_require_encrypted_cache_capacity` and `_require_target_capacity`. -/
  | requireCapacity (manifest : Json)
  /-- `_download_verified`, of an object of the manifest. -/
  | downloadObject (item : Json)
  /-- `decrypt_file_to_hash`. -/
  | decryptToHash (item : Json)
  /-- `_validate_config_archive`. -/
  | validateConfigArchive (item manifest : Json)
  /-- The copy of the encrypted manifest in the cache. -/
  | keepManifest
  /-- What an unfinished retention left is removed, and an empty staging directory made. -/
  | clearRetention
  /-- `encrypt_command` of `pg_dump`: the digests of the dump and of its ciphertext. -/
  | retainDatabase
  /-- The inventory of the site's files, encrypted: the digest of its ciphertext. -/
  | retainFiles
  /-- The identity of the retained set, encrypted. -/
  | retainIdentity (identity : Json)
  /-- The retained objects, measured again: do they have the sizes and digests expected? -/
  | retentionVerified
  /-- `staging_root.replace(onsite_root)`. -/
  | publishRetention
  /-- `shutil.rmtree(staging_root, ignore_errors=True)`. -/
  | discardStaging
  /-- The file of an item is there, with its size and digest. -/
  | fileMatches (item : Json)
  /-- `decrypt_to_path`: the size and the digest of what was written. -/
  | decryptToPath (item : Json)
  /-- `_database_assertions`. -/
  | databaseAssertions
  /-- `_validate_database_file_references`, of the database's own. -/
  | validateFileReferences (manifest : Json)
  /-- The number of invalid references, as `psql` prints it. -/
  | invalidReferences
  /-- The functional evidence, parsed. -/
  | evidence
  /-- The functional evidence, as bytes. -/
  | evidenceBytes
  /-- The verification marker is on the remote. -/
  | verifiedExists
  /-- The verification marker, parsed, and `verify_restore_verification`. -/
  | readVerified
  /-- `authenticate_restore_verification`, and its upload. -/
  | uploadVerified (verified : Json)
  /-- One of the objects retained on site is a file. -/
  | onsiteIsFile (name : String)
  /-- The JSON value in an object retained on site. -/
  | onsiteJson (name : String)
  /-- The digest of the database retained on site. -/
  | onsiteDatabaseDigest

/-- The answers. -/
abbrev Ask.Answer : Ask → Type
  | .failStage => Option String
  | .completion | .decryptManifest | .deploymentIdentity | .databaseAssertions | .evidence
  | .readVerified | .onsiteJson _ => Json
  | .toolVersion _ => Int × String
  | .decryptToHash _ | .decryptToPath _ => Nat × String
  | .retainDatabase => String × String
  | .retainFiles | .invalidReferences | .onsiteDatabaseDigest => String
  | .retentionVerified | .fileMatches _ | .verifiedExists | .onsiteIsFile _ => Bool
  | .evidenceBytes => Bytes
  | _ => Unit

/-- Everything a command does. -/
inductive Call
  | checkpoint
  | save (content : Bytes)
  | utcNow
  | pgRestore (dump : Dump)
  | ask (q : Ask)

abbrev Answer : Call → Type
  | .checkpoint => Option Bytes
  | .save _ => Except Exn Unit
  | .utcNow => Instant
  | .pgRestore _ => Except Exn Unit
  | .ask q => Except Exn q.Answer

abbrev Op := Prog Call Answer Exn

/-! ## 4. The world -/

/-- What is kept of a run. -/
inductive Event
  | saved (content : Bytes)
  | pgRestored (dump : Dump)
  deriving DecidableEq

/-- How a write of the checkpoint ends: `atomic_write` can also fail after it has replaced the
file. -/
inductive Saving
  | done
  | failedBefore (e : Exn)
  | failedAfter (e : Exn)

/-- What happened so far, and what the environment is going to answer. -/
structure World where
  history : List Event
  tick : Nat
  clock : Nat → Instant
  saving : Nat → Saving
  restoring : Nat → Except Exn Unit
  answers : Nat → (q : Ask) → Except Exn q.Answer

/-- The contents of the checkpoint, in their order. -/
def contents (history : List Event) : List Bytes :=
  history.filterMap fun
    | .saved content => some content
    | .pgRestored _ => none

namespace World

/-- The checkpoint file, if there is one. -/
def checkpoint (w : World) : Option Bytes := (contents w.history).getLast?

/-- One call later. -/
def next (w : World) : World := { w with tick := w.tick + 1 }

/-- One call later, with something to remember. -/
def did (w : World) (e : Event) : World :=
  { w with tick := w.tick + 1, history := w.history ++ [e] }

@[simp] theorem next_history (w : World) : w.next.history = w.history := rfl

@[simp] theorem did_history (w : World) (e : Event) : (w.did e).history = w.history ++ [e] := rfl

/-- What a call does. -/
def step : (c : Call) → World → Answer c × World
  | .checkpoint, w => (w.checkpoint, w.next)
  | .save content, w => match w.saving w.tick with
    | .done => (.ok (), w.did (.saved content))
    | .failedBefore e => (.error e, w.next)
    | .failedAfter e => (.error e, w.did (.saved content))
  | .utcNow, w => (w.clock w.tick, w.next)
  | .pgRestore dump, w => (w.restoring w.tick, w.did (.pgRestored dump))
  | .ask q, w => (w.answers w.tick q, w.next)

end World

def machine : Machine Call Answer World := ⟨World.step⟩

/-! ## 5. The engine -/

/-- `RestoreGuard`, without the window that the operator approved. -/
structure RestoreGuard where
  environmentId : String
  backupId : String
  operatorId : String
  approvedDataLossWindow : String
  authorizationRecord : String
  expiresAt : Instant
  challenge : String

/-- What `datetime.fromisoformat` makes of a text. -/
inductive IsoTime
  | invalid
  | naive
  | aware (time : Instant)

/-- `RestoreEngine`. -/
structure RestoreEngine where
  guard : RestoreGuard
  recipientKeyId : String
  rtoHardLimitSeconds : Int
  fromisoformat : String → IsoTime

/-- A question that is answered, or raises. -/
def ask (q : Ask) : Op q.Answer := do
  let answer : Except Exn q.Answer ← Prog.perform (Call.ask q)
  Prog.liftExcept answer

/-- `atomic_write` of the checkpoint. -/
def save (content : Bytes) : Op Unit := do
  let outcome : Except Exn Unit ← Prog.perform (Call.save content)
  Prog.liftExcept outcome

/-- `decrypt_to_process` into `pg_restore`. -/
def pgRestore (dump : Dump) : Op Unit := do
  let outcome : Except Exn Unit ← Prog.perform (Call.pgRestore dump)
  Prog.liftExcept outcome

def utcNow : Op Instant := Prog.perform Call.utcNow

/-- `if not c: raise SafetyError(message)`. -/
def require (c : Bool) (message : String) : Op Unit := Prog.ensure c (.safety message)

/-- `state[name]`. -/
def item (state : Json) (name : String) : Except Exn Json :=
  match state.get? name with
  | some value => .ok value
  | none => .error (.keyError name)

variable [Sha256]

/-- `_operation_id`. -/
def RestoreGuard.operationId (g : RestoreGuard) : String := digestJson (dict
  [("environment_id", .str g.environmentId), ("backup_id", .str g.backupId),
    ("operator_id", .str g.operatorId),
    ("approved_data_loss_window", .str g.approvedDataLossWindow),
    ("authorization_record", .str g.authorizationRecord),
    ("expires_at", .str g.expiresAt.formatTime),
    ("challenge_sha256", .str (hexdigest g.challenge.toUTF8))])

namespace RestoreEngine

/-- `_declared_at`. -/
def declaredAt (e : RestoreEngine) (state : Json) : Except Exn Instant :=
  let invalid := .error (.safety "restore checkpoint declaration is invalid")
  match (state.get? "declared_at").bind str? with
  | none => invalid
  | some text => match e.fromisoformat (text.replace "Z" "+00:00") with
    | .aware time => .ok time
    | _ => invalid

/-- The stage of a state that `_read_state` let through. -/
def stageOf (state : Json) : Stage := ((state.get "stage").str?.bind Stage.ofText?).getD .declared

/-- The checks of `_read_state`. -/
def checkState (e : RestoreEngine) (backupId : String) (state : Json) : Except Exn Unit := do
  let invalid := Except.error (Exn.safety "restore checkpoint is invalid")
  if state.isDict = false then .error .attributeError
  else if !(state.get "backup_id").pyEq (.str backupId) ||
      !(state.get "operation_id").pyEq (.str e.guard.operationId) then invalid
  else if (state.get "stage").isDict || (state.get "stage").isList then .error .typeError
  else if ((state.get "stage").str?.bind Stage.ofText?).isNone then invalid
  else do
    let _ ← e.declaredAt state
    return ()

/-- What a file with this content is read as. -/
def loadState (e : RestoreEngine) (backupId : String) (content : Bytes) : Except Exn Json :=
  match loads content with
  | .error error => .error (.loadError error)
  | .ok state => do
    e.checkState backupId state
    return state

/-- `_read_state`. -/
def readState (e : RestoreEngine) (backupId : String) : Op Json := do
  require (Text.isBackupId backupId) "invalid backup_id"
  let content : Option Bytes ← Prog.perform Call.checkpoint
  match content with
  | none => return dict [("backup_id", .str backupId), ("stage", .str Stage.declared.text),
      ("history", .arr [])]
  | some content => Prog.liftExcept (e.loadState backupId content)

/-- The state of an operation that is declared now. -/
def declared (e : RestoreEngine) (backupId : String) (now : Instant) : Json := dict
  [("backup_id", .str backupId), ("operation_id", .str e.guard.operationId),
    ("stage", .str Stage.declared.text), ("declared_at", .str now.formatTime),
    ("authorization_record", .str e.guard.authorizationRecord),
    ("operator_id", .str e.guard.operatorId), ("history", .arr [])]

/-- The state of `declare`: the one there is, or a new one, which is written. -/
def declaration (e : RestoreEngine) (backupId : String) : Op Json := do
  let content : Option Bytes ← Prog.perform Call.checkpoint
  match content with
  | some _ => e.readState backupId
  | none => do
    let now ← utcNow
    save (canonicalJson (e.declared backupId now))
    return e.declared backupId now

/-- `declare`. -/
def declare (e : RestoreEngine) (backupId : String) : Op Json := do
  require (Text.isBackupId backupId) "invalid backup_id"
  require (e.guard.backupId = backupId) "authorization backup_id mismatch"
  let state ← e.declaration backupId
  Prog.liftExcept (do
    return dict [("backup_id", .str backupId), ("operation_id", ← item state "operation_id"),
      ("stage", ← item state "stage"), ("declared_at", ← item state "declared_at")])

/-- An entry of the history. -/
def entry (stage : Stage) (now : Instant) (details : Fields) : Json :=
  dict ([("stage", .str stage.text), ("at", .str now.formatTime)] ++ details)

/-- `state["history"].append(entry)`. -/
def appendHistory (state entry : Json) : Except Exn Json :=
  match state.get? "history" with
  | none => .error (.keyError "history")
  | some (.arr entries) => .ok (state.set "history" (.arr (entries ++ [entry])))
  | some _ => .error .attributeError

/-- `_advance`. -/
def advance (e : RestoreEngine) (backupId : String) (stage : Stage) (details : Fields) :
    Op Unit := do
  let state ← e.readState backupId
  let current := stageOf state
  require (current.order ≤ stage.order) "restore state regression refused"
  require (stage.order ≤ current.order + 1) "restore stage skipped"
  if stage = current then save (canonicalJson state)
  else do
    let now ← utcNow
    let state ← Prog.liftExcept
      (appendHistory (state.set "stage" (.str stage.text)) (entry stage now details))
    save (canonicalJson state)

/-- `_completed`. -/
def completed (e : RestoreEngine) (backupId : String) (stage : Stage) : Op Bool := do
  let state ← e.readState backupId
  let current := stageOf state
  require (current ≠ .rolledBack) "rolled-back restore cannot be resumed"
  return stage.order ≤ current.order

end RestoreEngine

end ProductPdfQr.Restore
