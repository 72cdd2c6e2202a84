/-
# Manifests and completion markers

The manifest of a recovery point is signed by the backup host and read again by whoever may
delete: the signature first, then its schema, and only then the keys that it names.  The marker
that completes the point is not signed; every field of it is checked.

What `int` makes of a float or a text is a parameter, as is what `str` makes of a float, a list
or a dict.
-/
import ProductPdfQr.Restore.Verified

namespace ProductPdfQr.BackupRecovery

open Json Restore Restore.Verified

/-! ## 1. Authentication -/

def authenticationFields : List String := ["algorithm", "key_id", "signature"]

section Authentication

variable [Ed25519]

/-- The `authentication` of a manifest. -/
def manifestAuthentication (manifest : Json) (key : Bytes) (keyId : String) : Json :=
  dict [("algorithm", .str "ed25519"), ("key_id", .str keyId),
    ("signature", .str (toHex (Ed25519.sign key (canonicalJson manifest))))]

/-- `authenticate_manifest`. -/
def authenticateManifest (manifest : Json) (key : Bytes) (keyId : String) : Except Exn Json := do
  check (key.size = 32) "manifest authentication key must be exactly 32 bytes"
  check (Text.isSafeId keyId) "invalid manifest authentication key id"
  check (manifest.get? "authentication").isNone "manifest is already authenticated"
  return manifest.set "authentication" (manifestAuthentication manifest key keyId)

/-- `verify_manifest_authentication`. -/
def verifyManifestAuthentication (manifest : Json) (key : Bytes) (keyId : String) :
    Except Exn Unit := do
  check (key.size = 32) "manifest authentication key must be exactly 32 bytes"
  check (Text.isSafeId keyId) "invalid manifest authentication key id"
  let authentication := manifest.get "authentication"
  check (authentication.hasKeys authenticationFields)
    "manifest authentication schema mismatch"
  check ((authentication.get "algorithm").pyEq (.str "ed25519") &&
    (authentication.get "key_id").pyEq (.str keyId)) "manifest authentication authority mismatch"
  match authentication.get "signature" with
  | .str signature => do
    check (Text.isHex 128 signature) "invalid manifest authentication signature"
    let unsigned := Json.obj (eraseField "authentication" manifest.fields)
    check ((fromHex? signature).any fun s => Ed25519.verify key s (canonicalJson unsigned))
      "manifest authentication failed"
  | _ => .error (.safety "invalid manifest authentication signature")

end Authentication

/-! ## 2. The schema -/

/-- What `str` and `int` make of the values that they do not simply print or keep. -/
structure Conversions where
  repr : Json → String
  int : Json → Except Exn Int

/-- `int(value)`. -/
def Conversions.toInt (conv : Conversions) : Json → Except Exn Int
  | .int n => .ok n
  | .bool b => .ok (if b then 1 else 0)
  | .null => .error .typeError
  | .arr _ => .error .typeError
  | .obj _ => .error .typeError
  | value => conv.int value

/-- What a `for` loop goes over. -/
def iterate : Json → Except Exn (List Json)
  | .arr items => .ok items
  | .obj fields => .ok (fields.map fun field => .str field.1)
  | .str text => .ok (text.toList.map fun c => .str (String.ofList [c]))
  | _ => .error .typeError

/-- `value.values()`. -/
def valuesOf : Json → Except Exn (List Json)
  | .obj fields => .ok (fields.map Prod.snd)
  | _ => .error .attributeError

/-- `item.get(name, otherwise)`. -/
def getOr (item : Json) (name : String) (otherwise : Json) : Except Exn Json :=
  match item with
  | .obj fields => .ok ((lookupField name fields).getD otherwise)
  | _ => .error .attributeError

def manifestFields : List String :=
  ["alembic_revision", "authentication", "backup_id", "completed_at", "config_hashes",
    "database_name", "files", "frozen_at", "images", "objects", "recipient_key_id",
    "schema_version", "source_commit", "started_at", "tools", "volume_name"]

section Validation

variable (conv : Conversions)

/-- `str(item.get(name, ""))`. -/
def textOf (item : Json) (name : String) : Except Exn String :=
  (getOr item name (.str "")).map (pyStr conv.repr)

/-- `int(item.get(name, -1)) < 0`. -/
def isNegative (item : Json) (name : String) : Except Exn Bool := do
  let value ← getOr item name (.int (-1))
  let n ← conv.toInt value
  return n < 0

/-- The loop over `manifest["files"]`, with the paths it has seen. -/
def validateFiles : List Json → List String → Except Exn (List String)
  | [], paths => .ok paths
  | item :: items, paths => do
    let path ← textOf conv item "path"
    let digest ← textOf conv item "sha256"
    check (path ≠ "" && !Text.startsWith path "/" && !Text.hasParentPart path)
      "unsafe file path in manifest"
    check (!paths.contains path) "duplicate file path in manifest"
    check (Text.isSha256 digest) "invalid file identity in manifest"
    let negative ← isNegative conv item "size"
    check (!negative) "invalid file identity in manifest"
    validateFiles items (path :: paths)

/-- The digests and sizes of an object. -/
def validateIdentity (item : Json) : Except Exn Unit := do
  let plaintext ← textOf conv item "plaintext_sha256"
  check (Text.isSha256 plaintext) "invalid plaintext_sha256"
  let ciphertext ← textOf conv item "ciphertext_sha256"
  check (Text.isSha256 ciphertext) "invalid ciphertext_sha256"
  let plaintextSize ← isNegative conv item "plaintext_size"
  check (!plaintextSize) "invalid plaintext_size"
  let ciphertextSize ← isNegative conv item "ciphertext_size"
  check (!ciphertextSize) "invalid ciphertext_size"

/-- The loop over `manifest["objects"]`, with the names and keys it has seen. -/
def validateObjects (backupId : Json) : List Json → List String → List String →
    Except Exn (List String)
  | [], names, _ => .ok names
  | item :: items, names, keys => do
    let name ← textOf conv item "name"
    let key ← textOf conv item "key"
    check (name ≠ "" && !names.contains name && key ≠ "" && !keys.contains key)
      "duplicate or empty object identity"
    check (!Text.startsWith key "/" && !Text.hasParentPart key) "unsafe object key"
    validateIdentity conv item
    let owner ← getOr item "backup_id" .null
    check (owner.pyEq backupId) "mixed backup_id object"
    validateObjects backupId items (name :: names) (key :: keys)

/-- Three different values, which a set can hold. -/
def distinctTimes (a b c : Json) : Except Exn Bool :=
  let unhashable (j : Json) : Bool := j.isDict || j.isList
  if unhashable a || unhashable b || unhashable c then .error .typeError
  else .ok (!a.pyEq b && !a.pyEq c && !b.pyEq c)

/-- `manifest["authentication"]` is what a signature looks like. -/
def authenticationShape (authentication : Json) : Bool :=
  authentication.hasKeys authenticationFields &&
    (authentication.get "algorithm").pyEq (.str "ed25519") &&
    Text.isSafeId (pyStr conv.repr (authentication.get "key_id")) &&
    Text.isHex 128 (pyStr conv.repr (authentication.get "signature"))

/-- The identities of configuration and images. -/
def validateIdentities (manifest : Json) : Except Exn Unit := do
  let digests ← valuesOf (manifest.get "config_hashes")
  check (digests.all fun digest => Text.isSha256 (pyStr conv.repr digest)) "invalid config digest"
  check (manifest.get "config_hashes").truthy "config identity is empty"
  check (manifest.get "images").truthy "invalid immutable image identity"
  let references ← valuesOf (manifest.get "images")
  check (references.all fun reference => Text.isImageReference (pyStr conv.repr reference))
    "invalid immutable image identity"
  check (Text.hasText (pyStr conv.repr (manifest.get "recipient_key_id")))
    "recipient key id is empty"
  check (authenticationShape conv (manifest.get "authentication"))
    "invalid manifest authentication metadata"

/-- `validate_manifest`. -/
def validateManifest (manifest : Json) : Except Exn Unit := do
  let missing := manifestFields.filter fun field => !manifest.keys.contains field
  check missing.isEmpty ("manifest fields missing: " ++ ",".intercalate missing)
  check (Text.isBackupId (pyStr conv.repr (manifest.get "backup_id"))) "invalid backup_id"
  check ((manifest.get "schema_version").pyEq (.int 1)) "unsupported manifest schema"
  let distinct ← distinctTimes (manifest.get "started_at") (manifest.get "frozen_at")
    (manifest.get "completed_at")
  check distinct "backup timestamps are not distinct"
  validateIdentities conv manifest
  let files ← iterate (manifest.get "files")
  let paths ← validateFiles conv files []
  let objects ← iterate (manifest.get "objects")
  let names ← validateObjects conv (manifest.get "backup_id") objects [] []
  check (names.contains "database" && names.contains "config")
    "database or config object is missing"
  check (paths.all fun path => names.contains ("file:" ++ path)) "file object is missing"

end Validation

/-! ## 3. Completion markers -/

def completionFields : List String :=
  ["schema_version", "backup_id", "frozen_at", "verified_at", "manifest_key",
    "manifest_ciphertext_size", "manifest_ciphertext_sha256", "recipient_key_id", "generations",
    "object_keys", "status"]

/-- `_canonical_timestamp`. -/
def canonicalTimestamp (value : Json) (field : String) : Except Exn Instant :=
  match value with
  | .str text => orRaise (Instant.parseTime? text) (.safety ("non-canonical completion " ++ field))
  | _ => .error (.safety ("invalid completion " ++ field))

/-- `sorted(generation_tags(frozen, timezone))`. -/
def sortedGenerations (frozen : Instant) : Except Exn (List String) :=
  (orRaise (generationTags frozen) (.outside "OverflowError")).map (·.mergeSort (· ≤ ·))

def pointRoot (pre backupId : String) : String := pre ++ "/points/" ++ backupId

def manifestKeyOf (pre backupId : String) : String := pointRoot pre backupId ++ "/manifest.json.age"

/-- The keys that every point has of its own. -/
def pointKeys (pre backupId : String) : List String :=
  [pointRoot pre backupId ++ "/database.dump.age", pointRoot pre backupId ++ "/config.tar.age",
    manifestKeyOf pre backupId]

/-- What the pattern of the object keys captures: the digest and the suffix. -/
def casMatch (pre recipientKeyId key : String) : Option (String × String) :=
  let start := pre ++ "/objects/sha256/"
  let rest := key.toList.drop start.toList.length
  let digest := String.ofList (rest.take 64)
  if Text.startsWith key start && Text.isSha256 digest then
    if rest.drop 64 = ("/" ++ recipientKeyId ++ ".age").toList then some (digest, "age")
    else if rest.drop 64 = ("/" ++ recipientKeyId ++ ".json").toList then some (digest, "json")
    else none
  else none

/-- The loop over the object keys: `cas_suffixes`. -/
def casSuffixes (pre backupId recipientKeyId : String) :
    List String → Except Exn (List (String × String))
  | [] => .ok []
  | key :: keys =>
    if (pointKeys pre backupId).contains key then casSuffixes pre backupId recipientKeyId keys
    else match casMatch pre recipientKeyId key with
      | none => .error (.safety "completion object key outside allowed data namespace")
      | some found => do
        let rest ← casSuffixes pre backupId recipientKeyId keys
        return found :: rest

/-- The checks of `object_keys`. -/
def validateObjectKeys (pre backupId recipientKeyId : String) (value : Json) : Except Exn Unit := do
  let keys := value.items.filterMap Json.str?
  check (value.isList && keys ≠ [] && keys.length = value.items.length && Text.strictlySorted keys)
    "completion object keys are not canonical"
  let own := keys.filter fun key => Text.startsWith key (pointRoot pre backupId ++ "/")
  check (own.all (pointKeys pre backupId).contains && (pointKeys pre backupId).all own.contains)
    "completion point object keys mismatch"
  let suffixes ← casSuffixes pre backupId recipientKeyId keys
  check (suffixes.all fun found =>
      suffixes.contains (found.1, "age") && suffixes.contains (found.1, "json"))
    "completion CAS object pair is incomplete"

/-- `validate_completion_marker`, with the prefix as it is after `strip("/")`. -/
def validateCompletionMarker (repr : Json → String) (marker : Json) (backupId pre : String) :
    Except Exn Unit := do
  check (marker.hasKeys completionFields) "completion marker schema mismatch"
  check (Text.isBackupId backupId) "invalid backup_id"
  check ((marker.get "schema_version").pyEq (.int 1) &&
      (marker.get "schema_version") ≠ .bool true) "unsupported completion marker schema"
  check ((marker.get "backup_id").pyEq (.str backupId)) "completion marker identity mismatch"
  let frozen ← canonicalTimestamp (marker.get "frozen_at") "frozen_at"
  let verified ← canonicalTimestamp (marker.get "verified_at") "verified_at"
  check (frozen < verified) "completion verification time is not after freeze"
  let generations ← sortedGenerations frozen
  check ((marker.get "generations").pyEq (.arr (generations.map .str)))
    "completion generations mismatch"
  let recipientKeyId ← orRaise ((marker.get "recipient_key_id").str?.filter Text.isSafeId)
    (.safety "invalid completion recipient key id")
  check ((marker.get "status").pyEq (.str "remote_ciphertext_verified"))
    "completion marker is not remotely verified"
  check ((marker.get "manifest_ciphertext_size").int?.any fun size => 0 < size)
    "invalid completion manifest size"
  check (Text.isSha256 (pyStr repr (marker.get "manifest_ciphertext_sha256")))
    "invalid completion manifest digest"
  check (pre ≠ "" && !Text.hasParentPart pre) "invalid completion remote prefix"
  check ((marker.get "manifest_key").pyEq (.str (manifestKeyOf pre backupId)))
    "completion manifest key mismatch"
  validateObjectKeys pre backupId recipientKeyId (marker.get "object_keys")

end ProductPdfQr.BackupRecovery
